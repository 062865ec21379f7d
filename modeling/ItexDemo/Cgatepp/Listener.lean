import Mathlib.Algebra.Group.Nat.Defs

/-!
# `cgatepp::Listener`

The messages that the callback of a listener receives, the methods of `Listener::IHandler`, and which
of them a message is handed to. A pointer with a size is the list of what it points to, and a string
the bytes in front of its end; `ref_msg`, which is not used, is left out.
-/

namespace Cgatepp

/-! ## Messages -/

/-- `cg_msg_t`. -/
structure Msg where
  type : UInt32
  data : List UInt8
  deriving DecidableEq, Repr

/-- `cg_msg_streamdata_t`. `nulls` has `num_nulls` entries, which is a `size_t`. -/
@[ext]
structure MsgStreamdata where
  type : UInt32
  data : List UInt8
  msg_index : UInt64
  msg_id : UInt32
  msg_name : List UInt8
  rev : Int64
  nulls : List UInt8
  nulls_lt : nulls.length < 2 ^ 64
  deriving DecidableEq, Repr

/-- `cg_msg_data_t`. -/
structure MsgData where
  type : UInt32
  data : List UInt8
  msg_index : UInt64
  msg_id : UInt32
  msg_name : List UInt8
  user_id : UInt32
  addr : List UInt8
  deriving DecidableEq, Repr

/-- `cg_data_cleardeleted_t`. -/
structure DataCleardeleted where
  table_idx : UInt32
  table_rev : Int64
  deriving DecidableEq, Repr

/-- A message where its pointer may be cast to that of a longer one: the fields of all of them. -/
structure CgMsg extends MsgStreamdata where
  user_id : UInt32
  addr : List UInt8

def CG_MSG_OPEN : UInt32 := 0x100

def CG_MSG_CLOSE : UInt32 := 0x101

def CG_MSG_DATA : UInt32 := 0x110

def CG_MSG_STREAM_DATA : UInt32 := 0x120

def CG_MSG_TN_BEGIN : UInt32 := 0x200

def CG_MSG_TN_COMMIT : UInt32 := 0x210

def CG_MSG_P2MQ_TIMEOUT : UInt32 := 0x1001

def CG_MSG_P2REPL_LIFENUM : UInt32 := 0x1110

def CG_MSG_P2REPL_CLEARDELETED : UInt32 := 0x1111

def CG_MSG_P2REPL_ONLINE : UInt32 := 0x1112

def CG_MSG_P2REPL_REPLSTATE : UInt32 := 0x1115

/-! ## Handlers -/

/-- A call of a method of `Listener::IHandler`. -/
inductive HandlerCall where
  | onListenerOpen
  | onListenerClose
  | onTransactionBegin
  | onTransactionCommit
  | onStreamData (msg : MsgStreamdata)
  | onReplOnline
  | onReplLifenum (lifenum : UInt32)
  | onReplCreardeleted (msg : DataCleardeleted)
  | onReplReplstate (replstate : List UInt8)
  | onMqReply (msg : MsgData)
  | onMqTimeout (msg : MsgData)
  | onUnknownMsgType (msg : Msg)
  deriving DecidableEq, Repr

/-- How the platform lays out what is read through a cast of `msg->data`. -/
structure Layout where
  lifenum : List UInt8 → UInt32
  cleardeleted : List UInt8 → DataCleardeleted

namespace CgMsg

/-- The message as a `cg_msg_t`. -/
def toMsg (msg : CgMsg) : Msg where
  type := msg.type
  data := msg.data

/-- The message as a `cg_msg_data_t`. -/
def toData (msg : CgMsg) : MsgData where
  type := msg.type
  data := msg.data
  msg_index := msg.msg_index
  msg_id := msg.msg_id
  msg_name := msg.msg_name
  user_id := msg.user_id
  addr := msg.addr

end CgMsg

/-- `listener_base_callback`, with a handler: the method that it calls. -/
def listenerBaseCallback (layout : Layout) (msg : CgMsg) : HandlerCall :=
  if msg.type = CG_MSG_OPEN then .onListenerOpen
  else if msg.type = CG_MSG_CLOSE then .onListenerClose
  else if msg.type = CG_MSG_TN_BEGIN then .onTransactionBegin
  else if msg.type = CG_MSG_TN_COMMIT then .onTransactionCommit
  else if msg.type = CG_MSG_STREAM_DATA then .onStreamData msg.toMsgStreamdata
  else if msg.type = CG_MSG_P2REPL_ONLINE then .onReplOnline
  else if msg.type = CG_MSG_P2REPL_LIFENUM then .onReplLifenum (layout.lifenum msg.data)
  else if msg.type = CG_MSG_P2REPL_CLEARDELETED then
    .onReplCreardeleted (layout.cleardeleted msg.data)
  else if msg.type = CG_MSG_P2REPL_REPLSTATE then .onReplReplstate msg.data
  else if msg.type = CG_MSG_DATA then .onMqReply msg.toData
  else if msg.type = CG_MSG_P2MQ_TIMEOUT then .onMqTimeout msg.toData
  else .onUnknownMsgType msg.toMsg

end Cgatepp

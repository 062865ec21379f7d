import ItexDemo.Cgatepp.Listener

/-!
# The records of a `cgatepp::Dumper`

The protobuf messages of `dumper.proto`, and the two translations: what a recording callback puts
into a record, and which call a record is replayed as.
-/

namespace Cgatepp

/-! ## `dumper.proto` -/

namespace Dumper

structure StreamData where
  data : List UInt8
  msg_index : UInt64
  msg_id : UInt32
  msg_name : List UInt8
  rev : Int64
  num_nulls : UInt64
  nulls : List UInt8
  deriving DecidableEq, Repr, Inhabited

structure ClearDeleted where
  table_idx : UInt32
  table_rev : Int64
  deriving DecidableEq, Repr, Inhabited

structure MsgData where
  data : List UInt8
  msg_index : UInt64
  msg_id : UInt32
  msg_name : List UInt8
  user_id : UInt32
  addr : List UInt8
  deriving DecidableEq, Repr, Inhabited

structure GeneralMsg where
  type : UInt32
  data : List UInt8
  deriving DecidableEq, Repr, Inhabited

/-- `Record::Type`. -/
inductive RecordType where
  | LISTENER_OPEN
  | LISTENER_CLOSE
  | TRANSACTION_BEGIN
  | TRANSACTION_COMMIT
  | STREAM_DATA
  | REPL_ONLINE
  | REPL_LIFENUM
  | REPL_CLEARDELETED
  | REPL_REPLSTATE
  | MQ_REPLY
  | MQ_TIMEOUT
  | UNKNOWN_MSG_TYPE
  | DUMPER_OPEN
  | DUMPER_CLOSE
  deriving DecidableEq, Repr

/-- `oneof P2Message`. -/
inductive P2Message where
  | notSet
  | streamData (msg : StreamData)
  | replLifenum (lifenum : UInt32)
  | replCleardeleted (msg : ClearDeleted)
  | replReplstate (replstate : List UInt8)
  | mqReply (msg : MsgData)
  | mqTimeout (msg : MsgData)
  | unknownMsg (msg : GeneralMsg)
  deriving DecidableEq, Repr

structure Record where
  record_type : RecordType
  timestamp : UInt64
  message : P2Message
  deriving DecidableEq, Repr

namespace Record

/-! The getters give a default where the field is not the one that is set. -/

def stream_data (record : Record) : StreamData :=
  match record.message with
  | .streamData msg => msg
  | _ => default

def repl_lifenum (record : Record) : UInt32 :=
  match record.message with
  | .replLifenum lifenum => lifenum
  | _ => 0

def repl_cleardeleted (record : Record) : ClearDeleted :=
  match record.message with
  | .replCleardeleted msg => msg
  | _ => default

def repl_replstate (record : Record) : List UInt8 :=
  match record.message with
  | .replReplstate replstate => replstate
  | _ => []

def mq_reply (record : Record) : MsgData :=
  match record.message with
  | .mqReply msg => msg
  | _ => default

def mq_timeout (record : Record) : MsgData :=
  match record.message with
  | .mqTimeout msg => msg
  | _ => default

def unknown_msg (record : Record) : GeneralMsg :=
  match record.message with
  | .unknownMsg msg => msg
  | _ => default

end Record

/-! ## Recording and replaying -/

/-- What `on_mq_reply` and `on_mq_timeout` copy from their message. -/
def MsgData.ofMsg (msg : Cgatepp.MsgData) : MsgData where
  data := msg.data
  msg_index := msg.msg_index
  msg_id := msg.msg_id
  msg_name := msg.msg_name
  user_id := msg.user_id
  addr := msg.addr

/-- The message that `replay_recorded_stream` builds for `on_mq_reply` and `on_mq_timeout`. -/
def MsgData.toMsg (msg : MsgData) : Cgatepp.MsgData where
  type := CG_MSG_DATA
  data := msg.data
  msg_index := msg.msg_index
  msg_id := msg.msg_id
  msg_name := msg.msg_name
  user_id := msg.user_id
  addr := msg.addr

/-- What `on_stream_data` copies from its message. -/
def StreamData.ofMsg (msg : MsgStreamdata) : StreamData where
  data := msg.data
  msg_index := msg.msg_index
  msg_id := msg.msg_id
  msg_name := msg.msg_name
  rev := msg.rev
  num_nulls := msg.nulls.length.toUInt64
  nulls := msg.nulls

/-- The message that `replay_recorded_stream` builds for `on_stream_data`. -/
def StreamData.toMsg (msg : StreamData) : MsgStreamdata where
  type := CG_MSG_STREAM_DATA
  data := msg.data
  msg_index := msg.msg_index
  msg_id := msg.msg_id
  msg_name := msg.msg_name
  rev := msg.rev
  nulls := msg.nulls.take msg.num_nulls.toNat
  nulls_lt := Nat.lt_of_le_of_lt (List.length_take_le _ _) msg.num_nulls.toNat_lt

/-- The type of the record that a callback writes. -/
def recordType : HandlerCall → RecordType
  | .onListenerOpen => .LISTENER_OPEN
  | .onListenerClose => .LISTENER_CLOSE
  | .onTransactionBegin => .TRANSACTION_BEGIN
  | .onTransactionCommit => .TRANSACTION_COMMIT
  | .onStreamData _ => .STREAM_DATA
  | .onReplOnline => .REPL_ONLINE
  | .onReplLifenum _ => .REPL_LIFENUM
  | .onReplCreardeleted _ => .REPL_CLEARDELETED
  | .onReplReplstate _ => .REPL_REPLSTATE
  | .onMqReply _ => .MQ_REPLY
  | .onMqTimeout _ => .MQ_TIMEOUT
  | .onUnknownMsgType _ => .UNKNOWN_MSG_TYPE

/-- What it sets of `P2Message`. -/
def p2Message : HandlerCall → P2Message
  | .onStreamData msg => .streamData (.ofMsg msg)
  | .onReplLifenum lifenum => .replLifenum lifenum
  | .onReplCreardeleted msg => .replCleardeleted ⟨msg.table_idx, msg.table_rev⟩
  | .onReplReplstate replstate => .replReplstate replstate
  | .onMqReply msg => .mqReply (.ofMsg msg)
  | .onMqTimeout msg => .mqTimeout (.ofMsg msg)
  | .onUnknownMsgType msg => .unknownMsg ⟨msg.type, msg.data⟩
  | _ => .notSet

/-- The record that a callback writes. -/
def recordOf (call : HandlerCall) (time : UInt64) : Record where
  record_type := recordType call
  timestamp := time
  message := p2Message call

/-- The `switch` of `replay_recorded_stream`. -/
def dispatch (record : Record) : Option HandlerCall :=
  match record.record_type with
  | .LISTENER_OPEN => some .onListenerOpen
  | .LISTENER_CLOSE => some .onListenerClose
  | .TRANSACTION_BEGIN => some .onTransactionBegin
  | .TRANSACTION_COMMIT => some .onTransactionCommit
  | .STREAM_DATA => some (.onStreamData record.stream_data.toMsg)
  | .REPL_ONLINE => some .onReplOnline
  | .REPL_LIFENUM => some (.onReplLifenum record.repl_lifenum)
  | .REPL_CLEARDELETED =>
    some (.onReplCreardeleted
      ⟨record.repl_cleardeleted.table_idx, record.repl_cleardeleted.table_rev⟩)
  | .REPL_REPLSTATE => some (.onReplReplstate record.repl_replstate)
  | .MQ_REPLY => some (.onMqReply record.mq_reply.toMsg)
  | .MQ_TIMEOUT => some (.onMqTimeout record.mq_timeout.toMsg)
  | .UNKNOWN_MSG_TYPE => some (.onUnknownMsgType ⟨record.unknown_msg.type, record.unknown_msg.data⟩)
  | .DUMPER_OPEN => none
  | .DUMPER_CLOSE => none

end Dumper

end Cgatepp

import ItexDemo.Cgatepp.Record

/-!
# Proofs: which call a record is replayed as

Each callback is undone by its case of the `switch`, but the type of a message is not recorded: it is
filled in with a constant, which is not that of every message.
-/

namespace Cgatepp

namespace Dumper

theorem StreamData.toMsg_ofMsg {msg : MsgStreamdata} (h : msg.type = CG_MSG_STREAM_DATA) :
    (StreamData.ofMsg msg).toMsg = msg := by
  have hnulls : msg.nulls.take msg.nulls.length.toUInt64.toNat = msg.nulls := by
    rw [Nat.toUInt64_eq, UInt64.toNat_ofNat', Nat.mod_eq_of_lt msg.nulls_lt, List.take_length]
  exact MsgStreamdata.ext h.symm rfl rfl rfl rfl rfl hnulls

theorem MsgData.toMsg_ofMsg (msg : Cgatepp.MsgData) :
    (MsgData.ofMsg msg).toMsg = { msg with type := CG_MSG_DATA } := rfl

/-- The message of the call has the type that the replay fills in, if it fills in one. -/
def TypeFilledIn : HandlerCall → Prop
  | .onStreamData msg => msg.type = CG_MSG_STREAM_DATA
  | .onMqReply msg => msg.type = CG_MSG_DATA
  | .onMqTimeout msg => msg.type = CG_MSG_DATA
  | _ => True

theorem TypeFilledIn.ite {c : Prop} [Decidable c] {call call' : HandlerCall}
    (hpos : c → TypeFilledIn call) (hneg : ¬c → TypeFilledIn call') :
    TypeFilledIn (if c then call else call') := by
  by_cases h : c
  · rw [if_pos h]
    exact hpos h
  · rw [if_neg h]
    exact hneg h

/-- The calls whose record is replayed as the same call. -/
theorem dispatch_recordOf_iff (call : HandlerCall) (time : UInt64) :
    dispatch (recordOf call time) = some call ↔ TypeFilledIn call := by
  have hdata : ∀ msg : Cgatepp.MsgData,
      (MsgData.ofMsg msg).toMsg = msg ↔ msg.type = CG_MSG_DATA := by
    intro msg
    rw [MsgData.toMsg_ofMsg]
    constructor
    · intro h
      rw [← h]
    · intro h
      rw [← h]
  cases call with
  | onStreamData msg =>
    show some (HandlerCall.onStreamData (StreamData.ofMsg msg).toMsg) = _ ↔ _
    rw [Option.some.injEq, HandlerCall.onStreamData.injEq]
    constructor
    · intro h
      rw [← h]
      rfl
    · exact StreamData.toMsg_ofMsg
  | onMqReply msg =>
    show some (HandlerCall.onMqReply (MsgData.ofMsg msg).toMsg) = _ ↔ _
    rw [Option.some.injEq, HandlerCall.onMqReply.injEq]
    exact hdata msg
  | onMqTimeout msg =>
    show some (HandlerCall.onMqTimeout (MsgData.ofMsg msg).toMsg) = _ ↔ _
    rw [Option.some.injEq, HandlerCall.onMqTimeout.injEq]
    exact hdata msg
  | _ => exact iff_of_true rfl trivial

/-- A message is replayed as it was handed to the live handler, unless it is a timeout: that one is
given the type of a reply. -/
theorem replayed_as_received_iff (layout : Layout) (msg : CgMsg) (time : UInt64) :
    dispatch (recordOf (listenerBaseCallback layout msg) time) =
        some (listenerBaseCallback layout msg) ↔ msg.type ≠ CG_MSG_P2MQ_TIMEOUT := by
  rw [dispatch_recordOf_iff]
  constructor
  · intro hsame htimeout
    have hcall : listenerBaseCallback layout msg = .onMqTimeout msg.toData := by
      unfold listenerBaseCallback
      rw [htimeout]
      rfl
    rw [hcall] at hsame
    exact absurd (hsame.symm.trans htimeout) (by decide)
  · intro hne
    unfold listenerBaseCallback
    refine .ite (fun _ => trivial) fun _ => .ite (fun _ => trivial) fun _ => ?_
    refine .ite (fun _ => trivial) fun _ => .ite (fun _ => trivial) fun _ => ?_
    refine .ite (fun hdata => hdata) fun _ => .ite (fun _ => trivial) fun _ => ?_
    refine .ite (fun _ => trivial) fun _ => .ite (fun _ => trivial) fun _ => ?_
    refine .ite (fun _ => trivial) fun _ => .ite (fun hreply => hreply) fun _ => ?_
    exact .ite (fun htimeout => absurd htimeout hne) fun _ => trivial

/-- A timeout message is replayed with the type of a reply. -/
theorem timeout_replayed_as_reply :
    ¬∀ (layout : Layout) (msg : CgMsg) (time : UInt64),
      dispatch (recordOf (listenerBaseCallback layout msg) time) =
        some (listenerBaseCallback layout msg) := by
  intro h
  have hsame := h ⟨fun _ => 0, fun _ => ⟨0, 0⟩⟩
    { type := CG_MSG_P2MQ_TIMEOUT, data := [], msg_index := 0, msg_id := 0, msg_name := [], rev := 0,
      nulls := [], nulls_lt := by decide, user_id := 1, addr := [] } 0
  exact absurd hsame (by decide)

end Dumper

end Cgatepp

import ItexDemo.Cgatepp.Replaying

/-!
# Reading back what was recorded

A log is recorded in sessions, each of which is ended by the destructor or by the end of the process
at any operation. Then a new `Dumper` replays it.
-/

namespace Cgatepp

namespace Dumper

variable (d : Config)

/-- The steps of recording: nothing is replayed, no opening fails inside of a callback, and the
records can be stored. -/
def Recording (s : State) : Act → Prop
  | .replay _ => False
  | .step choice => OpensInCallbacks s (.step choice) ∧
    ∀ function ∈ s.timing, ∀ record ∈ function.record choice.time, Recordable d s.world record
  | _ => True

instance (s : State) : (act : Act) → Decidable (Recording d s act)
  | .construct => .isTrue trivial
  | .callback _ => .isTrue trivial
  | .replay _ => .isFalse id
  | .destruct => .isTrue trivial
  | .step choice => inferInstanceAs (Decidable (OpensInCallbacks s (.step choice) ∧
    ∀ function ∈ s.timing, ∀ record ∈ function.record choice.time, Recordable d s.world record))
  | .crash => .isTrue trivial

/-- `get_time`. -/
def Op.isGetTime : Op → Bool
  | .getTime => true
  | _ => false

/-- Nothing fails: the files open, the handler does not throw, and the `DUMPER_OPEN` record can be
stored. -/
def Calm (op : Op) (w : World) (choice : Choice) : Prop :=
  choice.opening = .opened ∧ choice.throws = false ∧
    (op.isGetTime → ∀ record ∈ Function.construct.record choice.time, Recordable d w record)

instance (op : Op) (w : World) (choice : Choice) : Decidable (Calm d op w choice) :=
  inferInstanceAs (Decidable (_ ∧ _ ∧ (_ → _)))

/-- The operations when nothing fails. -/
def calm : Script.Semantics Op Ans World where
  Pre := fun op w => ∀ choice, (answer d.paths d.proto choice op w).isSome
  Act := fun op w a w' =>
    ∃ choice, Calm d op w choice ∧ answer d.paths d.proto choice op w = some (a, w')

/-- A new `Dumper` with a handler is constructed and replays. -/
def constructAndReplay (fuel : Nat) : Code Unit := do
  construct { d with wrapped_handler_ := true }
  replayRecordedStream { d with wrapped_handler_ := true } fuel

/-- When nothing fails and the loop is followed for enough rounds, they return, and `read_next` has
returned the records whose `write_next` was complete, in the order of writing. -/
def RoundTrip (w : World) : Prop :=
  ∀ fuel, w.written.length + 2 ≤ fuel →
    Script.Safe (calm d) (fun r w' => r = .ok () ∧ w'.returned = w'.written)
      (constructAndReplay d fuel).run { w with returned := [] }

/-- `ParseFromArray` inverts `SerializeToArray` on the records that a replay reads: those that are
written, and the one that its `Dumper` writes. -/
def Parses (w : World) : Prop :=
  ∀ record, record ∈ w.written ∨ (∃ time, Function.construct.record time = some record) →
    d.proto.parse (d.proto.serialize record) = record

end Dumper

end Cgatepp

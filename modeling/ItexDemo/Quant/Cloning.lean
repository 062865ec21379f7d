import ItexDemo.Lib.TransitionSystem
import ItexDemo.Quant.Workset

/-!
# `Workset::Subscriber::clone` in its steps

`clone` holds `workset_lock_` only while the new subscriber is registered. The index of the parent is
read, and written to the clone, without the lock, so that publishers can push in between.
-/

namespace Workset

variable {Entry : Type*}

/-- How far a call of `clone` is. -/
inductive ClonePhase where
  | called
  | registered (new_subscriber : Nat)
  | read (new_subscriber : Nat) (current_index_ : UInt64)
  | returned (new_subscriber : Nat)

/-- A workset on which `clone` is called. -/
structure Cloning (Entry : Type*) where
  ws : Workset Entry
  phase : ClonePhase

/-- The steps of `clone`, and a push. -/
inductive CloneAct (Entry : Type*) where
  | register
  | read
  | write
  | push (publisher : Nat) (entry : Entry)

/-- One step of `clone` on the subscriber `parent`, or of a publisher. -/
def cloneStep (parent : Nat) (c : Cloning Entry) : CloneAct Entry → Option (Cloning Entry)
  | .register =>
    match c.phase with
    | .called => some { ws := c.ws.getSubscriber, phase := .registered c.ws.nextHandle }
    | _ => none
  | .read =>
    match c.phase with
    | .registered h => (c.ws.subscribers_ parent).map fun i => { c with phase := .read h i }
    | _ => none
  | .write =>
    match c.phase with
    | .read h i =>
      some
        { ws := { c.ws with subscribers_ := Function.update c.ws.subscribers_ h (some i) }
          phase := .returned h }
    | _ => none
  | .push p e => if c.ws.publishers_ p then some { c with ws := c.ws.push e } else none

/-- Two subscribers get the same next entry, have the same number of entries available, and their
indices are inside the ring. -/
def SamePosition (ws : Workset Entry) (s t : Nat) : Prop :=
  ∃ i j, ws.subscribers_ s = some i ∧ ws.subscribers_ t = some j ∧ i ≤ ws.size ∧ j ≤ ws.size ∧
    (ws.tryPop s i true).2 = (ws.tryPop t j true).2 ∧ ws.numAvailable i = ws.numAvailable j

end Workset

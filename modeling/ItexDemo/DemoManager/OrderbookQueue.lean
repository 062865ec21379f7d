import ItexDemo.AuxLib.Proofs.SpinlockProofs
import ItexDemo.DemoManager.HttpServerHandler

/-!
# The queue of `OrderbookQueueWriter`

`push` is called from the handlers of all connections while the loop of `start` takes entries out.
Both hold `queue_lock_`, and between two accesses of one thread the others take their steps.
-/

namespace DemoManager.OrderbookQueue

open Sections

variable {D : Type*}

/-- The sections under `queue_lock_`. -/
inductive Op (D : Type*) where
  /-- `push(entry)`. -/
  | push (entry : QueueEntry D)
  /-- The block at the start of a round. -/
  | take

/-- The next access of a section, with `entry`. -/
inductive Local (D : Type*) where
  | push
  | empty
  | front
  | pop (entry : QueueEntry D)

/-- What a section ends with; there is no entry where `is_empty` is `true`. -/
inductive Result (D : Type*) where
  | pushed
  | taken (entry : Option (QueueEntry D))

/-- The first access. -/
def Op.start : Op D → Local D
  | push _ => .push
  | take => .empty

/-- An access to `queue_`. `front` and `pop` of an empty queue have no defined behaviour. -/
def access : Op D → Local D → List (QueueEntry D) → Option (List (QueueEntry D) × (Local D ⊕ Result D))
  | .push entry, .push, queue_ => some (queue_ ++ [entry], .inr .pushed)
  | .take, .empty, queue_ =>
    some (queue_, if queue_.isEmpty then .inr (.taken none) else .inl .front)
  | .take, .front, queue_ => queue_.head?.map fun entry => (queue_, .inl (.pop entry))
  | .take, .pop entry, queue_ =>
    if queue_.isEmpty then none else some (queue_.tail, .inr (.taken (some entry)))
  | _, _, _ => none

/-- The queue under its lock. -/
def queue : Object Empty (Op D) Empty (Local D) (List (QueueEntry D)) (Result D) where
  tries := Empty.elim
  refused := Empty.elim
  readStart := Empty.elim
  readStep := Empty.elim
  writeStart := Op.start
  writeStep := access

/-- A log of sections. -/
abbrev Log (T D : Type*) := List (Entry T Empty (Op D) (Result D))

/-- Any number of threads on an empty queue. -/
def threads (T D : Type*) [DecidableEq T] :
    Transition.System (State T (Spinlock.Config T) Empty (Op D) Empty (Local D) (List (QueueEntry D))
      (Result D)) (Act T Empty (Op D)) :=
  system (Spinlock.sectionLock T) queue []

variable {T : Type*}

/-- The entries that were pushed, in the order of the sections. -/
def Log.pushed (log : Log T D) : List (QueueEntry D) :=
  log.filterMap fun e => match e.op with
    | .inr (.push entry) => some entry
    | _ => none

/-- The entries that were taken, in the order of the sections. -/
def Log.taken (log : Log T D) : List (QueueEntry D) :=
  log.filterMap fun e => match e.result with
    | .taken entry => entry
    | _ => none

end DemoManager.OrderbookQueue

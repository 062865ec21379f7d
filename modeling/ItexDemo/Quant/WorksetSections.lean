import ItexDemo.AuxLib.Proofs.RwLockSectionsProofs
import ItexDemo.Quant.Workset

/-!
# The sections under `workset_lock_` of `itex::quant::Workset`

The accesses that publishers and subscribers make to the ring and to the indices, one after the
other. `Workset` has each operation as one step. `clone` writes the index of the new subscriber
after it has given the lock back and is left out here.
-/

namespace Workset

open Sections

variable {Entry : Type*}

/-- The operations under a read lock. `try_pop` tries to take it. -/
inductive ReadOp where
  | tryPop (subscriber : Nat)
  | numAvailable (subscriber : Nat)
  deriving DecidableEq

/-- The subscriber that an operation is called on. -/
def ReadOp.subscriber : ReadOp → Nat
  | tryPop s => s
  | numAvailable s => s

/-- The operations under the write lock. -/
inductive WriteOp (Entry : Type*) where
  | getPublisher
  | getSubscriber
  | push (publisher : Nat) (entry : Entry)
  | releasePublisher (publisher : Nat)
  | releaseSubscriber (subscriber : Nat)

/-- The next access of an operation under a read lock. -/
inductive ReadLocal (Entry : Type*) where
  /-- `!ws_.empty()`. -/
  | empty
  /-- `current_index_ < ws_.size()`. -/
  | compare
  /-- `entry = ws_[current_index_]`. -/
  | copy
  /-- `++current_index_`. -/
  | increment (entry : Entry)
  /-- `ws_.size() - current_index_`. -/
  | subtract

/-- The next access of an operation under the write lock. -/
inductive WriteLocal where
  /-- `ws_.full()`. -/
  | full
  /-- The index of the subscriber `h`, in the loop over `ws_.subscribers_`. -/
  | shift (h : Nat)
  | pushBack
  /-- The only access of the other operations. -/
  | once

/-- The first access of an operation under a read lock. -/
def ReadOp.start : ReadOp → ReadLocal Entry
  | tryPop _ => .empty
  | numAvailable _ => .subtract

/-- The first access of an operation under the write lock. -/
def WriteOp.start : WriteOp Entry → WriteLocal
  | push _ _ => .full
  | _ => .once

/-- An access under a read lock. A subscriber that is not in use has been deleted. -/
def readAccess (op : ReadOp) (l : ReadLocal Entry) (ws : Workset Entry) :
    Option (ReadLocal Entry ⊕ (Workset Entry × Result Entry)) :=
  (ws.subscribers_ op.subscriber).bind fun current_index_ =>
    match op, l with
    | .tryPop _, .empty =>
      some (if ws.workset_.empty then .inr (ws, .popped none) else .inl .compare)
    | .tryPop _, .compare =>
      some (if current_index_ < ws.size then .inl .copy else .inr (ws, .popped none))
    | .tryPop _, .copy =>
      ws.workset_.items[current_index_.toNat]?.map fun entry => .inl (.increment entry)
    | .tryPop s, .increment entry =>
      some (.inr ({ ws with
        subscribers_ := Function.update ws.subscribers_ s (some (current_index_ + 1)) },
        .popped (some entry)))
    | .numAvailable _, .subtract => some (.inr (ws, .available (ws.numAvailable current_index_)))
    | _, _ => none

/-- An access under the write lock. -/
def writeAccess : WriteOp Entry → WriteLocal → Workset Entry →
    Option (Workset Entry × (WriteLocal ⊕ Result Entry))
  | .push p _, .full, ws =>
    if ws.publishers_ p then some (ws, .inl (if ws.workset_.full then .shift 0 else .pushBack))
    else none
  | .push _ _, .shift h, ws =>
    if h < ws.nextHandle then
      some ({ ws with
        subscribers_ := Function.update ws.subscribers_ h ((ws.subscribers_ h).map shiftIndex) },
        .inl (.shift (h + 1)))
    else some (ws, .inl .pushBack)
  | .push _ entry, .pushBack, ws =>
    some ({ ws with
      workset_ := ws.workset_.pushBack entry
      capacity_eq := by rw [CircularBuffer.pushBack_capacity, ws.capacity_eq] }, .inr .done)
  | .getPublisher, .once, ws => some (ws.getPublisher, .inr (.handle ws.nextHandle))
  | .getSubscriber, .once, ws => some (ws.getSubscriber, .inr (.handle ws.nextHandle))
  | .releasePublisher p, .once, ws =>
    if ws.publishers_ p then some (ws.removePublisher p, .inr .done) else none
  | .releaseSubscriber s, .once, ws =>
    (ws.subscribers_ s).map fun _ => (ws.removeSubscriber s, .inr .done)
  | _, _, _ => none

/-- The workset under its lock. -/
def sections : Object ReadOp (WriteOp Entry) (ReadLocal Entry) WriteLocal (Workset Entry)
    (Result Entry) where
  tries
    | .tryPop _ => true
    | .numAvailable _ => false
  refused _ := .popped none
  readStart := ReadOp.start
  readStep := readAccess
  writeStart := WriteOp.start
  writeStep := writeAccess

/-- Two operations on different subscribers. -/
def Apart (op op' : ReadOp) : Prop := op.subscriber ≠ op'.subscriber

/-- A state of the threads and the workset. -/
abbrev SectionState (T Entry : Type*) :=
  Sections.State T (RwLock.Config T) ReadOp (WriteOp Entry) (ReadLocal Entry) WriteLocal
    (Workset Entry) (Result Entry)

/-- Any number of threads on a workset, where no two use a subscriber at the same time. -/
def threads (T Entry : Type*) [DecidableEq T] [Fintype T] (capacity : UInt64) :
    Transition.System (SectionState T Entry) (Act T ReadOp (WriteOp Entry)) :=
  (system (RwLock.sectionLock T) sections (Workset.new capacity)).restrict (Separate Apart)

/-- The operation as a step of the workset. -/
def opOf : ReadOp ⊕ WriteOp Entry → Op Entry
  | .inl (.tryPop s) => .tryPop s true
  | .inl (.numAvailable s) => .numAvailable s
  | .inr .getPublisher => .getPublisher
  | .inr .getSubscriber => .getSubscriber
  | .inr (.push p entry) => .push p entry
  | .inr (.releasePublisher p) => .releasePublisher p
  | .inr (.releaseSubscriber s) => .releaseSubscriber s

/-- The operations that were granted the lock, in the order of their last accesses. -/
def operations {T : Type*} (log : List (Sections.Entry T ReadOp (WriteOp Entry) (Result Entry))) :
    List (Op Entry) :=
  (granted log).map fun e => opOf e.op

end Workset

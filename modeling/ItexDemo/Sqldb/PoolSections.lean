import ItexDemo.AuxLib.Proofs.SpinlockProofs
import ItexDemo.Sqldb.Database

/-!
# The sections under `pool_lock_` of `sqldb::Database`

The accesses that the coroutines of all threads and the timer make to the pool, one after the other.
`Database` has each of these sections as one step.
-/

namespace Sqldb.Pool

open Sections

variable {α : Type}

/-- The sections. -/
inductive Op where
  /-- The block of `async_get_connection`; `bad` says which connections turn out to be `BAD`. -/
  | get (bad : Nat → Bool)
  /-- `return_connection`. -/
  | put (connection : Nat)
  /-- `pool_shrink_timer_handler`. -/
  | shrink (aborted : Bool)

/-- The next access of a section, with its local variables. -/
inductive Local where
  /-- `while(pool_queue_.size() > 0)`. -/
  | loop
  | front
  | popFront (connection : Nat)
  | update (connection : Nat)
  | status (connection : Nat)
  | delete (connection : Nat)
  | pushBack (connection : Nat)
  | updatePushed
  | aborted (aborted : Bool)
  | average (current_size : UInt64)
  /-- The rounds of the loop that are left. -/
  | deleteFront (rounds : Nat)
  | popDeleted (rounds : Nat)
  | restart

/-- The first access. -/
def Op.start : Op → Local
  | get _ => .loop
  | put connection => .pushBack connection
  | shrink aborted => .aborted aborted

/-- The access after `rounds` rounds of the loop of `pool_shrink_timer_handler` are left. -/
def shrinkNext : Nat → Local
  | 0 => .restart
  | rounds + 1 => .deleteFront rounds

/-- The oracle of `get`. -/
def Op.isBad : Op → Nat → Bool
  | get bad, connection => bad connection
  | _, _ => false

/-- An access to the pool: how it leaves the pool, and the next access or the result. -/
def access (op : Op) : Local → Database α → Option (Database α × (Local ⊕ Option Nat))
  | .loop, d => some (d, if d.pool_queue_ = [] then .inr none else .inl .front)
  | .front, d => d.pool_queue_.head?.map fun connection => (d, .inl (.popFront connection))
  | .popFront connection, d =>
    if d.pool_queue_ = [] then none
    else some ({ d with pool_queue_ := d.pool_queue_.tail }, .inl (.update connection))
  | .update connection, d => some ({ d with
      pool_stats_per_period_ := d.pool_stats_per_period_.update d.pool_queue_.length },
      .inl (.status connection))
  | .status connection, d =>
    let d := { d with heap := d.heap.use connection }
    if (d.heap.link connection).bad || op.isBad connection then some (d, .inl (.delete connection))
    else some (d, .inr (some connection))
  | .delete connection, d => some ({ d with heap := d.heap.delete connection }, .inl .loop)
  | .pushBack connection, d => some ({ d with
      heap := d.heap.use connection
      pool_queue_ := d.pool_queue_ ++ [connection] }, .inl .updatePushed)
  | .updatePushed, d => some ({ d with
      pool_stats_per_period_ := d.pool_stats_per_period_.update d.pool_queue_.length }, .inr none)
  | .aborted true, d => some (d, .inr none)
  | .aborted false, d => some (d, .inl (.average (UInt64.ofNat d.pool_queue_.length)))
  | .average current_size, d =>
    let average_size :=
      if d.pool_stats_per_period_.counter = 0 then 0
      else d.pool_stats_per_period_.cumulative_size / d.pool_stats_per_period_.counter
    let num_to_shrink :=
      if current_size > average_size then (current_size - average_size) / 2 else 0
    some (d, .inl (shrinkNext num_to_shrink.toNat))
  | .deleteFront rounds, d =>
    match d.pool_queue_ with
    | [] => some ({ d with emptyPops := d.emptyPops + 1 }, .inl (shrinkNext rounds))
    | connection :: _ =>
      some ({ d with heap := d.heap.delete connection }, .inl (.popDeleted rounds))
  | .popDeleted rounds, d =>
    some ({ d with pool_queue_ := d.pool_queue_.tail }, .inl (shrinkNext rounds))
  | .restart, d => some ({ d with
      pool_stats_per_period_ := { cumulative_size := 0, counter := 0 } }, .inr none)

/-- The pool under its lock. -/
def pool : Object Empty Op Empty Local (Database α) (Option Nat) where
  tries := Empty.elim
  refused := Empty.elim
  readStart := Empty.elim
  readStep := Empty.elim
  writeStart := Op.start
  writeStep := access

/-- Any number of threads on a pool. -/
def threads (T : Type*) [DecidableEq T] (d₀ : Database α) :
    Transition.System (State T (Spinlock.Config T) Empty Op Empty Local (Database α) (Option Nat))
      (Act T Empty Op) :=
  system (Spinlock.sectionLock T) pool d₀

/-- The sections as the steps of `Database` have them. -/
def step (d : Database α) : Op → Option (Database α × Option Nat)
  | .get bad =>
    let popped := d.popLoop bad d.pool_queue_
    some (popped.2, popped.1)
  | .put connection => some (d.returnConnection connection, none)
  | .shrink aborted => some (d.poolShrinkTimerHandler aborted, none)

end Sqldb.Pool

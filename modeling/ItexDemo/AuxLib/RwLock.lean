import Mathlib.Algebra.Order.BigOperators.Group.Finset
import Mathlib.Data.Fintype.Basic
import ItexDemo.Lib.TransitionSystem

/-!
# `aux::rw_lock`

The lock is one atomic word: `-1` while a writer holds it, otherwise the number of readers. Every
`load`, `compare_exchange_strong`, `fetch_sub` and `store` is one indivisible step, and the threads
take their steps in any order.

The word is an `Int`: its value lies between `-1` and the number of read holds
(`RwLock.lock_bounds`), so `int64_t` is never left.
-/

namespace RwLock

/-- The number of attempts that `reader_try_lock` makes. -/
def numAttempts : Nat := 1000

/-- Where a thread stands: outside every operation of the lock, or before an atomic access of one of
them. `val` is the local variable of the same name, `i` the loop counter of `reader_try_lock`. -/
inductive Pc where
  | idle
  | readerTryLockLoad
  | readerTryLockCas (val : Int) (i : Nat)
  | readerLockLoad
  | readerLockCas (val : Int)
  | readerUnlockSub
  | writerLockCas
  | writerUnlockStore
  deriving DecidableEq, Repr

/-- A thread: its program point, and how many read and write holds it has (locks that succeeded and
have not been unlocked yet). -/
structure Thread where
  pc : Pc
  readHolds : Nat
  writeHolds : Nat
  deriving DecidableEq, Repr

/-- A thread that does not use the lock. -/
def Thread.new : Thread := { pc := .idle, readHolds := 0, writeHolds := 0 }

/-- `compare_exchange_strong` on the word `lock_`: whether it succeeded, and the word after it. -/
def compareExchangeStrong (lock_ expected desired : Int) : Bool × Int :=
  if lock_ = expected then (true, desired) else (false, lock_)

/-- `expected` in the retry loops of `reader_try_lock` and `reader_lock`, which have one loop for
`val < 0` and one for the other values. -/
def readerExpected (val : Int) : Int := if val < 0 then 0 else val

/-- The new value of the word in the same loops. -/
def readerDesired (val : Int) : Int := if val < 0 then 1 else val + 1

/-- The next atomic access of a thread that is inside an operation: the word and the thread after
it. A thread that is idle has none. -/
def atomicStep (lock_ : Int) (th : Thread) : Option (Int × Thread) :=
  match th.pc with
  | .idle => none
  | .readerTryLockLoad => some (lock_, { th with pc := .readerTryLockCas lock_ 0 })
  | .readerTryLockCas val i =>
    match compareExchangeStrong lock_ (readerExpected val) (readerDesired val) with
    | (true, w) => some (w, { th with pc := .idle, readHolds := th.readHolds + 1 })
    | (false, w) =>
      -- the loop ends with `res == false` after the last attempt
      some (w, { th with pc := if i + 1 < numAttempts then .readerTryLockCas val (i + 1) else .idle })
  | .readerLockLoad => some (lock_, { th with pc := .readerLockCas lock_ })
  | .readerLockCas val =>
    -- `val` is not loaded again when the exchange fails
    match compareExchangeStrong lock_ (readerExpected val) (readerDesired val) with
    | (true, w) => some (w, { th with pc := .idle, readHolds := th.readHolds + 1 })
    | (false, w) => some (w, th)
  | .readerUnlockSub => some (lock_ - 1, { th with pc := .idle, readHolds := th.readHolds - 1 })
  | .writerLockCas =>
    match compareExchangeStrong lock_ 0 (-1) with
    | (true, w) => some (w, { th with pc := .idle, writeHolds := th.writeHolds + 1 })
    | (false, w) => some (w, th)
  | .writerUnlockStore => some (0, { th with pc := .idle, writeHolds := th.writeHolds - 1 })

/-- The operations of the lock. -/
inductive Op where
  | readerTryLock
  | readerLock
  | readerUnlock
  | writerLock
  | writerUnlock
  deriving DecidableEq, Repr

/-- The call of an operation. An unlock is called only after its matching lock succeeded. -/
def call (th : Thread) (op : Op) : Option Thread :=
  match th.pc, op with
  | .idle, .readerTryLock => some { th with pc := .readerTryLockLoad }
  | .idle, .readerLock => some { th with pc := .readerLockLoad }
  | .idle, .readerUnlock => if 0 < th.readHolds then some { th with pc := .readerUnlockSub } else none
  | .idle, .writerLock => some { th with pc := .writerLockCas }
  | .idle, .writerUnlock =>
    if 0 < th.writeHolds then some { th with pc := .writerUnlockStore } else none
  | _, _ => none

/-- The lock word and the threads that use it. -/
structure Config (T : Type*) where
  lock_ : Int
  threads : T → Thread

/-- A step of thread `t`: it calls an operation, or makes its next atomic access. -/
inductive Act (T : Type*) where
  | call (t : T) (op : Op)
  | step (t : T)

variable {T : Type*} [DecidableEq T]

/-- The constructor `rw_lock()`, with no thread inside an operation. -/
def Config.new : Config T := { lock_ := 0, threads := fun _ => Thread.new }

/-- The configuration with thread `t` and the lock word replaced. -/
def Config.set (c : Config T) (t : T) (lock_ : Int) (th : Thread) : Config T :=
  { lock_ := lock_, threads := Function.update c.threads t th }

/-- One step of one thread. -/
def next (c : Config T) : Act T → Option (Config T)
  | .call t op => (call (c.threads t) op).map fun th => c.set t c.lock_ th
  | .step t => (atomicStep c.lock_ (c.threads t)).map fun r => c.set t r.1 r.2

/-- Any number of threads using one lock. -/
def system (T : Type*) [DecidableEq T] : Transition.System (Config T) (Act T) :=
  Transition.System.ofStep Config.new next

/-- The number of read holds. -/
def Config.readers [Fintype T] (c : Config T) : Nat := ∑ t, (c.threads t).readHolds

/-- The number of write holds. -/
def Config.writers [Fintype T] (c : Config T) : Nat := ∑ t, (c.threads t).writeHolds

/-- `n` atomic accesses of thread `t` and no step of another thread. -/
def solo (t : T) : Nat → Config T → Option (Config T)
  | 0, c => some c
  | n + 1, c => (next c (.step t)).bind (solo t n)

/-- Thread `t` is anywhere inside `reader_lock`. -/
def InReaderLock (th : Thread) : Prop :=
  th.pc = .readerLockLoad ∨ ∃ val, th.pc = .readerLockCas val

/-- Thread `t` is inside `writer_lock`. -/
def InWriterLock (th : Thread) : Prop := th.pc = .writerLockCas

/-- Between `th` and `th'` the operation that `th` is inside of has returned with the lock
acquired. -/
def Acquired (th th' : Thread) : Prop :=
  th'.pc = .idle ∧
    (InReaderLock th → th'.readHolds = th.readHolds + 1 ∧ th'.writeHolds = th.writeHolds) ∧
    (InWriterLock th → th'.writeHolds = th.writeHolds + 1 ∧ th'.readHolds = th.readHolds)

end RwLock

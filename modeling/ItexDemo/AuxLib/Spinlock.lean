import ItexDemo.Lib.Sections

/-!
# `aux::spinlock`

The lock is one atomic flag. Every `test_and_set` and `clear` is one indivisible step, and the
threads take their steps in any order.
-/

namespace Spinlock

/-- Where a thread stands: outside every function of the lock, without it or between `lock` and
`unlock`, or before an atomic access. `held` says that `is_locked` was called between `lock` and
`unlock`. -/
inductive Pc where
  | idle
  | lockTestAndSet
  | locked
  | unlockClear
  | isLockedTestAndSet (held : Bool)
  | isLockedClear (held : Bool)
  deriving DecidableEq, Repr

/-- A thread that is at this point has set the flag. -/
def Pc.owns : Pc → Bool
  | .locked | .unlockClear | .isLockedClear _ => true
  | .isLockedTestAndSet held => held
  | _ => false

/-- The point after `is_locked`. -/
def Pc.afterIsLocked (held : Bool) : Pc := if held then .locked else .idle

/-- The functions of the lock. -/
inductive Op where
  | lock
  | unlock
  | isLocked
  deriving DecidableEq, Repr

/-- The call of a function. `unlock` is called only after `lock`. -/
def Pc.call : Pc → Op → Option Pc
  | .idle, .lock => some .lockTestAndSet
  | .idle, .isLocked => some (.isLockedTestAndSet false)
  | .locked, .isLocked => some (.isLockedTestAndSet true)
  | .locked, .unlock => some .unlockClear
  | _, _ => none

/-- The next atomic access of a thread: the flag and the point after it, and the result of the
function when it returns; `lock` and `unlock` have none. -/
def atomicStep (lock_ : Bool) : Pc → Option (Bool × Pc × Option Bool)
  | .lockTestAndSet => some (true, if lock_ then .lockTestAndSet else .locked, none)
  | .unlockClear => some (false, .idle, none)
  | .isLockedTestAndSet held =>
    -- the flag is set also when it is only asked for
    if lock_ then some (true, .afterIsLocked held, some true) else some (true, .isLockedClear held, none)
  | .isLockedClear held => some (false, .afterIsLocked held, some false)
  | _ => none

/-- The flag and the threads. -/
structure Config (T : Type*) where
  lock_ : Bool
  threads : T → Pc

variable {T : Type*} [DecidableEq T]

/-- `ATOMIC_FLAG_INIT`. -/
def Config.new : Config T := { lock_ := false, threads := fun _ => .idle }

/-- Thread `t` goes on to `pc`, and the flag is `lock_`. -/
def Config.set (c : Config T) (t : T) (lock_ : Bool) (pc : Pc) : Config T :=
  { lock_ := lock_, threads := Function.update c.threads t pc }

/-- The steps of thread `t`. -/
inductive Act (T : Type*) where
  | call (t : T) (op : Op)
  | step (t : T)

/-- One step of one thread, with the result of a function that returns one. -/
def next (c : Config T) : Act T → Option (Config T × Option Bool)
  | .call t op => ((c.threads t).call op).map fun pc => (c.set t c.lock_ pc, none)
  | .step t => (atomicStep c.lock_ (c.threads t)).map fun r => (c.set t r.1 r.2.1, r.2.2)

/-- Any number of threads using one lock. -/
def system (T : Type*) [DecidableEq T] : Transition.System (Config T) (Act T) :=
  .ofStep .new fun c a => (next c a).map Prod.fst

/-- The threads that have set the flag. -/
def Config.Owner (c : Config T) (t : T) : Prop := (c.threads t).owns = true

/-- The flag is set exactly when some thread has set it, and no two threads have. -/
structure Excludes (c : Config T) : Prop where
  flag : c.lock_ = true ↔ ∃ t, c.Owner t
  once : ∀ t u, c.Owner t → c.Owner u → t = u

/-! ## The lock as sections use it -/

open Sections

/-- The function that a call of a section stands for. -/
def opOf : LockCall → Option Op
  | .acquire .write => some .lock
  | .release .write => some .unlock
  | .probe => some .isLocked
  | _ => none

/-- The thread is in this function. -/
def In (pc : Pc) : LockCall → Prop
  | .acquire .write => pc = .lockTestAndSet
  | .release .write => pc = .unlockClear
  | .probe => ∃ held, pc = .isLockedTestAndSet held ∨ pc = .isLockedClear held
  | _ => False

/-- The call that a section makes. -/
def sectionCall (c : Config T) (t : T) (k : LockCall) : Option (Config T) :=
  (opOf k).bind fun op => (next c (.call t op)).map Prod.fst

/-- The next access of thread `t`, with `true` when its function returns. -/
def sectionStep (c : Config T) (t : T) : Option (Config T × Option Bool) :=
  (next c (.step t)).map fun r =>
    (r.1, match r.1.threads t with
      | .idle | .locked => some true
      | _ => none)

end Spinlock

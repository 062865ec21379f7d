import Mathlib.Logic.Basic

/-!
# `aux::timeout_guard`

A timer of boost::asio with the completions that it has queued. A guard arms the timer for the
operation that it is made for, and its destructor cancels it. What has expired before that is queued
already, and it is run as expired whenever its turn comes.
-/

namespace TimeoutGuard

/-- A queued call of the handler, for the operation that the timer was armed for. `aborted` says
that the error code is `operation_aborted`. -/
structure Completion where
  operation : Nat
  aborted : Bool
  deriving DecidableEq, Repr

/-- A `steady_timer`: the operation that it is armed for, and the queued calls. -/
structure Timer where
  waiting : Option Nat
  queued : List Completion
  deriving DecidableEq, Repr

namespace Timer

/-- A timer that has not been used. -/
def new : Timer where
  waiting := none
  queued := []

/-- `cancel`, the destructor of a guard. -/
def cancel (t : Timer) : Timer :=
  match t.waiting with
  | none => t
  | some operation =>
    { waiting := none, queued := t.queued ++ [{ operation := operation, aborted := true }] }

/-- `expires_from_now`, which cancels, and `async_wait`: the constructor of a guard. -/
def arm (t : Timer) (operation : Nat) : Timer := { t.cancel with waiting := some operation }

/-- The time is over. -/
def expire (t : Timer) : Timer :=
  match t.waiting with
  | none => t
  | some operation =>
    { waiting := none, queued := t.queued ++ [{ operation := operation, aborted := false }] }

/-- The queued call `i` is taken out to be run. -/
def take (t : Timer) (i : Nat) : Option (Completion × Timer) :=
  t.queued[i]?.map fun c => (c, { t with queued := t.queued.eraseIdx i })

end Timer

end TimeoutGuard

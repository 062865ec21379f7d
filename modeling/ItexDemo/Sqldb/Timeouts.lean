import ItexDemo.AuxLib.TimeoutGuard
import ItexDemo.Lib.TransitionSystem

/-!
# The timeouts of a `sqldb::Connection`

The operations `async_connect` and `async_exec` of one connection, whoever has it, from one point to
the next at which the timer, its flag or the socket is used. The handler of the timer can run at any
of them. The flag is never reset.
-/

namespace Sqldb.Timeouts

open TimeoutGuard

/-- A connection. Its operations are numbered. -/
structure State where
  timer_ : Timer
  timeout_occurred_ : Bool
  /-- `socket_.is_open()`. -/
  socketOpen : Bool
  /-- The guards of the operation that runs. The overload of `async_exec` without parameters calls
  the other one, which has a guard of its own. -/
  guards : Nat
  /-- The number of the operation that runs, or of the last one. -/
  operation : Nat
  /-- The operations whose timers have set the flag. -/
  expiredBy : List Nat
  /-- The operations that failed with a timeout while their own timers had not set the flag. -/
  misled : List Nat
  /-- `(m, n)`: the timer of `m` closed the socket that `n` uses. -/
  cut : List (Nat × Nat)
  deriving DecidableEq, Repr

/-- The steps. -/
inductive Act where
  /-- `async_connect` or `async_exec` is called. -/
  | begin
  /-- `async_exec` calls the overload with parameters. -/
  | nest
  /-- `socket_.assign` in `async_connect`. -/
  | assign
  /-- `check_timeout_occurred`. -/
  | check
  /-- A guard is destroyed, by a return or by an exception. -/
  | unwind
  | expire
  /-- A queued call of the handler of the timer. -/
  | deliver (i : Nat)
  deriving DecidableEq, Repr

namespace State

/-- `Connection::Connection`. -/
def new : State where
  timer_ := .new
  timeout_occurred_ := false
  socketOpen := false
  guards := 0
  operation := 0
  expiredBy := []
  misled := []
  cut := []

/-- `Connection::timeout_handler`. -/
def timeoutHandler (s : State) (c : Completion) : State :=
  if c.aborted then s
  else
    { s with
      timeout_occurred_ := true
      socketOpen := false
      expiredBy := s.expiredBy ++ [c.operation]
      cut := if 0 < s.guards ∧ c.operation ≠ s.operation then
          s.cut ++ [(c.operation, s.operation)]
        else s.cut }

/-- `Connection::check_timeout_occurred`. -/
def checkTimeoutOccurred (s : State) : State :=
  if s.timeout_occurred_ ∧ s.operation ∉ s.expiredBy then
    { s with misled := s.misled ++ [s.operation] }
  else s

end State

/-- One step. -/
def next (s : State) : Act → Option State
  | .begin =>
    if s.guards = 0 then
      some { s with
        guards := 1
        operation := s.operation + 1
        timer_ := s.timer_.arm (s.operation + 1)
        cut := s.cut ++ s.expiredBy.map fun m => (m, s.operation + 1) }
    else none
  | .nest =>
    if s.guards = 1 then some { s with guards := 2, timer_ := s.timer_.arm s.operation } else none
  | .assign => if 0 < s.guards then some { s with socketOpen := true } else none
  | .check => if 0 < s.guards then some s.checkTimeoutOccurred else none
  | .unwind =>
    if 0 < s.guards then some { s with guards := s.guards - 1, timer_ := s.timer_.cancel } else none
  | .expire => some { s with timer_ := s.timer_.expire }
  | .deliver i =>
    (s.timer_.take i).map fun r => { s.timeoutHandler r.1 with timer_ := r.2 }

/-- A connection whose operations follow one another. -/
def runs : Transition.System State Act := .ofStep .new next

/-- An expired call of the handler is run during its own operation or while none runs, and no
operation begins after one was run. -/
def Timely (s : State) : Act → Prop
  | .begin => s.timeout_occurred_ = false
  | .deliver i => ∀ c, s.timer_.queued[i]? = some c → c.aborted = false → 0 < s.guards →
      c.operation = s.operation
  | _ => True

end Sqldb.Timeouts

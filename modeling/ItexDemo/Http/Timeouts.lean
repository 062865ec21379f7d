import ItexDemo.AuxLib.TimeoutGuard
import ItexDemo.Lib.TransitionSystem

/-!
# The timeouts of an `http::Connection`

The loop of `Connection::start` from one point to the next at which the timer or its flag is used.
The handler of the timer is not run in the strand of the connection, so it can run at any of them.
-/

namespace Http.Timeouts

open TimeoutGuard

/-- Where the coroutine stands in the body of its loop. -/
inductive Phase where
  | loop
  /-- The flag is reset and the request is being received. -/
  | reading
  /-- There is a guard, and `process_request` runs. -/
  | handling
  /-- The response is known and the guard is about to be destroyed. -/
  | answered
  | writing
  | ended
  deriving DecidableEq, Repr

/-- The response to a request. -/
inductive Answer where
  /-- What `process_request` returned. -/
  | handled
  /-- Status 500 with the text of its exception. -/
  | failed
  /-- Status 500 with the text "Processing timeout". -/
  | timeout
  deriving DecidableEq, Repr

/-- A connection. The requests are numbered, those of later clients of the object included. -/
structure State where
  timer_ : Timer
  timeout_occurred_ : Bool
  phase : Phase
  /-- The number of the request in hand, or of the last one. -/
  request : Nat
  response : Option Answer
  sent : List (Nat × Answer)
  /-- The requests whose timers have set the flag since it was reset. -/
  expiredBy : List Nat
  /-- The requests that failed with a timeout while their own timers had not set the flag. -/
  misled : List Nat
  deriving DecidableEq, Repr

/-- The steps. -/
inductive Act where
  /-- The body of the loop begins. -/
  | reset
  /-- The request is complete. -/
  | received
  /-- `process_request` has returned, or thrown. -/
  | processed (returned : Bool)
  /-- The block of the guard is left. -/
  | disarm
  /-- The response is written. -/
  | written
  /-- The loop is left, or an exception leaves it: `kill`. -/
  | leave
  /-- The object is given a new socket and started again. -/
  | reinit
  /-- `Server::stop`. -/
  | stop
  | expire
  /-- A queued call of the handler of the timer. -/
  | deliver (i : Nat)
  deriving DecidableEq, Repr

namespace State

/-- `Connection::Connection`. -/
def new : State where
  timer_ := .new
  timeout_occurred_ := false
  phase := .loop
  request := 0
  response := none
  sent := []
  expiredBy := []
  misled := []

/-- `Connection::timeout_handler`. -/
def timeoutHandler (s : State) (c : Completion) : State :=
  if c.aborted then s
  else { s with timeout_occurred_ := true, expiredBy := s.expiredBy ++ [c.operation] }

/-- `check_timeout_occurred` after `process_request`, and the handler of what it throws. -/
def checkTimeoutOccurred (s : State) : State :=
  if s.timeout_occurred_ then
    { s with
      response := some .timeout
      misled := if s.request ∈ s.expiredBy then s.misled else s.misled ++ [s.request] }
  else { s with response := some .handled }

end State

/-- One step. -/
def next (s : State) : Act → Option State
  | .reset =>
    if s.phase = .loop then
      some { s with
        phase := .reading
        request := s.request + 1
        response := none
        timeout_occurred_ := false
        expiredBy := [] }
    else none
  | .received =>
    if s.phase = .reading then some { s with phase := .handling, timer_ := s.timer_.arm s.request }
    else none
  | .processed returned =>
    if s.phase = .handling then
      let s := { s with phase := .answered }
      some (if returned then s.checkTimeoutOccurred else { s with response := some .failed })
    else none
  | .disarm =>
    if s.phase = .answered then some { s with phase := .writing, timer_ := s.timer_.cancel }
    else none
  | .written =>
    if s.phase = .writing then
      some { s with
        phase := .loop
        sent := s.sent ++ (s.response.map fun answer => (s.request, answer)).toList }
    else none
  | .leave =>
    if s.phase = .loop ∨ s.phase = .reading ∨ s.phase = .writing then
      some { s with phase := .ended, timer_ := s.timer_.cancel }
    else none
  | .reinit =>
    if s.phase = .ended then
      some { s with phase := .loop, timeout_occurred_ := false, expiredBy := [] }
    else none
  | .stop => some { s with timer_ := s.timer_.cancel }
  | .expire => some { s with timer_ := s.timer_.expire }
  | .deliver i =>
    (s.timer_.take i).map fun r => { s.timeoutHandler r.1 with timer_ := r.2 }

/-- A connection that serves requests, with its timer. -/
def runs : Transition.System State Act := .ofStep .new next

/-- From the reset of the flag for a request to its check, no expired call of another request is
run. -/
def Timely (s : State) : Act → Prop
  | .deliver i => ∀ c, s.timer_.queued[i]? = some c → c.aborted = false →
      (s.phase = .reading ∨ s.phase = .handling) → c.operation = s.request
  | _ => True

end Http.Timeouts

import ItexDemo.Sqldb.Connection

/-!
# Attempts to connect

What the server and the network do in one attempt, told from the answers that `async_connect` gets:
the attempt is accepted, or it fails in one of three ways.
-/

namespace Sqldb

/-- The ways in which an attempt fails. -/
inductive Failure where
  | timeout
  /-- `PGRES_POLLING_FAILED`. -/
  | refused
  /-- A read or write of the socket ends with an error. -/
  | socketError
  deriving DecidableEq, Repr

/-- The poll decides nothing, and the wait that follows it goes well. -/
def Poll.Waits (p : Poll) : Prop :=
  p.status = .ACTIVE ∨
    (p.status = .READING ∨ p.status = .WRITING) ∧ p.expired = false ∧ p.ec = false

/-- The server accepts the connection. -/
inductive Accepted : List Poll → Prop where
  | ok {p : Poll} {polls : List Poll} (hstatus : p.status = .OK) (hexpired : p.expired = false) :
      Accepted (p :: polls)
  | wait {p : Poll} {polls : List Poll} (h : p.Waits) (hpolls : Accepted polls) :
      Accepted (p :: polls)

/-- The polling fails. -/
inductive PollsFail : Failure → List Poll → Prop where
  | silent : PollsFail .timeout []
  | expired {p : Poll} {polls : List Poll} (hstatus : p.status ≠ .ACTIVE) (h : p.expired = true) :
      PollsFail .timeout (p :: polls)
  | refused {p : Poll} {polls : List Poll} (hstatus : p.status = .FAILED)
      (hexpired : p.expired = false) : PollsFail .refused (p :: polls)
  | error {p : Poll} {polls : List Poll} (hstatus : p.status = .READING ∨ p.status = .WRITING)
      (hexpired : p.expired = false) (h : p.ec = true) : PollsFail .socketError (p :: polls)
  | wait {f : Failure} {p : Poll} {polls : List Poll} (h : p.Waits) (hpolls : PollsFail f polls) :
      PollsFail f (p :: polls)

/-- The wait goes well. -/
def Read.Waits (r : Read) : Prop := r.expired = false ∧ r.ec = false ∧ r.consumed = true

/-- The reading of an answer fails. -/
inductive ReadsFail : Failure → List Read → Prop where
  | expired {r : Read} {reads : List Read} (h : r.expired = true) : ReadsFail .timeout (r :: reads)
  | error {r : Read} {reads : List Read} (hexpired : r.expired = false)
      (h : r.ec = true ∨ r.consumed = false) : ReadsFail .socketError (r :: reads)
  | wait {f : Failure} {r : Read} {reads : List Read} (h : r.Waits) (hreads : ReadsFail f reads) :
      ReadsFail f (r :: reads)

/-- The message is not sent, or its answer is not received in time. -/
inductive Reply.Fails : Failure → Reply → Prop where
  | unsent {r : Reply} (h : r.sent = false) : Reply.Fails .socketError r
  | reads {f : Failure} {r : Reply} (hsent : r.sent = true) (h : ReadsFail f r.reads) :
      Reply.Fails f r
  | silent {r : Reply} (hsent : r.sent = true) (hreads : ∀ x ∈ r.reads, x.Waits)
      (h : r.results = none) : Reply.Fails .timeout r
  | late {r : Reply} {res : Results} (hsent : r.sent = true) (hreads : ∀ x ∈ r.reads, x.Waits)
      (hres : r.results = some res) (h : r.expired = true) : Reply.Fails .timeout r

/-- The message is answered well and in time. -/
structure Reply.Good (r : Reply) : Prop where
  sent : r.sent = true
  reads : ∀ x ∈ r.reads, x.Waits
  results : ∃ res, r.results = some res ∧ res.good = true
  expired : r.expired = false
  hangup : r.hangup = false

namespace Attempt

/-- `PQconnectStart` and `PQsetnonblocking` succeed in time. -/
structure Starts (a : Attempt) : Prop where
  start : a.start = some .CONNECTION_STARTED
  expired : a.expired = false
  nonblocking : a.nonblocking = true

/-- The attempt fails. -/
inductive Fails : Failure → Attempt → Prop where
  | early {a : Attempt} (h : a.expired = true) : Fails .timeout a
  | polls {f : Failure} {a : Attempt} (hstarts : a.Starts) (h : PollsFail f a.polls) : Fails f a
  | reply {f : Failure} {a : Attempt} (hstarts : a.Starts) (hpolls : Accepted a.polls)
      (h : a.reply.Fails f) : Fails f a

/-- The database accepts the connection within the timeout. -/
structure Accepts (a : Attempt) : Prop where
  starts : a.Starts
  polls : Accepted a.polls
  reply : a.reply.Good

/-- The server has accepted the connection when a read or write of the socket fails, and libpq has
not lost it. -/
structure FailsAccepted (a : Attempt) : Prop where
  starts : a.Starts
  polls : Accepted a.polls
  reply : a.reply.Fails .socketError
  hangup : a.reply.hangup = false

end Attempt

/-- The retry loop ends and leaves a connection that is `CONNECTED`. -/
def Connects (sql : String → Statements → Statements) (attempts : Nat → Attempt) : Prop :=
  ∃ n c, Prog.exec (Connection.connectLoop sql attempts 0 n) .new = (.ok true, c) ∧
    c.status = .CONNECTED

end Sqldb

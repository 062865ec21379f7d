import Mathlib.Data.List.Infix
import ItexDemo.Lib.Decimal
import ItexDemo.Lib.Prog

/-!
# `sqldb::Connection`

The functions of a connection, over a handle of libpq and the server session behind it. What libpq,
the socket and the timer answer is given with each call. A query text is a C string; the parameters
of a query are left out, as libpq only passes them on.
-/

namespace Sqldb

/-- What leaves a function of the connection. All but `system` are `ConnectionException`s. -/
inductive Exception where
  | connection (text : String)
  | query (text : String)
  | result (text : String)
  | transaction (text : String)
  /-- `boost::system::system_error`. -/
  | system
  deriving DecidableEq, Repr

/-- `catch (ConnectionException& e)` catches it. -/
def Exception.isConnectionException : Exception → Bool
  | .system => false
  | _ => true

/-- `QueryResult::Status`. -/
inductive ResultStatus where
  | OK
  | BAD
  deriving DecidableEq, Repr

/-- `Results`. A query that is answered has at least one result. -/
structure Results where
  first : ResultStatus
  more : List ResultStatus
  deriving DecidableEq, Repr

namespace Results

/-- The results in the order of their commands. -/
def all (res : Results) : List ResultStatus := res.first :: res.more

/-- The server carried out the whole query. -/
def good (res : Results) : Bool := res.all.all (· = .OK)

/-- The answer to a command that the server refuses. -/
def refused : Results := { first := .BAD, more := [] }

end Results

/-- `ConnStatusType`; the states of a connection that is being made are one. -/
inductive ConnStatusType where
  | CONNECTION_OK
  | CONNECTION_BAD
  | CONNECTION_STARTED
  deriving DecidableEq, Repr

/-! ## The server session -/

/-- What a `PQsend…` call sends. With an execution of a prepared statement stands the text that the
caller means by its name. -/
inductive Message where
  | query (text : String)
  | prepare (name : List Char) (text : String)
  | queryPrepared (name : List Char) (text : String)
  deriving DecidableEq, Repr

/-- The prepared statements of a session: the text under each name. -/
abbrev Statements : Type := List Char → Option String

/-- A message with the prepared statements at its time and whether the server carried it out. -/
structure Received where
  message : Message
  statements : Statements
  carried : Bool

/-- A server session. -/
structure Session where
  statements : Statements
  received : List Received

namespace Session

/-- A session that has just been opened. -/
def new : Session := { statements := fun _ => none, received := [] }

/-- Can the server carry out the message? -/
def admits (s : Session) : Message → Bool
  | .query _ => true
  | .prepare name _ => (s.statements name).isNone
  | .queryPrepared name _ => (s.statements name).isSome

/-- The server's answer, where `res` is what it would answer to a message that it admits. Only a
query can have more than one result. -/
def answer (s : Session) (m : Message) (res : Results) : Results :=
  if s.admits m then
    match m with
    | .query _ => res
    | _ => { res with more := [] }
  else .refused

/-- The prepared statements after a message that is answered with `res`. What a text does to them
when it is executed is `sql`. -/
def effect (sql : String → Statements → Statements) (s : Session) (res : Results) :
    Message → Statements
  | .query text => sql text s.statements
  | .prepare name text => if res.good then Function.update s.statements name (some text)
      else s.statements
  | .queryPrepared name _ =>
    match s.statements name with
    | some text => sql text s.statements
    | none => s.statements

/-- The server receives a message; `none` when it never comes to carry it out. -/
def receive (sql : String → Statements → Statements) (s : Session) (m : Message) :
    Option Results → Session
  | some res =>
    { statements := s.effect sql (s.answer m res) m
      received := s.received ++ [⟨m, s.statements, (s.answer m res).good⟩] }
  | none => { s with received := s.received ++ [⟨m, s.statements, false⟩] }

end Session

/-! ## The connection -/

/-- A handle of libpq. It is busy from a successful `PQsend…` until its last result is fetched. -/
structure PGconn where
  status : ConnStatusType
  busy : Bool
  session : Session

/-- `Connection::Status`. -/
inductive Status where
  | IN_PROGRESS
  | CONNECTED
  | BAD
  deriving DecidableEq, Repr

/-- The cases of `Connection::status` over `PQstatus`. -/
def ConnStatusType.toStatus : ConnStatusType → Status
  | .CONNECTION_OK => .CONNECTED
  | .CONNECTION_BAD => .BAD
  | .CONNECTION_STARTED => .IN_PROGRESS

/-- `Connection::TimeoutType`. -/
inductive TimeoutType where
  | CONNECTION
  | COMMAND
  deriving DecidableEq, Repr

/-- `uint128` of the hash library. -/
abbrev UInt128 : Type := UInt64 × UInt64

/-- The fields of a `Connection`. -/
structure Connection where
  pg_handle_ : Option PGconn
  prepared_statements_names_list_ : List UInt128
  /-- `socket_.is_open()`. -/
  socketOpen : Bool
  timeout_occurred_ : Bool

/-- One turn of the loop that waits for results: whether `timeout_handler` has run by the check,
whether the wait ended with an error, and whether `PQconsumeInput` succeeds. -/
structure Read where
  expired : Bool
  ec : Bool
  consumed : Bool
  deriving DecidableEq, Repr

/-- What becomes of one message. -/
structure Reply where
  /-- The `PQsend…` function succeeds. -/
  sent : Bool
  /-- The turns for which `PQisBusy`. -/
  reads : List Read
  /-- The server's answer; `none` when none comes. -/
  results : Option Results
  /-- `timeout_handler` has run by the check after the last result. -/
  expired : Bool
  /-- libpq finds the connection lost. -/
  hangup : Bool
  deriving DecidableEq, Repr

/-- One result that is received at the first read. -/
def Reply.plain : Reply where
  sent := true
  reads := [{ expired := false, ec := false, consumed := true }]
  results := some { first := .OK, more := [] }
  expired := false
  hangup := false

/-- `PostgresPollingStatusType`. -/
inductive PollingStatus where
  | READING
  | WRITING
  | FAILED
  | OK
  | ACTIVE
  deriving DecidableEq, Repr

/-- An answer of `PQconnectPoll`, with what the wait that follows it ends with. -/
structure Poll where
  status : PollingStatus
  /-- `timeout_handler` has run by the next check. -/
  expired : Bool
  ec : Bool
  deriving DecidableEq, Repr

/-- What one call of `async_connect` meets. -/
structure Attempt where
  /-- The status of the handle that `PQconnectStart` returns, if it returns one. -/
  start : Option ConnStatusType
  /-- `timeout_handler` has run by the time it returns. -/
  expired : Bool
  /-- `PQsetnonblocking` succeeds. -/
  nonblocking : Bool
  polls : List Poll
  /-- To the query that sets the format of binary data. -/
  reply : Reply
  deriving DecidableEq, Repr

namespace Connection

/-- `Connection::Connection`. -/
def new : Connection where
  pg_handle_ := none
  prepared_statements_names_list_ := []
  socketOpen := false
  timeout_occurred_ := false

/-- `Connection::status`. -/
def status (c : Connection) : Status :=
  match c.pg_handle_ with
  | none => .BAD
  | some pg => if c.timeout_occurred_ then .BAD else pg.status.toStatus

/-- Programs of a connection. -/
abbrev Code (α : Type) : Type := Prog Connection Exception α

/-- `Connection::timeout_handler`, when the timer has expired. -/
def timeoutHandler : Code Unit :=
  modify fun c => { c with timeout_occurred_ := true, socketOpen := false }

/-- What `check_timeout_occurred` throws. -/
def timeout : TimeoutType → Exception
  | .CONNECTION => .connection "Connection timeout"
  | .COMMAND => .query "Query execution timeout"

/-- `Connection::check_timeout_occurred`, before which `timeout_handler` runs if `expired`. -/
def checkTimeoutOccurred (expired : Bool) (type : TimeoutType) : Code Unit := do
  if expired then timeoutHandler
  if (← get).timeout_occurred_ then throw (timeout type)

/-- A change of the handle by libpq. -/
def modifyHandle (f : PGconn → PGconn) : Code Unit :=
  modify fun c => { c with pg_handle_ := c.pg_handle_.map f }

/-- The loop of `async_wait_pg_results` around `async_read_some`. -/
def readLoop : List Read → Code Unit
  | [] => pure ()
  | r :: reads => do
    checkTimeoutOccurred r.expired .COMMAND
    if r.ec then throw (.query "Query failed - read error")
    if !r.consumed then
      checkTimeoutOccurred false .COMMAND
      throw (.query "PQconsumeInput failed")
    readLoop reads

/-- `Connection::async_wait_pg_results`. -/
def asyncWaitPgResults (reply : Reply) (results : Option Results) : Code Results := do
  readLoop reply.reads
  match results with
  | some res =>
    modifyHandle fun pg => { pg with busy := false }
    checkTimeoutOccurred reply.expired .COMMAND
    pure res
  | none =>
    -- only the timer ends the wait
    timeoutHandler
    throw (timeout .COMMAND)

variable (sql : String → Statements → Statements)

/-- A `PQsend…` function and the wait for what the server answers. -/
def asyncSend (m : Message) (failed : String) (reply : Reply) : Code Results := do
  match (← get).pg_handle_ with
  | none => throw (.query failed)
  | some pg =>
    if reply.hangup then modifyHandle fun pg => { pg with status := .CONNECTION_BAD }
    if reply.sent ∧ pg.status = .CONNECTION_OK ∧ !pg.busy then
      modifyHandle fun pg =>
        { pg with busy := true, session := pg.session.receive sql m reply.results }
      asyncWaitPgResults reply (reply.results.map (pg.session.answer m))
    else throw (.query failed)

/-- `Connection::async_pg_query` without parameters. -/
def asyncPgQuery (query : String) : Reply → Code Results :=
  asyncSend sql (.query query) "PQsendQuery failed"

/-- `Connection::async_pg_query` with a list of parameters. -/
def asyncPgQueryParams (query : String) : Reply → Code Results :=
  asyncSend sql (.query query) "PQsendQueryParams failed"

/-- `Connection::async_pg_prepare`. -/
def asyncPgPrepare (statement_name : List Char) (query : String) : Reply → Code Results :=
  asyncSend sql (.prepare statement_name query) "PQsendPrepare failed"

/-- `Connection::async_pg_exec_prepared`, for the text `query`. -/
def asyncPgExecPrepared (statement_name : List Char) (query : String) : Reply → Code Results :=
  asyncSend sql (.queryPrepared statement_name query) "PQsendQueryPrepared failed"

/-- `Connection::check_results_errors`. -/
def checkResultsErrors (res : Results) : Code Unit :=
  if res.good then pure () else throw (.result "Bad query result")

/-! ## Connecting -/

/-- The loop of `async_connect` around `PQconnectPoll`. -/
def pollLoop : List Poll → Code Unit
  | [] => do
    -- only the timer ends the wait
    timeoutHandler
    throw (timeout .CONNECTION)
  | p :: polls =>
    match p.status with
    | .READING => do
      checkTimeoutOccurred p.expired .CONNECTION
      if p.ec then throw (.connection "Connection failed - read error")
      pollLoop polls
    | .WRITING => do
      checkTimeoutOccurred p.expired .CONNECTION
      if p.ec then throw (.connection "Connection failed - write error")
      pollLoop polls
    | .FAILED => do
      modifyHandle fun pg => { pg with status := .CONNECTION_BAD }
      checkTimeoutOccurred p.expired .CONNECTION
      throw (.connection "Connection failed")
    | .OK => do
      modifyHandle fun pg => { pg with status := .CONNECTION_OK }
      checkTimeoutOccurred p.expired .CONNECTION
    | .ACTIVE => pollLoop polls

/-- `socket_.assign`. -/
def assignSocket : Code Unit := do
  if (← get).socketOpen then throw .system
  modify fun c => { c with socketOpen := true }

/-- `Connection::async_connect`. -/
def asyncConnect (a : Attempt) : Code Unit := do
  -- PQfinish of the old handle, and PQconnectStart
  modify fun c => { c with
    pg_handle_ := a.start.map fun status => { status := status, busy := false, session := .new } }
  if a.expired then timeoutHandler
  if (← get).status = .BAD then throw (.connection "Can not allocate/create PGConn")
  if !a.nonblocking then throw (.connection "Can not set nonblocking mode on PGConn")
  assignSocket
  pollLoop a.polls
  let res ← asyncPgQuery sql "SET bytea_output = hex" a.reply
  checkResultsErrors res

/-- The body of the loop in `Database::async_get_connection`. -/
def tryConnect (a : Attempt) : Code Unit :=
  tryCatch (asyncConnect sql a) fun e => if e.isConnectionException then pure () else throw e

/-- `n` rounds of that loop, for a connection that has met `i` attempts: whether it has ended. -/
def connectLoop (attempts : Nat → Attempt) : Nat → Nat → Code Bool
  | _, 0 => do
    pure (decide ((← get).status = .CONNECTED))
  | i, n + 1 => do
    if (← get).status = .CONNECTED then pure true
    else
      tryConnect sql (attempts i)
      connectLoop attempts (i + 1) n

/-! ## Queries -/

/-- The keywords of `PREPARABLE_SQL_STATEMENTS_REGEX`. -/
def preparableSqlStatements : List String := ["SELECT", "INSERT", "UPDATE", "DELETE", "VALUES"]

/-- `Connection::is_preparable`: a search that ignores case. -/
def isPreparable (query : String) : Bool :=
  preparableSqlStatements.any fun keyword =>
    decide (keyword.toList <:+: query.toList.map Char.toUpper)

/-- `Connection::is_multiple_statements`. -/
def isMultipleStatements (query : String) : Bool := decide (';' ∈ query.toList)

/-- `aux::to_string`. -/
def toString (hash_value : UInt128) : List Char :=
  Decimal.digits hash_value.1.toNat ++ Decimal.digits hash_value.2.toNat

variable (hash : String → UInt128)

/-- The name of a prepared statement. -/
def statementName (query : String) : List Char := toString (hash query)

/-- A call of `async_exec`, with what becomes of its messages. -/
structure Call where
  query : String
  /-- The overload with a list of parameters. -/
  parameters : Bool
  /-- To `PQsendPrepare`. -/
  prepared : Reply
  /-- To the message that executes the query. -/
  executed : Reply

/-- The preparation of a statement that has no name yet. -/
def asyncPrepare (call : Call) : Code Unit := do
  let statement_hash := hash call.query
  if statement_hash ∉ (← get).prepared_statements_names_list_ then
    let res ← asyncPgPrepare sql (statementName hash call.query) call.query call.prepared
    if res.first = .BAD then throw (.query "Could not prepare statement")
    modify fun c => { c with
      prepared_statements_names_list_ := statement_hash :: c.prepared_statements_names_list_ }

/-- `Connection::async_exec` with a list of parameters. -/
def asyncExecParams (call : Call) : Code Results := do
  let res ←
    if !isPreparable call.query || isMultipleStatements call.query then
      asyncPgQueryParams sql call.query call.executed
    else do
      asyncPrepare sql hash call
      asyncPgExecPrepared sql (statementName hash call.query) call.query call.executed
  checkResultsErrors res
  pure res

/-- `Connection::async_exec`. -/
def asyncExec (call : Call) : Code Results :=
  if call.parameters then asyncExecParams sql hash call
  else if isMultipleStatements call.query then do
    let res ← asyncPgQuery sql call.query call.executed
    checkResultsErrors res
    pure res
  else asyncExecParams sql hash call

end Connection

end Sqldb

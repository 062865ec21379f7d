import ItexDemo.Lib.Script
import ItexDemo.Lib.TransitionSystem
import ItexDemo.Sqldb.Connection

/-!
# `sqldb::Transaction`

The functions of a transaction object as scripts over what it asks of its connection and of the
pool. A connection is seen from here as the transaction block of its server session and whether it
can still be used. The texts of the user without transaction control are the statements `α`; of a text
with transaction control only what it does to the block is known.
-/

namespace Sqldb

/-! ## A connection in use -/

/-- The transaction block of a server session. An open one lists what it has executed. -/
inductive Block (α : Type) where
  | none
  | opened (done : List α)
  /-- A statement has failed in it. -/
  | failed
  deriving DecidableEq, Repr

/-- What a text does to the block that it finds: the block behind it, the statements that it makes
durable, whether it ends the block that it finds, even if it begins another one, and whether it undoes
anything in it. -/
structure Effect {α : Type} (found : Block α) where
  block : Block α
  durable : List α
  ended : Bool
  undone : Bool
  open_of_not_ended : found ≠ .none → ended = false → block ≠ .none
  eq_of_not_undone : found ≠ .none → ended = false → undone = false → block = found

/-- A text with transaction control: its effect when it is carried out, and when it is refused. -/
structure Control (α : Type) where
  carried : (found : Block α) → Effect found
  refused : (found : Block α) → Effect found

/-- A query text: statements, with a `SAVEPOINT` at most for transaction control, the begin or the end
of a block, or any other text with transaction control in it, such as `ROLLBACK TO SAVEPOINT` or a
`COMMIT` with statements behind it. -/
inductive Query (α : Type) where
  | start
  | commit
  | rollback
  | control (text : Control α)
  | data (statement : α)

/-- The statement of a text without transaction control. -/
def Query.data? {α : Type} : Query α → Option α
  | .data statement => some statement
  | _ => none

/-- What is sent to the server: a command of the transaction object, or a text of its user. -/
inductive Command (α : Type) where
  | start
  | commit
  | rollback
  | user (query : Query α)

/-- The text that is sent. The server does not see whose it is. -/
@[simp] def Command.query {α : Type} : Command α → Query α
  | .start => .start
  | .commit => .commit
  | .rollback => .rollback
  | .user query => query

namespace Block

variable {α : Type}

/-- In a failed block only the end of it is carried out. -/
def admits : Block α → Query α → Bool
  | .failed, .start => false
  | .failed, .data _ => false
  | _, _ => true

/-- The block after a text that is carried out. -/
def perform : Block α → Query α → Block α
  | b, .control text => (text.carried b).block
  | .none, .start => .opened []
  | .opened done, .data statement => .opened (done ++ [statement])
  | _, .commit => .none
  | _, .rollback => .none
  | b, _ => b

/-- The statements that a text makes durable when it is carried out. Outside of a block each one is
committed by itself. -/
def durable : Block α → Query α → List α
  | b, .control text => (text.carried b).durable
  | .opened done, .commit => done
  | .none, .data statement => [statement]
  | _, _ => []

/-- The block after a text that is refused. A `COMMIT` ends it also then. -/
def refuse : Block α → Query α → Block α
  | b, .control text => (text.refused b).block
  | .none, _ => .none
  | _, .commit => .none
  | _, _ => .failed

/-- The statements that a text makes durable although it is refused. -/
def durableRefused : Block α → Query α → List α
  | b, .control text => (text.refused b).durable
  | _, _ => []

end Block

/-- A connection as its user sees it. -/
structure Link (α : Type) where
  block : Block α
  /-- The answer to an earlier command has not been received, so `PQsend…` refuses. -/
  busy : Bool
  /-- `status()` is `BAD`. -/
  bad : Bool
  deriving DecidableEq, Repr

/-- How a call of `Connection::async_exec` goes. -/
inductive Course where
  /-- The server is asked to carry out the command and answers. -/
  | answered
  /-- The server answers with an error. -/
  | refused
  /-- Nothing is sent. -/
  | unsent
  /-- The answer is not received; the server may have carried out the command. -/
  | broken (carried : Bool)
  deriving DecidableEq, Repr

/-- A call of `Connection::async_exec`: its course, and whether `status()` is `BAD` afterwards. -/
structure Outcome where
  course : Course
  bad : Bool
  deriving DecidableEq, Repr

namespace Link

variable {α : Type}

/-- A connection that has just been made. -/
def connected : Link α := { block := .none, busy := false, bad := false }

/-- A connection of the pool. -/
def pooled (busy : Bool) : Link α := { block := .none, busy := busy, bad := false }

/-- A `Connection` that has not been connected. -/
def unconnected : Link α := { block := .none, busy := false, bad := true }

/-- A command can be sent. -/
def Usable (l : Link α) : Prop := l.busy = false ∧ l.bad = false

instance (l : Link α) : Decidable l.Usable := inferInstanceAs (Decidable (_ ∧ _))

/-- The command reaches the server. -/
def Sends (l : Link α) (o : Outcome) : Prop := l.Usable ∧ o.course ≠ .unsent

instance (l : Link α) (o : Outcome) : Decidable (l.Sends o) := inferInstanceAs (Decidable (_ ∧ _))

/-- The server carries out the command. -/
def Carries (l : Link α) (cmd : Command α) (o : Outcome) : Prop :=
  l.Sends o ∧ l.block.admits cmd.query = true ∧ (o.course = .answered ∨ o.course = .broken true)

instance (l : Link α) (cmd : Command α) (o : Outcome) : Decidable (l.Carries cmd o) :=
  inferInstanceAs (Decidable (_ ∧ _))

/-- `Connection::async_exec` returns; otherwise it throws. -/
def Returns (l : Link α) (cmd : Command α) (o : Outcome) : Prop :=
  l.Carries cmd o ∧ o.course = .answered

instance (l : Link α) (cmd : Command α) (o : Outcome) : Decidable (l.Returns cmd o) :=
  inferInstanceAs (Decidable (_ ∧ _))

/-- The connection after the call. -/
def after (l : Link α) (cmd : Command α) (o : Outcome) : Link α where
  block :=
    if l.Carries cmd o then l.block.perform cmd.query
    else if l.Sends o ∧ o.course ≠ .broken false then l.block.refuse cmd.query
    else l.block
  busy := l.busy || decide (l.Sends o ∧ (o.course = .broken true ∨ o.course = .broken false))
  bad := l.bad || o.bad

/-- The statements that the call makes durable. -/
def made (l : Link α) (cmd : Command α) (o : Outcome) : List α :=
  if l.Carries cmd o then l.block.durable cmd.query
  else if l.Sends o ∧ o.course ≠ .broken false then l.block.durableRefused cmd.query
  else []

end Link

/-! ## The object -/

/-- `Transaction::Mode::ImplicitAutocommit`. -/
inductive ImplicitAutocommit where
  | ON
  | OFF
  deriving DecidableEq, Repr

/-- What a transaction asks for. -/
inductive Op (α : Type) where
  /-- `connection_ == nullptr`. -/
  | isNull
  /-- The part of `async_get_connection` that looks for a connection in the pool. -/
  | popPool
  /-- Its `new Connection`. -/
  | newConnection
  /-- Its loop around `async_connect`. -/
  | connect
  /-- `connection_ =` what `async_get_connection` returns. -/
  | assign
  /-- `connection_->async_exec`. -/
  | exec (cmd : Command α)
  /-- `connection_->status() == Connection::Status::BAD`. -/
  | isBad
  /-- `delete connection_` and `connection_ = nullptr`. -/
  | deleteConnection
  /-- `db_->return_connection(connection_)` and `connection_ = nullptr`. -/
  | returnConnection

/-- The answers: `popPool` finds a connection or not, and `connect` ends with a connection that is
`CONNECTED` or with an exception. -/
def Ans {α : Type} : Op α → Type
  | .isNull => Bool
  | .popPool => Bool
  | .newConnection => Unit
  | .connect => Bool
  | .assign => Unit
  | .exec _ => Except Exception Results
  | .isBad => Bool
  | .deleteConnection => Unit
  | .returnConnection => Unit

namespace Transaction

variable {α : Type}

/-- Programs of a transaction. -/
abbrev Code (α β : Type) : Type := Script.Code (Op α) Ans Exception β

/-- `connection_ == nullptr`. -/
def isNull : Code α Bool := Script.ask Op.isNull

/-- `connection_->status() == Connection::Status::BAD`. -/
def isBad : Code α Bool := Script.ask Op.isBad

/-- `delete connection_; connection_ = nullptr`. -/
def deleteConnection : Code α Unit := Script.ask Op.deleteConnection

/-- `db_->return_connection(connection_); connection_ = nullptr`. -/
def returnConnection : Code α Unit := Script.ask Op.returnConnection

/-- `connection_->async_exec`. -/
def exec (cmd : Command α) : Code α Results := do
  let answer : Except Exception Results ← Script.ask (Op.exec cmd)
  match answer with
  | .ok res => pure res
  | .error e => throw e

/-- `Database::async_get_connection`, and the assignment of what it returns. -/
def asyncGetConnection : Code α Unit := do
  let found : Bool ← Script.ask Op.popPool
  if !found then
    Script.ask Op.newConnection
    let connected : Bool ← Script.ask Op.connect
    if !connected then throw .system
  Script.ask Op.assign

/-- `Transaction::async_begin`. -/
def asyncBegin : Code α Unit := do
  if ← isNull then throw (.transaction "Connection pointer is NULL in transaction object")
  let res ← exec .start
  if res.first = .BAD then throw (.transaction "Start transaction error")

/-- `Transaction::async_commit`. -/
def asyncCommit (mode : ImplicitAutocommit) : Code α Unit := do
  if !(← isNull) ∧ mode = .OFF then
    let res ← exec .commit
    if res.first = .BAD then throw (.transaction "Commit transaction error")
    returnConnection

/-- `Transaction::async_rollback`. -/
def asyncRollback (mode : ImplicitAutocommit) : Code α Unit := do
  if !(← isNull) ∧ mode = .OFF then
    let res ← exec .rollback
    if res.first = .BAD then throw (.transaction "Rollback transaction error")
    returnConnection

/-- `Transaction::async_exec`. -/
def asyncExec (mode : ImplicitAutocommit) (query : Query α) : Code α Results := do
  if ← isNull then
    asyncGetConnection
    if mode = .OFF then asyncBegin
  tryCatch (exec (.user query)) fun e => do
    if ← isBad then deleteConnection
    else if mode = .OFF then asyncRollback mode
    throw e

/-- `Transaction::~Transaction`. -/
def destruct (mode : ImplicitAutocommit) : Code α Unit := do
  if !(← isNull) then
    match mode with
    | .ON => returnConnection
    | .OFF => deleteConnection

end Transaction

end Sqldb

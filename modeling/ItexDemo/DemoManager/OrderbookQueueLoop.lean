import ItexDemo.DemoManager.OrderbookQueueWriter
import ItexDemo.Sqldb.TransactionObject

/-!
# The loop of `OrderbookQueueWriter::start`

A round takes an entry from the queue and stores it in a transaction of its own. An exception of a
round leaves the coroutine, and with it the loop. The server and the pool are given by what they do
in each round; the tables are given by the rows that were made durable, in their order.
-/

namespace DemoManager.OrderbookQueueWriter

open Quant Sqldb Sqldb.Transaction

/-- The statements of a round. -/
inductive Statement where
  /-- `INSERT INTO orderbook_log (security_id, timestamp) VALUES ($1, $2) RETURNING id`. -/
  | insertLog (params : List (List Char))
  /-- `INSERT INTO orderbook_log_details (orderbook_log_id, price, volume) VALUES …`. -/
  | insertDetails (groups : List (Nat × Nat × Nat)) (params : List (List Char))
  deriving DecidableEq

/-- The rows of `orderbook_log` that a statement inserts; the server has chosen the id. -/
def Statement.logRows (id : Nat) : Statement → List LogRow
  | .insertLog [security_id, timestamp] =>
    [{ id := id, security_id := security_id, timestamp := timestamp }]
  | _ => []

/-- The rows of `orderbook_log_details` that a statement inserts. -/
def Statement.detailRows : Statement → List DetailRow
  | .insertDetails groups params => (groups.mapM (Tables.valueRow params)).getD []
  | _ => []

/-- The body of the loop for an entry; `orderbook_log_id` is read from the result of the first
statement. The destructor of `tr` also runs when an exception leaves the body. -/
def round (entry : QueueEntry ℚ) (orderbook_log_id : Nat) : Code Statement Unit := do
  tryCatch (do
    let _ ← asyncExec .OFF (.data (.insertLog (logParams entry)))
    let _ ← asyncExec .OFF (.data (.insertDetails (insertGroups entry.prices.length)
      (detailParams orderbook_log_id entry)))
    asyncCommit .OFF) fun e => do
      destruct .OFF
      throw e
  destruct .OFF

/-- What the pool and the server do in a round: whether the pool has a connection and whether that
is busy, whether connecting succeeds, how each command goes, whether the connection is found to be
`BAD` after a statement that failed, and the id of the new row of `orderbook_log`. -/
structure Calls where
  found : Bool
  busy : Bool
  connected : Bool
  start : Outcome
  log : Outcome
  details : Outcome
  commit : Outcome
  rollback : Outcome
  bad : Bool
  orderbook_log_id : Nat
  deriving DecidableEq

/-- The server does not carry out the command. -/
def reject (o : Outcome) : Outcome :=
  { o with course := match o.course with
    | .answered => .refused
    | .broken _ => .broken false
    | course => course }

namespace Calls

/-- How a command goes. An empty `VALUES` list is a syntax error. -/
def outcome (calls : Calls) (cmd : Command Statement) : Outcome :=
  match cmd.query with
  | .start => calls.start
  | .commit => calls.commit
  | .rollback => calls.rollback
  | .data (.insertLog _) => calls.log
  | .data (.insertDetails groups _) => if groups = [] then reject calls.details else calls.details
  -- not sent by the writer
  | .control _ => calls.log

/-- What is decided about an operation. -/
def choice (calls : Calls) (op : Op Statement) : Choice where
  found := calls.found
  busy := calls.busy
  connected := calls.connected
  outcome := match op with
    | .exec cmd => calls.outcome cmd
    | _ => calls.start
  bad := calls.bad

/-- The environment of a round. -/
def handler (calls : Calls) (op : Op Statement) (v : View Statement) :
    Option (Ans op × View Statement) :=
  respond (calls.choice op) op v

end Calls

/-- The rows of the two tables. -/
structure Rows where
  orderbook_log : List LogRow
  orderbook_log_details : List DetailRow
  deriving DecidableEq

/-- The rows after a round that made these statements durable. -/
def Rows.commit (rows : Rows) (id : Nat) (made : List Statement) : Rows where
  orderbook_log := rows.orderbook_log ++ made.flatMap (Statement.logRows id)
  orderbook_log_details := rows.orderbook_log_details ++ made.flatMap Statement.detailRows

/-- The loop until the queue is empty or an exception leaves it: the rows then, and what is still in
the queue. The queue lists what `push` has put into it, the oldest entry first, each with what the
environment does in its round. -/
def start (rows : Rows) : List (QueueEntry ℚ × Calls) → Rows × List (QueueEntry ℚ × Calls)
  | [] => (rows, [])
  | (entry, calls) :: queue_ =>
    match (round entry calls.orderbook_log_id).run.run calls.handler .new with
    | some (.ok _, tr) => start (rows.commit calls.orderbook_log_id tr.trace.made) queue_
    | some (.error _, tr) => (rows.commit calls.orderbook_log_id tr.trace.made, queue_)
    | none => (rows, queue_)

end DemoManager.OrderbookQueueWriter

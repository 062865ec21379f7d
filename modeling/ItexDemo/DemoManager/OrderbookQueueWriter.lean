import ItexDemo.DemoManager.HttpServerHandler
import ItexDemo.Quant.Tables

/-!
# The statements of `OrderbookQueueWriter::start`
-/

namespace DemoManager.OrderbookQueueWriter

open Quant

/-- `sqldb::to_string` for a double: `std::to_string` has six decimals. -/
def toString (value : ℚ) : List Char := Decimal.toFixed 6 value

/-- The parameters of the first `INSERT`. -/
def logParams (entry : QueueEntry ℚ) : List (List Char) :=
  [Decimal.digits entry.security_id.toNat, toString entry.timestamp]

/-- The groups `($1, $2, $3), …` that the loop appends to `insert_statement`. -/
def insertGroups (orderbook_size : Nat) : List (Nat × Nat × Nat) :=
  (List.range orderbook_size).map fun i => (i * 3 + 1, i * 3 + 2, i * 3 + 3)

/-- The parameters that the same loop appends to `pl`. -/
def detailParams (orderbook_log_id : Nat) (entry : QueueEntry ℚ) : List (List Char) :=
  entry.levels.flatMap fun level =>
    [Decimal.digits orderbook_log_id, toString level.1, toString level.2]

/-- What one round of the loop does to the tables when the server accepts its statements: the id
of the new log row and the tables after the commit. -/
def storeEntry (t : Tables) (entry : QueueEntry ℚ) : Option (Nat × Tables) := do
  let (orderbook_log_id, t) ← t.insertLog (logParams entry)
  let t ← t.insertDetails (insertGroups entry.prices.length) (detailParams orderbook_log_id entry)
  pure (orderbook_log_id, t)

/-- Rounds for further entries. A round whose statements are rejected leaves nothing but a gap in
the sequence. -/
def storeEntries (t : Tables) (entries : List (QueueEntry ℚ)) : Tables :=
  entries.foldl (fun t entry =>
    match storeEntry t entry with
    | some (_, t') => t'
    | none => t.skipId) t

end DemoManager.OrderbookQueueWriter

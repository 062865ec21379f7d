import ItexDemo.Lib.Decimal
import ItexDemo.Lib.StdSort
import ItexDemo.Quant.Utils

/-!
# The query of `Utils::preload_workset_async`

The tables with the values that the server holds: prices, volumes and timestamps are of type
`DOUBLE PRECISION`, ids of type `BIGINT`, and every column that is no primary key may be `NULL`. A
parameter is sent as text, and the server reads it as the type that the statement asks for.
`Conversions` are the conversions of the server that may round. Of the loop the statistics are left
out, apart from their accesses to the entry and to `avg_volumes`.
-/

namespace Quant.Preload

/-- A row of `orderbook_log`; `none` is `NULL`. -/
structure LogRow where
  id : Nat
  security_id : Option Nat
  timestamp : Option ℚ
  deriving DecidableEq

/-- A row of `orderbook_log_details`. -/
structure DetailRow where
  orderbook_log_id : Option Nat
  price : Option ℚ
  volume : Option ℚ
  deriving DecidableEq

/-- The tables. `securities` has the columns `id` and `alias_id`. The keys come from sequences. -/
structure Database where
  securities : List (Nat × Option Int)
  orderbook_log : List LogRow
  orderbook_log_details : List DetailRow
  /-- `PRIMARY KEY`. -/
  securities_key : StdSort.KeyNodup Prod.fst securities
  orderbook_log_key : StdSort.KeyNodup LogRow.id orderbook_log
  /-- `REFERENCES securities (id)`. -/
  security_exists : ∀ row ∈ orderbook_log, ∀ id ∈ row.security_id,
    ∃ security ∈ securities, security.1 = id

/-- The conversions to `DOUBLE PRECISION`, from it to `NUMERIC`, and to the text of a result, given
by the number that is read from this text. -/
structure Conversions where
  float8 : ℚ → ℚ
  numeric : ℚ → ℚ
  text : ℚ → ℚ

/-- A row of the result. -/
structure OrderbookResult where
  id : Nat
  alias_id : Option Int
  timestamp : Option ℚ
  deriving DecidableEq

/-- `orderbook_log AS ol INNER JOIN securities AS s ON ol.security_id = s.id`. -/
def joined (db : Database) : List OrderbookResult :=
  db.orderbook_log.flatMap fun ol =>
    (db.securities.filter fun s => ol.security_id = some s.1).map fun s =>
      { id := ol.id, alias_id := s.2, timestamp := ol.timestamp }

/-- The comparison of a `WHERE`, which a `NULL` does not meet. -/
def above (bound : ℚ) (timestamp : Option ℚ) : Bool := timestamp.any fun value => value > bound

/-- The value of a `BIGINT` that is not negative. -/
def bigint (n : Int) : Option Nat := if 0 ≤ n ∧ n < 2 ^ 63 then some n.toNat else none

/-- `sqldb::make_params(capacity, offset, after_timestamp)`. -/
def makeParams (capacity offset : Nat) (after_timestamp : ℚ) : List (List Char) :=
  [Decimal.digits capacity, Decimal.digits offset, Decimal.toFixed 6 after_timestamp]

/-- The parameter `$n`. -/
def param (params : List (List Char)) (n : Nat) : Option (List Char) := params[n - 1]?

/-- `$1`, which the comparison with a timestamp makes a `DOUBLE PRECISION`. -/
def firstParam (server : Conversions) (params : List (List Char)) : Option ℚ := do
  let text ← param params 1
  let value ← Decimal.stod text
  pure (server.float8 value)

/-- `$2`, a `BIGINT`. -/
def secondParam (params : List (List Char)) : Option Nat := do
  let text ← param params 2
  let value ← (Decimal.stoull text).toOption
  bigint value

/-- `$3::numeric`. -/
def thirdParam (params : List (List Char)) : Option ℚ := do
  let text ← param params 3
  Decimal.stod text

variable (server : Conversions)

section Query

variable (sorter : StdSort OrderbookResult)

/-- `WHERE ol.timestamp > bound ORDER BY id DESC`. -/
def rankedRows (db : Database) (bound : ℚ) : List OrderbookResult :=
  sorter.sort (fun a b => decide (a.id > b.id))
    ((joined db).filter fun row => above bound row.timestamp)

/-- `LIMIT limit OFFSET offset`, then `WHERE timestamp::numeric > after ORDER BY id ASC`. -/
def queryRows (db : Database) (bound : ℚ) (limit offset : Nat) (after : ℚ) :
    List OrderbookResult :=
  sorter.sort (fun a b => decide (a.id < b.id))
    ((((rankedRows sorter db bound).drop offset).take limit).filter
      fun row => above after (row.timestamp.map server.numeric))

/-- The query: `$1` stands in the inner `WHERE` and for the limit. No result when a value is not of
the type that is asked for. -/
def selectOrderbooks (db : Database) (params : List (List Char)) :
    Option (List OrderbookResult) := do
  let bound ← firstParam server params
  let limit ← bigint (Decimal.roundHalfEven bound)
  let offset ← secondParam params
  let after ← thirdParam params
  pure (queryRows server sorter db bound limit offset after)

end Query

/-! ## The loop over the rows -/

/-- `copy_to(id, security_id, timestamp)`; the empty text of a `NULL` is refused. -/
def OrderbookResult.copyTo (row : OrderbookResult) : Option (Nat × Nat × ℚ) := do
  let alias_id ← row.alias_id
  let timestamp ← row.timestamp
  pure (row.id, (alias_id % 2 ^ 64).toNat, server.text timestamp)

/-- `copy_to(price, volume)`. -/
def DetailRow.copyTo (row : DetailRow) : Option (ℚ × ℚ) := do
  let price ← row.price
  let volume ← row.volume
  pure (server.text price, server.text volume)

/-- The order by the price, in which `NULL` is last. -/
def priceBefore (a b : DetailRow) : Bool :=
  match a.price, b.price with
  | some p, some q => decide (p < q)
  | some _, none => true
  | none, _ => false

/-- The rows of the details that refer to a log row. -/
def details (db : Database) (orderbook_log_id : Nat) : List DetailRow :=
  db.orderbook_log_details.filter fun row => row.orderbook_log_id = some orderbook_log_id

/-- The sorting of the details and of the levels, and the sum for `avg_volumes`. -/
structure Routines where
  detailSorter : StdSort DetailRow
  levelSorter : StdSort (ℚ × ℚ)
  addAbs : ℚ → ℚ → ℚ

variable (routines : Routines)

/-- What is pushed for a row, with the log id, and `avg_volumes` after it. After the push the
statistics read `bids()[0]` and `asks()[0]`. -/
def loadRecord (db : Database) (orderbook_log_record : OrderbookResult) (avg_volumes : List ℚ) :
    Option ((Nat × OrderbookEntry ℚ) × List ℚ) := do
  let (id, security_id, timestamp) ← orderbook_log_record.copyTo server
  let levels ← (routines.detailSorter.sort priceBefore (details db id)).mapM (DetailRow.copyTo server)
  let (workset_entry, avg_volumes) ←
    Utils.preloadEntry routines.levelSorter routines.addAbs (security_id : ℚ) timestamp levels avg_volumes
  if workset_entry.orderbook_depth_ = 0 then none
  else pure ((id, workset_entry), avg_volumes)

/-- The loop; no result when a row makes it throw or access what is outside of the entry. -/
def loadRecords (db : Database) :
    List OrderbookResult → List ℚ → Option (List (Nat × OrderbookEntry ℚ))
  | [], _ => some []
  | record :: records, avg_volumes => do
    let (entry, avg_volumes) ← loadRecord server routines db record avg_volumes
    let entries ← loadRecords db records avg_volumes
    pure (entry :: entries)

/-- `last_timestamp`, and the value that is returned when there is no row. -/
def lastTimestamp (orderbook_results : List OrderbookResult) (after_timestamp : ℚ) : Option ℚ := do
  let num_rows := orderbook_results.length
  if num_rows = 0 then pure after_timestamp
  else
    let row ← orderbook_results[num_rows - 1]?
    let timestamp ← row.timestamp
    pure (server.text timestamp)

variable (sorter : StdSort OrderbookResult)

/-- `Utils::preload_workset_async`: what it pushes, with the log ids, and what it returns. -/
def preload (db : Database) (capacity offset : Nat) (after_timestamp : ℚ) :
    Option (List (Nat × OrderbookEntry ℚ) × ℚ) := do
  let orderbook_results ←
    selectOrderbooks server sorter db (makeParams capacity offset after_timestamp)
  let entries ← loadRecords server routines db orderbook_results []
  let last_timestamp ← lastTimestamp server orderbook_results after_timestamp
  pure (entries, last_timestamp)

/-! ## The window that is asked for -/

/-- The rows with a later timestamp, without the `offset` newest ones, at most `capacity` of them, in
ascending order of their ids. -/
def window (rowSorter : StdSort LogRow) (db : Database) (capacity offset : Nat)
    (after_timestamp : ℚ) : List LogRow :=
  (((rowSorter.sort (fun a b => decide (a.id > b.id))
    (db.orderbook_log.filter fun row => above after_timestamp row.timestamp)).drop offset).take
      capacity).reverse

/-- The row of the log that an entry comes from, as its id and its timestamp. -/
def loadedRow (entry : Nat × OrderbookEntry ℚ) : Nat × Option ℚ :=
  (entry.1, entry.2.data_[OrderbookEntry.timestamp]?)

/-- The same columns of a log row. -/
def LogRow.logged (row : LogRow) : Nat × Option ℚ := (row.id, row.timestamp)

/-- The loaded rows are those of the window, and the timestamp of the last of them is returned. -/
def LoadsWindow (rowSorter : StdSort LogRow) (db : Database) (capacity offset : Nat)
    (after_timestamp : ℚ) : Prop :=
  ∃ entries last_timestamp,
    preload server routines sorter db capacity offset after_timestamp =
      some (entries, last_timestamp) ∧
    entries.map loadedRow =
      (window rowSorter db capacity offset after_timestamp).map LogRow.logged ∧
    last_timestamp = ((window rowSorter db capacity offset after_timestamp).getLast?.bind
      LogRow.timestamp).getD after_timestamp

end Quant.Preload

import ItexDemo.Lib.AssocMap
import ItexDemo.Lib.Decimal
import ItexDemo.Lib.StdSort

/-!
# The tables of `init-demo.sql`

The statements that the demo runs on them. A column holds the text of the parameter that was stored
in it, and a query returns this text: a `DOUBLE PRECISION` does so, up to zeros at the end, for
numbers of at most 15 digits, and these tables are taken to do it for every number. The log ids come
from a sequence, which ends at `2 ^ 63 - 1`.
-/

namespace Quant

/-- A row of `orderbook_log`. -/
structure LogRow where
  id : Nat
  security_id : List Char
  timestamp : List Char
  deriving DecidableEq

/-- A row of `orderbook_log_details`. -/
structure DetailRow where
  orderbook_log_id : List Char
  price : List Char
  volume : List Char
  deriving DecidableEq

/-- The tables. `securities` maps an id to the `alias_id`. -/
structure Tables where
  securities : List (Nat × Nat)
  orderbook_log : List LogRow
  orderbook_log_details : List DetailRow
  /-- What the sequence of the log ids returns next. -/
  next_id : Nat
  next_id_le : next_id ≤ 2 ^ 63
  log_below : ∀ row ∈ orderbook_log, row.id < next_id
  details_below : ∀ row ∈ orderbook_log_details, ∃ id, id < next_id ∧
    row.orderbook_log_id = Decimal.digits id

namespace Tables

/-- `INSERT INTO orderbook_log (security_id, timestamp) VALUES ($1, $2) RETURNING id`. -/
def insertLog (t : Tables) : List (List Char) → Option (Nat × Tables)
  | [security_id, timestamp] =>
    if h : t.next_id < 2 ^ 63 then
      some (t.next_id, { t with
        orderbook_log := t.orderbook_log ++
          [{ id := t.next_id, security_id := security_id, timestamp := timestamp }]
        next_id := t.next_id + 1
        next_id_le := h
        log_below := by
          intro row hrow
          rcases List.mem_append.mp hrow with hold | hnew
          · exact Nat.lt_succ_of_lt (t.log_below row hold)
          · rw [List.mem_singleton.mp hnew]
            exact Nat.lt_succ_self _
        details_below := by
          intro row hrow
          obtain ⟨id, hid, heq⟩ := t.details_below row hrow
          exact ⟨id, Nat.lt_succ_of_lt hid, heq⟩ })
    else none
  | _ => none

/-- A value of the sequence that is lost with a transaction. -/
def skipId (t : Tables) : Tables :=
  if h : t.next_id < 2 ^ 63 then
    { t with
      next_id := t.next_id + 1
      next_id_le := h
      log_below := fun row hrow => Nat.lt_succ_of_lt (t.log_below row hrow)
      details_below := by
        intro row hrow
        obtain ⟨id, hid, heq⟩ := t.details_below row hrow
        exact ⟨id, Nat.lt_succ_of_lt hid, heq⟩ }
  else t

/-- The row that a group of a `VALUES` list stands for, with the parameters numbered from 1. -/
def valueRow (params : List (List Char)) (group : Nat × Nat × Nat) : Option DetailRow := do
  let orderbook_log_id ← params[group.1 - 1]?
  let price ← params[group.2.1 - 1]?
  let volume ← params[group.2.2 - 1]?
  pure { orderbook_log_id := orderbook_log_id, price := price, volume := volume }

/-- `INSERT INTO orderbook_log_details (orderbook_log_id, price, volume) VALUES …` with the groups
of the `VALUES` list. An empty list is a syntax error, and every row has to refer to a log row. -/
def insertDetails (t : Tables) (groups : List (Nat × Nat × Nat)) (params : List (List Char)) :
    Option Tables :=
  if groups = [] then none
  else
    match groups.mapM (valueRow params) with
    | none => none
    | some rows =>
      if h : ∀ row ∈ rows, ∃ log ∈ t.orderbook_log, row.orderbook_log_id = Decimal.digits log.id
      then
        some { t with
          orderbook_log_details := t.orderbook_log_details ++ rows
          details_below := by
            intro row hrow
            rcases List.mem_append.mp hrow with hold | hnew
            · exact t.details_below row hold
            · obtain ⟨log, hlog, heq⟩ := h row hnew
              exact ⟨log.id, t.log_below log hlog, heq⟩ }
      else none

/-- A row of the query over `orderbook_log`: the log id, the alias of the security and the
timestamp. -/
structure LogResult where
  id : Nat
  alias_id : Nat
  timestamp : List Char

/-- The join of `orderbook_log` and `securities`. -/
def joinSecurity (t : Tables) (row : LogRow) : Option LogResult :=
  (t.securities.find? fun security => row.security_id = Decimal.digits security.1).map
    fun security => { id := row.id, alias_id := security.2, timestamp := row.timestamp }

/-- A timestamp in a comparison. -/
def after (bound : ℚ) (row : LogResult) : Bool :=
  match Decimal.stod row.timestamp with
  | some timestamp => timestamp > bound
  | none => false

variable (logSorter : StdSort LogResult) (detailSorter : StdSort DetailRow)

/-- The query over `orderbook_log`. Its first parameter is used twice, as a bound of the timestamps
and as the limit. -/
def selectLog (t : Tables) (capacity offset : Nat) (after_timestamp : ℚ) : List LogResult :=
  let joined := (t.orderbook_log.filterMap t.joinSecurity).filter (after capacity)
  let newest := ((logSorter.sort (fun a b => decide (a.id > b.id)) joined).drop offset).take capacity
  logSorter.sort (fun a b => decide (a.id < b.id)) (newest.filter (after after_timestamp))

/-- The value that a column of prices is ordered by. -/
def priceValue (row : DetailRow) : ℚ := (Decimal.stod row.price).getD 0

/-- `SELECT price, volume FROM orderbook_log_details WHERE orderbook_log_id = $1 ORDER BY price`. -/
def selectDetails (t : Tables) (orderbook_log_id : Nat) : List DetailRow :=
  detailSorter.sort (fun a b => decide (priceValue a < priceValue b))
    (t.orderbook_log_details.filter
      fun row => row.orderbook_log_id = Decimal.digits orderbook_log_id)

end Tables

end Quant

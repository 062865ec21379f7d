import Mathlib.Algebra.Ring.Defs
import Mathlib.Data.List.DropRight
import ItexDemo.Lib.AssocMap
import ItexDemo.Lib.Loop

/-!
# `alorgate.Orderbook`

The gate between the order book table of a security and the manager. `D` stands for `double`, and
the text of `JsonConvert.SerializeObject` is a parameter. The columns of a row have the types that
the casts ask for. What the handlers print and measure is left out, and so is the response of the
manager.
-/

namespace Alorgate

variable {D B : Type*}

/-- `ActiveSecuritiesEntry`. -/
structure ActiveSecuritiesEntry where
  id : Int32
  alias_id : Int32
  sec_board : List Char
  sec_code : List Char

/-- The columns of a `DataRow` that `AddRow` reads. -/
structure DataRow (D : Type*) where
  Price : D
  Quantity : Int32
  BuySell : List Char

/-- `Char.IsWhiteSpace`. -/
def isWhiteSpace (c : Char) : Bool :=
  let n := c.toNat
  (9 ≤ n && n ≤ 13) || n = 0x20 || n = 0x85 || n = 0xa0 || n = 0x1680 || (0x2000 ≤ n && n ≤ 0x200a) ||
    n = 0x2028 || n = 0x2029 || n = 0x202f || n = 0x205f || n = 0x3000

/-- `String.Trim()`. -/
def trim (s : List Char) : List Char := (s.dropWhile isWhiteSpace).rdropWhile isWhiteSpace

/-- `Orderbook.Data`. -/
structure Data (D : Type*) where
  prices : List D
  volumes : List D

/-- `Orderbook`. -/
structure Orderbook (D : Type*) where
  security : ActiveSecuritiesEntry
  max_depth_ : Int32
  orderbook_rows_ : Data D
  row_index_ : Nat

/-- How a handler ends. -/
inductive Outcome (B : Type*) where
  | returned
  /-- The request was sent. -/
  | posted (resource : List Char) (body : B)
  /-- `IndexOutOfRangeException`. -/
  | indexOutOfRange
  /-- `KeyNotFoundException`. -/
  | keyNotFound

/-- What the table raises. The end of a frame comes with `securities_.IsTradeAllowed`. -/
inductive TableEvent (D : Type*) where
  | addRow (dr : DataRow D)
  | updateRow (dr : DataRow D)
  | clearData
  | beginFrame
  | endFrame (IsTradeAllowed : List (List Char × Bool))

namespace Orderbook

/-- `max_depth * 2`, as a number of elements. -/
def arraySize (max_depth : Int32) : Nat := (max_depth * 2).toInt.toNat

section Handlers

variable [MulOneClass D] [HasDistribNeg D] [Zero D] [IntCast D]

/-- The first `size` elements set to zero. -/
def zeroFirst (size : Nat) (xs : List D) : List D := List.replicate size 0 ++ xs.drop size

/-- `clear_orderbook_rows()`. -/
def clear_orderbook_rows (orderbook : Orderbook D) : Orderbook D :=
  { orderbook with
    orderbook_rows_ :=
      { prices := zeroFirst (arraySize orderbook.max_depth_) orderbook.orderbook_rows_.prices
        volumes := zeroFirst (arraySize orderbook.max_depth_) orderbook.orderbook_rows_.volumes }
    row_index_ := 0 }

/-- The constructor; `new double[size]` throws when the size is negative. -/
def new (security : ActiveSecuritiesEntry) (max_depth : Int32) : Option (Orderbook D) :=
  if (max_depth * 2).toInt < 0 then none
  else some (clear_orderbook_rows
    { security := security
      max_depth_ := max_depth
      orderbook_rows_ :=
        { prices := List.replicate (arraySize max_depth) 0
          volumes := List.replicate (arraySize max_depth) 0 }
      row_index_ := 0 })

/-- The volume that `AddRow` stores. -/
def volume (dr : DataRow D) : D :=
  (dr.Quantity.toInt : D) * (if trim dr.BuySell = ['B'] then 1 else -1)

/-- `AddRow`. -/
def AddRow (orderbook : Orderbook D) (dr : DataRow D) : Orderbook D × Outcome B :=
  match Loop.store orderbook.orderbook_rows_.prices orderbook.row_index_ dr.Price with
  | none => (orderbook, .indexOutOfRange)
  | some prices =>
    let rows := { orderbook.orderbook_rows_ with prices := prices }
    match Loop.store rows.volumes orderbook.row_index_ (volume dr) with
    | none => ({ orderbook with orderbook_rows_ := rows }, .indexOutOfRange)
    | some volumes =>
      ({ orderbook with
          orderbook_rows_ := { rows with volumes := volumes }
          row_index_ := orderbook.row_index_ + 1 }, .returned)

/-- `ClearData`. -/
def ClearData (orderbook : Orderbook D) : Orderbook D × Outcome B :=
  (orderbook.clear_orderbook_rows, .returned)

/-- `BeginFrame`. -/
def BeginFrame (orderbook : Orderbook D) : Orderbook D × Outcome B := (orderbook, .returned)

/-- The path of the request. -/
def resource (security : ActiveSecuritiesEntry) : List Char :=
  "itex-demo/securities/".toList ++ (toString security.id).toList ++ "/orderbook".toList

/-- `EndFrame`. -/
def EndFrame (SerializeObject : Data D → B) (orderbook : Orderbook D)
    (IsTradeAllowed : List (List Char × Bool)) : Orderbook D × Outcome B :=
  match AssocMap.find IsTradeAllowed orderbook.security.sec_code with
  | none => (orderbook, .keyNotFound)
  | some false => (orderbook, .returned)
  | some true =>
    (orderbook, .posted (resource orderbook.security) (SerializeObject orderbook.orderbook_rows_))

/-- The handlers that `subscribe` registers: `AddRow` also gets the updates. -/
def handle (SerializeObject : Data D → B) (orderbook : Orderbook D) :
    TableEvent D → Orderbook D × Outcome B
  | .addRow dr => orderbook.AddRow dr
  | .updateRow dr => orderbook.AddRow dr
  | .clearData => orderbook.ClearData
  | .beginFrame => orderbook.BeginFrame
  | .endFrame IsTradeAllowed => orderbook.EndFrame SerializeObject IsTradeAllowed

/-- The order book after events; an exception leaves it to the next one. -/
def after (SerializeObject : Data D → B) (orderbook : Orderbook D) (events : List (TableEvent D)) :
    Orderbook D :=
  events.foldl (fun orderbook event => (orderbook.handle SerializeObject event).1) orderbook

end Handlers

end Orderbook

end Alorgate

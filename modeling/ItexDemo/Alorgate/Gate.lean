import ItexDemo.Alorgate.Orderbook

/-!
# `alorgate.Securities`

The table of the securities and the order books that are made for it. The tables of a slot raise their
events one after the other; `StartsWith` stands for `String.StartsWith`, which depends on the culture.
What starts a new session, and the tables whose rows are only printed, are left out.
-/

namespace Alorgate

variable {D B : Type*}

/-- The columns of a `DataRow` that `Securities` reads. -/
structure SecurityRow where
  SecBoard : List Char
  SecCode : List Char
  TradingStatus : List Char

/-- What the table of an order book raises. -/
inductive BookEvent (D : Type*) where
  | addRow (dr : DataRow D)
  | updateRow (dr : DataRow D)
  | clearData
  | beginFrame
  | endFrame

/-- The handler is called with this. -/
def BookEvent.toTableEvent (IsTradeAllowed : List (List Char × Bool)) : BookEvent D → TableEvent D
  | addRow dr => .addRow dr
  | updateRow dr => .updateRow dr
  | clearData => .clearData
  | beginFrame => .beginFrame
  | endFrame => .endFrame IsTradeAllowed

/-- What the tables of the slot raise. -/
inductive SlotEvent (D : Type*) where
  /-- The table `SECURITIES` has a new row. -/
  | addSecurity (dr : SecurityRow)
  | updateSecurity (dr : SecurityRow)
  /-- The table of order book `i`. -/
  | orderbook (i : Nat) (event : BookEvent D)

/-- `Securities`, with the order books that it has made, which the tables hold. -/
structure Securities (D : Type*) where
  IsTradeAllowed : List (List Char × Bool)
  orderbooks : List (Orderbook D)

namespace Securities

/-- The constructor. -/
def new : Securities D where
  IsTradeAllowed := []
  orderbooks := []

/-- The security of an order book. -/
def entry (dr : SecurityRow) : ActiveSecuritiesEntry where
  id := 0
  alias_id := 0
  sec_board := dr.SecBoard
  sec_code := dr.SecCode

section Handlers

variable [MulOneClass D] [HasDistribNeg D] [Zero D] [IntCast D]
  (StartsWith : List Char → List Char → Bool) (SerializeObject : Data D → B)

/-- The securities that get an order book. -/
def isTraded (dr : SecurityRow) : Bool := StartsWith dr.SecCode "Si-9.16 ".toList

/-- `TradingStatus` allows to trade. -/
def isOpen (dr : SecurityRow) : Bool := StartsWith dr.TradingStatus "T".toList

/-- `AddRow`. -/
def AddRow (securities : Securities D) (dr : SecurityRow) : Securities D :=
  if isTraded StartsWith dr then
    { IsTradeAllowed := AssocMap.assign securities.IsTradeAllowed dr.SecCode (isOpen StartsWith dr)
      orderbooks := securities.orderbooks ++ (Orderbook.new (entry dr) 50).toList }
  else securities

/-- `UpdateRow`. -/
def UpdateRow (securities : Securities D) (dr : SecurityRow) : Securities D :=
  { securities with
    IsTradeAllowed := AssocMap.assign securities.IsTradeAllowed dr.SecCode (isOpen StartsWith dr) }

/-- The handlers of an event. An order book that has not been made has no table. -/
def handle (securities : Securities D) : SlotEvent D → Option (Securities D × Outcome B)
  | .addSecurity dr => some (securities.AddRow StartsWith dr, .returned)
  | .updateSecurity dr => some (securities.UpdateRow StartsWith dr, .returned)
  | .orderbook i event => (securities.orderbooks[i]?).map fun orderbook =>
    let r := orderbook.handle SerializeObject (event.toTableEvent securities.IsTradeAllowed)
    ({ securities with orderbooks := securities.orderbooks.set i r.1 }, r.2)

end Handlers

end Securities

/-! ## What the events say -/

section Events

variable (StartsWith : List Char → List Char → Bool)

/-- The states of trading that the rows of `SECURITIES` have given, each with its security. -/
def statuses (events : List (SlotEvent D)) : List (List Char × Bool) :=
  events.filterMap fun
    | .addSecurity dr =>
      if Securities.isTraded StartsWith dr then some (dr.SecCode, Securities.isOpen StartsWith dr)
      else none
    | .updateSecurity dr => some (dr.SecCode, Securities.isOpen StartsWith dr)
    | .orderbook _ _ => none

/-- The securities for which an order book was made. -/
def subscribed (events : List (SlotEvent D)) : List ActiveSecuritiesEntry :=
  events.filterMap fun
    | .addSecurity dr =>
      if Securities.isTraded StartsWith dr then some (Securities.entry dr) else none
    | _ => none

/-- What the table of order book `i` has raised. -/
def tableEvents (i : Nat) (events : List (SlotEvent D)) : List (TableEvent D) :=
  events.filterMap fun
    | .orderbook j event => if j = i then some (event.toTableEvent []) else none
    | _ => none

end Events

end Alorgate

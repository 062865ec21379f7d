import Mathlib.Data.List.Basic
import Mathlib.Order.Lattice

/-!
# `itex::quant::OrderbookEntry`

One buffer of doubles: the security id, the timestamp, then `orderbook_depth_` rows of bids and as
many rows of asks, a row being a price and a volume. `D` stands for `double`.
-/

namespace Quant

/-- An entry and its buffer, whose size the constructor computes from the depth. -/
structure OrderbookEntry (D : Type*) where
  orderbook_depth_ : Nat
  data_ : List D
  size_eq : data_.length = orderbook_depth_ * 2 * 2 + 2

namespace OrderbookEntry

variable {D : Type*}

/-- `OrderbookEntry(size_t orderbook_depth)`, which ends with `clear()`. -/
def new [Zero D] (orderbook_depth : Nat) : OrderbookEntry D where
  orderbook_depth_ := orderbook_depth
  data_ := List.replicate (orderbook_depth * 2 * 2 + 2) 0
  size_eq := List.length_replicate

/-- `size()`. -/
def size (e : OrderbookEntry D) : Nat := e.data_.length

/-- `data_[i] = x`; `none` outside of the buffer. -/
def store (e : OrderbookEntry D) (i : Nat) (x : D) : Option (OrderbookEntry D) :=
  if i < e.size then
    some { e with data_ := e.data_.set i x, size_eq := by rw [List.length_set, e.size_eq] }
  else none

/-- The index of `security_id()`. -/
def securityId : Nat := 0

/-- The index of `timestamp()`. -/
def timestamp : Nat := 1

/-- The index that `bids()` points to. -/
def bids : Nat := 2

/-- The index that `asks()` points to. -/
def asks (e : OrderbookEntry D) : Nat := 2 + e.orderbook_depth_ * 2

/-- The `n` rows from an index on. -/
def rows [Zero D] (e : OrderbookEntry D) (base n : Nat) : List (D × D) :=
  (List.range n).map fun i => (e.data_.getD (base + i * 2) 0, e.data_.getD (base + (i * 2 + 1)) 0)

/-- The rows of the bids. -/
def bidRows [Zero D] (e : OrderbookEntry D) : List (D × D) := e.rows bids e.orderbook_depth_

/-- The rows of the asks. -/
def askRows [Zero D] (e : OrderbookEntry D) : List (D × D) := e.rows e.asks e.orderbook_depth_

end OrderbookEntry

/-- The loop over the rows of an order book that both builders have: bids have a positive volume,
asks a negative one. -/
def splitRows {D : Type*} [LinearOrder D] [Zero D] (book : List (D × D)) :
    List (D × D) × List (D × D) :=
  book.foldl (fun sides row =>
    if row.2 > 0 then (sides.1 ++ [row], sides.2)
    else if row.2 < 0 then (sides.1, sides.2 ++ [row])
    else sides) ([], [])

/-! ## What an entry should show -/

section Shows

variable {D : Type*} [LinearOrder D] [Zero D]

/-- The rows of a side: the given rows in the order of their prices, followed by zero rows. -/
def SideShows (le : D → D → Prop) (side rows : List (D × D)) : Prop :=
  ∃ sorted : List (D × D), sorted.Perm side ∧ (sorted.Pairwise fun a b => le a.1 b.1) ∧
    rows = sorted ++ List.replicate (rows.length - sorted.length) (0, 0)

/-- The entry has half as many rows on each side as the book has levels and shows the bids by
falling and the asks by rising prices. -/
structure OrderbookEntry.Shows (e : OrderbookEntry D) (book : List (D × D)) : Prop where
  depth : e.orderbook_depth_ = book.length / 2
  bids : SideShows (fun p q => q ≤ p) (book.filter fun row => row.2 > 0) e.bidRows
  asks : SideShows (fun p q => p ≤ q) (book.filter fun row => row.2 < 0) e.askRows

/-- At most half of the levels are bids and at most half are asks. -/
def Fits (book : List (D × D)) : Prop :=
  (book.filter fun row => row.2 > 0).length ≤ book.length / 2 ∧
    (book.filter fun row => row.2 < 0).length ≤ book.length / 2

end Shows

end Quant

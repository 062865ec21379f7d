import Mathlib.Data.Rat.Init
import ItexDemo.Lib.AssocMap
import ItexDemo.Lib.Loop
import ItexDemo.Quant.OrderbookEntry

/-!
# The columns of `Utils::draw_workset_png`

Every security has three flat arrays of `x_size` columns. The first entry that is seen of a security
gives the number of its rows; then each entry of the workset fills one column of every security.

The operations on `double` are parameters. `none` stands for a value that was read outside of an
entry, and for a drawing that accesses something outside of its buffer. The elements of `sec_map` do
not depend on each other, so their order is not modelled. The entries that are drawn are in memory
together and are not smaller than a column, so the sizes of the arrays are numbers.
-/

namespace Quant.Drawing

/-- The operations on `double` that the drawing uses. `abs` is the overload that the calls are
resolved to. -/
structure Arithmetic (D : Type*) where
  literal : ℚ → D
  /-- `(double)i`. -/
  ofSize : Nat → D
  /-- `static_cast<unsigned long long>`. -/
  toId : D → Nat
  add : D → D → D
  sub : D → D → D
  div : D → D → D
  neg : D → D
  abs : D → D
  log2 : D → D
  lt : D → D → Bool
  ge : D → D → Bool

/-- `SecurityWorksetData`. -/
structure SecurityWorksetData (D : Type*) where
  x : List D
  y : List D
  z : List D
  y_size : Nat
  price_origin : Option D
  last_non_zero_price : Option D

/-- `std::map<unsigned long long, SecurityWorksetData>`. -/
abbrev SecMap (D : Type*) := List (Nat × SecurityWorksetData D)

variable {D : Type*} (a : Arithmetic D)

/-- `static_cast<unsigned long long>(e.security_id())`. -/
def secId (e : OrderbookEntry D) : Nat :=
  a.toId (e.data_.get ⟨OrderbookEntry.securityId, by rw [e.size_eq]; exact Nat.succ_pos _⟩)

/-! ## The first entry of a security -/

/-- `(e.bids()[0] + e.asks()[0]) / 2.0`. -/
def priceOrigin (e : OrderbookEntry D) : Option D := do
  let bid ← e.data_[OrderbookEntry.bids]?
  let ask ← e.data_[e.asks]?
  pure (a.div (a.add bid ask) (a.literal 2))

/-- `SecurityWorksetData swd` for a security that is not in `sec_map`. -/
def newData (x_size : Nat) (e : OrderbookEntry D) : SecurityWorksetData D :=
  let y_size := e.orderbook_depth_ * 2
  let price_origin := priceOrigin a e
  { x := List.replicate (x_size * y_size * 1) (a.literal 1000000)
    y := List.replicate (x_size * y_size * 1) (a.literal 1000000)
    z := List.replicate (x_size * y_size * 1) (a.literal 1000000)
    y_size := y_size
    price_origin := price_origin
    last_non_zero_price := price_origin }

/-- What the copying loop does with an entry after it has pushed it. -/
def note (x_size : Nat) (sec_map : SecMap D) (e : OrderbookEntry D) : SecMap D :=
  let sec_id := secId a e
  if AssocMap.find sec_map sec_id = none then
    AssocMap.emplace sec_map sec_id (newData a x_size e)
  else sec_map

/-- `sec_map` after the copying loop. -/
def noteAll (x_size : Nat) (popped : List (OrderbookEntry D)) : SecMap D :=
  popped.foldl (note a x_size) []

/-! ## The drawing loop -/

/-- `j < 50 ? 49 - j : j`. -/
def entryRow (j : Nat) : Nat := if j < 50 then 49 - j else j

/-- Row `j` of column `i`, for a security that the entry does not belong to. -/
def carryRow (x_size i j : Nat) (swd : SecurityWorksetData D) : Option (SecurityWorksetData D) := do
  let x ← Loop.store swd.x (i + x_size * j) (a.ofSize i)
  if i > 0 then
    let previous_y ← swd.y[(i - 1) + x_size * j]?
    let y ← Loop.store swd.y (i + x_size * j) previous_y
    let previous_z ← swd.z[(i - 1) + x_size * j]?
    let z ← Loop.store swd.z (i + x_size * j) previous_z
    pure { swd with x := x, y := y, z := z }
  else
    let y ← Loop.store swd.y (i + x_size * j) (a.literal 0)
    let z ← Loop.store swd.z (i + x_size * j) (a.literal 0)
    pure { swd with x := x, y := y, z := z }

/-- Column `i`, for a security that the entry does not belong to. -/
def carryColumn (x_size i : Nat) (swd : SecurityWorksetData D) : Option (SecurityWorksetData D) :=
  Loop.forRange 0 swd.y_size (carryRow a x_size i) swd

/-- The price that is drawn, which is `last_non_zero_price` as well after it. -/
def nonZeroPrice (last_non_zero_price : Option D) (price : D) : Option D :=
  if a.lt (a.abs price) (a.literal (1 / 1000)) then last_non_zero_price else some price

/-- `volume` before the logarithm is taken. -/
def limitedVolume (volume : D) : D :=
  let volume := a.abs volume
  let VOLUME_LIMIT := a.literal 500
  if a.ge volume (a.literal 0) then
    if a.lt (a.abs volume) VOLUME_LIMIT then volume else VOLUME_LIMIT
  else
    if a.lt (a.abs volume) VOLUME_LIMIT then volume else a.neg VOLUME_LIMIT

/-- The value of `z` for a volume. -/
def shownVolume (volume : D) : D :=
  let volume := limitedVolume a volume
  if a.ge volume (a.literal (1 / 1000)) then a.log2 volume else a.literal 0

/-- Row `j` of column `i`, for the security that the entry belongs to. -/
def drawRow (e : OrderbookEntry D) (x_size i j : Nat) (swd : SecurityWorksetData D) :
    Option (SecurityWorksetData D) := do
  let price ← e.data_[2 + entryRow j * 2]?
  let volume ← e.data_[2 + entryRow j * 2 + 1]?
  let price ← nonZeroPrice a swd.last_non_zero_price price
  let price_origin ← swd.price_origin
  let x ← Loop.store swd.x (i + x_size * j) (a.ofSize i)
  let y ← Loop.store swd.y (i + x_size * j) (a.sub price price_origin)
  let z ← Loop.store swd.z (i + x_size * j) (shownVolume a volume)
  pure { swd with x := x, y := y, z := z, last_non_zero_price := some price }

/-- What `operator[]` puts into a map for a new key. -/
def valueInitialized : SecurityWorksetData D where
  x := []
  y := []
  z := []
  y_size := 0
  price_origin := some (a.literal 0)
  last_non_zero_price := some (a.literal 0)

/-- One round of the drawing loop, with the entry that it has popped. -/
def drawColumn (x_size i : Nat) (e : OrderbookEntry D) (sec_map : SecMap D) :
    Option (SecMap D) := do
  let sec_id := secId a e
  let sec_map ← sec_map.mapM fun elt =>
    if elt.1 = sec_id then some elt
    else (carryColumn a x_size i elt.2).map fun swd => (elt.1, swd)
  let swd := (AssocMap.find sec_map sec_id).getD (valueInitialized a)
  let swd ← Loop.forRange 0 swd.y_size (drawRow a e x_size i) swd
  pure (AssocMap.assign sec_map sec_id swd)

/-- The first `n` rounds of the drawing loop, when it pops the entries of `window`. It waits forever
for an entry that is not there. -/
def drawColumns (x_size n : Nat) (window : List (OrderbookEntry D)) (sec_map : SecMap D) :
    Option (SecMap D) :=
  Loop.forRange 0 n
    (fun i sec_map => (window[i]?).bind fun e => drawColumn a x_size i e sec_map) sec_map

/-- The entries that the local workset is left with: the last `x_size` that were copied. -/
def window (x_size : Nat) (popped : List (OrderbookEntry D)) : List (OrderbookEntry D) :=
  popped.drop (popped.length - x_size)

end Quant.Drawing

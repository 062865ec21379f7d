import Mathlib.Data.List.Nodup
import Mathlib.Data.List.Perm.Subperm
import ItexDemo.Lib.Grid
import ItexDemo.Quant.Proofs.SnapshotProofs

/-!
# What the drawing loop reads and draws

The row that is drawn in row `j` is that of an entry with fifty rows or more; the number of rows comes
from the first entry of the security. Where the depths fit, every column shows its own entry and
carries the others forward.
-/

namespace Quant.Drawing

variable {D : Type*}

/-! ## The rows that are read -/

/-- The rows of an entry are each drawn once exactly when it has as many as are drawn, and at least
fifty or none. -/
theorem entryRow_perm_iff (y_size depth : Nat) :
    ((List.range y_size).map entryRow).Perm (List.range (depth * 2)) ↔
      y_size = depth * 2 ∧ (depth = 0 ∨ 25 ≤ depth) := by
  constructor
  · intro h
    have hlen : y_size = depth * 2 := by simpa using h.length_eq
    refine ⟨hlen, ?_⟩
    by_contra hdepth
    have hmem : entryRow 0 ∈ (List.range y_size).map entryRow :=
      List.mem_map_of_mem (List.mem_range.mpr (by omega))
    have hlt : 49 < depth * 2 := List.mem_range.mp (h.subset hmem)
    omega
  · rintro ⟨rfl, hdepth⟩
    have hinj : ∀ j ∈ List.range (depth * 2), ∀ k ∈ List.range (depth * 2),
        entryRow j = entryRow k → j = k := by
      intro j hj k hk h
      rw [List.mem_range] at hj hk
      unfold entryRow at h
      split_ifs at h <;> omega
    have hsub : (List.range (depth * 2)).map entryRow ⊆ List.range (depth * 2) := by
      intro row hrow
      obtain ⟨j, hj, rfl⟩ := List.mem_map.mp hrow
      rw [List.mem_range] at hj ⊢
      unfold entryRow
      split_ifs <;> omega
    have hnodup : ((List.range (depth * 2)).map entryRow).Nodup :=
      List.Nodup.map_on hinj List.nodup_range
    apply (List.subperm_of_subset hnodup hsub).perm_of_length_le
    rw [List.length_map]

section Reads

variable (a : Arithmetic D) (x_size : Nat) (popped : List (OrderbookEntry D))

/-- The first entry that is copied of a security. -/
def first (s : Nat) : Option (OrderbookEntry D) := popped.find? fun e => secId a e = s

/-- The entries are read inside of their buffers, and the rows that are drawn of an entry are each of
its rows once. -/
structure ReadsRows : Prop where
  origin : ∀ s e, first a popped s = some e → OrderbookEntry.bids < e.size ∧ e.asks < e.size
  inside : ∀ e ∈ window x_size popped, ∀ swd,
    AssocMap.find (noteAll a x_size popped) (secId a e) = some swd →
      ∀ j < swd.y_size, 2 + entryRow j * 2 < e.size ∧ 2 + entryRow j * 2 + 1 < e.size
  once : ∀ e ∈ window x_size popped, ∀ swd,
    AssocMap.find (noteAll a x_size popped) (secId a e) = some swd →
      ((List.range swd.y_size).map entryRow).Perm (List.range (e.orderbook_depth_ * 2))

/-- Securities start with an entry that has a level, and what is drawn of them has as many levels, at
least `25`. -/
structure DepthsFit : Prop where
  positive : ∀ s e, first a popped s = some e → 1 ≤ e.orderbook_depth_
  same : ∀ e ∈ window x_size popped,
    25 ≤ e.orderbook_depth_ ∧
      (first a popped (secId a e)).map OrderbookEntry.orderbook_depth_ = some e.orderbook_depth_

variable {a x_size popped}

theorem mem_of_window {e : OrderbookEntry D} (he : e ∈ window x_size popped) : e ∈ popped :=
  List.mem_of_mem_drop he

theorem exists_first {e : OrderbookEntry D} (he : e ∈ popped) :
    ∃ e₀, first a popped (secId a e) = some e₀ := by
  have hsome : (first a popped (secId a e)).isSome :=
    List.find?_isSome.mpr ⟨e, he, decide_eq_true rfl⟩
  exact Option.isSome_iff_exists.mp hsome

theorem find_noteAll_first {s : Nat} {e₀ : OrderbookEntry D} (h : first a popped s = some e₀) :
    AssocMap.find (noteAll a x_size popped) s = some (newData a x_size e₀) := by
  rw [find_noteAll]
  exact congrArg (Option.map _) h

/-- An entry that is drawn has been noted, with the data of the first entry of its security. -/
theorem exists_noted {e : OrderbookEntry D} (he : e ∈ window x_size popped) :
    ∃ e₀, first a popped (secId a e) = some e₀ ∧
      AssocMap.find (noteAll a x_size popped) (secId a e) = some (newData a x_size e₀) := by
  obtain ⟨e₀, h₀⟩ := exists_first (a := a) (mem_of_window he)
  exact ⟨e₀, h₀, find_noteAll_first h₀⟩

/-- A row of an entry whose rows are drawn. -/
theorem DepthsFit.row_lt (h : DepthsFit a x_size popped) {e e₀ : OrderbookEntry D}
    (he : e ∈ window x_size popped) (h₀ : first a popped (secId a e) = some e₀) {j : Nat}
    (hj : j < e₀.orderbook_depth_ * 2) :
    2 + entryRow j * 2 < e.size ∧ 2 + entryRow j * 2 + 1 < e.size := by
  obtain ⟨hdepth, hsame⟩ := h.same e he
  rw [h₀, Option.map_some, Option.some.injEq] at hsame
  have hsize : e.size = e.orderbook_depth_ * 2 * 2 + 2 := e.size_eq
  unfold entryRow
  split_ifs <;> omega

/-- The entries are read as they should be exactly when their depths fit. -/
theorem readsRows_iff (a : Arithmetic D) (x_size : Nat) (popped : List (OrderbookEntry D)) :
    ReadsRows a x_size popped ↔ DepthsFit a x_size popped := by
  constructor
  · intro h
    have hpositive : ∀ s e, first a popped s = some e → 1 ≤ e.orderbook_depth_ := by
      intro s e hfirst
      have hbids := (h.origin s e hfirst).1
      have hsize : e.size = e.orderbook_depth_ * 2 * 2 + 2 := e.size_eq
      unfold OrderbookEntry.bids at hbids
      omega
    refine ⟨hpositive, ?_⟩
    intro e he
    obtain ⟨e₀, h₀, hnoted⟩ := exists_noted (a := a) he
    have honce := h.once e he _ hnoted
    obtain ⟨hsize, hdepth⟩ := (entryRow_perm_iff _ _).mp honce
    have hpos := hpositive _ _ h₀
    have hsame : e₀.orderbook_depth_ = e.orderbook_depth_ := by
      simp only [newData] at hsize
      omega
    refine ⟨by omega, ?_⟩
    rw [h₀, Option.map_some, hsame]
  · intro h
    refine ⟨?_, ?_, ?_⟩
    · intro s e hfirst
      have hpos := h.positive s e hfirst
      have hsize : e.size = e.orderbook_depth_ * 2 * 2 + 2 := e.size_eq
      unfold OrderbookEntry.bids OrderbookEntry.asks
      omega
    · intro e he swd hswd j hj
      obtain ⟨e₀, h₀, hnoted⟩ := exists_noted (a := a) he
      rw [hnoted] at hswd
      cases hswd
      exact h.row_lt he h₀ hj
    · intro e he swd hswd
      obtain ⟨e₀, h₀, hnoted⟩ := exists_noted (a := a) he
      rw [hnoted] at hswd
      cases hswd
      obtain ⟨hdepth, hsame⟩ := h.same e he
      rw [h₀, Option.map_some, Option.some.injEq] at hsame
      rw [entryRow_perm_iff]
      exact ⟨congrArg (· * 2) hsame, Or.inr hdepth⟩

/-- One order book with one level: row `49` of it is read. -/
theorem shallow_entry_overrun :
    ¬ ∀ popped : List (OrderbookEntry ℚ), ReadsRows rationals popped.length popped := by
  intro h
  have hfirst : first rationals [.new 1] (secId rationals (.new 1)) = some (.new 1) := rfl
  have hread := (h [.new 1]).inside (.new 1) (List.mem_singleton_self _) _
    (find_noteAll_first hfirst) 0 (by decide)
  exact absurd hread.1 (by decide)

end Reads

/-! ## What the columns should show -/

section Columns

variable (a : Arithmetic D) (x_size : Nat) (w : List (OrderbookEntry D)) (s y_size : Nat)
  (origin : Option D)

/-- `last_non_zero_price` after the first rows of an entry. -/
def priceAfter (e : OrderbookEntry D) (last_non_zero_price : Option D) : Nat → Option D
  | 0 => last_non_zero_price
  | j + 1 =>
    (e.data_[2 + entryRow j * 2]?).bind (nonZeroPrice a (priceAfter e last_non_zero_price j))

/-- `last_non_zero_price` of security `s` before a column. -/
def priceBefore : Nat → Option D
  | 0 => origin
  | i + 1 =>
    (w[i]?).bind fun e =>
      if secId a e = s then priceAfter a e (priceBefore i) y_size else priceBefore i

/-- Column `i` of security `s`: its own values if the entry belongs to it, and otherwise those of the
column before. -/
def carried (own : Nat → OrderbookEntry D → Nat → Option D) : Nat → Nat → Option D
  | 0, j => (w[0]?).bind fun e => if secId a e = s then own 0 e j else some (a.literal 0)
  | i + 1, j => (w[i + 1]?).bind fun e => if secId a e = s then own (i + 1) e j else carried own i j

/-- The values of `y` for an entry of the security. -/
def ownY (i : Nat) (e : OrderbookEntry D) (j : Nat) : Option D := do
  let price ← priceAfter a e (priceBefore a w s y_size origin i) (j + 1)
  let price_origin ← origin
  pure (a.sub price price_origin)

/-- The values of `z` for an entry of the security. -/
def ownZ (_ : Nat) (e : OrderbookEntry D) (j : Nat) : Option D :=
  (e.data_[2 + entryRow j * 2 + 1]?).map (shownVolume a)

/-- The arrays of a security are painted up to column `i` and row `j`. -/
structure Canvas (swd : SecurityWorksetData D) (i j : Nat) : Prop where
  y_size_eq : swd.y_size = y_size
  origin_eq : swd.price_origin = origin
  x : Grid.Painted swd.x x_size y_size (a.literal 1000000) (fun i _ => some (a.ofSize i)) i j
  y : Grid.Painted swd.y x_size y_size (a.literal 1000000)
    (carried a w s (ownY a w s y_size origin)) i j
  z : Grid.Painted swd.z x_size y_size (a.literal 1000000) (carried a w s (ownZ a)) i j

/-- The rows of the security's entries can be read. -/
structure Readable : Prop where
  origin : ∃ price_origin, origin = some price_origin
  row : ∀ e ∈ w, secId a e = s → ∀ j < y_size, ∃ price volume,
    e.data_[2 + entryRow j * 2]? = some price ∧ e.data_[2 + entryRow j * 2 + 1]? = some volume

variable {a x_size w s y_size origin}

theorem exists_nonZeroPrice {last_non_zero_price : Option D}
    (h : ∃ last, last_non_zero_price = some last) (price : D) :
    ∃ shown, nonZeroPrice a last_non_zero_price price = some shown := by
  unfold nonZeroPrice
  split_ifs
  · exact h
  · exact ⟨price, rfl⟩

theorem Readable.exists_priceAfter (h : Readable a w s y_size origin) {e : OrderbookEntry D}
    (he : e ∈ w) (hs : secId a e = s) {last_non_zero_price : Option D}
    (hlast : ∃ last, last_non_zero_price = some last) {j : Nat} (hj : j ≤ y_size) :
    ∃ price, priceAfter a e last_non_zero_price j = some price := by
  induction j with
  | zero => exact hlast
  | succ j ih =>
    obtain ⟨price, volume, hprice, -⟩ := h.row e he hs j hj
    rw [priceAfter, hprice, Option.bind_some]
    exact exists_nonZeroPrice (ih (by omega)) price

theorem Readable.exists_priceBefore (h : Readable a w s y_size origin) {i : Nat}
    (hi : i ≤ w.length) : ∃ price, priceBefore a w s y_size origin i = some price := by
  induction i with
  | zero => exact h.origin
  | succ i ih =>
    have hlt : i < w.length := hi
    rw [priceBefore, List.getElem?_eq_getElem hlt, Option.bind_some]
    split_ifs with hs
    · exact h.exists_priceAfter (List.getElem_mem hlt) hs (ih (by omega)) (Nat.le_refl _)
    · exact ih (by omega)

theorem Readable.exists_ownY (h : Readable a w s y_size origin) {i : Nat} {e : OrderbookEntry D}
    (hi : w[i]? = some e) (hs : secId a e = s) {j : Nat} (hj : j < y_size) :
    ∃ price price_origin, origin = some price_origin ∧
      priceAfter a e (priceBefore a w s y_size origin i) (j + 1) = some price ∧
      ownY a w s y_size origin i e j = some (a.sub price price_origin) := by
  obtain ⟨hlt, -⟩ := List.getElem?_eq_some_iff.mp hi
  obtain ⟨price_origin, horigin⟩ := h.origin
  obtain ⟨price, hprice⟩ := h.exists_priceAfter (List.mem_of_getElem? hi) hs
    (h.exists_priceBefore (Nat.le_of_lt hlt)) (Nat.succ_le_of_lt hj)
  refine ⟨price, price_origin, horigin, hprice, ?_⟩
  unfold ownY
  rw [hprice]
  simp [horigin]

theorem carried_zero {own : Nat → OrderbookEntry D → Nat → Option D} {e : OrderbookEntry D}
    (h : w[0]? = some e) (j : Nat) :
    carried a w s own 0 j = if secId a e = s then own 0 e j else some (a.literal 0) := by
  rw [carried, h, Option.bind_some]

theorem carried_succ {own : Nat → OrderbookEntry D → Nat → Option D} {i : Nat}
    {e : OrderbookEntry D} (h : w[i + 1]? = some e) (j : Nat) :
    carried a w s own (i + 1) j =
      if secId a e = s then own (i + 1) e j else carried a w s own i j := by
  rw [carried, h, Option.bind_some]

theorem carried_own {own : Nat → OrderbookEntry D → Nat → Option D} {i : Nat}
    {e : OrderbookEntry D} (h : w[i]? = some e) (hs : secId a e = s) (j : Nat) :
    carried a w s own i j = own i e j := by
  cases i with
  | zero => rw [carried_zero h, if_pos hs]
  | succ i => rw [carried_succ h, if_pos hs]

theorem carried_first {own : Nat → OrderbookEntry D → Nat → Option D} {e : OrderbookEntry D}
    (h : w[0]? = some e) (hs : secId a e ≠ s) (j : Nat) :
    carried a w s own 0 j = some (a.literal 0) := by
  rw [carried_zero h, if_neg hs]

theorem carried_previous {own : Nat → OrderbookEntry D → Nat → Option D} {i : Nat}
    {e : OrderbookEntry D} (h : w[i + 1]? = some e) (hs : secId a e ≠ s) (j : Nat) :
    carried a w s own (i + 1) j = carried a w s own i j := by
  rw [carried_succ h, if_neg hs]

/-- Where the own values exist, all values do. -/
theorem exists_carried {own : Nat → OrderbookEntry D → Nat → Option D} {j : Nat}
    (hown : ∀ i e, w[i]? = some e → secId a e = s → ∃ v, own i e j = some v) {i : Nat}
    (hi : i < w.length) : ∃ v, carried a w s own i j = some v := by
  induction i with
  | zero =>
    have he := List.getElem?_eq_getElem hi
    rw [carried_zero he]
    split_ifs with hs
    · exact hown _ _ he hs
    · exact ⟨_, rfl⟩
  | succ i ih =>
    have he := List.getElem?_eq_getElem hi
    rw [carried_succ he]
    split_ifs with hs
    · exact hown _ _ he hs
    · exact ih (by omega)

/-- Columns without an entry of the security show what was shown before them. -/
theorem carried_recent {own : Nat → OrderbookEntry D → Nat → Option D} {k i : Nat} (hki : k ≤ i)
    (hi : i < w.length)
    (hother : ∀ k', k < k' → k' ≤ i → ∀ e, w[k']? = some e → secId a e ≠ s) (j : Nat) :
    carried a w s own i j = carried a w s own k j := by
  induction i, hki using Nat.le_induction with
  | base => rfl
  | succ i hle ih =>
    have he := List.getElem?_eq_getElem hi
    have hs := hother (i + 1) (by omega) (Nat.le_refl _) _ he
    rw [carried_previous he hs]
    apply ih (by omega)
    intro k' hlo hhi
    exact hother k' hlo (by omega)

/-! ## One column -/

variable {swd : SecurityWorksetData D} {i j : Nat} {e : OrderbookEntry D}

theorem Readable.exists_carriedY (h : Readable a w s y_size origin) {i j : Nat} (hi : i < w.length)
    (hj : j < y_size) : ∃ v, carried a w s (ownY a w s y_size origin) i j = some v := by
  apply exists_carried _ hi
  intro i e he hs
  obtain ⟨price, price_origin, -, -, hown⟩ := h.exists_ownY he hs hj
  exact ⟨_, hown⟩

theorem Readable.exists_carriedZ (h : Readable a w s y_size origin) {i j : Nat} (hi : i < w.length)
    (hj : j < y_size) : ∃ v, carried a w s (ownZ a) i j = some v := by
  apply exists_carried _ hi
  intro i e he hs
  obtain ⟨price, volume, -, hvolume⟩ := h.row e (List.mem_of_getElem? he) hs j hj
  exact ⟨shownVolume a volume, by rw [ownZ, hvolume, Option.map_some]⟩

/-- **A row that is carried forward.** -/
theorem Canvas.carryRow (hc : Canvas a x_size w s y_size origin swd i j)
    (hr : Readable a w s y_size origin) (hw : w.length = x_size) (hj : j < y_size)
    (he : w[i]? = some e) (hs : secId a e ≠ s) :
    ∃ swd', carryRow a x_size i j swd = some swd' ∧
      Canvas a x_size w s y_size origin swd' i (j + 1) ∧
      swd'.last_non_zero_price = swd.last_non_zero_price := by
  obtain ⟨hi, -⟩ := List.getElem?_eq_some_iff.mp he
  rw [hw] at hi
  obtain ⟨x, hx, hpx⟩ := hc.x.store hi hj rfl
  rw [Grid.index] at hx
  cases i with
  | zero =>
    obtain ⟨y, hy, hpy⟩ := hc.y.store hi hj (carried_first he hs j)
    obtain ⟨z, hz, hpz⟩ := hc.z.store hi hj (carried_first he hs j)
    rw [Nat.zero_add] at hx
    rw [Grid.index, Nat.zero_add] at hy hz
    refine ⟨{ swd with x := x, y := y, z := z }, ?_, ⟨hc.y_size_eq, hc.origin_eq, hpx, hpy, hpz⟩, rfl⟩
    simp [Drawing.carryRow, hx, hy, hz]
  | succ i =>
    have hbefore : i < w.length := by omega
    obtain ⟨u, hu⟩ := hr.exists_carriedY hbefore hj
    obtain ⟨v, hv⟩ := hr.exists_carriedZ hbefore hj
    -- the column before is complete
    have hprevious_y := (hc.y.column (Nat.lt_succ_self i) (by omega) hj).trans hu
    have hprevious_z := (hc.z.column (Nat.lt_succ_self i) (by omega) hj).trans hv
    obtain ⟨y, hy, hpy⟩ := hc.y.store hi hj ((carried_previous he hs j).trans hu)
    obtain ⟨z, hz, hpz⟩ := hc.z.store hi hj ((carried_previous he hs j).trans hv)
    rw [Grid.index] at hprevious_y hprevious_z hy hz
    refine ⟨{ swd with x := x, y := y, z := z }, ?_, ⟨hc.y_size_eq, hc.origin_eq, hpx, hpy, hpz⟩, rfl⟩
    simp [Drawing.carryRow, hx, hprevious_y, hprevious_z, hy, hz]

/-- **A row of the entry.** -/
theorem Canvas.drawRow (hc : Canvas a x_size w s y_size origin swd i j)
    (hr : Readable a w s y_size origin) (hw : w.length = x_size) (hj : j < y_size)
    (he : w[i]? = some e) (hs : secId a e = s)
    (hlast : swd.last_non_zero_price =
      priceAfter a e (priceBefore a w s y_size origin i) j) :
    ∃ swd', drawRow a e x_size i j swd = some swd' ∧
      Canvas a x_size w s y_size origin swd' i (j + 1) ∧
      swd'.last_non_zero_price =
        priceAfter a e (priceBefore a w s y_size origin i) (j + 1) := by
  obtain ⟨hi, -⟩ := List.getElem?_eq_some_iff.mp he
  rw [hw] at hi
  obtain ⟨price, volume, hprice, hvolume⟩ := hr.row e (List.mem_of_getElem? he) hs j hj
  obtain ⟨shown, price_origin, horigin, hafter, hown⟩ := hr.exists_ownY he hs hj
  have hshown : nonZeroPrice a swd.last_non_zero_price price = some shown := by
    rw [hlast, ← hafter, priceAfter, hprice, Option.bind_some]
  have hz : carried a w s (ownZ a) i j = some (shownVolume a volume) := by
    rw [carried_own he hs, ownZ, hvolume, Option.map_some]
  obtain ⟨x, hx, hpx⟩ := hc.x.store hi hj rfl
  obtain ⟨y, hy, hpy⟩ := hc.y.store hi hj ((carried_own he hs j).trans hown)
  obtain ⟨z, hz, hpz⟩ := hc.z.store hi hj hz
  rw [Grid.index] at hx hy hz
  refine ⟨{ swd with x := x, y := y, z := z, last_non_zero_price := some shown }, ?_,
    ⟨hc.y_size_eq, hc.origin_eq, hpx, hpy, hpz⟩, hafter.symm⟩
  simp [Drawing.drawRow, hprice, hvolume, hshown, hc.origin_eq, horigin, hx, hy, hz]

/-- The next column. -/
theorem Canvas.next (hc : Canvas a x_size w s y_size origin swd i y_size) :
    Canvas a x_size w s y_size origin swd (i + 1) 0 :=
  ⟨hc.y_size_eq, hc.origin_eq, hc.x.next, hc.y.next, hc.z.next⟩

/-- **A column that is carried forward.** -/
theorem Canvas.carryColumn (hc : Canvas a x_size w s y_size origin swd i 0)
    (hr : Readable a w s y_size origin) (hw : w.length = x_size) (he : w[i]? = some e)
    (hs : secId a e ≠ s)
    (hlast : swd.last_non_zero_price = priceBefore a w s y_size origin i) :
    ∃ swd', carryColumn a x_size i swd = some swd' ∧
      Canvas a x_size w s y_size origin swd' (i + 1) 0 ∧
      swd'.last_non_zero_price = priceBefore a w s y_size origin (i + 1) := by
  have hsize := hc.y_size_eq
  obtain ⟨swd', hrun, hc', hlast'⟩ := Loop.forRange_spec (s := swd)
    (P := fun j swd' => Canvas a x_size w s y_size origin swd' i j ∧
      swd'.last_non_zero_price = swd.last_non_zero_price)
    (Nat.zero_le swd.y_size)
    (fun j swd₁ _ hj h => by
      obtain ⟨swd₂, hrow, hc₂, hlast₂⟩ := h.1.carryRow hr hw (hsize ▸ hj) he hs
      exact ⟨swd₂, hrow, hc₂, hlast₂.trans h.2⟩)
    ⟨hc, rfl⟩
  rw [hsize] at hc'
  refine ⟨swd', hrun, hc'.next, ?_⟩
  rw [hlast', hlast, priceBefore, he, Option.bind_some, if_neg hs]

/-- **A column of the entry.** -/
theorem Canvas.drawColumn (hc : Canvas a x_size w s y_size origin swd i 0)
    (hr : Readable a w s y_size origin) (hw : w.length = x_size) (he : w[i]? = some e)
    (hs : secId a e = s)
    (hlast : swd.last_non_zero_price = priceBefore a w s y_size origin i) :
    ∃ swd', Loop.forRange 0 swd.y_size (Drawing.drawRow a e x_size i) swd = some swd' ∧
      Canvas a x_size w s y_size origin swd' (i + 1) 0 ∧
      swd'.last_non_zero_price = priceBefore a w s y_size origin (i + 1) := by
  have hsize := hc.y_size_eq
  obtain ⟨swd', hrun, hc', hlast'⟩ := Loop.forRange_spec (s := swd)
    (P := fun j swd' => Canvas a x_size w s y_size origin swd' i j ∧
      swd'.last_non_zero_price = priceAfter a e (priceBefore a w s y_size origin i) j)
    (Nat.zero_le swd.y_size)
    (fun j swd₁ _ hj h => h.1.drawRow hr hw (hsize ▸ hj) he hs h.2)
    ⟨hc, hlast⟩
  rw [hsize] at hc' hlast'
  refine ⟨swd', hrun, hc'.next, ?_⟩
  rw [hlast', priceBefore, he, Option.bind_some, if_pos hs]

end Columns

/-! ## All columns -/

section Picture

variable (a : Arithmetic D) (x_size : Nat) (popped : List (OrderbookEntry D))

/-- The data of security `s` after `i` columns. -/
def OnCanvas (s : Nat) (swd : SecurityWorksetData D) (i : Nat) : Prop :=
  ∃ e₀, first a popped s = some e₀ ∧
    Canvas a x_size (window x_size popped) s (e₀.orderbook_depth_ * 2) (priceOrigin a e₀) swd i 0 ∧
    swd.last_non_zero_price = priceBefore a (window x_size popped) s (e₀.orderbook_depth_ * 2)
      (priceOrigin a e₀) i

/-- `sec_map` after `i` columns. -/
structure Pictured (i : Nat) (sec_map : SecMap D) : Prop where
  keys : sec_map.map Prod.fst = (noteAll a x_size popped).map Prod.fst
  canvas : ∀ s swd, AssocMap.find sec_map s = some swd → OnCanvas a x_size popped s swd i

theorem nodup_noteAll : ((noteAll a x_size popped).map Prod.fst).Nodup := by
  suffices hgen : ∀ sec_map : SecMap D, (sec_map.map Prod.fst).Nodup →
      ((popped.foldl (note a x_size) sec_map).map Prod.fst).Nodup from hgen [] List.nodup_nil
  induction popped with
  | nil => exact fun _ h => h
  | cons e popped ih =>
    intro sec_map h
    apply ih
    unfold note
    dsimp only
    split_ifs
    · exact AssocMap.nodup_emplace h _ _
    · exact h

theorem pictured_noteAll : Pictured a x_size popped 0 (noteAll a x_size popped) where
  keys := rfl
  canvas s swd h := by
    rw [find_noteAll] at h
    obtain ⟨e₀, h₀, rfl⟩ := Option.map_eq_some_iff.mp h
    refine ⟨e₀, h₀, ⟨rfl, rfl, ?_, ?_, ?_⟩, rfl⟩
    all_goals
      simp only [newData, Nat.mul_one]
      exact Grid.Painted.replicate ..

variable {a x_size popped}

theorem length_window (hx : x_size ≤ popped.length) : (window x_size popped).length = x_size := by
  rw [window, List.length_drop]
  omega

/-- Where the depths fit, the rows can be read. -/
theorem DepthsFit.readable (h : DepthsFit a x_size popped) {s : Nat} {e₀ : OrderbookEntry D}
    (h₀ : first a popped s = some e₀) :
    Readable a (window x_size popped) s (e₀.orderbook_depth_ * 2) (priceOrigin a e₀) where
  origin := by
    have hpos := h.positive s e₀ h₀
    have hsize := e₀.size_eq
    have hbid : OrderbookEntry.bids < e₀.data_.length := by
      unfold OrderbookEntry.bids
      omega
    have hask : e₀.asks < e₀.data_.length := by
      unfold OrderbookEntry.asks
      omega
    refine ⟨a.div (a.add e₀.data_[OrderbookEntry.bids] e₀.data_[e₀.asks]) (a.literal 2), ?_⟩
    simp [priceOrigin, List.getElem?_eq_getElem hbid, List.getElem?_eq_getElem hask]
  row e he hs j hj := by
    obtain ⟨hprice, hvolume⟩ := h.row_lt he (hs ▸ h₀) hj
    exact ⟨_, _, List.getElem?_eq_getElem hprice, List.getElem?_eq_getElem hvolume⟩

/-- **A round of the drawing loop.** -/
theorem Pictured.drawColumn (h : DepthsFit a x_size popped) (hx : x_size ≤ popped.length) {i : Nat}
    {sec_map : SecMap D} (hm : Pictured a x_size popped i sec_map) {e : OrderbookEntry D}
    (he : (window x_size popped)[i]? = some e) :
    ∃ sec_map', drawColumn a x_size i e sec_map = some sec_map' ∧
      Pictured a x_size popped (i + 1) sec_map' := by
  have hw := length_window hx
  have hnodup : (sec_map.map Prod.fst).Nodup := hm.keys ▸ nodup_noteAll a x_size popped
  -- the other securities first
  obtain ⟨m, hmap, hkeys, hall⟩ := AssocMap.exists_mapM (m := sec_map)
    (f := fun elt => if elt.1 = secId a e then some elt
      else (carryColumn a x_size i elt.2).map fun swd => (elt.1, swd))
    (P := fun s swd => OnCanvas a x_size popped s swd (if s = secId a e then i else i + 1))
    (fun elt helt => by
      obtain ⟨e₀, h₀, hc, hlast⟩ := hm.canvas _ _ (AssocMap.find_of_mem hnodup helt)
      by_cases hs : elt.1 = secId a e
      · refine ⟨elt.2, if_pos hs, ?_⟩
        rw [if_pos hs]
        exact ⟨e₀, h₀, hc, hlast⟩
      · obtain ⟨swd', hcarry, hc', hlast'⟩ :=
          hc.carryColumn (h.readable h₀) hw he (Ne.symm hs) hlast
        refine ⟨swd', ?_, ?_⟩
        · rw [if_neg hs, hcarry, Option.map_some]
        · rw [if_neg hs]
          exact ⟨e₀, h₀, hc', hlast'⟩)
  have hnodup' : (m.map Prod.fst).Nodup := hkeys ▸ hnodup
  -- then the security of the entry, which was noted when the entry was copied
  have hmem : secId a e ∈ m.map Prod.fst := by
    rw [hkeys, hm.keys, ← AssocMap.find_isSome]
    exact find_noteAll_isSome a x_size (mem_of_window (List.mem_of_getElem? he))
  obtain ⟨swd, hfind⟩ := Option.isSome_iff_exists.mp (AssocMap.find_isSome.mpr hmem)
  have hcanvas := hall _ (AssocMap.mem_of_find hfind)
  rw [if_pos rfl] at hcanvas
  obtain ⟨e₀, h₀, hc, hlast⟩ := hcanvas
  obtain ⟨swd', hdraw, hc', hlast'⟩ := hc.drawColumn (h.readable h₀) hw he rfl hlast
  refine ⟨AssocMap.assign m (secId a e) swd', ?_, ?_, ?_⟩
  · simp [Drawing.drawColumn, hmap, hfind, hdraw]
  · rw [AssocMap.keys_assign, if_pos hmem, hkeys, hm.keys]
  · intro s swd₁ hs
    rw [AssocMap.find_assign] at hs
    by_cases heq : s = secId a e
    · rw [if_pos heq, Option.some.injEq] at hs
      subst heq hs
      exact ⟨e₀, h₀, hc', hlast'⟩
    · rw [if_neg heq] at hs
      have hother := hall _ (AssocMap.mem_of_find hs)
      rwa [if_neg heq] at hother

/-- **The drawing loop.** -/
theorem exists_drawColumns (h : DepthsFit a x_size popped) (hx : x_size ≤ popped.length) {n : Nat}
    (hn : n ≤ x_size) :
    ∃ sec_map, drawColumns a x_size n (window x_size popped) (noteAll a x_size popped) = some sec_map ∧
      Pictured a x_size popped n sec_map := by
  have hw := length_window hx
  refine Loop.forRange_spec (P := Pictured a x_size popped) (Nat.zero_le n) ?_
    (pictured_noteAll a x_size popped)
  intro i sec_map _ hi hm
  have he := List.getElem?_eq_getElem (l := window x_size popped) (i := i) (by omega)
  obtain ⟨sec_map', hdraw, hm'⟩ := hm.drawColumn h hx he
  exact ⟨sec_map', by rw [he, Option.bind_some, hdraw], hm'⟩

/-! ## The finished picture -/

/-- What the arrays of security `s` show: each column has the values of its own entry, or those of the
column before. -/
structure CarriesForward (a : Arithmetic D) (x_size : Nat) (w : List (OrderbookEntry D)) (s : Nat)
    (swd : SecurityWorksetData D) : Prop where
  inside : ∀ i < x_size, ∀ j < swd.y_size, i + x_size * j < swd.x.length ∧
    i + x_size * j < swd.y.length ∧ i + x_size * j < swd.z.length
  /-- No cell is left out. -/
  all : ∀ k, k < swd.x.length ∨ k < swd.y.length ∨ k < swd.z.length →
    ∃ i < x_size, ∃ j < swd.y_size, k = i + x_size * j
  x : ∀ i < x_size, ∀ j < swd.y_size, swd.x[i + x_size * j]? = some (a.ofSize i)
  own : ∀ i e, w[i]? = some e → secId a e = s → ∀ j < swd.y_size, ∃ price volume price_origin,
    priceAfter a e (priceBefore a w s swd.y_size swd.price_origin i) (j + 1) = some price ∧
    e.data_[2 + entryRow j * 2 + 1]? = some volume ∧ swd.price_origin = some price_origin ∧
    swd.y[i + x_size * j]? = some (a.sub price price_origin) ∧
    swd.z[i + x_size * j]? = some (shownVolume a volume)
  first : ∀ e, w[0]? = some e → secId a e ≠ s → ∀ j < swd.y_size,
    swd.y[0 + x_size * j]? = some (a.literal 0) ∧ swd.z[0 + x_size * j]? = some (a.literal 0)
  carried : ∀ i e, w[i + 1]? = some e → secId a e ≠ s → ∀ j < swd.y_size,
    swd.y[i + 1 + x_size * j]? = swd.y[i + x_size * j]? ∧
    swd.z[i + 1 + x_size * j]? = swd.z[i + x_size * j]?
  recent : ∀ k i, k ≤ i → i < x_size →
    (∀ k', k < k' → k' ≤ i → ∀ e, w[k']? = some e → secId a e ≠ s) → ∀ j < swd.y_size,
      swd.y[i + x_size * j]? = swd.y[k + x_size * j]? ∧
      swd.z[i + x_size * j]? = swd.z[k + x_size * j]?

theorem Canvas.carriesForward {w : List (OrderbookEntry D)} {s y_size : Nat} {origin : Option D}
    {swd : SecurityWorksetData D} (hc : Canvas a x_size w s y_size origin swd x_size 0)
    (hr : Readable a w s y_size origin) (hw : w.length = x_size) :
    CarriesForward a x_size w s swd := by
  obtain ⟨rfl, rfl, hcx, hcy, hcz⟩ := hc
  have hindex {i : Nat} {e : OrderbookEntry D} (he : w[i]? = some e) : i < x_size := by
    obtain ⟨hlt, -⟩ := List.getElem?_eq_some_iff.mp he
    omega
  refine ⟨?_, ?_, ?_, ?_, ?_, ?_, ?_⟩
  · intro i hi j hj
    rw [hcx.length_eq, hcy.length_eq, hcz.length_eq]
    exact ⟨Grid.index_lt hi hj, Grid.index_lt hi hj, Grid.index_lt hi hj⟩
  · intro k hk
    rw [hcx.length_eq, hcy.length_eq, hcz.length_eq, or_self, or_self] at hk
    exact Grid.exists_index hk
  · intro i hi j hj
    exact hcx.column hi hi hj
  · intro i e he hs j hj
    have hi := hindex he
    obtain ⟨price, price_origin, horigin, hprice, hown⟩ := hr.exists_ownY he hs hj
    obtain ⟨-, volume, -, hvolume⟩ := hr.row e (List.mem_of_getElem? he) hs j hj
    refine ⟨price, volume, price_origin, hprice, hvolume, horigin, ?_, ?_⟩
    · exact (hcy.column hi hi hj).trans ((carried_own he hs j).trans hown)
    · have hz : ownZ a i e j = some (shownVolume a volume) := by
        rw [ownZ, hvolume, Option.map_some]
      exact (hcz.column hi hi hj).trans ((carried_own he hs j).trans hz)
  · intro e he hs j hj
    have hi := hindex he
    constructor
    · exact (hcy.column hi hi hj).trans (carried_first he hs j)
    · exact (hcz.column hi hi hj).trans (carried_first he hs j)
  · intro i e he hs j hj
    have hi := hindex he
    have hbefore : i < x_size := by omega
    constructor
    · exact (hcy.column hi hi hj).trans
        ((carried_previous he hs j).trans (hcy.column hbefore hbefore hj).symm)
    · exact (hcz.column hi hi hj).trans
        ((carried_previous he hs j).trans (hcz.column hbefore hbefore hj).symm)
  · intro k i hki hi hother j hj
    have hk : k < x_size := by omega
    have hcell (own : Nat → OrderbookEntry D → Nat → Option D) :
        Drawing.carried a w s own i j = Drawing.carried a w s own k j :=
      carried_recent hki (by omega) hother j
    constructor
    · exact (hcy.column hi hi hj).trans ((hcell _).trans (hcy.column hk hk hj).symm)
    · exact (hcz.column hi hi hj).trans ((hcell _).trans (hcz.column hk hk hj).symm)

/-- Two states of the arrays of a security have the same columns before column `n`. -/
def SameColumns (x_size n : Nat) (swd₁ swd₂ : SecurityWorksetData D) : Prop :=
  swd₁.y_size = swd₂.y_size ∧ ∀ i < n, ∀ j < swd₁.y_size,
    swd₁.x[i + x_size * j]? = swd₂.x[i + x_size * j]? ∧
    swd₁.y[i + x_size * j]? = swd₂.y[i + x_size * j]? ∧
    swd₁.z[i + x_size * j]? = swd₂.z[i + x_size * j]?

/-- What is painted stays. -/
theorem OnCanvas.sameColumns {s n : Nat} {swd₁ swd₂ : SecurityWorksetData D}
    (h₁ : OnCanvas a x_size popped s swd₁ n) (h₂ : OnCanvas a x_size popped s swd₂ x_size)
    (hn : n ≤ x_size) : SameColumns x_size n swd₁ swd₂ := by
  obtain ⟨e₁, hfirst₁, hc₁, -⟩ := h₁
  obtain ⟨e₂, hfirst₂, hc₂, -⟩ := h₂
  rw [hfirst₁] at hfirst₂
  cases hfirst₂
  refine ⟨hc₁.y_size_eq.trans hc₂.y_size_eq.symm, ?_⟩
  intro i hi j hj
  have hlt : i < x_size := by omega
  rw [hc₁.y_size_eq] at hj
  refine ⟨?_, ?_, ?_⟩
  · exact (hc₁.x.column hi hlt hj).trans (hc₂.x.column hlt hlt hj).symm
  · exact (hc₁.y.column hi hlt hj).trans (hc₂.y.column hlt hlt hj).symm
  · exact (hc₁.z.column hi hlt hj).trans (hc₂.z.column hlt hlt hj).symm

/-- The picture of the entries that were copied: every security of `sec_map` has its rows and carries
its columns forward, and no column changes after its round. -/
def Draws (a : Arithmetic D) (rows : Nat → Nat) (x_size : Nat) (popped : List (OrderbookEntry D)) :
    Prop :=
  ∃ sec_map,
    drawColumns a x_size x_size (window x_size popped) (noteAll a x_size popped) = some sec_map ∧
    sec_map.map Prod.fst = (noteAll a x_size popped).map Prod.fst ∧
    (∀ s swd, AssocMap.find sec_map s = some swd →
      swd.y_size = rows s ∧ CarriesForward a x_size (window x_size popped) s swd) ∧
    ∀ n ≤ x_size, ∃ earlier,
      drawColumns a x_size n (window x_size popped) (noteAll a x_size popped) = some earlier ∧
      ∀ s swd₁ swd₂, AssocMap.find earlier s = some swd₁ → AssocMap.find sec_map s = some swd₂ →
        SameColumns x_size n swd₁ swd₂

/-- A security has two rows for each level of its first entry. -/
theorem draws_of_depthsFit {rows : Nat → Nat} (h : DepthsFit a x_size popped)
    (hx : x_size ≤ popped.length)
    (hrows : ∀ s e, first a popped s = some e → rows s = e.orderbook_depth_ * 2) :
    Draws a rows x_size popped := by
  obtain ⟨sec_map, hdraw, hm⟩ := exists_drawColumns h hx (Nat.le_refl x_size)
  refine ⟨sec_map, hdraw, hm.keys, ?_, ?_⟩
  · intro s swd hs
    obtain ⟨e₀, h₀, hc, -⟩ := hm.canvas s swd hs
    refine ⟨?_, hc.carriesForward (h.readable h₀) (length_window hx)⟩
    rw [hc.y_size_eq, hrows s e₀ h₀]
  · intro n hn
    obtain ⟨earlier, hearlier, hm₁⟩ := exists_drawColumns h hx hn
    refine ⟨earlier, hearlier, ?_⟩
    intro s swd₁ swd₂ h₁ h₂
    exact (hm₁.canvas s swd₁ h₁).sameColumns (hm.canvas s swd₂ h₂) hn

/-- Entries of depth `50` fit. -/
theorem depthsFit_of_depth (h : ∀ e ∈ popped, e.orderbook_depth_ = 50) :
    DepthsFit a x_size popped where
  positive s e hfirst := by
    rw [h e (List.mem_of_find?_eq_some hfirst)]
    decide
  same e he := by
    obtain ⟨e₀, h₀⟩ := exists_first (a := a) (mem_of_window he)
    rw [h₀, Option.map_some, h e (mem_of_window he), h e₀ (List.mem_of_find?_eq_some h₀)]
    exact ⟨by decide, rfl⟩

/-- **Carry-forward.** Entries of depth `50` are drawn in a hundred rows. -/
theorem columns_carried_forward (h : ∀ e ∈ popped, e.orderbook_depth_ = 50)
    (hx : x_size ≤ popped.length) : Draws a (fun _ => 100) x_size popped := by
  refine draws_of_depthsFit (depthsFit_of_depth h) hx fun s e hfirst => ?_
  rw [h e (List.mem_of_find?_eq_some hfirst)]

/-- An entry of depth `50` with the same price and volume in all its rows. -/
def flatEntry (security_id price volume : ℚ) : OrderbookEntry ℚ where
  orderbook_depth_ := 50
  data_ := security_id :: 0 :: List.ofFn fun i : Fin 200 => if i.val % 2 = 0 then price else volume
  size_eq := by rw [List.length_cons, List.length_cons, List.length_ofFn]

/-- Two columns of one security with one of another in between. -/
theorem columns_carried_forward_two :
    Draws rationals (fun _ => 100) 3 [flatEntry 1 10 4, flatEntry 2 20 8, flatEntry 1 30 16] := by
  refine columns_carried_forward ?_ (Nat.le_refl 3)
  intro e he
  simp only [List.mem_cons, List.not_mem_nil, or_false] at he
  rcases he with rfl | rfl | rfl <;> rfl

/-- A call that has come to the end of its drawing loop has drawn what it copied. -/
theorem Call.draws {ows : Workset (OrderbookEntry D)} {l : Log (OrderbookEntry D)} {s : Call D}
    (hl : Workset.Refines ows l) (hs : Transition.Reachable (calls a ows) s) (hpc : s.pc = .drawing)
    (hend : s.drawn.length = s.x_size.toNat)
    (hfit : DepthsFit a s.x_size.toNat s.popped) :
    s.drawn = window s.x_size.toNat s.popped ∧ s.sec_map = noteAll a s.x_size.toNat s.popped ∧
      Draws a (fun s' => ((first a s.popped s').map fun e => e.orderbook_depth_ * 2).getD 0)
        s.x_size.toNat s.popped := by
  obtain ⟨henough, hc, hd⟩ := (inv_of_reachable hl hs).of_drawing hpc
  refine ⟨?_, hc.sec_map, draws_of_depthsFit hfit henough fun s' e he => by rw [he]; rfl⟩
  rw [hd.shown, hend, List.take_of_length_le]
  exact Nat.le_of_eq (length_window henough)

end Picture

end Quant.Drawing

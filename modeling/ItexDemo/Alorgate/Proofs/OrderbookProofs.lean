import Mathlib.Algebra.Ring.Int.Defs
import ItexDemo.Alorgate.Orderbook

/-!
# What `alorgate.Orderbook` posts

The row counter is the number of rows since the last clear event. As long as it stays inside the
arrays they hold these rows and zeros; nothing but the table keeps it there.
-/

namespace Alorgate.Orderbook

variable {D B : Type*}

/-! ## The rows since the last clear event -/

/-- The row of an event. -/
def rowOf : TableEvent D → Option (DataRow D)
  | .addRow dr => some dr
  | .updateRow dr => some dr
  | _ => none

/-- The rows after one more event. -/
def rowsAfter (rows : List (DataRow D)) (event : TableEvent D) : List (DataRow D) :=
  match event with
  | .clearData => []
  | event => rows ++ (rowOf event).toList

/-- The rows of the events since the last clear event. -/
def rowsSinceClear (events : List (TableEvent D)) : List (DataRow D) := events.foldl rowsAfter []

theorem rowsSinceClear_concat (events : List (TableEvent D)) (event : TableEvent D) :
    rowsSinceClear (events ++ [event]) = rowsAfter (rowsSinceClear events) event := by
  rw [rowsSinceClear, List.foldl_append]
  rfl

theorem rowsAfter_of_row {rows : List (DataRow D)} {event : TableEvent D} {dr : DataRow D}
    (h : rowOf event = some dr) : rowsAfter rows event = rows ++ [dr] := by
  cases event with
  | addRow dr' =>
    cases h
    rfl
  | updateRow dr' =>
    cases h
    rfl
  | clearData => cases h
  | beginFrame => cases h
  | endFrame IsTradeAllowed => cases h

theorem length_rowsAfter_of_none {rows : List (DataRow D)} {event : TableEvent D}
    (h : rowOf event = none) : (rowsAfter rows event).length ≤ rows.length := by
  cases event with
  | addRow dr => cases h
  | updateRow dr => cases h
  | clearData => exact Nat.zero_le _
  | beginFrame => exact Nat.le_of_eq (congrArg List.length (List.append_nil rows))
  | endFrame IsTradeAllowed => exact Nat.le_of_eq (congrArg List.length (List.append_nil rows))

/-- Never more rows between two clear events than the book has on both sides. -/
def Fits (max_depth : Int32) (events : List (TableEvent D)) : Prop :=
  ∀ before rest, events = before ++ rest →
    (rowsSinceClear before).length ≤ (2 * max_depth.toInt).toNat

section Fits

variable {max_depth : Int32} {events : List (TableEvent D)}

theorem Fits.nil : Fits max_depth ([] : List (TableEvent D)) := by
  intro before rest heq
  rw [(List.append_eq_nil_iff.mp heq.symm).1]
  exact Nat.zero_le _

theorem Fits.length_le (h : Fits max_depth events) :
    (rowsSinceClear events).length ≤ (2 * max_depth.toInt).toNat :=
  h events [] (List.append_nil _).symm

theorem Fits.of_append {rest : List (TableEvent D)} (h : Fits max_depth (events ++ rest)) :
    Fits max_depth events := by
  intro before rest' heq
  exact h before (rest' ++ rest) (by rw [heq, List.append_assoc])

theorem Fits.concat {event : TableEvent D} (h : Fits max_depth events)
    (hle : (rowsSinceClear (events ++ [event])).length ≤ (2 * max_depth.toInt).toNat) :
    Fits max_depth (events ++ [event]) := by
  intro before rest heq
  rcases List.eq_nil_or_concat' rest with rfl | ⟨rest', event', rfl⟩
  · rw [List.append_nil] at heq
    rw [← heq]
    exact hle
  · rw [← List.append_assoc] at heq
    obtain ⟨heq, -⟩ := List.append_inj' heq rfl
    exact h before rest' heq

end Fits

section Volumes

variable [MulOneClass D] [HasDistribNeg D] [IntCast D]

/-- The quantity of a row, negative for an offer. -/
def signedQuantity (dr : DataRow D) : D :=
  if trim dr.BuySell = ['B'] then (dr.Quantity.toInt : D) else -(dr.Quantity.toInt : D)

theorem volume_eq (dr : DataRow D) : volume dr = signedQuantity dr := by
  unfold volume signedQuantity
  split
  · rw [mul_one]
  · rw [mul_neg, mul_one]

end Volumes

section Listing

variable [Zero D]

/-- Values and zeros behind them. -/
def listing (size : Nat) (xs : List D) : List D := xs ++ List.replicate (size - xs.length) 0

theorem store_listing {size : Nat} {xs : List D} (h : xs.length < size) (x : D) :
    Loop.store (listing size xs) xs.length x = some (listing size (xs ++ [x])) := by
  have hlen : (listing size xs).length = size := by
    rw [listing, List.length_append, List.length_replicate]
    omega
  obtain ⟨k, hk⟩ := Nat.exists_eq_add_of_lt h
  rw [Loop.store, if_pos (by omega)]
  have hzeros : size - xs.length = k + 1 := by omega
  have hzeros' : size - (xs ++ [x]).length = k := by
    rw [List.length_append, List.length_singleton]
    omega
  rw [listing, listing, hzeros, hzeros', List.replicate_succ,
    List.set_append_right _ _ (Nat.le_refl _), Nat.sub_self, List.set_cons_zero, List.append_assoc]
  rfl

theorem zeroFirst_listing {size : Nat} {xs : List D} (h : xs.length ≤ size) :
    zeroFirst size (listing size xs) = listing size [] := by
  have hlen : (listing size xs).length = size := by
    rw [listing, List.length_append, List.length_replicate]
    omega
  rw [zeroFirst, List.drop_of_length_le (by omega), List.append_nil]
  rfl

/-- Twice the depth does not wrap when the constructor succeeds. -/
theorem toNat_le_arraySize {security : ActiveSecuritiesEntry} {max_depth : Int32}
    {orderbook : Orderbook D} (h : new security max_depth = some orderbook) :
    (2 * max_depth.toInt).toNat ≤ arraySize max_depth := by
  have hlo := max_depth.le_toInt
  have hhi := max_depth.toInt_lt
  have hmul : (max_depth * 2).toInt = (max_depth.toInt * 2).bmod (2 ^ 32) := Int32.toInt_mul ..
  have hpos : ¬ (max_depth * 2).toInt < 0 := by
    intro hneg
    rw [new, if_pos hneg] at h
    cases h
  rw [arraySize]
  rw [hmul] at hpos ⊢
  unfold Int.bmod at hpos ⊢
  dsimp only at hpos ⊢
  split at hpos <;> split <;> omega

end Listing

/-! ## What the arrays hold -/

theorem EndFrame_fst (SerializeObject : Data D → B) (orderbook : Orderbook D)
    (IsTradeAllowed : List (List Char × Bool)) :
    (orderbook.EndFrame SerializeObject IsTradeAllowed).1 = orderbook := by
  unfold EndFrame
  split <;> rfl

variable [MulOneClass D] [HasDistribNeg D] [Zero D] [IntCast D]

/-- The arrays with these rows. -/
def rowsData (size : Nat) (rows : List (DataRow D)) : Data D where
  prices := listing size (rows.map DataRow.Price)
  volumes := listing size (rows.map signedQuantity)

/-- The order book holds these rows. -/
structure Holds (security : ActiveSecuritiesEntry) (max_depth : Int32) (rows : List (DataRow D))
    (orderbook : Orderbook D) : Prop where
  security_eq : orderbook.security = security
  max_depth_eq : orderbook.max_depth_ = max_depth
  rows_eq : orderbook.orderbook_rows_ = rowsData (arraySize max_depth) rows
  row_index_eq : orderbook.row_index_ = rows.length
  length_le : rows.length ≤ arraySize max_depth

section Handlers

variable {security : ActiveSecuritiesEntry} {max_depth : Int32} {rows : List (DataRow D)}
  {orderbook : Orderbook D} (SerializeObject : Data D → B)

theorem Holds.clear (h : Holds security max_depth rows orderbook) :
    Holds security max_depth [] orderbook.clear_orderbook_rows where
  security_eq := h.security_eq
  max_depth_eq := h.max_depth_eq
  rows_eq := by
    rw [clear_orderbook_rows, h.rows_eq, h.max_depth_eq]
    simp only [rowsData]
    rw [zeroFirst_listing (by rw [List.length_map]; exact h.length_le),
      zeroFirst_listing (by rw [List.length_map]; exact h.length_le)]
    rfl
  row_index_eq := rfl
  length_le := Nat.zero_le _

theorem Holds.addRow (h : Holds security max_depth rows orderbook) (dr : DataRow D)
    (hlt : rows.length < arraySize max_depth) :
    Holds security max_depth (rows ++ [dr]) (orderbook.AddRow (B := B) dr).1 := by
  have hprices_lt : (rows.map DataRow.Price).length < arraySize max_depth := by
    rwa [List.length_map]
  have hvolumes_lt : (rows.map (signedQuantity (D := D))).length < arraySize max_depth := by
    rwa [List.length_map]
  have hprices := store_listing hprices_lt dr.Price
  have hvolumes := store_listing hvolumes_lt (signedQuantity dr)
  rw [List.length_map] at hprices hvolumes
  unfold AddRow
  simp only [h.rows_eq, h.row_index_eq, rowsData, hprices, hvolumes, volume_eq]
  exact {
    security_eq := h.security_eq
    max_depth_eq := h.max_depth_eq
    rows_eq := by rw [rowsData, List.map_append, List.map_append, List.map_singleton,
      List.map_singleton]
    row_index_eq := by rw [List.length_append, List.length_singleton]
    length_le := by
      rw [List.length_append, List.length_singleton]
      exact hlt }

/-- **Step lemma.** -/
theorem Holds.handle (h : Holds security max_depth rows orderbook) (event : TableEvent D)
    (hle : (rowsAfter rows event).length ≤ arraySize max_depth) :
    Holds security max_depth (rowsAfter rows event) (orderbook.handle SerializeObject event).1 := by
  cases event with
  | addRow dr =>
    have hlen : (rows ++ [dr]).length ≤ arraySize max_depth := hle
    rw [List.length_append, List.length_singleton] at hlen
    exact h.addRow dr hlen
  | updateRow dr =>
    have hlen : (rows ++ [dr]).length ≤ arraySize max_depth := hle
    rw [List.length_append, List.length_singleton] at hlen
    exact h.addRow dr hlen
  | clearData => exact h.clear
  | beginFrame =>
    have hrows : rowsAfter rows .beginFrame = rows := List.append_nil rows
    rw [hrows]
    exact h
  | endFrame IsTradeAllowed =>
    have hrows : rowsAfter rows (.endFrame IsTradeAllowed) = rows := List.append_nil rows
    have hsame := EndFrame_fst SerializeObject orderbook IsTradeAllowed
    rw [hrows, Orderbook.handle, hsame]
    exact h

/-- What a new order book holds. -/
theorem holds_new (h : new security max_depth = some orderbook) :
    Holds security max_depth ([] : List (DataRow D)) orderbook := by
  unfold new at h
  split at h
  · cases h
  · cases h
    have hempty : Holds security max_depth ([] : List (DataRow D))
        { security := security
          max_depth_ := max_depth
          orderbook_rows_ := rowsData (arraySize max_depth) []
          row_index_ := 0 } :=
      ⟨rfl, rfl, rfl, rfl, Nat.zero_le _⟩
    exact hempty.clear

/-! ## Runs -/

/-- **Run lemma.** -/
theorem holds_after (h : new security max_depth = some orderbook) {events : List (TableEvent D)}
    (hfits : Fits max_depth events) :
    Holds security max_depth (rowsSinceClear events) (orderbook.after SerializeObject events) := by
  induction events using List.reverseRecOn with
  | nil => exact holds_new h
  | append_singleton events event ih =>
    have hle := hfits.length_le
    rw [rowsSinceClear_concat] at hle ⊢
    rw [after, List.foldl_append]
    exact (ih hfits.of_append).handle SerializeObject event
      (Nat.le_trans hle (toNat_le_arraySize h))

/-- All writes are at indices below twice the depth, and what is posted at the end of a frame of a
tradable security is the rows since the last clear event and zeros. -/
structure InBoundsAndCurrent (security : ActiveSecuritiesEntry) (max_depth : Int32)
    (orderbook : Orderbook D) (events : List (TableEvent D)) : Prop where
  index_lt : ∀ before event rest dr, events = before ++ event :: rest → rowOf event = some dr →
    ((orderbook.after SerializeObject before).row_index_ : Int) < 2 * max_depth.toInt
  posted : ∀ before IsTradeAllowed rest, events = before ++ .endFrame IsTradeAllowed :: rest →
    AssocMap.find IsTradeAllowed security.sec_code = some true →
    ((orderbook.after SerializeObject before).handle SerializeObject (.endFrame IsTradeAllowed)).2 =
      .posted (resource security)
        (SerializeObject (rowsData (arraySize max_depth) (rowsSinceClear before)))

theorem InBoundsAndCurrent.of_fits (h : new security max_depth = some orderbook)
    {events : List (TableEvent D)} (hfits : Fits max_depth events) :
    InBoundsAndCurrent SerializeObject security max_depth orderbook events where
  index_lt before event rest dr heq hrow := by
    have hbefore : Fits max_depth before := by
      rw [heq] at hfits
      exact hfits.of_append
    have hnext := hfits (before ++ [event]) rest (by rw [heq, List.append_assoc]; rfl)
    rw [rowsSinceClear_concat, rowsAfter_of_row hrow, List.length_append,
      List.length_singleton] at hnext
    rw [(holds_after SerializeObject h hbefore).row_index_eq]
    omega
  posted before IsTradeAllowed rest heq hallowed := by
    have hbefore : Fits max_depth before := by
      rw [heq] at hfits
      exact hfits.of_append
    have hholds := holds_after SerializeObject h hbefore
    rw [Orderbook.handle, EndFrame, hholds.security_eq, hallowed]
    dsimp only
    rw [hholds.rows_eq]

/-- The index of a further row would be outside. -/
theorem InBoundsAndCurrent.fits (h : new security max_depth = some orderbook)
    {events : List (TableEvent D)}
    (hbounds : InBoundsAndCurrent SerializeObject security max_depth orderbook events) :
    Fits max_depth events := by
  suffices hprefix : ∀ before rest, events = before ++ rest → Fits max_depth before from
    hprefix events [] (List.append_nil _).symm
  intro before
  induction before using List.reverseRecOn with
  | nil =>
    intro _ _
    exact Fits.nil
  | append_singleton before event ih =>
    intro rest heq
    have hsplit : events = before ++ event :: rest := by
      rw [heq, List.append_assoc]
      rfl
    have hbefore := ih (event :: rest) hsplit
    have hindex := (holds_after SerializeObject h hbefore).row_index_eq
    refine hbefore.concat ?_
    rw [rowsSinceClear_concat]
    cases hrow : rowOf event with
    | none => exact Nat.le_trans (length_rowsAfter_of_none hrow) hbefore.length_le
    | some dr =>
      have hlt := hbounds.index_lt before event rest dr hsplit hrow
      rw [rowsAfter_of_row hrow, List.length_append, List.length_singleton]
      omega

/-- The writes stay in bounds and the posted rows are the current ones exactly when no more rows
come between two clear events than the arrays have room for. -/
theorem inBoundsAndCurrent_iff (h : new security max_depth = some orderbook)
    (events : List (TableEvent D)) :
    InBoundsAndCurrent SerializeObject security max_depth orderbook events ↔
      Fits max_depth events :=
  ⟨InBoundsAndCurrent.fits SerializeObject h, InBoundsAndCurrent.of_fits SerializeObject h⟩

end Handlers

/-- The security that the gate is made for. -/
def future : ActiveSecuritiesEntry where
  id := 0
  alias_id := 0
  sec_board := "FUT".toList
  sec_code := "Si-9.16 ".toList

/-- A bid. -/
def bid : DataRow Int where
  Price := 64000
  Quantity := 5
  BuySell := "B ".toList

/-- Two rows and a frame of a book of depth one. -/
theorem inBoundsAndCurrent_two_rows : ∃ orderbook, new (D := Int) future 1 = some orderbook ∧
    InBoundsAndCurrent id future 1 orderbook
      [.addRow bid, .updateRow bid, .endFrame [("Si-9.16 ".toList, true)]] :=
  ⟨_, rfl, (inBoundsAndCurrent_iff id rfl _).mpr
    (((Fits.nil.concat (by decide)).concat (by decide)).concat (by decide))⟩

/-- A book of the depth that is used has no room for the `101`st update. -/
theorem updates_out_of_bounds : ∃ orderbook, new (D := Int) future 50 = some orderbook ∧
    ¬ InBoundsAndCurrent id future 50 orderbook (List.replicate 101 (.updateRow bid)) := by
  refine ⟨_, rfl, ?_⟩
  intro h
  have hlt := h.index_lt (List.replicate 100 (.updateRow bid)) (.updateRow bid) [] bid rfl rfl
  revert hlt
  decide +kernel

end Alorgate.Orderbook

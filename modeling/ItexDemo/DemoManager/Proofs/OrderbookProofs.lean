import Mathlib.Tactic.SplitIfs
import ItexDemo.DemoManager.HttpServerHandler
import ItexDemo.Quant.Utils

/-!
# The two builders of an order-book entry

`built bids asks` is the buffer with two given sides, each padded with zero rows. Both builders
produce it when the sides fit, and no buffer shows a side that does not fit.
-/

namespace Quant

variable {D : Type*}

/-! ## Rows in the buffer -/

/-- Rows as the doubles of the buffer. -/
def flat (side : List (D × D)) : List D := side.flatMap fun row => [row.1, row.2]

@[simp] theorem flat_nil : flat ([] : List (D × D)) = [] := rfl

@[simp] theorem flat_cons (row : D × D) (side : List (D × D)) :
    flat (row :: side) = row.1 :: row.2 :: flat side := rfl

@[simp] theorem length_flat (side : List (D × D)) : (flat side).length = side.length * 2 := by
  induction side with
  | nil => rfl
  | cons row side ih =>
    simp only [flat_cons, List.length_cons, ih]
    omega

@[simp] theorem flat_append (side side' : List (D × D)) :
    flat (side ++ side') = flat side ++ flat side' := by
  simp [flat]

/-- A side with zero rows behind it. -/
def pad [Zero D] (depth : Nat) (side : List (D × D)) : List (D × D) :=
  side ++ List.replicate (depth - side.length) (0, 0)

theorem length_pad [Zero D] {depth : Nat} {side : List (D × D)} (h : side.length ≤ depth) :
    (pad depth side).length = depth := by
  rw [pad, List.length_append, List.length_replicate]
  omega

theorem flat_replicate_zero [Zero D] (n : Nat) :
    flat (List.replicate n ((0, 0) : D × D)) = List.replicate (n * 2) 0 := by
  induction n with
  | zero => rfl
  | succ n ih => rw [List.replicate_succ, flat_cons, ih, Nat.succ_mul, List.replicate_succ,
      List.replicate_succ]

/-- The two doubles of row `i`. -/
theorem getD_flat [Zero D] {side : List (D × D)} {i : Nat} (hi : i < side.length)
    (front back : List D) :
    (front ++ flat side ++ back).getD (front.length + i * 2) 0 = side[i].1 ∧
      (front ++ flat side ++ back).getD (front.length + (i * 2 + 1)) 0 = side[i].2 := by
  induction side generalizing i front with
  | nil => exact absurd hi (Nat.not_lt_zero i)
  | cons row side ih =>
    cases i with
    | zero => simp
    | succ i =>
      have hi' : i < side.length := Nat.lt_of_succ_lt_succ hi
      have hrest := ih hi' (front ++ [row.1, row.2])
      have h1 : front.length + (i + 1) * 2 = (front ++ [row.1, row.2]).length + i * 2 := by
        rw [List.length_append]
        simp only [List.length_cons, List.length_nil]
        omega
      have h2 : front.length + ((i + 1) * 2 + 1) =
          (front ++ [row.1, row.2]).length + (i * 2 + 1) := by
        rw [List.length_append]
        simp only [List.length_cons, List.length_nil]
        omega
      have hdata : front ++ flat (row :: side) ++ back =
          front ++ [row.1, row.2] ++ flat side ++ back := by
        simp
      rw [hdata, h1, h2, List.getElem_cons_succ]
      exact hrest

namespace OrderbookEntry

@[ext] theorem ext {e e' : OrderbookEntry D} (hdepth : e.orderbook_depth_ = e'.orderbook_depth_)
    (hdata : e.data_ = e'.data_) : e = e' := by
  cases e
  cases e'
  cases hdepth
  cases hdata
  rfl

theorem rows_eq [Zero D] (e : OrderbookEntry D) (front back : List D) (side : List (D × D))
    (h : e.data_ = front ++ flat side ++ back) : e.rows front.length side.length = side := by
  apply List.ext_getElem
  · simp [rows]
  · intro i h1 h2
    have hi := getD_flat h2 front back
    simp only [rows, List.getElem_map, List.getElem_range, h, hi.1, hi.2]

theorem length_rows [Zero D] (e : OrderbookEntry D) (base n : Nat) : (e.rows base n).length = n := by
  simp [rows]

/-- A store into the part of the buffer that holds `old`. -/
theorem store_append (e : OrderbookEntry D) (front back : List D) (old : D)
    (h : e.data_ = front ++ old :: back) {i : Nat} (hi : front.length = i) (x : D) :
    ∃ e', e.store i x = some e' ∧ e'.orderbook_depth_ = e.orderbook_depth_ ∧
      e'.data_ = front ++ x :: back := by
  subst hi
  have hlt : front.length < e.size := by
    rw [size, h, List.length_append, List.length_cons]
    omega
  rw [store, if_pos hlt]
  refine ⟨_, rfl, rfl, ?_⟩
  show e.data_.set front.length x = _
  rw [h, List.set_append_right _ _ (Nat.le_refl _), Nat.sub_self, List.set_cons_zero]

end OrderbookEntry

/-! ## The sides -/

section Sides

variable [LinearOrder D] [Zero D]

theorem splitRows_eq (book : List (D × D)) :
    splitRows book = (book.filter fun row => row.2 > 0, book.filter fun row => row.2 < 0) := by
  suffices h : ∀ sides : List (D × D) × List (D × D),
      book.foldl (fun sides row =>
        if row.2 > 0 then (sides.1 ++ [row], sides.2)
        else if row.2 < 0 then (sides.1, sides.2 ++ [row])
        else sides) sides =
      (sides.1 ++ book.filter (fun row => row.2 > 0), sides.2 ++ book.filter fun row => row.2 < 0) by
    simpa [splitRows] using h ([], [])
  induction book with
  | nil => simp
  | cons row book ih =>
    intro sides
    rw [List.foldl_cons, ih]
    split_ifs with hpos hneg
    · have hneg : ¬row.2 < 0 := not_lt_of_gt hpos
      simp [hpos, hneg]
    · simp [hpos, hneg]
    · simp [hpos, hneg]

/-- The bids of a book as the builders sort them. -/
def sortedBids (sorter : StdSort (D × D)) (book : List (D × D)) : List (D × D) :=
  sorter.sort (fun a b => decide (a.1 > b.1)) (book.filter fun row => row.2 > 0)

/-- The asks of a book as the builders sort them. -/
def sortedAsks (sorter : StdSort (D × D)) (book : List (D × D)) : List (D × D) :=
  sorter.sort (fun a b => decide (a.1 < b.1)) (book.filter fun row => row.2 < 0)

theorem sortedBids_pairwise (sorter : StdSort (D × D)) (book : List (D × D)) :
    (sortedBids sorter book).Pairwise fun a b => b.1 ≤ a.1 := by
  have h := sorter.sorted _ (book.filter fun row => row.2 > 0)
    (StdSort.strictWeakOrder_key_desc Prod.fst)
  exact h.imp fun hab => by simpa using hab

theorem sortedAsks_pairwise (sorter : StdSort (D × D)) (book : List (D × D)) :
    (sortedAsks sorter book).Pairwise fun a b => a.1 ≤ b.1 := by
  have h := sorter.sorted _ (book.filter fun row => row.2 < 0)
    (StdSort.strictWeakOrder_key Prod.fst)
  exact h.imp fun hab => by simpa using hab

end Sides

/-! ## The entry with given sides -/

variable [Zero D]

/-- The entry with two given sides. -/
def built (depth : Nat) (security_id timestamp : D) (bids asks : List (D × D))
    (hbids : bids.length ≤ depth) (hasks : asks.length ≤ depth) : OrderbookEntry D where
  orderbook_depth_ := depth
  data_ := [security_id, timestamp] ++ flat (pad depth bids) ++ flat (pad depth asks)
  size_eq := by
    simp only [List.length_append, length_flat, length_pad hbids, length_pad hasks,
      List.length_cons, List.length_nil]
    omega

section Built

variable {depth : Nat} {security_id timestamp : D} {bids asks : List (D × D)}
  (hbids : bids.length ≤ depth) (hasks : asks.length ≤ depth)

theorem bidRows_built :
    (built depth security_id timestamp bids asks hbids hasks).bidRows = pad depth bids := by
  have h := OrderbookEntry.rows_eq (built depth security_id timestamp bids asks hbids hasks)
    [security_id, timestamp] (flat (pad depth asks)) (pad depth bids) rfl
  rwa [length_pad hbids] at h

theorem askRows_built :
    (built depth security_id timestamp bids asks hbids hasks).askRows = pad depth asks := by
  have h := OrderbookEntry.rows_eq (built depth security_id timestamp bids asks hbids hasks)
    ([security_id, timestamp] ++ flat (pad depth bids)) [] (pad depth asks) (List.append_nil _).symm
  have hbase : ([security_id, timestamp] ++ flat (pad depth bids)).length = 2 + depth * 2 := by
    rw [List.length_append, length_flat, length_pad hbids]
    rfl
  rw [length_pad hasks] at h
  rwa [hbase] at h

end Built

end Quant

namespace DemoManager

open Quant

variable {D : Type*}

/-! ## The stores of the two builders -/

/-- Storing a side over old rows. -/
theorem HttpServerHandler.storeSide_append (base i : Nat) (side : List (D × D))
    {e : OrderbookEntry D} (front old back : List D) (hdata : e.data_ = front ++ old ++ back)
    (hfront : front.length = base + i * 2) (hold : old.length = side.length * 2) :
    ∃ e', storeSide base i side e = some e' ∧ e'.orderbook_depth_ = e.orderbook_depth_ ∧
      e'.data_ = front ++ flat side ++ back := by
  induction side generalizing i e front old with
  | nil =>
    have hnil : old = [] := List.length_eq_zero_iff.mp hold
    exact ⟨e, rfl, rfl, by rw [hdata, hnil, flat_nil]⟩
  | cons row side ih =>
    obtain ⟨old₁, old₂, old, rfl⟩ : ∃ old₁ old₂ old', old = old₁ :: old₂ :: old' := by
      match old, hold with
      | old₁ :: old₂ :: old', _ => exact ⟨old₁, old₂, old', rfl⟩
      | [_], hold => simp only [List.length_cons, List.length_nil] at hold; omega
      | [], hold => simp only [List.length_cons, List.length_nil] at hold; omega
    obtain ⟨e₁, hstore₁, hdepth₁, hdata₁⟩ :=
      e.store_append front (old₂ :: (old ++ back)) old₁ (by rw [hdata]; simp) hfront row.1
    obtain ⟨e₂, hstore₂, hdepth₂, hdata₂⟩ :=
      e₁.store_append (front ++ [row.1]) (old ++ back) old₂ (by rw [hdata₁]; simp)
        (i := base + (i * 2 + 1)) (by simp [hfront, Nat.add_assoc]) row.2
    obtain ⟨e', hrest, hdepth, hdata'⟩ := ih (i + 1) (e := e₂)
      (front ++ [row.1, row.2]) old (by rw [hdata₂]; simp)
      (by simp only [List.length_append, hfront, List.length_cons, List.length_nil]; omega)
      (by simp only [List.length_cons] at hold; omega)
    refine ⟨e', ?_, by rw [hdepth, hdepth₂, hdepth₁], by rw [hdata']; simp⟩
    rw [storeSide, hstore₁]
    show (e₁.store (base + (i * 2 + 1)) row.2 >>= _) = _
    rw [hstore₂]
    exact hrest

theorem length_levels (entry : QueueEntry D) : entry.levels.length = entry.prices.length := by
  rw [QueueEntry.levels, List.length_zip, ← entry.size_eq, Nat.min_self]

/-- The arrays of a book are read as this book. -/
theorem readBook_book (id : UInt64) (timestamp : D) (book : List (D × D)) :
    ∃ entry, HttpServerHandler.readBook id timestamp (book.map Prod.fst) (book.map Prod.snd) =
      some entry ∧ entry.levels = book := by
  have hle : (book.map Prod.fst).length ≤ (book.map Prod.snd).length := by simp
  rw [HttpServerHandler.readBook, dif_pos hle]
  refine ⟨_, rfl, ?_⟩
  show (book.map Prod.fst).zip ((book.map Prod.snd).take (book.map Prod.fst).length) = book
  rw [List.take_of_length_le (by simp), List.zip_map']
  exact List.map_id' book

section Stores

variable [Zero D]

/-- The entry before its sides are stored. -/
theorem new_stored (depth : Nat) (security_id timestamp : D) :
    ∃ e₀ e, (OrderbookEntry.new depth : OrderbookEntry D).store OrderbookEntry.securityId
        security_id = some e₀ ∧
      e₀.store OrderbookEntry.timestamp timestamp = some e ∧ e.orderbook_depth_ = depth ∧
      e.data_ = [security_id, timestamp] ++ List.replicate (depth * 2) 0 ++
        List.replicate (depth * 2) 0 := by
  have hzeros : (OrderbookEntry.new depth : OrderbookEntry D).data_ =
      0 :: 0 :: (List.replicate (depth * 2) 0 ++ List.replicate (depth * 2) 0) := by
    show List.replicate (depth * 2 * 2 + 2) (0 : D) = _
    rw [List.replicate_append_replicate, ← Nat.mul_two]
    rfl
  obtain ⟨e₀, hstore₀, hdepth₀, hdata₀⟩ :=
    (OrderbookEntry.new depth : OrderbookEntry D).store_append [] _ 0 hzeros
      (i := OrderbookEntry.securityId) rfl security_id
  obtain ⟨e, hstore, hdepth, hdata⟩ :=
    e₀.store_append [security_id] _ 0 hdata₀ (i := OrderbookEntry.timestamp) rfl timestamp
  exact ⟨e₀, e, hstore₀, hstore, hdepth.trans hdepth₀, by rw [hdata]; simp⟩

/-- The two sides stored in a new entry. -/
theorem storeSides {depth : Nat} {security_id timestamp : D} {bids asks : List (D × D)}
    (hbids : bids.length ≤ depth) (hasks : asks.length ≤ depth) {e : OrderbookEntry D}
    (hdepth : e.orderbook_depth_ = depth)
    (hdata : e.data_ = [security_id, timestamp] ++ List.replicate (depth * 2) 0 ++
      List.replicate (depth * 2) 0) :
    ∃ e₁, HttpServerHandler.storeSide OrderbookEntry.bids 0 bids e = some e₁ ∧
      HttpServerHandler.storeSide e₁.asks 0 asks e₁ =
        some (built depth security_id timestamp bids asks hbids hasks) := by
  have hzeros : ∀ side : List (D × D), side.length ≤ depth → List.replicate (depth * 2) (0 : D) =
      List.replicate (side.length * 2) 0 ++ flat (List.replicate (depth - side.length) (0, 0)) := by
    intro side hside
    rw [flat_replicate_zero, List.replicate_append_replicate]
    congr 1
    omega
  obtain ⟨e₁, hstore₁, hdepth₁, hdata₁⟩ :=
    HttpServerHandler.storeSide_append OrderbookEntry.bids 0 bids [security_id, timestamp]
      (List.replicate (bids.length * 2) 0)
      (flat (List.replicate (depth - bids.length) (0, 0)) ++ List.replicate (depth * 2) 0)
      (by rw [hdata, hzeros bids hbids]; simp) rfl List.length_replicate
  obtain ⟨e₂, hstore₂, hdepth₂, hdata₂⟩ :=
    HttpServerHandler.storeSide_append e₁.asks 0 asks
      ([security_id, timestamp] ++ flat (pad depth bids)) (List.replicate (asks.length * 2) 0)
      (flat (List.replicate (depth - asks.length) (0, 0)))
      (by rw [hdata₁, hzeros asks hasks, pad]; simp)
      (by simp only [List.length_append, length_flat, length_pad hbids, OrderbookEntry.asks,
            hdepth₁, hdepth, List.length_cons, List.length_nil]; omega)
      List.length_replicate
  refine ⟨e₁, hstore₁, ?_⟩
  rw [hstore₂]
  refine congrArg some (OrderbookEntry.ext ?_ ?_)
  · rw [hdepth₂, hdepth₁, hdepth]
    rfl
  · rw [hdata₂]
    simp [built, pad]

theorem addVolume_some (addAbs : D → D → D) {avg_volumes : List D} {i : Nat}
    (hi : i < avg_volumes.length) (volume : D) :
    ∃ avg', Utils.addVolume addAbs avg_volumes i volume = some avg' ∧
      avg'.length = avg_volumes.length := by
  rw [Utils.addVolume, if_pos hi]
  exact ⟨_, rfl, List.length_set⟩

/-- With enough room in `avg_volumes` the loader stores a side as the handler does. -/
theorem storeSide_of_handler (addAbs : D → D → D) {base i : Nat} {side : List (D × D)}
    {e e' : OrderbookEntry D} (h : HttpServerHandler.storeSide base i side e = some e')
    (avg_volumes : List D) (hi : i + side.length ≤ avg_volumes.length) :
    ∃ avg', Utils.storeSide addAbs base i side e avg_volumes = some (e', avg') ∧
      avg'.length = avg_volumes.length := by
  induction side generalizing i e avg_volumes with
  | nil =>
    cases h
    exact ⟨avg_volumes, rfl, rfl⟩
  | cons row side ih =>
    rw [List.length_cons] at hi
    obtain ⟨e₁, h₁, h⟩ := Option.bind_eq_some_iff.mp h
    obtain ⟨e₂, h₂, h⟩ := Option.bind_eq_some_iff.mp h
    obtain ⟨avg₁, havg₁, hlen₁⟩ := addVolume_some addAbs (show i < avg_volumes.length by omega) row.2
    obtain ⟨avg', hrest, hlen⟩ := ih h avg₁ (by rw [hlen₁]; omega)
    refine ⟨avg', ?_, hlen.trans hlen₁⟩
    simp only [Utils.storeSide, h₁, h₂, havg₁, Option.bind_eq_bind, Option.bind_some]
    exact hrest

theorem length_growTo (n : Nat) (avg_volumes : List D) :
    n ≤ (Utils.growTo n avg_volumes).length := by
  unfold Utils.growTo
  split_ifs with h
  · rw [List.length_append, List.length_replicate]
    omega
  · omega

/-- A side that is shown is no longer than the rows. -/
theorem length_le_of_sideShows {le : D → D → Prop} {side rows : List (D × D)}
    (h : SideShows le side rows) : side.length ≤ rows.length := by
  obtain ⟨sorted, hperm, -, hrows⟩ := h
  have hlen := congrArg List.length hrows
  rw [List.length_append, List.length_replicate, hperm.length_eq] at hlen
  omega

end Stores

section Handler

variable [LinearOrder D] [Zero D]

theorem fits_of_shows {e : OrderbookEntry D} {book : List (D × D)} (h : e.Shows book) :
    Fits book := by
  have hbids := length_le_of_sideShows h.bids
  have hasks := length_le_of_sideShows h.asks
  rw [OrderbookEntry.bidRows, OrderbookEntry.length_rows, h.depth] at hbids
  rw [OrderbookEntry.askRows, OrderbookEntry.length_rows, h.depth] at hasks
  exact ⟨hbids, hasks⟩

variable (sorter : StdSort (D × D))

/-- The entry with the sorted sides of a book that fits. -/
def entryOf (security_id timestamp : D) (book : List (D × D)) (h : Fits book) :
    OrderbookEntry D :=
  built (book.length / 2) security_id timestamp (sortedBids sorter book) (sortedAsks sorter book)
    (by rw [sortedBids, StdSort.length_sort]; exact h.1)
    (by rw [sortedAsks, StdSort.length_sort]; exact h.2)

theorem entryOf_shows (security_id timestamp : D) {book : List (D × D)} (h : Fits book) :
    (entryOf sorter security_id timestamp book h).Shows book where
  depth := rfl
  bids := by
    refine ⟨sortedBids sorter book, sorter.perm _ _, sortedBids_pairwise sorter book, ?_⟩
    rw [entryOf, bidRows_built, length_pad (by rw [sortedBids, StdSort.length_sort]; exact h.1)]
    rfl
  asks := by
    refine ⟨sortedAsks sorter book, sorter.perm _ _, sortedAsks_pairwise sorter book, ?_⟩
    rw [entryOf, askRows_built, length_pad (by rw [sortedAsks, StdSort.length_sort]; exact h.2)]
    rfl

/-- The stores of a builder, for a book that fits. -/
theorem stores_entryOf (security_id timestamp : D) {book : List (D × D)} (h : Fits book) :
    ∃ e₀ e e₁, (OrderbookEntry.new (book.length / 2) : OrderbookEntry D).store
        OrderbookEntry.securityId security_id = some e₀ ∧
      e₀.store OrderbookEntry.timestamp timestamp = some e ∧
      HttpServerHandler.storeSide OrderbookEntry.bids 0 (sortedBids sorter book) e = some e₁ ∧
      HttpServerHandler.storeSide e₁.asks 0 (sortedAsks sorter book) e₁ =
        some (entryOf sorter security_id timestamp book h) := by
  obtain ⟨e₀, e, hid, htime, hdepth, hdata⟩ :=
    new_stored (book.length / 2) security_id timestamp
  have hbids : (sortedBids sorter book).length ≤ book.length / 2 := by
    rw [sortedBids, StdSort.length_sort]
    exact h.1
  have hasks : (sortedAsks sorter book).length ≤ book.length / 2 := by
    rw [sortedAsks, StdSort.length_sort]
    exact h.2
  obtain ⟨e₁, hstore, hrest⟩ := storeSides hbids hasks hdepth hdata
  exact ⟨e₀, e, e₁, hid, htime, hstore, hrest⟩

theorem worksetEntry_of_fits (ofId : UInt64 → D) (entry : QueueEntry D) (h : Fits entry.levels) :
    HttpServerHandler.worksetEntry sorter ofId entry =
      some (entryOf sorter (ofId entry.security_id) entry.timestamp entry.levels h) := by
  have hsize : entry.prices.length = entry.levels.length := (length_levels entry).symm
  obtain ⟨e₀, e, e₁, hid, htime, hbids, hasks⟩ :=
    stores_entryOf sorter (ofId entry.security_id) entry.timestamp h
  unfold sortedBids at hbids
  unfold sortedAsks at hasks
  simp only [HttpServerHandler.worksetEntry, hsize, splitRows_eq, hid, htime, hbids,
    Option.bind_eq_bind, Option.bind_some]
  exact hasks

theorem preloadEntry_of_fits (addAbs : D → D → D) (security_id timestamp : D)
    {book : List (D × D)} (h : Fits book) (avg_volumes : List D) :
    ∃ avg', Utils.preloadEntry sorter addAbs security_id timestamp book avg_volumes =
      some (entryOf sorter security_id timestamp book h, avg') := by
  obtain ⟨e₀, e, e₁, hid, htime, hbids, hasks⟩ := stores_entryOf sorter security_id timestamp h
  have hroom := length_growTo (book.length / 2) avg_volumes
  obtain ⟨avg₁, hbids, hlen₁⟩ := storeSide_of_handler addAbs hbids
    (Utils.growTo (book.length / 2) avg_volumes)
    (by rw [Nat.zero_add, sortedBids, StdSort.length_sort]; exact Nat.le_trans h.1 hroom)
  obtain ⟨avg', hasks, -⟩ := storeSide_of_handler addAbs hasks avg₁
    (by rw [Nat.zero_add, hlen₁, sortedAsks, StdSort.length_sort]; exact Nat.le_trans h.2 hroom)
  refine ⟨avg', ?_⟩
  unfold sortedBids at hbids
  unfold sortedAsks at hasks
  simp only [Utils.preloadEntry, splitRows_eq, hid, htime, hbids, Option.bind_eq_bind,
    Option.bind_some]
  exact hasks

/-! ## What the builders show -/

variable (ofId : UInt64 → D) (addAbs : D → D → D)

/-- Both builders stay inside the entry and show the whole book exactly when at most half of its
levels are bids and at most half are asks. -/
theorem entries_show_book_iff_fits (book : List (D × D)) (persist_workset_to_database : Bool)
    (address : List Char) (hlocal : isLocalNetAddress address = true) (id : UInt64)
    (timestamp security_id timestamp' : D) (avg_volumes : List D) :
    ((∃ queued e, HttpServerHandler.addOrderbook sorter ofId persist_workset_to_database address id
        timestamp (book.map Prod.fst) (book.map Prod.snd) = .pushed queued e ∧ e.Shows book) ↔
      Fits book) ∧
    ((∃ e avg', Utils.preloadEntry sorter addAbs security_id timestamp' book avg_volumes =
        some (e, avg') ∧ e.Shows book) ↔ Fits book) := by
  refine ⟨⟨?_, ?_⟩, ⟨?_, ?_⟩⟩
  · rintro ⟨-, e, -, hshows⟩
    exact fits_of_shows hshows
  · intro h
    obtain ⟨entry, hread, hlevels⟩ := readBook_book id timestamp book
    rw [HttpServerHandler.addOrderbook, if_pos hlocal, hread]
    simp only [worksetEntry_of_fits sorter ofId entry (by rwa [hlevels])]
    refine ⟨_, _, rfl, ?_⟩
    simp only [hlevels]
    exact entryOf_shows sorter _ _ h
  · rintro ⟨e, -, -, hshows⟩
    exact fits_of_shows hshows
  · intro h
    obtain ⟨avg', hpreload⟩ :=
      preloadEntry_of_fits sorter addAbs security_id timestamp' h avg_volumes
    exact ⟨_, avg', hpreload, entryOf_shows sorter security_id timestamp' h⟩

/-- Two levels, one on each side. -/
theorem entries_show_book_two_levels :
    ∃ queued e, HttpServerHandler.addOrderbook (.insertion (Int × Int)) (fun id => id.toNat) true
      "127.0.0.1".toList 7 100 [11, 10] [-2, 3] = .pushed queued e ∧ e.Shows [(11, -2), (10, 3)] :=
  ((entries_show_book_iff_fits (.insertion (Int × Int)) (fun id => id.toNat) (fun sum volume => sum + volume.natAbs)
    [(11, -2), (10, 3)] true "127.0.0.1".toList (by decide) 7 100 7 100 []).1).mpr
      ⟨by decide, by decide⟩

/-- A book with one bid has no room for it. -/
theorem single_bid_out_of_bounds :
    ¬((∃ queued e, HttpServerHandler.addOrderbook (.insertion (Int × Int)) (fun id => id.toNat) true
        "127.0.0.1".toList 7 100 [10] [3] = .pushed queued e ∧ e.Shows [(10, 3)]) ∧
      ∃ e avg', Utils.preloadEntry (.insertion (Int × Int)) (fun sum volume => sum + volume.natAbs) 7 100
        [(10, 3)] [] = some (e, avg') ∧ e.Shows [(10, 3)]) := by
  rintro ⟨⟨queued, e, hadd, -⟩, -⟩
  cases hadd

end Handler

end DemoManager

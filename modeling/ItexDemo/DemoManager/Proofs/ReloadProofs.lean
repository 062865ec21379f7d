import ItexDemo.DemoManager.OrderbookQueueWriter
import ItexDemo.DemoManager.Proofs.OrderbookProofs

/-!
# The live entry and the reloaded one

What the queue writer stores for an order book is read back rounded to six decimals
(`selectDetails_storeEntry`), and later rounds do not change it. From there both builders are
compared on the book and on its rounded copy.
-/

namespace DemoManager

open Quant OrderbookQueueWriter

/-! ## What is stored -/

/-- The row of the details that a level is stored in. -/
def detailRow (id : Nat) (level : ℚ × ℚ) : DetailRow :=
  { orderbook_log_id := Decimal.digits id, price := OrderbookQueueWriter.toString level.1,
    volume := OrderbookQueueWriter.toString level.2 }

/-- The parameters of a level, in a list that has them at index `3 * i`. -/
theorem valueRow_level (id : Nat) {levels : List (ℚ × ℚ)} {i : Nat} (hi : i < levels.length) :
    Tables.valueRow (levels.flatMap fun level => [Decimal.digits id,
      OrderbookQueueWriter.toString level.1, OrderbookQueueWriter.toString level.2])
      (i * 3 + 1, i * 3 + 2, i * 3 + 3) = some (detailRow id levels[i]) := by
  induction levels generalizing i with
  | nil => exact absurd hi (Nat.not_lt_zero i)
  | cons level levels ih =>
    cases i with
    | zero => rfl
    | succ i =>
      have hrest := ih (Nat.lt_of_succ_lt_succ hi)
      have h1 : (i + 1) * 3 + 1 - 1 = i * 3 + 1 - 1 + 3 := by omega
      have h2 : (i + 1) * 3 + 2 - 1 = i * 3 + 2 - 1 + 3 := by omega
      have h3 : (i + 1) * 3 + 3 - 1 = i * 3 + 3 - 1 + 3 := by omega
      simp only [Tables.valueRow, List.flatMap_cons, h1, h2, h3] at hrest ⊢
      exact hrest

/-- A loop that succeeds on every element. -/
theorem mapM_eq_some {α β : Type*} {f : α → Option β} {xs : List α} {ys : List β}
    (hlength : xs.length = ys.length)
    (h : ∀ i (hx : i < xs.length) (hy : i < ys.length), f xs[i] = some ys[i]) :
    xs.mapM f = some ys := by
  induction xs generalizing ys with
  | nil =>
    have hnil : ys = [] := List.length_eq_zero_iff.mp hlength.symm
    rw [hnil]
    rfl
  | cons x xs ih =>
    cases ys with
    | nil => cases hlength
    | cons y ys =>
      have hx : f x = some y := h 0 (Nat.succ_pos _) (Nat.succ_pos _)
      have hrest : xs.mapM f = some ys := ih (Nat.succ.inj hlength) fun i hx hy =>
        h (i + 1) (Nat.succ_lt_succ hx) (Nat.succ_lt_succ hy)
      rw [List.mapM_cons, hx, hrest]
      rfl

theorem mapM_valueRow (id : Nat) (entry : QueueEntry ℚ) :
    (insertGroups entry.levels.length).mapM (Tables.valueRow (detailParams id entry)) =
      some (entry.levels.map (detailRow id)) := by
  apply mapM_eq_some
  · simp [insertGroups]
  · intro i hx hy
    have hi : i < entry.levels.length := by simpa using hy
    simp only [insertGroups, List.getElem_map, List.getElem_range]
    exact valueRow_level id hi

/-- The rows that a round adds. -/
structure Stored (t t' : Tables) (id : Nat) (entry : QueueEntry ℚ) : Prop where
  id_eq : id = t.next_id
  next_id : t'.next_id = t.next_id + 1
  securities : t'.securities = t.securities
  log : t'.orderbook_log = t.orderbook_log ++
    [{ id := id, security_id := Decimal.digits entry.security_id.toNat,
       timestamp := OrderbookQueueWriter.toString entry.timestamp }]
  details : t'.orderbook_log_details =
    t.orderbook_log_details ++ entry.levels.map (detailRow id)

theorem storeEntry_stored {t t' : Tables} {id : Nat} {entry : QueueEntry ℚ}
    (h : storeEntry t entry = some (id, t')) : Stored t t' id entry := by
  have hsize : entry.prices.length = entry.levels.length := (length_levels entry).symm
  obtain ⟨⟨id₁, t₁⟩, hlog, h⟩ := Option.bind_eq_some_iff.mp h
  obtain ⟨t₂, hdetails, h⟩ := Option.bind_eq_some_iff.mp h
  cases h
  simp only [Tables.insertLog, logParams] at hlog
  split at hlog
  · cases hlog
    simp only [Tables.insertDetails, hsize, mapM_valueRow] at hdetails
    split at hdetails
    · cases hdetails
    · split at hdetails
      · cases hdetails
        exact ⟨rfl, rfl, rfl, rfl, rfl⟩
      · cases hdetails
  · cases hlog

/-- The row of `orderbook_log` for an entry. -/
def logRow (id : Nat) (entry : QueueEntry ℚ) : LogRow :=
  { id := id, security_id := Decimal.digits entry.security_id.toNat,
    timestamp := OrderbookQueueWriter.toString entry.timestamp }

/-- What the tables hold under the log id `id` is what was stored for `entry`. -/
structure Holds (t : Tables) (id : Nat) (entry : QueueEntry ℚ) : Prop where
  below : id < t.next_id
  log : ∀ row ∈ t.orderbook_log, row.id = id → row = logRow id entry
  details : t.orderbook_log_details.filter (fun row => row.orderbook_log_id = Decimal.digits id) =
    entry.levels.map (detailRow id)

/-- The details of a new log id are those of the new row. -/
theorem filter_details_new {t : Tables} (id id' : Nat) (levels : List (ℚ × ℚ))
    (hid : t.next_id ≤ id') :
    t.orderbook_log_details.filter (fun row => row.orderbook_log_id = Decimal.digits id') = [] ∧
      (levels.map (detailRow id)).filter
        (fun row => row.orderbook_log_id = Decimal.digits id') =
          if id = id' then levels.map (detailRow id) else [] := by
  constructor
  · rw [List.filter_eq_nil_iff]
    intro row hrow heq
    obtain ⟨id'', hlt, hrow⟩ := t.details_below row hrow
    have heq : id'' = id' := Decimal.digits_injective (by rw [← hrow]; simpa using heq)
    omega
  · split_ifs with heq
    · subst heq
      rw [List.filter_eq_self]
      intro row hrow
      obtain ⟨level, -, rfl⟩ := List.mem_map.mp hrow
      simp [detailRow]
    · rw [List.filter_eq_nil_iff]
      intro row hrow hdigits
      obtain ⟨level, -, rfl⟩ := List.mem_map.mp hrow
      exact heq (Decimal.digits_injective (of_decide_eq_true hdigits))

theorem holds_of_stored {t t' : Tables} {id : Nat} {entry : QueueEntry ℚ}
    (h : Stored t t' id entry) : Holds t' id entry where
  below := by
    rw [h.next_id, h.id_eq]
    exact Nat.lt_succ_self _
  log := by
    intro row hrow hid
    rw [h.log] at hrow
    rcases List.mem_append.mp hrow with hold | hnew
    · have hlt := t.log_below row hold
      rw [hid, h.id_eq] at hlt
      exact absurd hlt (Nat.lt_irrefl _)
    · exact List.mem_singleton.mp hnew
  details := by
    obtain ⟨hold, hnew⟩ := filter_details_new (t := t) id id entry.levels
      (by rw [h.id_eq])
    rw [h.details, List.filter_append, hold, hnew, if_pos rfl, List.nil_append]

/-- A further round does not touch what was stored. -/
theorem holds_storeEntry {t t' : Tables} {id id' : Nat} {entry entry' : QueueEntry ℚ}
    (h : Holds t id entry) (hstored : Stored t t' id' entry') : Holds t' id entry where
  below := by
    rw [hstored.next_id]
    exact Nat.lt_succ_of_lt h.below
  log := by
    intro row hrow hid
    rw [hstored.log] at hrow
    rcases List.mem_append.mp hrow with hold | hnew
    · exact h.log row hold hid
    · rw [List.mem_singleton.mp hnew] at hid
      have hlt := h.below
      rw [← hid, ← hstored.id_eq] at hlt
      exact absurd hlt (Nat.lt_irrefl _)
  details := by
    have hne : id' ≠ id := by
      rw [hstored.id_eq]
      exact Nat.ne_of_gt h.below
    have hnew : (entry'.levels.map (detailRow id')).filter
        (fun row => row.orderbook_log_id = Decimal.digits id) = [] := by
      rw [List.filter_eq_nil_iff]
      intro row hrow hdigits
      obtain ⟨level, -, rfl⟩ := List.mem_map.mp hrow
      exact hne (Decimal.digits_injective (of_decide_eq_true hdigits))
    rw [hstored.details, List.filter_append, h.details, hnew, List.append_nil]

theorem holds_skipId {t : Tables} {id : Nat} {entry : QueueEntry ℚ} (h : Holds t id entry) :
    Holds t.skipId id entry := by
  unfold Tables.skipId
  split
  · exact ⟨Nat.lt_succ_of_lt h.below, h.log, h.details⟩
  · exact h

theorem securities_skipId (t : Tables) : t.skipId.securities = t.securities := by
  unfold Tables.skipId
  split <;> rfl

/-- Later rounds keep what was stored and the securities. -/
theorem holds_storeEntries {t : Tables} {id : Nat} {entry : QueueEntry ℚ} (h : Holds t id entry)
    (entries : List (QueueEntry ℚ)) :
    Holds (storeEntries t entries) id entry ∧
      (storeEntries t entries).securities = t.securities := by
  induction entries generalizing t with
  | nil => exact ⟨h, rfl⟩
  | cons entry' entries ih =>
    rw [storeEntries, List.foldl_cons]
    cases hstore : storeEntry t entry' with
    | none =>
      have hrest := ih (holds_skipId h)
      rw [securities_skipId] at hrest
      exact hrest
    | some stored =>
      obtain ⟨id', t'⟩ := stored
      have hstored := storeEntry_stored hstore
      have hrest := ih (holds_storeEntry h hstored)
      rw [hstored.securities] at hrest
      exact hrest

/-! ## What is read back -/

/-- A level rounded to the decimals of its text. -/
def rounded (level : ℚ × ℚ) : ℚ × ℚ := (Decimal.roundTo 6 level.1, Decimal.roundTo 6 level.2)

theorem stod_toString (q : ℚ) :
    Decimal.stod (OrderbookQueueWriter.toString q) = some (Decimal.roundTo 6 q) :=
  Decimal.stod_toFixed (by decide) q

/-- A row of the details read back. -/
def readRow (row : DetailRow) : ℚ × ℚ :=
  ((Decimal.stod row.price).getD 0, (Decimal.stod row.volume).getD 0)

theorem readRow_detailRow (id : Nat) (level : ℚ × ℚ) : readRow (detailRow id level) = rounded level := by
  simp only [readRow, detailRow, stod_toString, Option.getD_some, rounded]

/-- The selected details of an entry are its rounded levels, in some order. -/
theorem readDetails_selectDetails {t : Tables} {id : Nat} {entry : QueueEntry ℚ}
    (h : Holds t id entry) (detailSorter : StdSort DetailRow) :
    ∃ rows, Utils.readDetails (t.selectDetails detailSorter id) = some rows ∧
      rows.Perm (entry.levels.map rounded) := by
  have hperm : (t.selectDetails detailSorter id).Perm (entry.levels.map (detailRow id)) := by
    rw [← h.details]
    exact detailSorter.perm _ _
  refine ⟨(t.selectDetails detailSorter id).map readRow, ?_, ?_⟩
  · apply mapM_eq_some
    · rw [List.length_map]
    · intro i hx hy
      obtain ⟨level, -, hrow⟩ := List.mem_map.mp (hperm.mem_iff.mp (List.getElem_mem hx))
      rw [List.getElem_map, ← hrow, readRow_detailRow]
      simp only [detailRow, stod_toString]
      rfl
  · have hmap := hperm.map readRow
    rwa [List.map_map, show readRow ∘ detailRow id = rounded from
      funext (readRow_detailRow id)] at hmap

/-- The entry that the loader builds for a record, whatever `avg_volumes` holds. -/
def BuiltFrom (detailSorter : StdSort DetailRow) (sorter : StdSort (ℚ × ℚ)) (addAbs : ℚ → ℚ → ℚ)
    (t : Tables) (record : Tables.LogResult) (id : Nat) (e : OrderbookEntry ℚ) : Prop :=
  ∃ security_id timestamp rows avg avg',
    Decimal.stoull (Decimal.digits record.id) = .ok id ∧
    Decimal.stoull (Decimal.digits record.alias_id) = .ok security_id ∧
    Decimal.stod record.timestamp = some timestamp ∧
    Utils.readDetails (t.selectDetails detailSorter id) = some rows ∧
    Utils.preloadEntry sorter addAbs (security_id : ℚ) timestamp rows avg = some (e, avg')

/-- Every entry that is pushed was built from the details of a selected record. -/
theorem mem_preloadRecords {detailSorter : StdSort DetailRow} {sorter : StdSort (ℚ × ℚ)}
    {addAbs : ℚ → ℚ → ℚ} {t : Tables} {records : List Tables.LogResult} {avg_volumes : List ℚ}
    {id : Nat} {e : OrderbookEntry ℚ}
    (h : (id, e) ∈ (Utils.preloadRecords detailSorter sorter addAbs t records avg_volumes).pushed) :
    ∃ record ∈ records, BuiltFrom detailSorter sorter addAbs t record id e := by
  induction records generalizing avg_volumes with
  | nil => cases h
  | cons record records ih =>
    rw [Utils.preloadRecords] at h
    split at h
    · rename_i id₁ security_id timestamp hid hsecurity htime
      split at h
      · rename_i e₁ avg₁ hbuilt
        obtain ⟨rows, hrows, hentry⟩ := Option.bind_eq_some_iff.mp hbuilt
        have hself : BuiltFrom detailSorter sorter addAbs t record id₁ e₁ :=
          ⟨security_id, timestamp, rows, avg_volumes, avg₁, hid, hsecurity, htime, hrows, hentry⟩
        split at h
        · cases List.mem_singleton.mp h
          exact ⟨record, List.mem_cons_self, hself⟩
        · rcases List.mem_cons.mp h with heq | hrest
          · cases heq
            exact ⟨record, List.mem_cons_self, hself⟩
          · obtain ⟨record', hmem, hrecord⟩ := ih hrest
            exact ⟨record', List.mem_cons_of_mem _ hmem, hrecord⟩
      · cases h
    · cases h

/-- A selected record comes from a row of the log and a row of the securities. -/
theorem mem_selectLog {logSorter : StdSort Tables.LogResult} {t : Tables} {capacity offset : Nat}
    {after_timestamp : ℚ} {record : Tables.LogResult}
    (h : record ∈ t.selectLog logSorter capacity offset after_timestamp) :
    ∃ row ∈ t.orderbook_log, t.joinSecurity row = some record := by
  rw [Tables.selectLog, (logSorter.perm _ _).mem_iff] at h
  have hnewest := List.mem_of_mem_drop (List.mem_of_mem_take (List.mem_filter.mp h).1)
  rw [(logSorter.perm _ _).mem_iff] at hnewest
  obtain ⟨row, hrow, hjoin⟩ := List.mem_filterMap.mp (List.mem_filter.mp hnewest).1
  exact ⟨row, hrow, hjoin⟩

/-- What the loader builds for a stored entry whose security is its own alias. -/
theorem preloaded_entry {t : Tables} {id : Nat} {entry : QueueEntry ℚ} (h : Holds t id entry)
    (halias : ∀ security ∈ t.securities, security.1 = entry.security_id.toNat →
      security.2 = entry.security_id.toNat)
    {logSorter : StdSort Tables.LogResult} {detailSorter : StdSort DetailRow}
    {sorter : StdSort (ℚ × ℚ)} {addAbs : ℚ → ℚ → ℚ} {capacity offset : Nat} {after_timestamp : ℚ}
    {e : OrderbookEntry ℚ}
    (hpushed : (id, e) ∈ (Utils.preloadWorksetAsync logSorter detailSorter sorter addAbs t capacity
      offset after_timestamp).pushed) :
    ∃ rows avg avg', rows.Perm (entry.levels.map rounded) ∧
      Utils.preloadEntry sorter addAbs (entry.security_id.toNat : ℚ)
        (Decimal.roundTo 6 entry.timestamp) rows avg = some (e, avg') := by
  obtain ⟨record, hrecord, security_id, timestamp, rows, avg, avg', hid, hsecurity, htime, hrows,
    hentry⟩ := mem_preloadRecords hpushed
  obtain ⟨row, hrow, hjoin⟩ := mem_selectLog hrecord
  obtain ⟨security, hfind, rfl⟩ := Option.map_eq_some_iff.mp hjoin
  have hbelow : row.id < 2 ^ 64 := by
    have hlt := t.log_below row hrow
    have hle := t.next_id_le
    omega
  have hrowid : row.id = id := Except.ok.inj ((Decimal.stoull_digits hbelow).symm.trans hid)
  have hlog := h.log row hrow hrowid
  have hself : security.1 = entry.security_id.toNat := by
    have hdigits := List.find?_some hfind
    simp only [hlog, logRow, decide_eq_true_eq] at hdigits
    exact (Decimal.digits_injective hdigits).symm
  have halias' := halias security (List.mem_of_find?_eq_some hfind) hself
  have hsec : security_id = entry.security_id.toNat := by
    have hread := Decimal.stoull_digits entry.security_id.toNat_lt
    rw [halias'] at hsecurity
    exact (Except.ok.inj (hread.symm.trans hsecurity)).symm
  have htime' : Decimal.roundTo 6 entry.timestamp = timestamp := by
    rw [hlog] at htime
    exact Option.some.inj ((stod_toString _).symm.trans htime)
  obtain ⟨rows', hrows', hperm⟩ := readDetails_selectDetails h detailSorter
  rw [Option.some.inj (hrows'.symm.trans hrows)] at hperm
  rw [hsec, ← htime'] at hentry
  exact ⟨rows, avg, avg', hperm, hentry⟩

/-! ## The two entries -/

theorem filter_rounded (p : ℚ → Bool) (hp : p 0 = false) {levels : List (ℚ × ℚ)}
    (h : ∀ level ∈ levels, level.2 ≠ 0 → rounded level = level) :
    (levels.map rounded).filter (fun level => p level.2) = levels.filter fun level => p level.2 := by
  induction levels with
  | nil => rfl
  | cons level levels ih =>
    have hrest := ih fun level' hmem => h level' (List.mem_cons_of_mem _ hmem)
    rw [List.map_cons]
    by_cases hzero : level.2 = 0
    · have hround : (rounded level).2 = 0 := by
        rw [rounded, hzero]
        exact Decimal.roundTo_of_hasDecimals ⟨0, by norm_num⟩
      have hlevel : p level.2 = false := by rw [hzero, hp]
      have hrounded : p (rounded level).2 = false := by rw [hround, hp]
      rw [List.filter_cons_of_neg (by simp [hrounded]), List.filter_cons_of_neg (by simp [hlevel]),
        hrest]
    · rw [h level List.mem_cons_self hzero, List.filter_cons, List.filter_cons, hrest]

/-- Rounding turns no level into a bid or an ask that is not one already. -/
theorem length_filter_rounded_le (p : ℚ → Bool)
    (hp : ∀ q, p (Decimal.roundTo 6 q) = true → p q = true) (levels : List (ℚ × ℚ)) :
    ((levels.map rounded).filter fun level => p level.2).length ≤
      (levels.filter fun level => p level.2).length := by
  rw [List.filter_map, List.length_map]
  exact List.Sublist.length_le (List.monotone_filter_right levels fun level h => hp level.2 h)

theorem fits_rounded {levels rows : List (ℚ × ℚ)} (hperm : rows.Perm (levels.map rounded))
    (h : Fits levels) : Fits rows := by
  have hlength : rows.length = levels.length := by rw [hperm.length_eq, List.length_map]
  have hbids := length_filter_rounded_le (fun q => decide (q > 0)) (fun q hq => by
    by_contra hneg
    rcases (not_lt.mp (by simpa using hneg)).lt_or_eq with hlt | rfl
    · exact absurd (of_decide_eq_true hq) (not_lt.mpr (Decimal.roundTo_nonpos hlt))
    · rw [Decimal.roundTo_of_hasDecimals ⟨0, by norm_num⟩] at hq
      exact hneg hq) levels
  have hasks := length_filter_rounded_le (fun q => decide (q < 0)) (fun q hq => by
    by_contra hneg
    exact absurd (of_decide_eq_true hq)
      (not_lt.mpr (Decimal.roundTo_nonneg (not_lt.mp (by simpa using hneg))))) levels
  constructor
  · rw [(hperm.filter _).length_eq, hlength]
    exact hbids.trans h.1
  · rw [(hperm.filter _).length_eq, hlength]
    exact hasks.trans h.2

/-- With different prices there is only one way to sort a side. -/
theorem sorted_unique (le : ℚ → ℚ → Prop) {side side' : List (ℚ × ℚ)}
    (hanti : ∀ p q, le p q → le q p → p = q) (hperm : side.Perm side')
    (hside : side.Pairwise fun a b => le a.1 b.1) (hside' : side'.Pairwise fun a b => le a.1 b.1)
    (hdistinct : ∀ a ∈ side', ∀ b ∈ side', a.1 = b.1 → a = b) : side = side' := by
  refine List.Perm.eq_of_pairwise ?_ hside hside' hperm
  intro a b ha hb hab hba
  exact hdistinct a (hperm.mem_iff.mp ha) b hb (hanti _ _ hab hba)

variable (sorter : StdSort (ℚ × ℚ))

/-- The sorted sides of the rows that are read back, when rounding changes no bid and no ask. -/
theorem sortedSides_eq {levels rows : List (ℚ × ℚ)} (hperm : rows.Perm (levels.map rounded))
    (hdistinct : (levels.map Prod.fst).Nodup)
    (h : ∀ level ∈ levels, level.2 ≠ 0 → rounded level = level) :
    sortedBids sorter rows = sortedBids sorter levels ∧
      sortedAsks sorter rows = sortedAsks sorter levels := by
  have hinj : ∀ a ∈ levels, ∀ b ∈ levels, a.1 = b.1 → a = b := fun a ha b hb hab =>
    List.inj_on_of_nodup_map hdistinct ha hb hab
  have hbids : (sortedBids sorter rows).Perm (sortedBids sorter levels) := by
    refine (sorter.perm _ _).trans (((hperm.filter _).trans ?_).trans (sorter.perm _ _).symm)
    rw [filter_rounded (fun q => decide (q > 0)) (by simp) h]
  have hasks : (sortedAsks sorter rows).Perm (sortedAsks sorter levels) := by
    refine (sorter.perm _ _).trans (((hperm.filter _).trans ?_).trans (sorter.perm _ _).symm)
    rw [filter_rounded (fun q => decide (q < 0)) (by simp) h]
  have hmem : ∀ {p : ℚ × ℚ → Bool} {lt : ℚ × ℚ → ℚ × ℚ → Bool} {a : ℚ × ℚ},
      a ∈ sorter.sort lt (levels.filter p) → a ∈ levels := by
    intro p lt a ha
    exact (List.mem_filter.mp ((sorter.perm _ _).mem_iff.mp ha)).1
  constructor
  · exact sorted_unique (fun p q => q ≤ p) (fun p q hpq hqp => le_antisymm hqp hpq) hbids
      (sortedBids_pairwise sorter rows) (sortedBids_pairwise sorter levels)
      fun a ha b hb => hinj a (hmem ha) b (hmem hb)
  · exact sorted_unique (fun p q => p ≤ q) (fun p q => le_antisymm) hasks
      (sortedAsks_pairwise sorter rows) (sortedAsks_pairwise sorter levels)
      fun a ha b hb => hinj a (hmem ha) b (hmem hb)

/-- The numbers of a bid or an ask are in the rows that were read back, so they have the decimals of
their text. -/
theorem hasDecimals_of_padEq {levels rows side side' : List (ℚ × ℚ)} {depth : Nat}
    (hperm : rows.Perm (levels.map rounded)) (hside : ∀ row ∈ side, row ∈ rows)
    (heq : pad depth side = pad depth side') {level : ℚ × ℚ} (hlevel : level ∈ side') :
    Decimal.HasDecimals 6 level.1 ∧ Decimal.HasDecimals 6 level.2 := by
  have hmem : level ∈ pad depth side := by
    rw [heq]
    exact List.mem_append_left _ hlevel
  rcases List.mem_append.mp hmem with hrow | hzero
  · obtain ⟨level', -, rfl⟩ := List.mem_map.mp (hperm.mem_iff.mp (hside level hrow))
    exact ⟨Decimal.hasDecimals_roundTo 6 _, Decimal.hasDecimals_roundTo 6 _⟩
  · rw [List.eq_of_mem_replicate hzero]
    exact ⟨⟨0, by norm_num⟩, ⟨0, by norm_num⟩⟩

theorem rounded_of_hasDecimals {level : ℚ × ℚ} (h : Decimal.HasDecimals 6 level.1)
    (h' : Decimal.HasDecimals 6 level.2) : rounded level = level := by
  rw [rounded, Decimal.roundTo_of_hasDecimals h, Decimal.roundTo_of_hasDecimals h']

/-- The timestamp and the bids and asks have no more than six decimals. -/
def SixDecimals (entry : QueueEntry ℚ) : Prop :=
  Decimal.HasDecimals 6 entry.timestamp ∧
    ∀ level ∈ entry.levels, level.2 ≠ 0 →
      Decimal.HasDecimals 6 level.1 ∧ Decimal.HasDecimals 6 level.2

/-- An entry made of the rows that were read back is the live one exactly when the numbers have no
more than six decimals. -/
theorem entryOf_eq_iff {entry : QueueEntry ℚ} {rows : List (ℚ × ℚ)}
    (hperm : rows.Perm (entry.levels.map rounded))
    (hdistinct : (entry.levels.map Prod.fst).Nodup) (hfits : Fits entry.levels) (security_id : ℚ) :
    entryOf sorter security_id (Decimal.roundTo 6 entry.timestamp) rows (fits_rounded hperm hfits) =
      entryOf sorter security_id entry.timestamp entry.levels hfits ↔ SixDecimals entry := by
  have hlength : rows.length = entry.levels.length := by rw [hperm.length_eq, List.length_map]
  constructor
  · intro heq
    have htime : Decimal.roundTo 6 entry.timestamp = entry.timestamp := by
      have hdata := congrArg (fun e => e.data_[1]?) heq
      exact Option.some.inj hdata
    have hbids := congrArg OrderbookEntry.bidRows heq
    have hasks := congrArg OrderbookEntry.askRows heq
    simp only [entryOf, bidRows_built, askRows_built, hlength] at hbids hasks
    refine ⟨htime ▸ Decimal.hasDecimals_roundTo 6 _, ?_⟩
    intro level hlevel hzero
    have hrow : ∀ {lt : ℚ × ℚ → ℚ × ℚ → Bool} {p : ℚ × ℚ → Bool},
        ∀ row ∈ sorter.sort lt (rows.filter p), row ∈ rows := fun row h =>
      (List.mem_filter.mp ((sorter.perm _ _).mem_iff.mp h)).1
    rcases lt_or_gt_of_ne hzero with hneg | hpos
    · refine hasDecimals_of_padEq hperm hrow hasks ?_
      exact (sorter.perm _ _).mem_iff.mpr (List.mem_filter.mpr ⟨hlevel, decide_eq_true hneg⟩)
    · refine hasDecimals_of_padEq hperm hrow hbids ?_
      exact (sorter.perm _ _).mem_iff.mpr (List.mem_filter.mpr ⟨hlevel, decide_eq_true hpos⟩)
  · rintro ⟨htime, hlevels⟩
    obtain ⟨hbids, hasks⟩ := sortedSides_eq sorter hperm hdistinct fun level hlevel hzero =>
      rounded_of_hasDecimals (hlevels level hlevel hzero).1 (hlevels level hlevel hzero).2
    apply OrderbookEntry.ext
    · show rows.length / 2 = entry.levels.length / 2
      rw [hlength]
    · simp only [entryOf, built, hbids, hasks, hlength, Decimal.roundTo_of_hasDecimals htime]

/-- The cast of a security id to a double. -/
def idValue (id : UInt64) : ℚ := id.toNat

theorem readBook_fields {D : Type*} {security_id : UInt64} {timestamp : D} {prices volumes : List D}
    {entry : QueueEntry D}
    (h : HttpServerHandler.readBook security_id timestamp prices volumes = some entry) :
    entry.security_id = security_id ∧ entry.timestamp = timestamp := by
  unfold HttpServerHandler.readBook at h
  split at h
  · cases h
    exact ⟨rfl, rfl⟩
  · cases h

/-- What a posted order book leaves in the queue and in the workset. -/
theorem addOrderbook_pushed {D : Type*} [LinearOrder D] [Zero D] {sorter : StdSort (D × D)}
    {ofId : UInt64 → D} {address : List Char} {security_id : UInt64} {timestamp : D}
    {prices volumes : List D} {entry : QueueEntry D} {live : OrderbookEntry D}
    (h : HttpServerHandler.addOrderbook sorter ofId true address security_id timestamp prices
      volumes = .pushed (some entry) live) :
    entry.security_id = security_id ∧ entry.timestamp = timestamp ∧
      HttpServerHandler.worksetEntry sorter ofId entry = some live := by
  unfold HttpServerHandler.addOrderbook at h
  split at h
  · split at h
    · cases h
    · rename_i entry' hread
      simp only [if_true] at h
      split at h
      · cases h
      · rename_i live' hentry
        cases h
        obtain ⟨hid, htime⟩ := readBook_fields hread
        exact ⟨hid, htime, hentry⟩
  · cases h

/-- **Live and reloaded entries.** An order book that was posted and stored is loaded back as the
entry that was pushed live exactly when its timestamp and the numbers of its bids and asks have no
more than six decimals. -/
theorem reloaded_eq_live_iff (logSorter : StdSort Tables.LogResult)
    (detailSorter : StdSort DetailRow) (addAbs : ℚ → ℚ → ℚ)
    {address : List Char} {security_id : UInt64} {timestamp : ℚ} {prices volumes : List ℚ}
    {entry : QueueEntry ℚ} {live : OrderbookEntry ℚ}
    (hposted : HttpServerHandler.addOrderbook sorter idValue true address security_id timestamp
      prices volumes = .pushed (some entry) live)
    (hdistinct : (entry.levels.map Prod.fst).Nodup) (hfits : Fits entry.levels)
    {t t' : Tables} {id : Nat} (hstored : storeEntry t entry = some (id, t'))
    (halias : ∀ security ∈ t'.securities, security.1 = security_id.toNat →
      security.2 = security_id.toNat)
    (later : List (QueueEntry ℚ)) {capacity offset : Nat} {after_timestamp : ℚ}
    {reloaded : OrderbookEntry ℚ}
    (hloaded : (id, reloaded) ∈ (Utils.preloadWorksetAsync logSorter detailSorter sorter addAbs
      (storeEntries t' later) capacity offset after_timestamp).pushed) :
    reloaded = live ↔ SixDecimals entry := by
  obtain ⟨hid, htime, hlive⟩ := addOrderbook_pushed hposted
  obtain ⟨hholds, hsecurities⟩ := holds_storeEntries (holds_of_stored (storeEntry_stored hstored)) later
  rw [← hid, ← hsecurities] at halias
  obtain ⟨rows, avg, avg', hperm, hentry⟩ := preloaded_entry hholds halias hloaded
  obtain ⟨avg'', hbuilt⟩ := preloadEntry_of_fits sorter addAbs (idValue entry.security_id)
    (Decimal.roundTo 6 entry.timestamp) (fits_rounded hperm hfits) avg
  have hreloaded : reloaded = entryOf sorter (idValue entry.security_id)
      (Decimal.roundTo 6 entry.timestamp) rows (fits_rounded hperm hfits) :=
    congrArg Prod.fst (Option.some.inj (hentry.symm.trans hbuilt))
  have hlive' : live = entryOf sorter (idValue entry.security_id) entry.timestamp entry.levels hfits :=
    Option.some.inj (hlive.symm.trans (worksetEntry_of_fits sorter idValue entry hfits))
  rw [hreloaded, hlive']
  exact entryOf_eq_iff sorter hperm hdistinct hfits _

/-! ## One order book -/

/-- Tables with one security, which is its own alias. -/
def oneSecurity : Tables where
  securities := [(7, 7)]
  orderbook_log := []
  orderbook_log_details := []
  next_id := 1
  next_id_le := by decide
  log_below := by simp
  details_below := by simp

/-- An ask and a bid. -/
def twoLevels (timestamp : ℚ) : QueueEntry ℚ where
  security_id := 7
  timestamp := timestamp
  prices := [11, 10]
  volumes := [-2, 3]
  size_eq := rfl

/-- What is loaded after `twoLevels` was stored. -/
def loadTwoLevels (t : Tables) : List (Nat × OrderbookEntry ℚ) :=
  (Utils.preloadWorksetAsync (.insertion _) (.insertion _) (.insertion _)
    (fun sum volume => sum + |volume|) (storeEntries t []) 10 0 0).pushed

theorem twoLevels_fits (timestamp : ℚ) : Fits (twoLevels timestamp).levels :=
  show Fits [((11 : ℚ), (-2 : ℚ)), (10, 3)] from ⟨by decide +kernel, by decide +kernel⟩

theorem twoLevels_posted (timestamp : ℚ) :
    HttpServerHandler.addOrderbook (.insertion (ℚ × ℚ)) idValue true "127.0.0.1".toList 7
      timestamp [11, 10] [-2, 3] = .pushed (some (twoLevels timestamp))
        (entryOf (.insertion _) (idValue 7) timestamp (twoLevels timestamp).levels
          (twoLevels_fits timestamp)) := by
  have hread : HttpServerHandler.readBook 7 timestamp [11, 10] [-2, 3] =
      some (twoLevels timestamp) := rfl
  rw [HttpServerHandler.addOrderbook, if_pos (by decide), hread]
  simp only [worksetEntry_of_fits _ _ _ (twoLevels_fits timestamp), if_true]
  rfl

/-- What is stored and loaded for `twoLevels`, as far as the timestamp. -/
theorem twoLevels_loaded (timestamp timestamp' : ℚ)
    (h : (storeEntry oneSecurity (twoLevels timestamp)).map (fun stored =>
      (stored.1, (loadTwoLevels stored.2).map fun pushed => (pushed.1, pushed.2.data_[1]?))) =
        some (1, [(1, some timestamp')])) :
    ∃ t' reloaded, storeEntry oneSecurity (twoLevels timestamp) = some (1, t') ∧
      (1, reloaded) ∈ loadTwoLevels t' ∧ reloaded.data_[1]? = some timestamp' := by
  obtain ⟨⟨id, t'⟩, hstored, hpair⟩ := Option.map_eq_some_iff.mp h
  obtain ⟨hid, hload⟩ := Prod.mk.inj hpair
  have hid : id = 1 := hid
  subst hid
  obtain ⟨⟨id', reloaded⟩, hmem, hpushed⟩ :=
    List.mem_map.mp (hload ▸ List.mem_singleton_self (1, some timestamp'))
  obtain ⟨hid', htime⟩ := Prod.mk.inj hpushed
  have hid' : id' = 1 := hid'
  subst hid'
  exact ⟨t', reloaded, hstored, hmem, htime⟩

theorem oneSecurity_alias {t' : Tables} {id : Nat} {timestamp : ℚ}
    (h : storeEntry oneSecurity (twoLevels timestamp) = some (id, t')) :
    ∀ security ∈ t'.securities, security.1 = (7 : UInt64).toNat →
      security.2 = (7 : UInt64).toNat := by
  rw [(storeEntry_stored h).securities]
  decide

theorem reloaded_eq_live_two_levels :
    ∃ live t' reloaded,
      HttpServerHandler.addOrderbook (.insertion (ℚ × ℚ)) idValue true "127.0.0.1".toList 7 100
        [11, 10] [-2, 3] = .pushed (some (twoLevels 100)) live ∧
      storeEntry oneSecurity (twoLevels 100) = some (1, t') ∧ (1, reloaded) ∈ loadTwoLevels t' ∧
      reloaded = live := by
  obtain ⟨t', reloaded, hstored, hloaded, -⟩ :=
    twoLevels_loaded 100 100 (by decide +kernel)
  refine ⟨_, t', reloaded, twoLevels_posted 100, hstored, hloaded, ?_⟩
  refine (reloaded_eq_live_iff _ _ _ _ (twoLevels_posted 100)
    (show ([11, 10] : List ℚ).Nodup by decide +kernel) (twoLevels_fits 100) hstored
    (oneSecurity_alias hstored) [] hloaded).mpr ⟨⟨100000000, by norm_num [twoLevels]⟩, ?_⟩
  intro level hlevel _
  rcases List.mem_cons.mp hlevel with rfl | hlevel
  · exact ⟨⟨11000000, by norm_num⟩, ⟨-2000000, by norm_num⟩⟩
  · rw [List.mem_singleton.mp hlevel]
    exact ⟨⟨10000000, by norm_num⟩, ⟨3000000, by norm_num⟩⟩

/-- A timestamp with seven decimals is not loaded back. -/
theorem reloaded_timestamp_differs :
    ∃ live t' reloaded,
      HttpServerHandler.addOrderbook (.insertion (ℚ × ℚ)) idValue true "127.0.0.1".toList 7
        (1000000001 / 10000000) [11, 10] [-2, 3] =
          .pushed (some (twoLevels (1000000001 / 10000000))) live ∧
      ((twoLevels (1000000001 / 10000000)).levels.map Prod.fst).Nodup ∧
      Fits (twoLevels (1000000001 / 10000000)).levels ∧
      storeEntry oneSecurity (twoLevels (1000000001 / 10000000)) = some (1, t') ∧
      (∀ security ∈ t'.securities, security.1 = (7 : UInt64).toNat →
        security.2 = (7 : UInt64).toNat) ∧
      (1, reloaded) ∈ loadTwoLevels t' ∧ reloaded ≠ live := by
  obtain ⟨t', reloaded, hstored, hloaded, htime⟩ :=
    twoLevels_loaded (1000000001 / 10000000) 100 (by decide +kernel)
  refine ⟨_, t', reloaded, twoLevels_posted _, show ([11, 10] : List ℚ).Nodup by decide +kernel,
    twoLevels_fits _, hstored, oneSecurity_alias hstored, hloaded, ?_⟩
  intro heq
  rw [heq] at htime
  have hlive : (1000000001 / 10000000 : ℚ) = 100 := Option.some.inj htime
  norm_num at hlive

end DemoManager

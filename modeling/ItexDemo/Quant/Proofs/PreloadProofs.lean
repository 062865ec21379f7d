import Mathlib.Data.List.Count
import Mathlib.Data.List.Nodup
import ItexDemo.DemoManager.Proofs.OrderbookProofs
import ItexDemo.Quant.Preload

/-!
# What the query of `preload_workset_async` selects

A row is loaded by its rank among the rows that the inner query keeps, and it is asked for by its
rank among the rows with a later timestamp.
-/

namespace Quant.Preload

open StdSort

/-! ## The join -/

section Join

variable (db : Database)

/-- The columns of a result row that come from the log. -/
def OrderbookResult.logged (row : OrderbookResult) : Nat × Option ℚ := (row.id, row.timestamp)

/-- The results for one row of the log. -/
def joinRow (ol : LogRow) : List OrderbookResult :=
  (db.securities.filter fun s => ol.security_id = some s.1).map fun s =>
    { id := ol.id, alias_id := s.2, timestamp := ol.timestamp }

/-- A row of the log is joined with its one security, if it has any. -/
theorem joinRow_logged {ol : LogRow} (hol : ol ∈ db.orderbook_log) :
    (joinRow db ol).map OrderbookResult.logged =
      if ol.security_id.isSome then [ol.logged] else [] := by
  cases hid : ol.security_id with
  | none =>
    have hnone : db.securities.filter (fun s => ol.security_id = some s.1) = [] := by
      rw [List.filter_eq_nil_iff]
      intro s _
      simp [hid]
    rw [joinRow, hnone]
    rfl
  | some id =>
    obtain ⟨security, hsecurity, rfl⟩ := db.security_exists ol hol id hid
    have hone : (db.securities.filter fun s => ol.security_id = some s.1).length = 1 := by
      have hcount : (db.securities.map Prod.fst).count security.1 = 1 :=
        List.count_eq_one_of_mem db.securities_key (List.mem_map_of_mem hsecurity)
      rw [← List.countP_eq_length_filter, ← hcount, List.count, List.countP_map]
      apply List.countP_congr
      intro s _
      simp only [hid, Option.some.injEq, decide_eq_true_eq, Function.comp_apply, beq_iff_eq]
      exact eq_comm
    obtain ⟨s, hs⟩ := List.length_eq_one_iff.mp hone
    rw [joinRow, hs]
    rfl

theorem joined_logged :
    (joined db).map OrderbookResult.logged =
      (db.orderbook_log.filter fun ol => ol.security_id.isSome).map LogRow.logged := by
  have hrows : ∀ rows : List LogRow, (∀ ol ∈ rows, ol ∈ db.orderbook_log) →
      (rows.flatMap (joinRow db)).map OrderbookResult.logged =
        (rows.filter fun ol => ol.security_id.isSome).map LogRow.logged := by
    intro rows hrows
    induction rows with
    | nil => rfl
    | cons ol rows ih =>
      rw [List.flatMap_cons, List.map_append, ih fun x hx => hrows x (List.mem_cons_of_mem _ hx),
        joinRow_logged db (hrows ol List.mem_cons_self), List.filter_cons]
      split <;> rfl
  exact hrows db.orderbook_log fun _ h => h

theorem joined_key : KeyNodup OrderbookResult.id (joined db) := by
  have hids : (joined db).map OrderbookResult.id =
      (db.orderbook_log.filter fun ol => ol.security_id.isSome).map LogRow.id := by
    have := congrArg (List.map Prod.fst) (joined_logged db)
    rwa [List.map_map, List.map_map] at this
  rw [KeyNodup, hids]
  exact db.orderbook_log_key.filter _

/-- A row of the join comes from a row of the log that has a security. -/
theorem mem_joined_iff {i : Nat} {x : Option ℚ} :
    (∃ row ∈ joined db, row.logged = (i, x)) ↔
      ∃ ol ∈ db.orderbook_log, ol.security_id.isSome ∧ ol.logged = (i, x) := by
  have hmem : (i, x) ∈ (joined db).map OrderbookResult.logged ↔
      (i, x) ∈ (db.orderbook_log.filter fun ol => ol.security_id.isSome).map LogRow.logged := by
    rw [joined_logged]
  rw [List.mem_map, List.mem_map] at hmem
  rw [hmem]
  constructor
  · rintro ⟨ol, hol, heq⟩
    obtain ⟨hmem, hsome⟩ := List.mem_filter.mp hol
    exact ⟨ol, hmem, hsome, heq⟩
  · rintro ⟨ol, hol, hsome, heq⟩
    exact ⟨ol, List.mem_filter.mpr ⟨hol, hsome⟩, heq⟩

/-- Rows of the join are counted in the log. -/
theorem countP_joined (p : Nat × Option ℚ → Bool) :
    (joined db).countP (fun row => p row.logged) =
      db.orderbook_log.countP fun ol => ol.security_id.isSome && p ol.logged := by
  have hcount := congrArg (List.countP p) (joined_logged db)
  rw [List.countP_map, List.countP_map, List.countP_filter] at hcount
  refine hcount.trans (List.countP_congr fun ol _ => ?_)
  rw [Bool.and_comm]
  rfl

end Join

/-! ## Ranks -/

/-- The number of rows with `p` that are newer than a row. -/
def newer (db : Database) (p : LogRow → Bool) (row : LogRow) : Nat :=
  db.orderbook_log.countP fun other => p other && decide (row.id < other.id)

/-- The `limit` newest rows with `p` behind the first `offset` ones. -/
def InWindow (db : Database) (p : LogRow → Bool) (offset limit : Nat) (row : LogRow) : Prop :=
  p row ∧ offset ≤ newer db p row ∧ newer db p row < offset + limit

/-- The rows that the inner query ranks: it compares their timestamps with `$1`. -/
def ranked (bound : ℚ) (row : LogRow) : Bool :=
  row.security_id.isSome && above bound row.timestamp

/-- The rows with a later timestamp. -/
def later (after_timestamp : ℚ) (row : LogRow) : Bool := above after_timestamp row.timestamp

/-- The row is selected by the query with these values. -/
def Selected (server : Conversions) (db : Database) (bound : ℚ) (limit offset : Nat) (after : ℚ)
    (row : LogRow) : Prop :=
  InWindow db (ranked bound) offset limit row ∧ above after (row.timestamp.map server.numeric)

section Window

variable (rowSorter : StdSort LogRow) (db : Database) (capacity offset : Nat) (after_timestamp : ℚ)

/-- The log without the rows that are not later, newest first. -/
def sortedLater : List LogRow :=
  rowSorter.sort (fun a b => decide (a.id > b.id))
    (db.orderbook_log.filter fun row => above after_timestamp row.timestamp)

theorem sortedLater_pairwise :
    (sortedLater rowSorter db after_timestamp).Pairwise fun a b => b.id < a.id :=
  sort_desc_pairwise rowSorter (db.orderbook_log_key.filter _)

theorem mem_window {row : LogRow} :
    row ∈ window rowSorter db capacity offset after_timestamp ↔
      row ∈ db.orderbook_log ∧ InWindow db (later after_timestamp) offset capacity row := by
  have hperm := rowSorter.perm (fun a b => decide (a.id > b.id))
    (db.orderbook_log.filter fun row => above after_timestamp row.timestamp)
  have hcount : (sortedLater rowSorter db after_timestamp).countP
      (fun other => decide (row.id < other.id)) = newer db (later after_timestamp) row := by
    rw [sortedLater, hperm.countP_eq, List.countP_filter, newer]
    apply List.countP_congr
    intro other _
    rw [Bool.and_comm]
    rfl
  have hmem : row ∈ sortedLater rowSorter db after_timestamp ↔
      row ∈ db.orderbook_log ∧ later after_timestamp row := by
    rw [sortedLater, hperm.mem_iff, List.mem_filter, later]
  rw [window, List.mem_reverse]
  change row ∈ ((sortedLater rowSorter db after_timestamp).drop offset).take capacity ↔ _
  rw [mem_window_iff (sortedLater_pairwise rowSorter db after_timestamp), hcount, hmem, and_assoc]
  rfl

theorem window_pairwise :
    (window rowSorter db capacity offset after_timestamp).Pairwise fun a b => a.id < b.id := by
  rw [window, List.pairwise_reverse]
  exact ((sortedLater_pairwise rowSorter db after_timestamp).drop).take

end Window

section Query

variable (server : Conversions) (sorter : StdSort OrderbookResult) (db : Database)

theorem rankedRows_pairwise (bound : ℚ) :
    (rankedRows sorter db bound).Pairwise fun a b => b.id < a.id :=
  sort_desc_pairwise sorter ((joined_key db).filter _)

theorem countP_rankedRows (bound : ℚ) {row : OrderbookResult} {ol : LogRow}
    (heq : row.logged = ol.logged) :
    (rankedRows sorter db bound).countP (fun other => decide (row.id < other.id)) =
      newer db (ranked bound) ol := by
  have hid : row.id = ol.id := congrArg Prod.fst heq
  have hcount := countP_joined db fun pair => decide (ol.id < pair.1) && above bound pair.2
  rw [rankedRows, (sorter.perm _ _).countP_eq, List.countP_filter, hid]
  refine hcount.trans (List.countP_congr fun other _ => ?_)
  simp only [ranked, LogRow.logged, Bool.and_eq_true]
  exact ⟨fun h => ⟨⟨h.1, h.2.2⟩, h.2.1⟩, fun h => ⟨h.1.1, h.2, h.1.2⟩⟩

theorem mem_queryRows {bound : ℚ} {limit offset : Nat} {after : ℚ} {i : Nat} {x : Option ℚ} :
    (i, x) ∈ (queryRows server sorter db bound limit offset after).map OrderbookResult.logged ↔
      ∃ ol ∈ db.orderbook_log, Selected server db bound limit offset after ol ∧
        ol.logged = (i, x) := by
  have hpairwise := rankedRows_pairwise sorter db bound
  have hmem {row : OrderbookResult} : row ∈ queryRows server sorter db bound limit offset after ↔
      ((row ∈ joined db ∧ above bound row.timestamp) ∧
        offset ≤ (rankedRows sorter db bound).countP (fun other => decide (row.id < other.id)) ∧
        (rankedRows sorter db bound).countP (fun other => decide (row.id < other.id)) <
          offset + limit) ∧ above after (row.timestamp.map server.numeric) := by
    rw [queryRows, (sorter.perm _ _).mem_iff, List.mem_filter]
    rw [mem_window_iff hpairwise, rankedRows, (sorter.perm _ _).mem_iff, List.mem_filter]
  rw [List.mem_map]
  constructor
  · rintro ⟨row, hrow, heq⟩
    obtain ⟨⟨⟨hjoined, hbound⟩, hlo, hhi⟩, hafter⟩ := hmem.mp hrow
    obtain ⟨ol, hol, hsome, hlogged⟩ := (mem_joined_iff db).mp ⟨row, hjoined, heq⟩
    have hpair : row.logged = ol.logged := heq.trans hlogged.symm
    have htimestamp : row.timestamp = ol.timestamp := congrArg Prod.snd hpair
    rw [countP_rankedRows sorter db bound hpair] at hlo hhi
    rw [htimestamp] at hbound hafter
    exact ⟨ol, hol, ⟨⟨by simp [ranked, hsome, hbound], hlo, hhi⟩, hafter⟩, hlogged⟩
  · rintro ⟨ol, hol, ⟨⟨hranked, hlo, hhi⟩, hafter⟩, hlogged⟩
    simp only [ranked, Bool.and_eq_true] at hranked
    obtain ⟨row, hjoined, heq⟩ := (mem_joined_iff db).mpr ⟨ol, hol, hranked.1, hlogged⟩
    have hpair : row.logged = ol.logged := heq.trans hlogged.symm
    have htimestamp : row.timestamp = ol.timestamp := congrArg Prod.snd hpair
    refine ⟨row, hmem.mpr ⟨⟨⟨hjoined, ?_⟩, ?_, ?_⟩, ?_⟩, heq⟩
    · rw [htimestamp]
      exact hranked.2
    · rwa [countP_rankedRows sorter db bound hpair]
    · rwa [countP_rankedRows sorter db bound hpair]
    · rwa [htimestamp]

theorem queryRows_pairwise (bound : ℚ) (limit offset : Nat) (after : ℚ) :
    (queryRows server sorter db bound limit offset after).Pairwise fun a b => a.id < b.id := by
  apply sort_asc_pairwise
  apply KeyNodup.filter
  have hsorted : KeyNodup OrderbookResult.id (rankedRows sorter db bound) :=
    ((joined_key db).filter _).perm (sorter.perm _ _)
  exact List.Nodup.sublist
    (List.Sublist.map _ ((List.take_sublist _ _).trans (List.drop_sublist _ _))) hsorted

theorem bigint_natCast (n : Nat) : bigint n = if n < 2 ^ 63 then some n else none := by
  unfold bigint
  by_cases hn : n < 2 ^ 63
  · rw [if_pos hn, if_pos ⟨by omega, by omega⟩, Int.toNat_natCast]
  · rw [if_neg hn, if_neg (by omega)]

section Params

variable (capacity offset : Nat) (after_timestamp : ℚ)

theorem firstParam_eq :
    firstParam server (makeParams capacity offset after_timestamp) =
      some (server.float8 capacity) := by
  show ((Decimal.stod (Decimal.digits capacity)).bind fun value => some (server.float8 value)) = _
  rw [Decimal.stod_digits]
  rfl

theorem secondParam_eq :
    secondParam (makeParams capacity offset after_timestamp) =
      if offset < 2 ^ 63 then some offset else none := by
  have htext : param (makeParams capacity offset after_timestamp) 2 =
      some (Decimal.digits offset) := rfl
  rw [secondParam, htext]
  by_cases hlt : offset < 2 ^ 64
  · simp only [Option.bind_eq_bind, Option.bind_some, Decimal.stoull_digits hlt, Except.toOption,
      bigint_natCast]
  · simp only [Option.bind_eq_bind, Option.bind_some,
      Decimal.stoull_digits_of_le (Nat.le_of_not_lt hlt), Except.toOption, Option.bind_none]
    rw [if_neg (by omega)]

theorem thirdParam_eq :
    thirdParam (makeParams capacity offset after_timestamp) =
      some (Decimal.roundTo 6 after_timestamp) :=
  Decimal.stod_toFixed (by decide) after_timestamp

/-- The query with the parameters of the call. -/
theorem selectOrderbooks_eq :
    selectOrderbooks server sorter db (makeParams capacity offset after_timestamp) =
      (bigint (Decimal.roundHalfEven (server.float8 capacity))).bind fun limit =>
        (if offset < 2 ^ 63 then some offset else none).bind fun offset =>
          some (queryRows server sorter db (server.float8 capacity) limit offset
            (Decimal.roundTo 6 after_timestamp)) := by
  rw [selectOrderbooks, firstParam_eq, secondParam_eq, thirdParam_eq]
  simp only [Option.bind_eq_bind, Option.bind_some, Option.pure_def]

end Params

end Query

/-! ## What is loaded and what is asked for -/

section Loads

variable (server : Conversions) (sorter : StdSort OrderbookResult) (rowSorter : StdSort LogRow)
  (db : Database) (capacity offset : Nat) (after_timestamp : ℚ)

/-- The query and the window select the same rows of the log. -/
def SameRows (limit : Nat) : Prop :=
  ∀ row ∈ db.orderbook_log,
    Selected server db (server.float8 capacity) limit offset (Decimal.roundTo 6 after_timestamp)
        row ↔
      InWindow db (later after_timestamp) offset capacity row

theorem logged_injective {row other : LogRow} (hrow : row ∈ db.orderbook_log)
    (hother : other ∈ db.orderbook_log) (heq : row.logged = other.logged) : row = other :=
  List.inj_on_of_nodup_map db.orderbook_log_key hrow hother (congrArg Prod.fst heq)

theorem mem_window_logged {i : Nat} {x : Option ℚ} :
    (i, x) ∈ (window rowSorter db capacity offset after_timestamp).map LogRow.logged ↔
      ∃ row ∈ db.orderbook_log, InWindow db (later after_timestamp) offset capacity row ∧
        row.logged = (i, x) := by
  rw [List.mem_map]
  constructor
  · rintro ⟨row, hrow, heq⟩
    obtain ⟨hmem, hin⟩ := (mem_window ..).mp hrow
    exact ⟨row, hmem, hin, heq⟩
  · rintro ⟨row, hmem, hin, heq⟩
    exact ⟨row, (mem_window ..).mpr ⟨hmem, hin⟩, heq⟩

/-- The rows of the query are those of the window when they are the same rows of the log. -/
theorem queryRows_eq_window_iff (limit : Nat) :
    (queryRows server sorter db (server.float8 capacity) limit offset
        (Decimal.roundTo 6 after_timestamp)).map OrderbookResult.logged =
      (window rowSorter db capacity offset after_timestamp).map LogRow.logged ↔
      SameRows server db capacity offset after_timestamp limit := by
  constructor
  · intro heq row hrow
    have hpair : (row.id, row.timestamp) ∈ (queryRows server sorter db (server.float8 capacity)
        limit offset (Decimal.roundTo 6 after_timestamp)).map OrderbookResult.logged ↔ _ :=
      mem_queryRows server sorter db
    rw [heq, mem_window_logged] at hpair
    constructor
    · intro hselected
      obtain ⟨other, hother, hin, hlogged⟩ := hpair.mpr ⟨row, hrow, hselected, rfl⟩
      rwa [← logged_injective db hother hrow hlogged]
    · intro hin
      obtain ⟨other, hother, hselected, hlogged⟩ := hpair.mp ⟨row, hrow, hin, rfl⟩
      rwa [← logged_injective db hother hrow hlogged]
  · intro hsame
    have hquery : ((queryRows server sorter db (server.float8 capacity) limit offset
        (Decimal.roundTo 6 after_timestamp)).map OrderbookResult.logged).Pairwise
          fun a b => a.1 < b.1 :=
      List.pairwise_map.mpr (queryRows_pairwise server sorter db _ limit offset _)
    have hwindow : ((window rowSorter db capacity offset after_timestamp).map
        LogRow.logged).Pairwise fun a b => a.1 < b.1 :=
      List.pairwise_map.mpr (window_pairwise rowSorter db capacity offset after_timestamp)
    apply eq_of_ascending hquery hwindow
    rintro ⟨i, x⟩
    rw [mem_queryRows, mem_window_logged]
    constructor
    · rintro ⟨row, hrow, hselected, hlogged⟩
      exact ⟨row, hrow, (hsame row hrow).mp hselected, hlogged⟩
    · rintro ⟨row, hrow, hin, hlogged⟩
      exact ⟨row, hrow, (hsame row hrow).mpr hin, hlogged⟩

/-! ## The rows that are read -/

/-- The levels of a log row. -/
def levels (id : Nat) : List (ℚ × ℚ) := (details db id).filterMap (DetailRow.copyTo server)

/-- A row of the log that the loop goes through without a fault. -/
structure Readable (row : LogRow) : Prop where
  alias_id : ∀ security ∈ db.securities, row.security_id = some security.1 → security.2.isSome
  timestamp : row.timestamp.map server.text = row.timestamp
  details : ∀ detail ∈ details db row.id, detail.price.isSome ∧ detail.volume.isSome
  depth : 2 ≤ (Preload.details db row.id).length
  fits : Fits (levels server db row.id)

variable {server db}

theorem mapM_eq_filterMap {α β : Type*} {f : α → Option β} {xs : List α}
    (h : ∀ x ∈ xs, (f x).isSome) : xs.mapM f = some (xs.filterMap f) := by
  induction xs with
  | nil => rfl
  | cons x xs ih =>
    obtain ⟨y, hy⟩ := Option.isSome_iff_exists.mp (h x List.mem_cons_self)
    rw [List.mapM_cons, hy, ih fun x hx => h x (List.mem_cons_of_mem _ hx),
      List.filterMap_cons_some hy]
    rfl

theorem length_filterMap {α β : Type*} {f : α → Option β} {xs : List α}
    (h : ∀ x ∈ xs, (f x).isSome) : (xs.filterMap f).length = xs.length := by
  rw [List.length_filterMap_eq_countP, List.countP_eq_length]
  exact h

theorem fits_perm {xs ys : List (ℚ × ℚ)} (hperm : xs.Perm ys) (h : Fits ys) : Fits xs := by
  rw [Fits, (hperm.filter _).length_eq, (hperm.filter _).length_eq, hperm.length_eq]
  exact h

/-- A row of the join has the alias of the security that its log row refers to. -/
theorem exists_of_mem_joined {row : OrderbookResult} (hrow : row ∈ joined db) :
    ∃ ol ∈ db.orderbook_log, ∃ security ∈ db.securities,
      ol.security_id = some security.1 ∧ row.alias_id = security.2 ∧ row.logged = ol.logged := by
  obtain ⟨ol, hol, hrow⟩ := List.mem_flatMap.mp hrow
  obtain ⟨security, hsecurity, rfl⟩ := List.mem_map.mp hrow
  obtain ⟨hmem, hid⟩ := List.mem_filter.mp hsecurity
  exact ⟨ol, hol, security, hmem, of_decide_eq_true hid, rfl, rfl⟩

/-- The details of a readable row, in the order of the prices. -/
theorem Readable.copyDetails {row : LogRow} (h : Readable server db row)
    (detailSorter : StdSort DetailRow) :
    ∃ rows, (detailSorter.sort priceBefore (Preload.details db row.id)).mapM
        (DetailRow.copyTo server) = some rows ∧ Fits rows ∧ 2 ≤ rows.length := by
  have hperm := detailSorter.perm priceBefore (Preload.details db row.id)
  have hsome : ∀ detail ∈ Preload.details db row.id, (detail.copyTo server).isSome := by
    intro detail hdetail
    obtain ⟨hprice, hvolume⟩ := h.details detail hdetail
    obtain ⟨price, hprice⟩ := Option.isSome_iff_exists.mp hprice
    obtain ⟨volume, hvolume⟩ := Option.isSome_iff_exists.mp hvolume
    simp [DetailRow.copyTo, hprice, hvolume]
  have hsorted : ∀ detail ∈ detailSorter.sort priceBefore (Preload.details db row.id),
      (detail.copyTo server).isSome := fun detail hdetail => hsome detail (hperm.mem_iff.mp hdetail)
  refine ⟨_, mapM_eq_filterMap hsorted, fits_perm (hperm.filterMap _) h.fits, ?_⟩
  rw [length_filterMap hsorted, hperm.length_eq]
  exact h.depth

theorem Readable.text_eq {row : LogRow} (h : Readable server db row) {timestamp : ℚ}
    (htimestamp : row.timestamp = some timestamp) : server.text timestamp = timestamp := by
  have hmap := h.timestamp
  rw [htimestamp] at hmap
  exact Option.some.inj hmap

variable (routines : Routines)

/-- A readable row is pushed as an entry of its timestamp. -/
theorem Readable.loadRecord {ol : LogRow} (h : Readable server db ol) {timestamp : ℚ}
    (htimestamp : ol.timestamp = some timestamp) {security : Nat × Option Int}
    (hsecurity : security ∈ db.securities) (hid : ol.security_id = some security.1)
    {row : OrderbookResult} (halias : row.alias_id = security.2) (hlogged : row.logged = ol.logged)
    (avg_volumes : List ℚ) :
    ∃ entry avg', loadRecord server routines db row avg_volumes = some (entry, avg') ∧
      loadedRow entry = row.logged := by
  have hrowid : row.id = ol.id := congrArg Prod.fst hlogged
  have hrowtime : row.timestamp = some timestamp :=
    (congrArg Prod.snd hlogged).trans htimestamp
  obtain ⟨alias_id, hsome⟩ := Option.isSome_iff_exists.mp (h.alias_id security hsecurity hid)
  obtain ⟨rows, hrows, hfits, hdepth⟩ := h.copyDetails routines.detailSorter
  have hcopy : row.copyTo server = some (ol.id, (alias_id % 2 ^ 64).toNat, timestamp) := by
    simp [OrderbookResult.copyTo, halias, hsome, hrowtime, hrowid, h.text_eq htimestamp]
  obtain ⟨avg', hentry⟩ := DemoManager.preloadEntry_of_fits routines.levelSorter routines.addAbs
    (((alias_id % 2 ^ 64).toNat : Nat) : ℚ) timestamp hfits avg_volumes
  have hpositive : (DemoManager.entryOf routines.levelSorter
      (((alias_id % 2 ^ 64).toNat : Nat) : ℚ) timestamp rows hfits).orderbook_depth_ ≠ 0 := by
    show rows.length / 2 ≠ 0
    omega
  refine ⟨(ol.id, DemoManager.entryOf routines.levelSorter
    (((alias_id % 2 ^ 64).toNat : Nat) : ℚ) timestamp rows hfits), avg', ?_, ?_⟩
  · simp only [Preload.loadRecord, hcopy, hrows, hentry, Option.bind_eq_bind, Option.bind_some,
      if_neg hpositive, Option.pure_def]
  · rw [OrderbookResult.logged, hrowid, hrowtime]
    rfl

/-- The row comes from a readable row of the log with a timestamp. -/
def FromReadable (server : Conversions) (db : Database) (row : OrderbookResult) : Prop :=
  ∃ ol, Readable server db ol ∧ ol.timestamp.isSome ∧ ∃ security ∈ db.securities,
    ol.security_id = some security.1 ∧ row.alias_id = security.2 ∧ row.logged = ol.logged

theorem loadRecords_of_readable {rows : List OrderbookResult}
    (h : ∀ row ∈ rows, FromReadable server db row) (avg_volumes : List ℚ) :
    ∃ entries, loadRecords server routines db rows avg_volumes = some entries ∧
      entries.map loadedRow = rows.map OrderbookResult.logged := by
  induction rows generalizing avg_volumes with
  | nil => exact ⟨[], rfl, rfl⟩
  | cons row rows ih =>
    obtain ⟨ol, hreadable, hsome, security, hsecurity, hid, halias, hlogged⟩ :=
      h row List.mem_cons_self
    obtain ⟨timestamp, htimestamp⟩ := Option.isSome_iff_exists.mp hsome
    obtain ⟨entry, avg', hload, hentry⟩ :=
      hreadable.loadRecord routines htimestamp hsecurity hid halias hlogged avg_volumes
    obtain ⟨entries, hrest, hentries⟩ := ih (fun x hx => h x (List.mem_cons_of_mem _ hx)) avg'
    refine ⟨entry :: entries, ?_, ?_⟩
    · simp only [loadRecords, hload, hrest, Option.bind_eq_bind, Option.bind_some, Option.pure_def]
    · rw [List.map_cons, List.map_cons, hentry, hentries]

/-- The value returned behind readable rows. -/
theorem lastTimestamp_of_readable {rows : List OrderbookResult}
    (h : ∀ row ∈ rows, FromReadable server db row) :
    lastTimestamp server rows after_timestamp =
      some ((rows.getLast?.bind OrderbookResult.timestamp).getD after_timestamp) := by
  cases hlast : rows.getLast? with
  | none =>
    rw [List.getLast?_eq_none_iff] at hlast
    subst hlast
    rfl
  | some row =>
    obtain ⟨ol, hreadable, hsome, -, -, -, -, hlogged⟩ := h row (List.mem_of_getLast? hlast)
    obtain ⟨timestamp, htimestamp⟩ := Option.isSome_iff_exists.mp hsome
    have hrow : row.timestamp = some timestamp :=
      (congrArg Prod.snd hlogged).trans htimestamp
    have htext := hreadable.text_eq htimestamp
    have hne : rows.length ≠ 0 := by
      rintro hlen
      rw [List.length_eq_zero_iff.mp hlen] at hlast
      cases hlast
    rw [List.getLast?_eq_getElem?] at hlast
    simp only [lastTimestamp, if_neg hne, hlast, hrow, htext, Option.bind_eq_bind,
      Option.bind_some, Option.pure_def, Option.getD_some]

/-! ## When the window is loaded -/

variable (server db)

/-- A row of the query comes from a row of the log that is selected. -/
theorem exists_of_mem_queryRows {bound : ℚ} {limit offset : Nat} {after : ℚ}
    {row : OrderbookResult} (hrow : row ∈ queryRows server sorter db bound limit offset after) :
    ∃ ol ∈ db.orderbook_log, Selected server db bound limit offset after ol ∧
      ∃ security ∈ db.securities, ol.security_id = some security.1 ∧ row.alias_id = security.2 ∧
        row.logged = ol.logged := by
  have hjoined : row ∈ joined db := by
    rw [queryRows, (sorter.perm _ _).mem_iff] at hrow
    have hranked := List.mem_of_mem_drop (List.mem_of_mem_take (List.mem_filter.mp hrow).1)
    rw [rankedRows, (sorter.perm _ _).mem_iff] at hranked
    exact (List.mem_filter.mp hranked).1
  obtain ⟨ol, hol, security, hsecurity, hid, halias, hlogged⟩ := exists_of_mem_joined hjoined
  obtain ⟨other, hother, hselected, heq⟩ := (mem_queryRows server sorter db).mp
    (show (row.id, row.timestamp) ∈ _ from List.mem_map_of_mem hrow)
  rw [logged_injective db hother hol (heq.trans hlogged)] at hselected
  exact ⟨ol, hol, hselected, security, hsecurity, hid, halias, hlogged⟩

/-- The limit, the offset and the selected rows are those of the window, and all of these rows are
readable. -/
theorem loadsWindow_of_sameRows (hoffset : offset < 2 ^ 63) {limit : Nat}
    (hlimit : bigint (Decimal.roundHalfEven (server.float8 capacity)) = some limit)
    (hsame : SameRows server db capacity offset after_timestamp limit)
    (hreadable : ∀ row ∈ window rowSorter db capacity offset after_timestamp,
      Readable server db row) :
    LoadsWindow server routines sorter rowSorter db capacity offset after_timestamp := by
  have heq := (queryRows_eq_window_iff server sorter rowSorter db capacity offset after_timestamp
    limit).mpr hsame
  have hfrom : ∀ row ∈ queryRows server sorter db (server.float8 capacity) limit offset
      (Decimal.roundTo 6 after_timestamp), FromReadable server db row := by
    intro row hrow
    obtain ⟨ol, hol, hselected, hsecurity⟩ := exists_of_mem_queryRows server sorter db hrow
    have hin := (hsame ol hol).mp hselected
    have hsome : ol.timestamp.isSome := by
      have hlater := hin.1
      cases htimestamp : ol.timestamp with
      | none => simp [later, above, htimestamp] at hlater
      | some timestamp => rfl
    exact ⟨ol, hreadable ol ((mem_window ..).mpr ⟨hol, hin⟩), hsome, hsecurity⟩
  obtain ⟨entries, hload, hentries⟩ := loadRecords_of_readable routines hfrom []
  refine ⟨entries, _, ?_, hentries.trans heq, rfl⟩
  have hlast : (queryRows server sorter db (server.float8 capacity) limit offset
      (Decimal.roundTo 6 after_timestamp)).getLast?.bind OrderbookResult.timestamp =
        (window rowSorter db capacity offset after_timestamp).getLast?.bind LogRow.timestamp := by
    have hrows := congrArg (fun rows => rows.getLast?.bind Prod.snd) heq
    simp only [List.getLast?_map, Option.bind_map] at hrows
    exact hrows
  rw [preload, selectOrderbooks_eq, hlimit, if_pos hoffset]
  simp only [Option.bind_eq_bind, Option.bind_some, hload, lastTimestamp_of_readable _ hfrom,
    Option.pure_def, hlast]

/-- The comparisons of the query tell the later rows from the others, and no row that the inner
query ranks in vain is newer than a later one. -/
structure Separated : Prop where
  later : ∀ row ∈ db.orderbook_log, Preload.later after_timestamp row →
    ranked (server.float8 capacity) row ∧
      above (Decimal.roundTo 6 after_timestamp) (row.timestamp.map server.numeric)
  older : ∀ row ∈ db.orderbook_log, ranked (server.float8 capacity) row →
    ¬ Preload.later after_timestamp row →
      ¬ above (Decimal.roundTo 6 after_timestamp) (row.timestamp.map server.numeric) ∧
        ∀ other ∈ db.orderbook_log, Preload.later after_timestamp other → row.id < other.id

variable {server db capacity after_timestamp}

/-- A later row has as many newer rows among the ranked ones as among the later ones. -/
theorem Separated.newer_eq (h : Separated server db capacity after_timestamp) {row : LogRow}
    (hrow : row ∈ db.orderbook_log) (hlater : Preload.later after_timestamp row) :
    newer db (ranked (server.float8 capacity)) row = newer db (Preload.later after_timestamp) row := by
  apply List.countP_congr
  intro other hother
  simp only [Bool.and_eq_true, decide_eq_true_eq]
  constructor
  · rintro ⟨hranked, hlt⟩
    by_contra hnot
    have hold : ¬ Preload.later after_timestamp other := fun hlater => hnot ⟨hlater, hlt⟩
    exact absurd ((h.older other hother hranked hold).2 row hrow hlater) (Nat.lt_asymm hlt)
  · rintro ⟨hother', hlt⟩
    exact ⟨(h.later other hother hother').1, hlt⟩

theorem Separated.sameRows (h : Separated server db capacity after_timestamp) (offset : Nat) :
    SameRows server db capacity offset after_timestamp capacity := by
  intro row hrow
  constructor
  · rintro ⟨⟨hranked, hlo, hhi⟩, hnumeric⟩
    by_cases hlater : Preload.later after_timestamp row
    · rw [h.newer_eq hrow hlater] at hlo hhi
      exact ⟨hlater, hlo, hhi⟩
    · exact absurd hnumeric (h.older row hrow hranked hlater).1
  · rintro ⟨hlater, hlo, hhi⟩
    obtain ⟨hranked, hnumeric⟩ := h.later row hrow hlater
    rw [← h.newer_eq hrow hlater] at hlo hhi
    exact ⟨⟨hranked, hlo, hhi⟩, hnumeric⟩

/-- The call loads the window when the limit and the offset are the numbers that were passed, the
comparisons tell the later rows from the others, and the rows of the window are readable. -/
theorem loadsWindow_of_separated (hoffset : offset < 2 ^ 63)
    (hlimit : bigint (Decimal.roundHalfEven (server.float8 capacity)) = some capacity)
    (hseparated : Separated server db capacity after_timestamp)
    (hreadable : ∀ row ∈ window rowSorter db capacity offset after_timestamp,
      Readable server db row) :
    LoadsWindow server routines sorter rowSorter db capacity offset after_timestamp :=
  loadsWindow_of_sameRows server sorter rowSorter db capacity offset after_timestamp routines
    hoffset hlimit (hseparated.sameRows offset) hreadable

end Loads

/-! ## Two logs -/

/-- Conversions without any rounding. -/
def exactConversions : Conversions where
  float8 := id
  numeric := id
  text := id

def plainRoutines : Routines where
  detailSorter := .insertion _
  levelSorter := .insertion _
  addAbs sum volume := sum + |volume|

/-- Books of two levels with the given ids and times. -/
def logOf (books : List (Nat × ℚ)) (h : KeyNodup Prod.fst books) : Database where
  securities := [(0, some 0)]
  orderbook_log := books.map fun book =>
    { id := book.1, security_id := some 0, timestamp := some book.2 }
  orderbook_log_details := books.flatMap fun book =>
    [{ orderbook_log_id := some book.1, price := some 10, volume := some 3 },
      { orderbook_log_id := some book.1, price := some 11, volume := some (-2) }]
  securities_key := List.nodup_singleton 0
  orderbook_log_key := by
    rw [KeyNodup, List.map_map]
    exact h
  security_exists := by
    intro row hrow id hid
    obtain ⟨book, -, rfl⟩ := List.mem_map.mp hrow
    exact ⟨(0, some 0), List.mem_singleton.mpr rfl, Option.some.inj hid⟩

/-- One book that was stored at the time `5`. -/
def oneRow : Database := logOf [(1, 5)] (by simp [KeyNodup])

/-- Three books, of which two are later than `25`. -/
def threeRows : Database := logOf [(1, 20), (2, 30), (3, 40)] (by simp [KeyNodup])

theorem bigint_capacity {capacity : Nat} (h : capacity < 2 ^ 63) :
    bigint (Decimal.roundHalfEven (exactConversions.float8 capacity)) = some capacity := by
  have hround : Decimal.roundHalfEven (capacity : ℚ) = (capacity : Int) := by
    exact_mod_cast Decimal.roundHalfEven_intCast capacity
  show bigint (Decimal.roundHalfEven (capacity : ℚ)) = _
  rw [hround, bigint_natCast, if_pos h]

theorem roundTo_natCast (width n : Nat) : Decimal.roundTo width (n : ℚ) = n :=
  Decimal.roundTo_of_hasDecimals ⟨n * 10 ^ width, by push_cast; ring⟩

theorem separated_threeRows : Separated exactConversions threeRows 10 25 := by
  have hround : Decimal.roundTo 6 (25 : ℚ) = 25 := by exact_mod_cast roundTo_natCast 6 25
  constructor
  · simp only [threeRows, logOf, List.map_cons, List.map_nil, List.forall_mem_cons, hround,
      exactConversions, later, ranked, above]
    norm_num
  · simp only [threeRows, logOf, List.map_cons, List.map_nil, List.forall_mem_cons, hround,
      exactConversions, later, ranked, above]
    norm_num

theorem readable_threeRows : ∀ row ∈ threeRows.orderbook_log,
    Readable exactConversions threeRows row := by
  have hrow (id : Nat) (timestamp : ℚ) (hid : id ∈ [1, 2, 3]) :
      Readable exactConversions threeRows
        { id := id, security_id := some 0, timestamp := some timestamp } := by
    have hdetails : details threeRows id =
        [{ orderbook_log_id := some id, price := some 10, volume := some 3 },
          { orderbook_log_id := some id, price := some 11, volume := some (-2) }] := by
      simp only [List.mem_cons, List.not_mem_nil, or_false] at hid
      rcases hid with rfl | rfl | rfl <;> rfl
    constructor
    · simp [threeRows, logOf]
    · rfl
    · simp [hdetails]
    · simp [hdetails]
    · simp [levels, hdetails, DetailRow.copyTo, exactConversions, Fits]
  intro row hmem
  obtain ⟨book, hbook, rfl⟩ := List.mem_map.mp hmem
  exact hrow book.1 book.2 (List.mem_map_of_mem (f := Prod.fst) hbook)

/-- Behind the newest of the two later books the other one is loaded. -/
theorem loadsWindow_threeRows :
    LoadsWindow exactConversions plainRoutines (.insertion _) (.insertion _) threeRows 10 1 25 :=
  loadsWindow_of_separated _ _ 1 plainRoutines (by decide) (bigint_capacity (by decide))
    separated_threeRows
    fun row hrow => readable_threeRows row ((mem_window ..).mp hrow).1

/-- A workset of capacity `10` does not load a book that is later than `0`. -/
theorem early_row_not_loaded :
    ¬ ∀ (db : Database) (capacity offset : Nat) (after_timestamp : ℚ),
      LoadsWindow exactConversions plainRoutines (.insertion _) (.insertion _) db capacity offset
        after_timestamp := by
  intro hall
  obtain ⟨entries, last_timestamp, hpreload, hentries, -⟩ := hall oneRow 10 0 0
  have hempty : queryRows exactConversions (.insertion _) oneRow (exactConversions.float8 (10 : Nat))
      10 0 (Decimal.roundTo 6 0) = [] := by
    rw [List.eq_nil_iff_forall_not_mem]
    intro row hrow
    obtain ⟨ol, hol, hselected, -⟩ := exists_of_mem_queryRows _ _ _ hrow
    rw [List.mem_singleton.mp hol] at hselected
    have hranked := hselected.1.1
    simp only [ranked, above, exactConversions, id] at hranked
    norm_num at hranked
  rw [preload, selectOrderbooks_eq, bigint_capacity (by decide), if_pos (by decide)] at hpreload
  simp only [Option.bind_eq_bind, Option.bind_some, hempty, loadRecords] at hpreload
  cases hpreload
  have hmem : ({ id := 1, security_id := some 0, timestamp := some 5 } : LogRow) ∈
      window (.insertion _) oneRow 10 0 0 :=
    (mem_window ..).mpr ⟨List.mem_singleton.mpr rfl, by
      simp [InWindow, later, newer, oneRow, logOf, above]⟩
  rw [List.map_nil, eq_comm, List.map_eq_nil_iff] at hentries
  rw [hentries] at hmem
  cases hmem

end Quant.Preload

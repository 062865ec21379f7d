import Mathlib.Data.List.Range
import ItexDemo.DemoManager.InsertStatement
import ItexDemo.DemoManager.Proofs.OrderbookProofs

/-!
# The `INSERT` and its parameters

The text is read back as the tuples of the loop, whose numbers are those of the parameters as long
as they are below `2 ^ 32`.
-/

namespace DemoManager.OrderbookQueueWriter

open Sqldb

/-! ## Reading -/

section Reading

theorem expect_append (word rest : List Char) : expect word (word ++ rest) = some rest := by
  rw [expect, if_pos (by simp), List.drop_left]

theorem readPlaceholder_digits (n : Nat) (c : Char) (rest : List Char) (hc : c.isDigit = false) :
    readPlaceholder ('$' :: (Decimal.digits n ++ c :: rest)) = some (n, c :: rest) := by
  have htake : (Decimal.digits n ++ c :: rest).takeWhile Char.isDigit = Decimal.digits n := by
    apply Decimal.takeWhile_digits
    rintro _ ⟨⟩
    simp [hc]
  have hdrop : (Decimal.digits n ++ c :: rest).dropWhile Char.isDigit = c :: rest := by
    rw [List.dropWhile_append_of_pos fun c hc => Decimal.isDigit_of_mem_digits hc]
    exact List.dropWhile_cons_of_neg (by simp [hc])
  rw [readPlaceholder, show '$' :: (Decimal.digits n ++ c :: rest) =
    ['$'] ++ (Decimal.digits n ++ c :: rest) from rfl, expect_append]
  simp only [Option.bind_eq_bind, Option.bind_some, htake, hdrop, if_neg (Decimal.digits_ne_nil n),
    Decimal.value_digits]
  rfl

theorem readTuple_tupleText (first second third : Nat) (rest : List Char) :
    readTuple (tupleText first second third ++ rest) = some ((first, second, third), rest) := by
  have htext : tupleText first second third ++ rest =
      ['('] ++ '$' :: (Decimal.digits first ++ ',' :: ' ' :: '$' ::
        (Decimal.digits second ++ ',' :: ' ' :: '$' ::
          (Decimal.digits third ++ ')' :: rest))) := by
    simp only [tupleText, List.append_assoc, List.cons_append, List.nil_append]
  have hcomma (s : List Char) : expect [',', ' '] (',' :: ' ' :: s) = some s :=
    expect_append [',', ' '] s
  have hclose : expect [')'] (')' :: rest) = some rest := expect_append [')'] rest
  rw [htext, readTuple, expect_append]
  simp only [Option.bind_eq_bind, Option.bind_some,
    readPlaceholder_digits _ ',' _ (by decide), readPlaceholder_digits _ ')' _ (by decide),
    hcomma, hclose]
  rfl

/-- The text of tuples with commas between them. -/
def tuplesText : List (Nat × Nat × Nat) → List Char
  | [] => []
  | [tuple] => tupleText tuple.1 tuple.2.1 tuple.2.2
  | tuple :: tuples => tupleText tuple.1 tuple.2.1 tuple.2.2 ++ [',', ' '] ++ tuplesText tuples

theorem length_le_tuplesText (tuples : List (Nat × Nat × Nat)) :
    tuples.length ≤ (tuplesText tuples).length := by
  have htuple (first second third : Nat) : 1 ≤ (tupleText first second third).length := by
    simp [tupleText]
  induction tuples with
  | nil => exact Nat.zero_le _
  | cons tuple tuples ih =>
    cases tuples with
    | nil => exact htuple ..
    | cons next tuples =>
      have hone := htuple tuple.1 tuple.2.1 tuple.2.2
      rw [tuplesText, List.length_append, List.length_append, List.length_cons]
      · omega
      · nofun

theorem readTuples_tuplesText {tuples : List (Nat × Nat × Nat)} (hne : tuples ≠ []) {fuel : Nat}
    (hfuel : tuples.length ≤ fuel) : readTuples fuel (tuplesText tuples) = some tuples := by
  induction tuples generalizing fuel with
  | nil => exact absurd rfl hne
  | cons tuple tuples ih =>
    cases fuel with
    | zero => cases hfuel
    | succ fuel =>
      cases tuples with
      | nil =>
        have hread := readTuple_tupleText tuple.1 tuple.2.1 tuple.2.2 []
        rw [List.append_nil] at hread
        rw [tuplesText, readTuples, hread]
        rfl
      | cons next tuples =>
        have hcomma : [',', ' '] ++ tuplesText (next :: tuples) ≠ [] := by simp
        have hrest := ih (List.cons_ne_nil _ _) (Nat.le_of_succ_le_succ hfuel)
        rw [tuplesText, List.append_assoc, readTuples, readTuple_tupleText]
        · simp only [Option.bind_eq_bind, Option.bind_some, if_neg hcomma]
          rw [show expect [',', ' '] ([',', ' '] ++ tuplesText (next :: tuples)) =
            some (tuplesText (next :: tuples)) from expect_append _ _]
          simp only [Option.bind_some, hrest]
          rfl
        · nofun

theorem readInsert_tuplesText {tuples : List (Nat × Nat × Nat)} (hne : tuples ≠ []) :
    readInsert (insertInto ++ tuplesText tuples) = some tuples := by
  rw [readInsert, expect_append]
  exact readTuples_tuplesText hne (length_le_tuplesText tuples)

/-- `VALUES` without a tuple is no statement. -/
theorem readInsert_empty : readInsert insertInto = none := by
  have hread := expect_append insertInto []
  rw [List.append_nil] at hread
  rw [readInsert, hread]
  rfl

end Reading

/-! ## The loop -/

section Loop

variable (orderbook_log_id : Nat) (entry : QueueEntry ℚ)

/-- The tuple of round `i`. -/
def tupleAt (i : Nat) : Nat × Nat × Nat := (uint (i * 3 + 1), uint (i * 3 + 2), uint (i * 3 + 3))

/-- The tuples of the rounds from `i` on. -/
def tuplesFrom (i count : Nat) : List (Nat × Nat × Nat) := (List.range' i count).map tupleAt

/-- The parameters of the price level `level`. -/
def levelParameters (level : ℚ × ℚ) : ParametersList Char :=
  [idParameter orderbook_log_id, doubleParameter level.1, doubleParameter level.2]

theorem tuplesFrom_succ (i count : Nat) :
    tuplesFrom i (count + 1) = tupleAt i :: tuplesFrom (i + 1) count := by
  rw [tuplesFrom, List.range'_succ, List.map_cons, tuplesFrom]

theorem tuplesText_tuplesFrom (i count : Nat) :
    tuplesText (tuplesFrom i (count + 1)) =
      tupleText (uint (i * 3 + 1)) (uint (i * 3 + 2)) (uint (i * 3 + 3)) ++
        (if 0 < count then [',', ' '] else []) ++ tuplesText (tuplesFrom (i + 1) count) := by
  rw [tuplesFrom_succ]
  cases count with
  | zero =>
    rw [if_neg (Nat.lt_irrefl 0), List.append_nil]
    exact (List.append_nil _).symm
  | succ count =>
    rw [if_pos (Nat.succ_pos count), tuplesFrom_succ]
    rfl

theorem insertTuple_eq {orderbook_size i : Nat} (hsize : orderbook_size < 2 ^ 32)
    (hi : i < orderbook_size) {level : ℚ × ℚ} (hlevel : entry.levels[i]? = some level)
    (insert : Insert) :
    insertTuple orderbook_log_id entry orderbook_size i insert = some
      { insert_statement := insert.insert_statement ++
          (tupleText (uint (i * 3 + 1)) (uint (i * 3 + 2)) (uint (i * 3 + 3)) ++
            if 0 < orderbook_size - (i + 1) then [',', ' '] else [])
        pl := insert.pl ++ levelParameters orderbook_log_id level } := by
  obtain ⟨hprice, hvolume⟩ := List.getElem?_zip_eq_some.mp hlevel
  have hlast : (i < uint (orderbook_size + 2 ^ 32 - 1)) ↔ 0 < orderbook_size - (i + 1) := by
    have hwrap : orderbook_size + 2 ^ 32 - 1 = orderbook_size - 1 + 2 ^ 32 := by omega
    rw [hwrap, uint, Nat.add_mod_right, Nat.mod_eq_of_lt (by omega)]
    omega
  rw [insertTuple, hprice, hvolume]
  simp only [Option.bind_eq_bind, Option.bind_some, hlast, ParametersList.push, levelParameters,
    List.append_assoc, List.singleton_append]
  by_cases hcomma : 0 < orderbook_size - (i + 1)
  · simp only [if_pos hcomma]
    rfl
  · simp only [if_neg hcomma, List.append_nil]
    rfl

/-- Before round `i`: what the later rounds append completes the text. -/
structure Appended (orderbook_size i : Nat) (insert : Insert) : Prop where
  text : insert.insert_statement ++ tuplesText (tuplesFrom i (orderbook_size - i)) =
    insertInto ++ tuplesText (tuplesFrom 0 orderbook_size)
  pl : insert.pl = (entry.levels.take i).flatMap (levelParameters orderbook_log_id)

theorem Appended.step {orderbook_size i : Nat} {insert : Insert} (hsize : orderbook_size < 2 ^ 32)
    (hle : orderbook_size ≤ entry.levels.length) (hi : i < orderbook_size)
    (h : Appended orderbook_log_id entry orderbook_size i insert) :
    ∃ insert', insertTuple orderbook_log_id entry orderbook_size i insert = some insert' ∧
      Appended orderbook_log_id entry orderbook_size (i + 1) insert' := by
  have hlt : i < entry.levels.length := by omega
  have hlevel : entry.levels[i]? = some entry.levels[i] := List.getElem?_eq_getElem hlt
  refine ⟨_, insertTuple_eq orderbook_log_id entry hsize hi hlevel insert, ?_, ?_⟩
  · have hcount : orderbook_size - i = orderbook_size - (i + 1) + 1 := by omega
    rw [← h.text, hcount, tuplesText_tuplesFrom]
    simp only [List.append_assoc]
  · rw [h.pl, List.take_succ_eq_append_getElem hlt, List.flatMap_append, List.flatMap_singleton]

theorem insertStatement_eq :
    insertStatement orderbook_log_id entry = some
      { insert_statement := insertInto ++ tuplesText (tuplesFrom 0 (uint entry.prices.length))
        pl := (entry.levels.take (uint entry.prices.length)).flatMap
          (levelParameters orderbook_log_id) } := by
  have hsize : uint entry.prices.length < 2 ^ 32 := uint_lt _
  have hle : uint entry.prices.length ≤ entry.levels.length := by
    rw [length_levels]
    exact Nat.mod_le _ _
  have hstart : Appended orderbook_log_id entry (uint entry.prices.length) 0
      { insert_statement := insertInto, pl := [] } := by
    constructor
    · rw [Nat.sub_zero]
    · rfl
  obtain ⟨insert, hinsert, happended⟩ := Loop.forRange_spec (Nat.zero_le _)
    (fun i insert _ hi h => Appended.step orderbook_log_id entry hsize hle hi h) hstart
  have htext := happended.text
  rw [Nat.sub_self] at htext
  have hstatement : insert.insert_statement =
      insertInto ++ tuplesText (tuplesFrom 0 (uint entry.prices.length)) :=
    (List.append_nil _).symm.trans htext
  rw [← hstatement, ← happended.pl]
  exact hinsert

/-! ## The statement and its parameters -/

/-- The statement has one tuple for each level, its placeholders are those of the parameters, and
the tuples stand for the levels. -/
structure InStep (insert : Insert) (tuples : List (Nat × Nat × Nat)) : Prop where
  read : readInsert insert.insert_statement = some tuples
  length_eq : tuples.length = entry.prices.length
  placeholders_perm : (placeholders tuples).Perm (List.range' 1 (3 * entry.prices.length))
  pl_length : insert.pl.length = 3 * entry.prices.length
  values : ∀ (i : Nat) (price volume : ℚ), entry.prices[i]? = some price → entry.volumes[i]? = some volume →
    tuples[i]?.bind (evaluateTuple insert.pl) =
      some (idParameter orderbook_log_id, doubleParameter price, doubleParameter volume)

/-- The generated statement and its parameters are in step. -/
def Matches : Prop :=
  ∃ insert tuples, insertStatement orderbook_log_id entry = some insert ∧
    InStep orderbook_log_id entry insert tuples

theorem length_tuplesFrom (i count : Nat) : (tuplesFrom i count).length = count := by
  rw [tuplesFrom, List.length_map, List.length_range']

theorem getElem?_tuplesFrom {count i : Nat} (hi : i < count) :
    (tuplesFrom 0 count)[i]? = some (tupleAt i) := by
  rw [tuplesFrom, List.getElem?_map, List.getElem?_range' hi]
  simp

/-- The placeholders of tuples whose numbers do not wrap. -/
theorem placeholders_tuplesFrom {i count : Nat} (h : 3 * (i + count) < 2 ^ 32) :
    placeholders (tuplesFrom i count) = List.range' (3 * i + 1) (3 * count) := by
  induction count generalizing i with
  | zero => rfl
  | succ count ih =>
    have hrest := ih (i := i + 1) (by omega)
    have hthree : 3 * (count + 1) = 3 * count + 1 + 1 + 1 := by omega
    rw [tuplesFrom_succ, hthree, List.range'_succ, List.range'_succ, List.range'_succ]
    simp only [placeholders, List.flatMap_cons] at hrest ⊢
    rw [hrest, tupleAt, uint_of_lt (by omega), uint_of_lt (by omega), uint_of_lt (by omega)]
    simp only [List.cons_append, List.nil_append, List.cons.injEq]
    refine ⟨by omega, by omega, by omega, ?_⟩
    congr 1

/-- A placeholder is a number of 32 bits. -/
theorem lt_of_mem_placeholders {i count n : Nat} (h : n ∈ placeholders (tuplesFrom i count)) :
    n < 2 ^ 32 := by
  obtain ⟨tuple, htuple, hn⟩ := List.mem_flatMap.mp h
  obtain ⟨k, -, rfl⟩ := List.mem_map.mp htuple
  simp only [tupleAt, List.mem_cons, List.not_mem_nil, or_false] at hn
  rcases hn with rfl | rfl | rfl <;> exact uint_lt _

theorem length_levelParameters (levels : List (ℚ × ℚ)) :
    (levels.flatMap (levelParameters orderbook_log_id)).length = 3 * levels.length := by
  induction levels with
  | nil => rfl
  | cons level levels ih =>
    rw [List.flatMap_cons, List.length_append, ih, List.length_cons]
    simp only [levelParameters, List.length_cons, List.length_nil]
    omega

/-- The parameters of level `i` are at the places `3 * i`, `3 * i + 1` and `3 * i + 2`. -/
theorem getElem?_levelParameters {levels : List (ℚ × ℚ)} {i k : Nat} {level : ℚ × ℚ}
    (hlevel : levels[i]? = some level) (hk : k < 3) :
    (levels.flatMap (levelParameters orderbook_log_id))[3 * i + k]? =
      (levelParameters orderbook_log_id level)[k]? := by
  induction levels generalizing i with
  | nil => cases hlevel
  | cons head levels ih =>
    have hlen : (levelParameters orderbook_log_id head).length = 3 := rfl
    rw [List.flatMap_cons]
    cases i with
    | zero =>
      obtain rfl : head = level := Option.some.inj hlevel
      rw [Nat.mul_zero, Nat.zero_add, List.getElem?_append_left (by omega)]
    | succ i =>
      rw [List.getElem?_append_right (by omega), hlen,
        show 3 * (i + 1) + k - 3 = 3 * i + k by omega]
      exact ih hlevel

theorem evaluate_levelParameters {levels : List (ℚ × ℚ)} {i k : Nat} {level : ℚ × ℚ}
    (hlevel : levels[i]? = some level) (hk : k < 3) (hlt : i * 3 + (k + 1) < 2 ^ 32) :
    evaluate (levels.flatMap (levelParameters orderbook_log_id)) (uint (i * 3 + (k + 1))) =
      (levelParameters orderbook_log_id level)[k]? := by
  rw [uint_of_lt hlt, evaluate, if_neg (by omega), show i * 3 + (k + 1) - 1 = 3 * i + k by omega,
    getElem?_levelParameters orderbook_log_id hlevel hk]

theorem evaluateTuple_tupleAt {levels : List (ℚ × ℚ)} {i : Nat} {level : ℚ × ℚ}
    (hlevel : levels[i]? = some level) (hlt : i * 3 + 3 < 2 ^ 32) :
    evaluateTuple (levels.flatMap (levelParameters orderbook_log_id)) (tupleAt i) =
      some (idParameter orderbook_log_id, doubleParameter level.1, doubleParameter level.2) := by
  rw [evaluateTuple, tupleAt,
    evaluate_levelParameters orderbook_log_id hlevel (show 0 < 3 by decide) (by omega),
    evaluate_levelParameters orderbook_log_id hlevel (show 1 < 3 by decide) (by omega),
    evaluate_levelParameters orderbook_log_id hlevel (show 2 < 3 by decide) hlt]
  rfl

theorem matches_of_lt (hpos : 0 < entry.prices.length) (hlt : 3 * entry.prices.length < 2 ^ 32) :
    Matches orderbook_log_id entry := by
  have hsize : uint entry.prices.length = entry.prices.length := uint_of_lt (by omega)
  have hinsert := insertStatement_eq orderbook_log_id entry
  rw [hsize, ← length_levels, List.take_length, length_levels] at hinsert
  refine ⟨_, tuplesFrom 0 entry.prices.length, hinsert, ?_⟩
  have hne : tuplesFrom 0 entry.prices.length ≠ [] := by
    intro hnil
    have hlength := length_tuplesFrom 0 entry.prices.length
    rw [hnil] at hlength
    exact absurd hlength hpos.ne
  constructor
  · exact readInsert_tuplesText hne
  · exact length_tuplesFrom ..
  · rw [placeholders_tuplesFrom (by omega)]
  · rw [length_levelParameters, length_levels]
  · intro i price volume hprice hvolume
    have hi : i < entry.prices.length := (List.getElem?_eq_some_iff.mp hprice).1
    have hlevel : entry.levels[i]? = some (price, volume) :=
      List.getElem?_zip_eq_some.mpr ⟨hprice, hvolume⟩
    have hvalues := evaluateTuple_tupleAt orderbook_log_id hlevel (by omega)
    rwa [getElem?_tuplesFrom hi, Option.bind_some]

theorem not_matches_empty (hempty : entry.prices.length = 0) :
    ¬ Matches orderbook_log_id entry := by
  rintro ⟨insert, tuples, hinsert, hin⟩
  rw [insertStatement_eq, hempty] at hinsert
  have hread := hin.read
  rw [← Option.some.inj hinsert] at hread
  have htext : insertInto ++ tuplesText (tuplesFrom 0 (uint 0)) = insertInto := List.append_nil _
  simp only [htext, readInsert_empty] at hread
  cases hread

theorem lt_of_matches (h : Matches orderbook_log_id entry) :
    0 < entry.prices.length ∧ 3 * entry.prices.length < 2 ^ 32 := by
  have hpos : 0 < entry.prices.length := by
    by_contra hempty
    exact not_matches_empty orderbook_log_id entry (by omega) h
  refine ⟨hpos, ?_⟩
  obtain ⟨insert, tuples, hinsert, hin⟩ := h
  rw [insertStatement_eq] at hinsert
  have hread := hin.read
  rw [← Option.some.inj hinsert] at hread
  -- the last placeholder is one of the placeholders that are read back
  by_cases hzero : uint entry.prices.length = 0
  · have htext : insertInto ++ tuplesText (tuplesFrom 0 0) = insertInto := List.append_nil _
    simp only [hzero, htext, readInsert_empty] at hread
    cases hread
  · have hne : tuplesFrom 0 (uint entry.prices.length) ≠ [] := by
      intro hnil
      have hlength := length_tuplesFrom 0 (uint entry.prices.length)
      rw [hnil] at hlength
      exact hzero hlength.symm
    simp only [readInsert_tuplesText hne, Option.some.injEq] at hread
    subst hread
    have hmem : 3 * entry.prices.length ∈ List.range' 1 (3 * entry.prices.length) := by
      rw [List.mem_range'_1]
      omega
    exact lt_of_mem_placeholders (hin.placeholders_perm.mem_iff.mpr hmem)

/-- The statement and its parameters are in step when there is a level and the placeholders are
numbers of 32 bits. -/
theorem insert_matches_iff :
    Matches orderbook_log_id entry ↔
      0 < entry.prices.length ∧ 3 * entry.prices.length < 2 ^ 32 :=
  ⟨lt_of_matches orderbook_log_id entry,
    fun h => matches_of_lt orderbook_log_id entry h.1 h.2⟩

/-- An empty book. -/
def emptyBook : QueueEntry ℚ where
  security_id := 1
  timestamp := 0
  prices := []
  volumes := []
  size_eq := rfl

/-- An empty book makes a statement without a tuple. -/
theorem empty_book_not_matched :
    ¬ ∀ (orderbook_log_id : Nat) (entry : QueueEntry ℚ), Matches orderbook_log_id entry :=
  fun hall => not_matches_empty 1 emptyBook rfl (hall 1 emptyBook)

/-- The tuples are those that the tables are given, and the parameters have their texts. -/
theorem insertStatement_groups (hlt : 3 * entry.prices.length < 2 ^ 32) :
    ∃ insert, insertStatement orderbook_log_id entry = some insert ∧
      insert.insert_statement = insertInto ++ tuplesText (insertGroups entry.prices.length) ∧
      insert.pl.map Parameter.data = detailParams orderbook_log_id entry := by
  have hsize : uint entry.prices.length = entry.prices.length := uint_of_lt (by omega)
  have hgroups : tuplesFrom 0 entry.prices.length = insertGroups entry.prices.length := by
    rw [tuplesFrom, insertGroups, List.range_eq_range']
    apply List.map_congr_left
    intro i hi
    rw [List.mem_range'_1] at hi
    rw [tupleAt, uint_of_lt (by omega), uint_of_lt (by omega), uint_of_lt (by omega)]
  refine ⟨_, insertStatement_eq orderbook_log_id entry, ?_, ?_⟩
  · simp only [hsize, hgroups]
  · rw [hsize, ← length_levels, List.take_length, List.map_flatMap]
    rfl

end Loop

end DemoManager.OrderbookQueueWriter

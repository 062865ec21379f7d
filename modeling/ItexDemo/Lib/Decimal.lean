import Mathlib.Data.List.TakeWhile
import Mathlib.Data.Rat.Floor
import Mathlib.Tactic.FieldSimp
import Mathlib.Tactic.Ring

/-!
# Numbers as decimal text

The text of `std::to_string` for unsigned integers and for doubles (with a fixed number of
decimals), and the readers `std::stoull` and `std::stod`. A double is an exact rational here; the
reader of doubles knows the form that the writer produces and the integers.
-/

namespace Decimal

/-! ## Unsigned integers -/

/-- The decimal digits of a number. -/
def digits (n : Nat) : List Char := Nat.toDigits 10 n

/-- The number that decimal digits stand for. -/
def value (cs : List Char) : Nat := Nat.ofDigitChars 10 cs 0

/-- `std::isspace`. -/
def isSpace (c : Char) : Bool := c = ' ' || (9 ≤ c.toNat && c.toNat ≤ 13)

/-- How the conversion functions of `<string>` fail. -/
inductive Failure where
  | invalidArgument
  | outOfRange
  deriving DecidableEq, Repr

/-- The number in front of the text, after a sign. -/
def readSigned (negative : Bool) (s : List Char) : Except Failure Nat :=
  let number := s.takeWhile Char.isDigit
  if number = [] then .error .invalidArgument
  else if 2 ^ 64 ≤ value number then .error .outOfRange
  else .ok (if negative then (2 ^ 64 - value number) % 2 ^ 64 else value number)

/-- `std::stoull`: leading white space and a sign are skipped, what follows the digits is left. -/
def stoull (s : List Char) : Except Failure Nat :=
  match s.dropWhile isSpace with
  | '-' :: rest => readSigned true rest
  | '+' :: rest => readSigned false rest
  | rest => readSigned false rest

theorem isDigit_of_mem_digits {n : Nat} {c : Char} (h : c ∈ digits n) : c.isDigit = true :=
  Nat.isDigit_of_mem_toDigits (by decide) (by decide) h

@[simp] theorem value_digits (n : Nat) : value (digits n) = n := Nat.ofDigitChars_ten_toDigits

theorem digits_ne_nil (n : Nat) : digits n ≠ [] := Nat.toDigits_ne_nil

theorem digits_injective {m n : Nat} (h : digits m = digits n) : m = n := by
  rw [← value_digits m, h, value_digits]

/-- Digits are read up to what follows them. -/
theorem takeWhile_digits (n : Nat) (rest : List Char) (h : ∀ c, rest.head? = some c → ¬c.isDigit) :
    (digits n ++ rest).takeWhile Char.isDigit = digits n := by
  rw [List.takeWhile_append_of_pos fun c hc => isDigit_of_mem_digits hc]
  have hrest : rest.takeWhile Char.isDigit = [] := by
    cases rest with
    | nil => rfl
    | cons c rest => exact List.takeWhile_cons_of_neg (h c rfl)
  rw [hrest, List.append_nil]

/-- A digit is neither white space nor a sign. -/
theorem head_digits (n : Nat) : ∃ c cs, digits n = c :: cs ∧ isSpace c = false ∧ c ≠ '-' ∧ c ≠ '+' := by
  obtain ⟨c, cs, h⟩ := List.exists_cons_of_ne_nil (digits_ne_nil n)
  have hdigit : c.isDigit = true := isDigit_of_mem_digits (n := n) (by rw [h]; exact List.mem_cons_self)
  refine ⟨c, cs, h, ?_, ?_, ?_⟩
  · simp only [Char.isDigit, Bool.and_eq_true, decide_eq_true_eq] at hdigit
    have hlow : 48 ≤ c.toNat := hdigit.1
    have hspace : c ≠ ' ' := by
      rintro rfl
      exact absurd hlow (by decide)
    simp only [isSpace, hspace, decide_false, Bool.false_or, Bool.and_eq_false_iff,
      decide_eq_false_iff_not]
    omega
  · rintro rfl
    exact absurd hdigit (by decide)
  · rintro rfl
    exact absurd hdigit (by decide)

/-- The text of a number has neither white space nor a sign in front. -/
theorem stoull_digits_eq (n : Nat) : stoull (digits n) = readSigned false (digits n) := by
  obtain ⟨c, cs, h, hspace, hminus, hplus⟩ := head_digits n
  rw [h, stoull, List.dropWhile_cons_of_neg (by simp [hspace])]
  split
  · rename_i heq
    exact absurd (List.cons.inj heq).1 hminus
  · rename_i heq
    exact absurd (List.cons.inj heq).1 hplus
  · rfl

theorem takeWhile_isDigit_digits (n : Nat) : (digits n).takeWhile Char.isDigit = digits n :=
  List.takeWhile_eq_self_iff.mpr fun _ hc => isDigit_of_mem_digits hc

/-- The text of a number is read back. -/
theorem stoull_digits {n : Nat} (hn : n < 2 ^ 64) : stoull (digits n) = .ok n := by
  rw [stoull_digits_eq, readSigned, takeWhile_isDigit_digits, value_digits,
    if_neg (digits_ne_nil n), if_neg (by omega), if_neg Bool.false_ne_true]

/-- A number of more than 64 bits is refused. -/
theorem stoull_digits_of_le {n : Nat} (hn : 2 ^ 64 ≤ n) :
    stoull (digits n) = .error .outOfRange := by
  rw [stoull_digits_eq, readSigned, takeWhile_isDigit_digits, value_digits,
    if_neg (digits_ne_nil n), if_pos hn]

/-- A number that is read has 64 bits. -/
theorem stoull_lt {s : List Char} {n : Nat} (h : stoull s = .ok n) : n < 2 ^ 64 := by
  have hread : ∀ {negative rest}, readSigned negative rest = .ok n → n < 2 ^ 64 := by
    intro negative rest h
    unfold readSigned at h
    dsimp only at h
    split_ifs at h with _ hlt
    · rw [← Except.ok.inj h]
      exact Nat.mod_lt _ (by decide)
    · rw [← Except.ok.inj h]
      exact Nat.not_le.mp hlt
  unfold stoull at h
  split at h <;> exact hread h

/-! ## Doubles -/

/-- The nearest integer, an even one of two. -/
def roundHalfEven (q : ℚ) : Int :=
  if q - ⌊q⌋ < 1 / 2 then ⌊q⌋
  else if 1 / 2 < q - ⌊q⌋ then ⌊q⌋ + 1
  else if ⌊q⌋ % 2 = 0 then ⌊q⌋ else ⌊q⌋ + 1

/-- The number with as many digits as `width` asks for. -/
def padded (width n : Nat) : List Char :=
  List.replicate (width - (digits n).length) '0' ++ digits n

/-- The text with `width` decimals. -/
def toFixed (width : Nat) (q : ℚ) : List Char :=
  let scaled := (roundHalfEven (q * 10 ^ width)).natAbs
  (if q < 0 then ['-'] else []) ++ digits (scaled / 10 ^ width) ++
    '.' :: padded width (scaled % 10 ^ width)

/-- The number without a sign. -/
def readUnsigned (s : List Char) : Option ℚ :=
  let whole := s.takeWhile Char.isDigit
  let decimals :=
    match s.dropWhile Char.isDigit with
    | '.' :: rest => rest.takeWhile Char.isDigit
    | _ => []
  if whole = [] then none
  else some (value whole + (value decimals : ℚ) / 10 ^ decimals.length)

/-- `std::stod`. -/
def stod (s : List Char) : Option ℚ :=
  match s with
  | '-' :: rest => (readUnsigned rest).map fun q => -q
  | rest => readUnsigned rest

/-- `q` rounded to `width` decimals. -/
def roundTo (width : Nat) (q : ℚ) : ℚ := roundHalfEven (q * 10 ^ width) / 10 ^ width

/-- `q` has no more than `width` decimals. -/
def HasDecimals (width : Nat) (q : ℚ) : Prop := ∃ n : Int, q * 10 ^ width = n

theorem roundHalfEven_intCast (n : Int) : roundHalfEven n = n := by
  simp [roundHalfEven]

theorem roundHalfEven_nonneg {q : ℚ} (h : 0 ≤ q) : 0 ≤ roundHalfEven q := by
  have hfloor : 0 ≤ ⌊q⌋ := Int.floor_nonneg.mpr h
  unfold roundHalfEven
  split_ifs <;> omega

theorem roundHalfEven_nonpos {q : ℚ} (h : q < 0) : roundHalfEven q ≤ 0 := by
  have hfloor : ⌊q⌋ < 0 := by
    rw [Int.floor_lt]
    exact_mod_cast h
  unfold roundHalfEven
  split_ifs <;> omega

theorem roundTo_of_hasDecimals {width : Nat} {q : ℚ} (h : HasDecimals width q) :
    roundTo width q = q := by
  obtain ⟨n, hn⟩ := h
  rw [roundTo, hn, roundHalfEven_intCast, ← hn]
  exact mul_div_cancel_right₀ q (pow_ne_zero width (by norm_num))

theorem hasDecimals_roundTo (width : Nat) (q : ℚ) : HasDecimals width (roundTo width q) :=
  ⟨roundHalfEven (q * 10 ^ width), div_mul_cancel₀ _ (pow_ne_zero width (by norm_num))⟩

theorem roundTo_nonneg {width : Nat} {q : ℚ} (h : 0 ≤ q) : 0 ≤ roundTo width q := by
  have hscaled : 0 ≤ roundHalfEven (q * 10 ^ width) := roundHalfEven_nonneg (by positivity)
  exact div_nonneg (by exact_mod_cast hscaled) (by positivity)

theorem roundTo_nonpos {width : Nat} {q : ℚ} (h : q < 0) : roundTo width q ≤ 0 := by
  have hscaled : roundHalfEven (q * 10 ^ width) ≤ 0 :=
    roundHalfEven_nonpos (mul_neg_of_neg_of_pos h (by positivity))
  exact div_nonpos_of_nonpos_of_nonneg (by exact_mod_cast hscaled) (by positivity)

theorem isDigit_of_mem_padded {width n : Nat} {c : Char} (h : c ∈ padded width n) :
    c.isDigit = true := by
  rcases List.mem_append.mp h with hzero | hdigits
  · rw [List.eq_of_mem_replicate hzero]
    decide
  · exact isDigit_of_mem_digits hdigits

theorem value_padded (width n : Nat) : value (padded width n) = n := by
  have hdigits : Nat.ofDigitChars 10 (digits n) 0 = n := value_digits n
  rw [value, padded, Nat.ofDigitChars_append, Nat.ofDigitChars_replicate_zero, Nat.mul_zero, hdigits]

theorem length_padded {width n : Nat} (hwidth : 0 < width) (h : n < 10 ^ width) :
    (padded width n).length = width := by
  have hle : (digits n).length ≤ width :=
    (Nat.length_toDigits_le_iff (by decide) hwidth).mpr h
  rw [padded, List.length_append, List.length_replicate]
  omega

/-- The digits and decimals of a number without a sign are read back. -/
theorem readUnsigned_fixed {width : Nat} (hwidth : 0 < width) (n : Nat) :
    readUnsigned (digits (n / 10 ^ width) ++ '.' :: padded width (n % 10 ^ width)) =
      some ((n : ℚ) / 10 ^ width) := by
  have hpos : 0 < 10 ^ width := Nat.pow_pos (by decide)
  have hwhole : (digits (n / 10 ^ width) ++ '.' :: padded width (n % 10 ^ width)).takeWhile
      Char.isDigit = digits (n / 10 ^ width) := by
    refine takeWhile_digits _ _ ?_
    intro c hc
    cases hc
    decide
  have hrest : (digits (n / 10 ^ width) ++ '.' :: padded width (n % 10 ^ width)).dropWhile
      Char.isDigit = '.' :: padded width (n % 10 ^ width) := by
    rw [List.dropWhile_append_of_pos fun c hc => isDigit_of_mem_digits hc]
    exact List.dropWhile_cons_of_neg (by decide)
  have hdecimals : (padded width (n % 10 ^ width)).takeWhile Char.isDigit =
      padded width (n % 10 ^ width) :=
    List.takeWhile_eq_self_iff.mpr fun c hc => isDigit_of_mem_padded hc
  have hsum : ((n / 10 ^ width : Nat) : ℚ) * 10 ^ width + ((n % 10 ^ width : Nat) : ℚ) = n := by
    exact_mod_cast Nat.div_add_mod' n (10 ^ width)
  simp only [readUnsigned, hwhole, hrest, hdecimals, value_digits, value_padded,
    length_padded hwidth (Nat.mod_lt n hpos)]
  rw [if_neg (digits_ne_nil _), ← hsum]
  congr 1
  field_simp

/-- The digits of an integer are read as this number. -/
theorem stod_digits (n : Nat) : stod (digits n) = some (n : ℚ) := by
  have htake := takeWhile_isDigit_digits n
  have hdrop : (digits n).dropWhile Char.isDigit = [] :=
    List.dropWhile_eq_nil_iff.mpr fun c hc => isDigit_of_mem_digits hc
  have hread : readUnsigned (digits n) = some (n : ℚ) := by
    rw [readUnsigned, htake, hdrop]
    simp only [if_neg (digits_ne_nil n), value_digits]
    simp [value]
  obtain ⟨c, cs, h, -, hminus, -⟩ := head_digits n
  rw [← hread, h, stod]
  rintro rest heq
  exact absurd (List.cons.inj heq).1 hminus

/-- **Round trip.** What is read back is the number rounded to the decimals of its text. -/
theorem stod_toFixed {width : Nat} (hwidth : 0 < width) (q : ℚ) :
    stod (toFixed width q) = some (roundTo width q) := by
  have hread := readUnsigned_fixed hwidth (roundHalfEven (q * 10 ^ width)).natAbs
  unfold toFixed
  by_cases hq : q < 0
  · have hscaled : roundHalfEven (q * 10 ^ width) ≤ 0 :=
      roundHalfEven_nonpos (mul_neg_of_neg_of_pos hq (by positivity))
    have habs : ((roundHalfEven (q * 10 ^ width)).natAbs : ℚ) = -roundHalfEven (q * 10 ^ width) := by
      rw [Nat.cast_natAbs, abs_of_nonpos hscaled, Int.cast_neg]
    simp only [if_pos hq, List.cons_append, List.nil_append, stod]
    rw [hread, Option.map_some, habs, roundTo]
    congr 1
    ring
  · have hscaled : 0 ≤ roundHalfEven (q * 10 ^ width) :=
      roundHalfEven_nonneg (by have := not_lt.mp hq; positivity)
    have habs : ((roundHalfEven (q * 10 ^ width)).natAbs : ℚ) = roundHalfEven (q * 10 ^ width) := by
      rw [Nat.cast_natAbs, abs_of_nonneg hscaled]
    obtain ⟨c, cs, h, -, hminus, -⟩ :=
      head_digits ((roundHalfEven (q * 10 ^ width)).natAbs / 10 ^ width)
    simp only [if_neg hq, List.nil_append]
    rw [roundTo, ← habs, ← hread, h, List.cons_append, stod]
    rintro rest heq
    exact absurd (List.cons.inj heq).1 hminus

end Decimal

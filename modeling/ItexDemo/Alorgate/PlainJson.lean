import ItexDemo.Alorgate.Orderbook
import ItexDemo.Lib.Decimal

/-!
# A small version of the JSON libraries

`JsonConvert.SerializeObject` for rows whose doubles are whole numbers, and what `rapidjson` reads of
that.
-/

namespace Alorgate.PlainJson

/-- A double that is a whole number. -/
def number (z : Int) : List Char :=
  (if z < 0 then ['-'] else []) ++ Decimal.digits z.natAbs ++ ['.', '0']

/-- A double writes no more than 15 digits of such a number. -/
def ReadBack (z : Int) : Prop := z.natAbs < 10 ^ 15

instance (z : Int) : Decidable (ReadBack z) := inferInstanceAs (Decidable (_ < _))

/-- The elements of an array and its end. -/
def elements : List Int → List Char
  | [] => [']']
  | [z] => number z ++ [']']
  | z :: zs => number z ++ ',' :: elements zs

/-- `SerializeObject`. -/
def serializePlain (data : Data Int) : List Char :=
  "\x7b\"prices\":[".toList ++ elements data.prices ++ ",\"volumes\":[".toList ++
    elements data.volumes ++ ['\x7d']

/-- The text behind `start`. -/
def skip (start s : List Char) : Option (List Char) :=
  if start.isPrefixOf s then some (s.drop start.length) else none

/-- The number behind its sign, and the text behind it. -/
def readUnsigned (sign : Int) (s : List Char) : Option (Int × List Char) :=
  (skip ['.', '0'] (s.dropWhile Char.isDigit)).map fun rest =>
    (sign * Decimal.value (s.takeWhile Char.isDigit), rest)

def readNumber : List Char → Option (Int × List Char)
  | '-' :: s => readUnsigned (-1) s
  | s => readUnsigned 1 s

/-- The elements of an array, and the text behind it. -/
def readElements : Nat → List Char → Option (List Int × List Char)
  | 0, _ => none
  | fuel + 1, s =>
    match skip [']'] s with
    | some rest => some ([], rest)
    | none => (readNumber s).bind fun r =>
      match skip [','] r.2 with
      | some rest => (readElements fuel rest).map fun q => (r.1 :: q.1, q.2)
      | none => (skip [']'] r.2).map fun rest => ([r.1], rest)

/-- The arrays `prices` and `volumes`. -/
def parsePlain (s : List Char) : Option (List Int × List Int) := do
  let s ← skip "\x7b\"prices\":[".toList s
  let (prices, s) ← readElements s.length s
  let s ← skip ",\"volumes\":[".toList s
  let (volumes, _) ← readElements s.length s
  pure (prices, volumes)

/-! ## What is written is read -/

theorem skip_append (start rest : List Char) : skip start (start ++ rest) = some rest := by
  rw [skip, if_pos (by simp), List.drop_left]

theorem readUnsigned_digits (sign : Int) (n : Nat) (rest : List Char) :
    readUnsigned sign (Decimal.digits n ++ ['.', '0'] ++ rest) = some (sign * n, rest) := by
  have hdot (c : Char) (hc : (['.', '0'] ++ rest).head? = some c) : ¬c.isDigit = true := by
    cases hc
    decide
  have htake := Decimal.takeWhile_digits n (['.', '0'] ++ rest) hdot
  have hdrop : (Decimal.digits n ++ (['.', '0'] ++ rest)).dropWhile Char.isDigit =
      ['.', '0'] ++ rest := by
    have hsplit := List.takeWhile_append_dropWhile
      (p := Char.isDigit) (l := Decimal.digits n ++ (['.', '0'] ++ rest))
    rw [htake] at hsplit
    exact List.append_cancel_left hsplit
  rw [List.append_assoc, readUnsigned, htake, hdrop, skip_append, Decimal.value_digits]
  rfl

theorem readNumber_number (z : Int) (rest : List Char) :
    readNumber (number z ++ rest) = some (z, rest) := by
  by_cases hz : z < 0
  · have hnumber : number z ++ rest = '-' :: (Decimal.digits z.natAbs ++ ['.', '0'] ++ rest) := by
      simp [number, hz]
    rw [hnumber, readNumber, readUnsigned_digits, show (-1 : Int) * z.natAbs = z by omega]
  · obtain ⟨c, cs, hdigits, -, hminus, -⟩ := Decimal.head_digits z.natAbs
    have hnumber : number z ++ rest = Decimal.digits z.natAbs ++ ['.', '0'] ++ rest := by
      simp [number, hz]
    have hread : readNumber (Decimal.digits z.natAbs ++ ['.', '0'] ++ rest) =
        readUnsigned 1 (Decimal.digits z.natAbs ++ ['.', '0'] ++ rest) := by
      rw [hdigits]
      unfold readNumber
      split
      · next heq => exact absurd (List.cons.inj heq).1 hminus
      · rfl
    rw [hnumber, hread, readUnsigned_digits, show (1 : Int) * z.natAbs = z by omega]

/-- A number does not start with a bracket. -/
theorem skip_number (z : Int) (rest : List Char) : skip [']'] (number z ++ rest) = none := by
  by_cases hz : z < 0
  · simp [skip, number, hz]
  · obtain ⟨c, cs, hdigits, -⟩ := Decimal.head_digits z.natAbs
    have hdigit : c.isDigit = true :=
      Decimal.isDigit_of_mem_digits (n := z.natAbs) (by rw [hdigits]; exact List.mem_cons_self)
    have hc : ']' ≠ c := by
      rintro rfl
      exact absurd hdigit (by decide)
    simp [skip, number, hz, hdigits, hc]

theorem readElements_elements (zs : List Int) {fuel : Nat} (hfuel : zs.length < fuel)
    (rest : List Char) : readElements fuel (elements zs ++ rest) = some (zs, rest) := by
  induction zs generalizing fuel with
  | nil =>
    obtain ⟨fuel, rfl⟩ := Nat.exists_eq_add_of_lt hfuel
    rw [elements, List.length_nil, Nat.zero_add, readElements, skip_append]
  | cons z zs ih =>
    obtain ⟨fuel, rfl⟩ := Nat.exists_eq_succ_of_ne_zero (Nat.ne_zero_of_lt hfuel)
    have hfuel : zs.length < fuel := Nat.lt_of_succ_lt_succ hfuel
    cases zs with
    | nil =>
      have hcomma : skip [','] ([']'] ++ rest) = none := rfl
      rw [elements, List.append_assoc, readElements, skip_number, readNumber_number]
      simp only [Option.bind_some, hcomma, skip_append, Option.map_some]
    | cons z' zs =>
      have helements : elements (z :: z' :: zs) ++ rest =
          number z ++ ([','] ++ (elements (z' :: zs) ++ rest)) := by
        simp [elements]
      rw [helements, readElements, skip_number, readNumber_number]
      simp only [Option.bind_some, skip_append, ih hfuel, Option.map_some]

theorem length_lt_length_elements (zs : List Int) : zs.length < (elements zs).length := by
  induction zs with
  | nil => decide
  | cons z zs ih =>
    cases zs with
    | nil =>
      have hnumber : 2 ≤ (number z).length := by
        rw [number, List.length_append]
        exact Nat.le_add_left 2 _
      rw [elements, List.length_append, List.length_singleton, List.length_singleton]
      omega
    | cons z' zs =>
      have hmore : (elements (z :: z' :: zs)).length =
          (number z).length + ((elements (z' :: zs)).length + 1) := by simp [elements]
      rw [hmore, List.length_cons]
      omega

/-- What `SerializeObject` writes is read. -/
theorem parsePlain_serializePlain (data : Data Int) :
    parsePlain (serializePlain data) = some (data.prices, data.volumes) := by
  have hprices := length_lt_length_elements data.prices
  have hvolumes := length_lt_length_elements data.volumes
  unfold parsePlain serializePlain
  rw [List.append_assoc, List.append_assoc, List.append_assoc, skip_append]
  simp only [Option.bind_eq_bind, Option.bind_some]
  rw [readElements_elements _ (by rw [List.length_append]; omega)]
  simp only [Option.bind_some, skip_append]
  rw [readElements_elements _ (by rw [List.length_append]; omega)]
  rfl

end Alorgate.PlainJson

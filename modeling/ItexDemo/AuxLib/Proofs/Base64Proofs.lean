import ItexDemo.AuxLib.Base64
import ItexDemo.Lib.Regroup

/-!
# Round trips of `aux::base64`

The padding makes whole groups of three bytes, and the zeros that it decodes to are as many as there
are padding characters. `decode` drops all zeros from the end, also those that were encoded.
-/

namespace Base64

/-! ## The iterators -/

/-- The base64 digit of a sextet. -/
def digit (sextet : Nat) : UInt8 :=
  if sextet < 26 then UInt8.ofNat (65 + sextet)
  else if sextet < 52 then UInt8.ofNat (71 + sextet)
  else if sextet < 62 then UInt8.ofNat (sextet - 4)
  else if sextet = 62 then 43 else 47

/-- The sextet of a base64 digit; the padding character counts as zero. -/
def sextet (char : UInt8) : Nat :=
  if 65 ≤ char ∧ char ≤ 90 then char.toNat - 65
  else if 97 ≤ char ∧ char ≤ 122 then char.toNat - 71
  else if 48 ≤ char ∧ char ≤ 57 then char.toNat + 4
  else if char = 43 then 62
  else if char = 47 then 63 else 0

theorem sextet_digit {n : Nat} (h : n < 64) : sextet (digit n) = n := by
  have hall : ∀ n < 64, sextet (digit n) = n := by decide
  exact hall n h

/-- What is documented of the iterators: they give the digits of the sextets that cover the bytes,
and the bytes of the sextets, when these make whole bytes. -/
structure Iterators.Documented (it : Iterators) : Prop where
  digits : ∀ val, it.base64_from_binary val =
    (Regroup.regroup 8 6 (val.map UInt8.toNat)).map digit
  bytes : ∀ val, (∀ char ∈ val, char = pad ∨ ∃ n < 64, char = digit n) → 8 ∣ 6 * val.length →
    it.binary_from_base64 val = (Regroup.regroup 6 8 (val.map sextet)).map UInt8.ofNat

/-- Iterators that do what is documented. -/
def standard : Iterators where
  base64_from_binary val := (Regroup.regroup 8 6 (val.map UInt8.toNat)).map digit
  binary_from_base64 val := (Regroup.regroup 6 8 (val.map sextet)).map UInt8.ofNat

theorem standard_documented : standard.Documented where
  digits _ := rfl
  bytes _ _ _ := rfl

/-! ## The round trip -/

/-- The sextets of a string. -/
def sextets (val : List UInt8) : List Nat := Regroup.regroup 8 6 (val.map UInt8.toNat)

theorem length_sextets (val : List UInt8) : (sextets val).length = (8 * val.length + 5) / 6 := by
  rw [sextets, Regroup.length_regroup, List.length_map]
  rfl

theorem sextets_lt (val : List UInt8) : ∀ n ∈ sextets val, n < 64 :=
  fun _ hn => Regroup.lt_of_mem_regroup hn

section RoundTrip

variable {it : Iterators} (h : it.Documented) (val : List UInt8)
include h

theorem encode_eq : encode it val =
    (sextets val).map digit ++ List.replicate ((3 - val.length % 3) % 3) pad := by
  rw [encode, h.digits]
  rfl

theorem map_sextet_encode : (encode it val).map sextet =
    sextets val ++ List.replicate ((3 - val.length % 3) % 3) 0 := by
  have hpad : sextet pad = 0 := rfl
  have hdigits : (sextets val).map (sextet ∘ digit) = sextets val :=
    (List.map_congr_left fun n hn => sextet_digit (sextets_lt val n hn)).trans (List.map_id _)
  rw [encode_eq h, List.map_append, List.map_map, List.map_replicate, hpad, hdigits]

/-- `encode` makes whole groups of four characters. -/
theorem length_encode : (encode it val).length = 4 * ((val.length + 2) / 3) := by
  rw [encode_eq h, List.length_append, List.length_map, List.length_replicate, length_sextets]
  omega

theorem binary_from_base64_encode : it.binary_from_base64 (encode it val) =
    val ++ List.replicate ((3 - val.length % 3) % 3) 0 := by
  have hchars : ∀ char ∈ encode it val, char = pad ∨ ∃ n < 64, char = digit n := by
    intro char hchar
    rw [encode_eq h] at hchar
    rcases List.mem_append.mp hchar with hdigit | hpad
    · obtain ⟨n, hn, rfl⟩ := List.mem_map.mp hdigit
      exact Or.inr ⟨n, sextets_lt val n hn, rfl⟩
    · exact Or.inl (List.eq_of_mem_replicate hpad)
  have hwhole : 8 ∣ 6 * (encode it val).length := by
    rw [length_encode h]
    omega
  have hbytes : ∀ x ∈ val.map UInt8.toNat, x < 2 ^ 8 := by
    intro x hx
    obtain ⟨byte, -, rfl⟩ := List.mem_map.mp hx
    exact byte.toNat_lt
  have hback := Regroup.regroup_regroup (p := (3 - val.length % 3) % 3)
    (m := (3 - val.length % 3) % 3) (by decide) (by decide) hbytes (k := 6) (by
      change 6 * ((sextets val).length + _) = _
      rw [length_sextets, List.length_map]
      omega)
  rw [h.bytes _ hchars hwhole, map_sextet_encode h]
  change (Regroup.regroup 6 8 (Regroup.regroup 8 6 (val.map UInt8.toNat) ++ _)).map _ = _
  have hval : val.map (UInt8.ofNat ∘ UInt8.toNat) = val :=
    (List.map_congr_left fun byte _ => UInt8.ofNat_toNat).trans (List.map_id _)
  rw [hback, List.map_append, List.map_map, List.map_replicate, hval]
  rfl

/-- What comes back is without the zeros at the end. -/
theorem decode_encode_eq : decode it (encode it val) = val.rdropWhile (· = 0) := by
  rw [decode, binary_from_base64_encode h]
  induction (3 - val.length % 3) % 3 with
  | zero => rw [List.replicate_zero, List.append_nil]
  | succ n ih =>
    rw [List.replicate_succ', ← List.append_assoc, List.rdropWhile_concat_pos _ _ 0 (by simp), ih]

end RoundTrip

/-- A string comes back from `encode` and `decode` unless it ends with a zero byte. -/
theorem decode_encode_iff {it : Iterators} (h : it.Documented) (val : List UInt8) :
    decode it (encode it val) = val ↔ val.getLast? ≠ some 0 := by
  rw [decode_encode_eq h, List.rdropWhile_eq_self_iff]
  constructor
  · intro hlast h0
    have hne : val ≠ [] := by
      rintro rfl
      cases h0
    rw [List.getLast?_eq_some_getLast hne] at h0
    exact hlast hne (decide_eq_true (Option.some.inj h0))
  · intro hlast hne h0
    rw [List.getLast?_eq_some_getLast hne] at hlast
    exact hlast (congrArg some (of_decide_eq_true h0))

/-- The string `a` does. -/
theorem decode_encode_a : decode standard (encode standard [97]) = [97] :=
  (decode_encode_iff standard_documented [97]).mpr (by decide)

/-- A string of one zero byte comes back empty. -/
theorem decode_encode_zero : decode standard (encode standard [0]) ≠ [0] := by
  decide

end Base64

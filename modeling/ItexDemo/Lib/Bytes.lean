import Mathlib.Data.List.Induction
import Mathlib.Tactic.Ring

/-!
# Numbers in bytes and stores into bytes

`encode` and `decode` are the big-endian form of a number in a fixed number of bytes. `overwrite`
replaces the bytes from an offset on, in memory of a fixed size.
-/

namespace Bytes

/-- The last `width` big-endian bytes of `n`. -/
def encode : Nat → Nat → List UInt8
  | 0, _ => []
  | width + 1, n => encode width (n / 256) ++ [UInt8.ofNat n]

/-- The number that the big-endian bytes stand for. -/
def decode (bytes : List UInt8) : Nat := bytes.foldl (fun n byte => n * 256 + byte.toNat) 0

@[simp] theorem length_encode (width n : Nat) : (encode width n).length = width := by
  induction width generalizing n with
  | zero => rfl
  | succ width ih => simp [encode, ih]

theorem decode_concat (bytes : List UInt8) (byte : UInt8) :
    decode (bytes ++ [byte]) = decode bytes * 256 + byte.toNat := by
  simp [decode]

theorem decode_encode_mod (width n : Nat) : decode (encode width n) = n % 256 ^ width := by
  induction width generalizing n with
  | zero => simp [encode, decode, Nat.mod_one]
  | succ width ih =>
    have hbyte : (UInt8.ofNat n).toNat = n % 256 := by simp
    rw [encode, decode_concat, ih, hbyte, pow_succ', Nat.mod_mul]
    ring

/-- A number that fits is read back. -/
theorem decode_encode {width n : Nat} (h : n < 256 ^ width) : decode (encode width n) = n := by
  rw [decode_encode_mod, Nat.mod_eq_of_lt h]

theorem decode_lt (bytes : List UInt8) : decode bytes < 256 ^ bytes.length := by
  induction bytes using List.reverseRecOn with
  | nil => decide
  | append_singleton bytes byte ih =>
    have hbyte := byte.toNat_lt
    rw [decode_concat, List.length_append, List.length_singleton, pow_succ]
    omega

/-- The bytes with `new` stored from `offset` on. -/
def overwrite (bytes : List UInt8) (offset : Nat) (new : List UInt8) : List UInt8 :=
  bytes.take offset ++ new ++ bytes.drop (offset + new.length)

theorem length_overwrite {bytes new : List UInt8} {offset : Nat}
    (h : offset + new.length ≤ bytes.length) :
    (overwrite bytes offset new).length = bytes.length := by
  simp only [overwrite, List.length_append, List.length_take, List.length_drop]
  omega

/-- A store changes only the bytes it covers. -/
theorem getElem?_overwrite {bytes new : List UInt8} {offset i : Nat}
    (h : offset + new.length ≤ bytes.length) (hi : i < offset ∨ offset + new.length ≤ i) :
    (overwrite bytes offset new)[i]? = bytes[i]? := by
  have htake : (bytes.take offset).length = offset := by
    rw [List.length_take]
    omega
  unfold overwrite
  rcases hi with hlt | hge
  · rw [List.append_assoc, List.getElem?_append_left (by omega), List.getElem?_take_of_lt hlt]
  · have hlen : (bytes.take offset ++ new).length = offset + new.length := by
      rw [List.length_append, htake]
    rw [List.getElem?_append_right (by omega), hlen, List.getElem?_drop]
    congr 1
    omega

/-- A store over the first bytes. -/
theorem overwrite_front {old new : List UInt8} (back : List UInt8) (h : new.length = old.length) :
    overwrite (old ++ back) 0 new = new ++ back := by
  rw [overwrite, List.take_zero, Nat.zero_add, h, List.drop_left, List.nil_append]

/-- A store behind `front`. -/
theorem overwrite_behind (front : List UInt8) {back new : List UInt8} {n : Nat} :
    overwrite (front ++ back) (front.length + n) new = front ++ overwrite back n new := by
  have htake : (front ++ back).take (front.length + n) = front ++ back.take n := by
    rw [List.take_append, List.take_of_length_le (by omega), Nat.add_sub_cancel_left]
  have hdrop : (front ++ back).drop (front.length + n + new.length) = back.drop (n + new.length) := by
    rw [List.drop_append, List.drop_of_length_le (by omega), List.nil_append, Nat.add_assoc,
      Nat.add_sub_cancel_left]
  rw [overwrite, overwrite, htake, hdrop]
  simp

/-- The `n` bytes from `offset` on, when there are as many. -/
def slice (bytes : List UInt8) (offset n : Nat) : Option (List UInt8) :=
  if offset + n ≤ bytes.length then some ((bytes.drop offset).take n) else none

theorem slice_append (front piece back : List UInt8) :
    slice (front ++ piece ++ back) front.length piece.length = some piece := by
  have hle : front.length + piece.length ≤ (front ++ piece ++ back).length := by simp
  have hdrop : (front ++ piece ++ back).drop front.length = piece ++ back := by
    rw [List.append_assoc, List.drop_left]
  rw [slice, if_pos hle, hdrop, List.take_left]

theorem slice_le {bytes piece : List UInt8} {offset n : Nat} (h : slice bytes offset n = some piece) :
    offset + n ≤ bytes.length := by
  unfold slice at h
  by_contra hle
  rw [if_neg hle] at h
  cases h

theorem length_slice {bytes piece : List UInt8} {offset n : Nat}
    (h : slice bytes offset n = some piece) : piece.length = n := by
  have hle := slice_le h
  rw [slice, if_pos hle] at h
  rw [← Option.some.inj h, List.length_take, List.length_drop]
  omega

/-! ## Reading what was stored -/

section Overwrite

variable {bytes new : List UInt8} {offset : Nat}

theorem length_take_offset (h : offset + new.length ≤ bytes.length) :
    (bytes.take offset).length = offset := by
  rw [List.length_take]
  omega

theorem take_overwrite {k : Nat} (h : offset + new.length ≤ bytes.length) (hk : k ≤ offset) :
    (overwrite bytes offset new).take k = bytes.take k := by
  have hlen := length_take_offset h
  rw [overwrite, List.append_assoc, List.take_append_of_le_length (by omega), List.take_take,
    Nat.min_eq_left hk]

theorem drop_overwrite {k : Nat} (h : offset + new.length ≤ bytes.length)
    (hk : offset + new.length ≤ k) : (overwrite bytes offset new).drop k = bytes.drop k := by
  have hlen : (bytes.take offset ++ new).length = offset + new.length := by
    rw [List.length_append, length_take_offset h]
  obtain ⟨n, rfl⟩ := Nat.exists_eq_add_of_le hk
  rw [overwrite, ← hlen, List.drop_length_add_append, List.drop_drop, hlen]

/-- What was stored is read back. -/
theorem slice_overwrite (h : offset + new.length ≤ bytes.length) :
    slice (overwrite bytes offset new) offset new.length = some new := by
  have hslice := slice_append (bytes.take offset) new (bytes.drop (offset + new.length))
  rwa [length_take_offset h] at hslice

theorem slice_overwrite_of_le {k n : Nat} (h : offset + new.length ≤ bytes.length)
    (hk : k + n ≤ offset) : slice (overwrite bytes offset new) k n = slice bytes k n := by
  have htake : ∀ xs : List UInt8, (xs.drop k).take n = (xs.take (k + n)).drop k := by
    intro xs
    rw [List.drop_take, Nat.add_sub_cancel_left]
  rw [slice, slice, length_overwrite h, htake, htake, take_overwrite h hk]

theorem slice_overwrite_of_ge {k n : Nat} (h : offset + new.length ≤ bytes.length)
    (hk : offset + new.length ≤ k) : slice (overwrite bytes offset new) k n = slice bytes k n := by
  rw [slice, slice, length_overwrite h, drop_overwrite h hk]

/-- Two stores, one behind the other. -/
theorem overwrite_append {back : List UInt8} (h : offset + new.length ≤ bytes.length) :
    overwrite (overwrite bytes offset new) (offset + new.length) back =
      overwrite bytes offset (new ++ back) := by
  have hlen : (bytes.take offset ++ new).length = offset + new.length := by
    rw [List.length_append, length_take_offset h]
  have htake : (overwrite bytes offset new).take (offset + new.length) = bytes.take offset ++ new := by
    rw [overwrite, ← hlen, List.take_left]
  rw [overwrite, htake, drop_overwrite h (Nat.le_add_right _ _), overwrite, List.length_append,
    Nat.add_assoc, List.append_assoc (bytes.take offset) new back]

end Overwrite

end Bytes

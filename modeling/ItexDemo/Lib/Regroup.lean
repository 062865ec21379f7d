import Mathlib.Data.List.Induction
import Mathlib.Algebra.Order.Ring.Nat
import Mathlib.Tactic.Ring

/-!
# Regrouping the bits of numbers

A list of numbers of `w` bits each is read as one row of bits, from the highest one of every number
on, and the row is cut into numbers of `k` bits; zeros fill up the last one. Regrouping back gives
the numbers and the zeros that were put behind them.
-/

namespace Regroup

/-- The lowest `w` bits of `n`, the highest one in front. -/
def unpack : (w n : Nat) → List Bool
  | 0, _ => []
  | w + 1, n => unpack w (n / 2) ++ [decide (n % 2 = 1)]

/-- The number that the bits stand for. -/
def pack (bits : List Bool) : Nat := bits.foldl (fun n bit => 2 * n + bit.toNat) 0

/-- The row of bits as `count` numbers of `k` bits. -/
def groups (k : Nat) : (count : Nat) → List Bool → List Nat
  | 0, _ => []
  | count + 1, bits => pack ((bits.take k).rightpad k false) :: groups k count (bits.drop k)

/-- The numbers of `k` bits that cover the numbers of `w` bits. -/
def regroup (w k : Nat) (xs : List Nat) : List Nat :=
  groups k ((w * xs.length + k - 1) / k) (xs.flatMap (unpack w))

@[simp] theorem length_unpack (w n : Nat) : (unpack w n).length = w := by
  induction w generalizing n with
  | zero => rfl
  | succ w ih => simp [unpack, ih]

theorem pack_concat (bits : List Bool) (bit : Bool) :
    pack (bits ++ [bit]) = 2 * pack bits + bit.toNat := by
  simp [pack]

theorem pack_unpack {w n : Nat} (h : n < 2 ^ w) : pack (unpack w n) = n := by
  induction w generalizing n with
  | zero =>
    obtain rfl : n = 0 := by simpa using h
    rfl
  | succ w ih =>
    have hhalf : n / 2 < 2 ^ w := by
      rw [pow_succ] at h
      omega
    rw [unpack, pack_concat, ih hhalf]
    rcases Nat.mod_two_eq_zero_or_one n with hmod | hmod
    · simp only [hmod, Nat.zero_ne_one, decide_false, Bool.toNat_false]
      omega
    · simp only [hmod, decide_true, Bool.toNat_true]
      omega

theorem unpack_pack (bits : List Bool) : unpack bits.length (pack bits) = bits := by
  induction bits using List.reverseRecOn with
  | nil => rfl
  | append_singleton bits bit ih =>
    have hhalf : (2 * pack bits + bit.toNat) / 2 = pack bits := by
      have := bit.toNat_lt
      omega
    have hlow : decide ((2 * pack bits + bit.toNat) % 2 = 1) = bit := by
      cases bit with
      | false => simp
      | true => simp [Nat.add_mod]
    rw [List.length_append, List.length_singleton, unpack, pack_concat, hhalf, hlow, ih]

theorem unpack_zero (w : Nat) : unpack w 0 = List.replicate w false := by
  induction w with
  | zero => rfl
  | succ w ih => simp [unpack, ih, List.replicate_succ']

theorem flatMap_unpack_zeros (w n : Nat) :
    (List.replicate n 0).flatMap (unpack w) = List.replicate (w * n) false := by
  induction n with
  | zero => rfl
  | succ n ih =>
    rw [List.replicate_succ, List.flatMap_cons, ih, unpack_zero, List.replicate_append_replicate,
      Nat.mul_succ, Nat.add_comm]

theorem length_flatMap_unpack (w : Nat) (xs : List Nat) :
    (xs.flatMap (unpack w)).length = w * xs.length := by
  induction xs with
  | nil => rfl
  | cons x xs ih =>
    rw [List.flatMap_cons, List.length_append, length_unpack, ih, List.length_cons]
    ring

@[simp] theorem length_groups (k count : Nat) (bits : List Bool) :
    (groups k count bits).length = count := by
  induction count generalizing bits with
  | zero => rfl
  | succ count ih => simp [groups, ih]

theorem length_rightpad_take (k : Nat) (bits : List Bool) :
    ((bits.take k).rightpad k false).length = k := by
  simp only [List.rightpad, List.length_append, List.length_take, List.length_replicate]
  omega

/-- The bits of the groups are the row and the zeros behind it. -/
theorem flatMap_groups {k count : Nat} {bits : List Bool} (h : bits.length ≤ k * count) :
    (groups k count bits).flatMap (unpack k) =
      bits ++ List.replicate (k * count - bits.length) false := by
  induction count generalizing bits with
  | zero =>
    obtain rfl : bits = [] := List.eq_nil_of_length_eq_zero (by omega)
    rfl
  | succ count ih =>
    rw [Nat.mul_succ] at h ⊢
    have hfirst := unpack_pack ((bits.take k).rightpad k false)
    rw [length_rightpad_take] at hfirst
    have hdrop : (bits.drop k).length ≤ k * count := by
      rw [List.length_drop]
      omega
    rw [groups, List.flatMap_cons, hfirst, ih hdrop, List.rightpad, List.length_drop,
      List.length_take]
    by_cases hk : k ≤ bits.length
    · rw [Nat.min_eq_left hk, Nat.sub_self, List.replicate_zero, List.append_nil, ← List.append_assoc,
        List.take_append_drop]
      congr 2
      omega
    · rw [Nat.min_eq_right (by omega), List.take_of_length_le (by omega),
        List.drop_of_length_le (by omega), List.nil_append, List.append_assoc,
        List.replicate_append_replicate]
      congr 2
      omega

/-- Groups of the size of the numbers are the numbers. -/
theorem groups_flatMap {w : Nat} {xs : List Nat} (h : ∀ x ∈ xs, x < 2 ^ w) :
    groups w xs.length (xs.flatMap (unpack w)) = xs := by
  induction xs with
  | nil => rfl
  | cons x xs ih =>
    have htake : (unpack w x ++ xs.flatMap (unpack w)).take w = unpack w x :=
      List.take_left' (length_unpack w x)
    have hdrop : (unpack w x ++ xs.flatMap (unpack w)).drop w = xs.flatMap (unpack w) :=
      List.drop_left' (length_unpack w x)
    have hpad : (unpack w x).rightpad w false = unpack w x := by
      rw [List.rightpad, length_unpack, Nat.sub_self, List.replicate_zero, List.append_nil]
    rw [List.length_cons, List.flatMap_cons, groups, htake, hdrop, hpad,
      pack_unpack (h x List.mem_cons_self), ih fun y hy => h y (List.mem_cons_of_mem x hy)]

theorem length_regroup (w k : Nat) (xs : List Nat) :
    (regroup w k xs).length = (w * xs.length + k - 1) / k := length_groups ..

theorem pack_lt (bits : List Bool) : pack bits < 2 ^ bits.length := by
  induction bits using List.reverseRecOn with
  | nil => exact Nat.one_pos
  | append_singleton bits bit ih =>
    have := bit.toNat_lt
    rw [pack_concat, List.length_append, List.length_singleton, pow_succ]
    omega

theorem lt_of_mem_groups {k count : Nat} {bits : List Bool} {n : Nat}
    (h : n ∈ groups k count bits) : n < 2 ^ k := by
  induction count generalizing bits with
  | zero => cases h
  | succ count ih =>
    rcases List.mem_cons.mp h with rfl | hrest
    · have hlt := pack_lt ((bits.take k).rightpad k false)
      rwa [length_rightpad_take] at hlt
    · exact ih hrest

theorem lt_of_mem_regroup {w k n : Nat} {xs : List Nat} (h : n ∈ regroup w k xs) : n < 2 ^ k :=
  lt_of_mem_groups h

/-- **Round trip.** Groups that are filled up with zeros to whole numbers of the old size are those
numbers and zeros. -/
theorem regroup_regroup {w k p m : Nat} {xs : List Nat} (hw : 0 < w) (hk : 0 < k)
    (h : ∀ x ∈ xs, x < 2 ^ w)
    (hlen : k * ((regroup w k xs).length + p) = w * (xs.length + m)) :
    regroup k w (regroup w k xs ++ List.replicate p 0) = xs ++ List.replicate m 0 := by
  have hcover : w * xs.length ≤ k * (regroup w k xs).length := by
    have := Nat.div_add_mod (w * xs.length + k - 1) k
    have := Nat.mod_lt (w * xs.length + k - 1) hk
    rw [length_regroup]
    omega
  have hbits : (regroup w k xs ++ List.replicate p 0).flatMap (unpack k) =
      (xs ++ List.replicate m 0).flatMap (unpack w) := by
    have hgroups : (regroup w k xs).flatMap (unpack k) = xs.flatMap (unpack w) ++
        List.replicate (k * (regroup w k xs).length - w * xs.length) false := by
      rw [length_regroup] at hcover ⊢
      have hle : (xs.flatMap (unpack w)).length ≤ k * ((w * xs.length + k - 1) / k) := by
        rwa [length_flatMap_unpack]
      rw [regroup, flatMap_groups hle, length_flatMap_unpack]
    rw [Nat.mul_add, Nat.mul_add] at hlen
    rw [List.flatMap_append, List.flatMap_append, hgroups, flatMap_unpack_zeros,
      flatMap_unpack_zeros, List.append_assoc, List.replicate_append_replicate]
    congr 2
    omega
  have hnumbers : ∀ x ∈ xs ++ List.replicate m 0, x < 2 ^ w := by
    intro x hx
    rcases List.mem_append.mp hx with hx | hx
    · exact h x hx
    · rw [List.eq_of_mem_replicate hx]
      exact Nat.two_pow_pos w
  have hcount : (k * (regroup w k xs ++ List.replicate p 0).length + w - 1) / w =
      (xs ++ List.replicate m 0).length := by
    rw [List.length_append, List.length_append, List.length_replicate, List.length_replicate, hlen,
      Nat.add_sub_assoc hw, Nat.mul_add_div hw, Nat.div_eq_of_lt (by omega), Nat.add_zero]
  rw [regroup, hbits, hcount, groups_flatMap hnumbers]

end Regroup

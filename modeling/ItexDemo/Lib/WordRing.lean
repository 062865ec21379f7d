import Mathlib.Data.Fin.Basic
import Mathlib.Data.BitVec
import Mathlib.Logic.Function.Iterate

/-!
# Shift registers

A word that is combined with a shift of itself determines the word, since the bits that the shift
moves out of place can be read off one after the other. A ring of words is a register that replaces
its oldest word in every step by a mixture of the newest word and the oldest one. Its steps lose
nothing, and the words that they make determine what the ring held at the start.
-/

namespace WordRing

/-! ## One word -/

section Word

variable {w k : Nat}

/-- `x ^ (x >> k)`. -/
def xorRight (k : Nat) (x : BitVec w) : BitVec w := x ^^^ (x >>> k)

/-- `x ^ (x << k)`. -/
def xorLeft (k : Nat) (x : BitVec w) : BitVec w := x ^^^ (x <<< k)

theorem getLsbD_xorRight (x : BitVec w) (i : Nat) :
    (xorRight k x).getLsbD i = (x.getLsbD i ^^ x.getLsbD (k + i)) := by
  rw [xorRight, BitVec.getLsbD_xor, BitVec.getLsbD_ushiftRight]

theorem getLsbD_xorLeft (x : BitVec w) {i : Nat} (hi : i < w) :
    (xorLeft k x).getLsbD i = (x.getLsbD i ^^ (!decide (i < k) && x.getLsbD (i - k))) := by
  rw [xorLeft, BitVec.getLsbD_xor, BitVec.getLsbD_shiftLeft, decide_eq_true hi, Bool.true_and]

/-- The bits are read off from the top: bit `i` is moved by a bit above it. -/
theorem xorRight_injective (hk : 0 < k) : Function.Injective (xorRight (w := w) k) := by
  intro x y hxy
  have hbits (n : Nat) : ∀ i, w ≤ i + n → x.getLsbD i = y.getLsbD i := by
    induction n with
    | zero =>
      intro i hi
      rw [BitVec.getLsbD_of_ge x i hi, BitVec.getLsbD_of_ge y i hi]
    | succ n ih =>
      intro i hi
      have hbit := congrArg (fun z => z.getLsbD i) hxy
      simp only [getLsbD_xorRight] at hbit
      rw [ih (k + i) (by omega)] at hbit
      exact Bool.xor_left_inj.mp hbit
  apply BitVec.eq_of_getLsbD_eq
  intro i _
  exact hbits w i (by omega)

/-- The bits are read off from the bottom. -/
theorem xorLeft_injective (hk : 0 < k) : Function.Injective (xorLeft (w := w) k) := by
  intro x y hxy
  apply BitVec.eq_of_getLsbD_eq
  intro i
  induction i using Nat.strong_induction_on with
  | _ i ih =>
    intro hi
    have hbit := congrArg (fun z => z.getLsbD i) hxy
    simp only [getLsbD_xorLeft _ hi] at hbit
    by_cases hik : i < k
    · simpa [hik] using hbit
    · rw [ih (i - k) (by omega) (by omega)] at hbit
      exact Bool.xor_left_inj.mp hbit

/-- The same when only the bits in `mask` are moved. -/
theorem xorLeft_and_injective (hk : 0 < k) (mask : BitVec w) :
    Function.Injective fun x : BitVec w => x ^^^ ((x <<< k) &&& mask) := by
  intro x y hxy
  apply BitVec.eq_of_getLsbD_eq
  intro i
  induction i using Nat.strong_induction_on with
  | _ i ih =>
    intro hi
    have hbit := congrArg (fun z => z.getLsbD i) hxy
    simp only [BitVec.getLsbD_xor, BitVec.getLsbD_and, BitVec.getLsbD_shiftLeft, decide_eq_true hi,
      Bool.true_and] at hbit
    by_cases hik : i < k
    · simpa [hik] using hbit
    · rw [ih (i - k) (by omega) (by omega)] at hbit
      exact Bool.xor_left_inj.mp hbit

/-- The product with a number that has an inverse determines the word. -/
theorem mul_injective {c d : BitVec w} (h : c * d = 1) :
    Function.Injective (fun x : BitVec w => x * c) := by
  intro x y hxy
  have hprod : x * c * d = y * c * d := congrArg (· * d) hxy
  rwa [mul_assoc, mul_assoc, h, mul_one, mul_one] at hprod

end Word

/-! ## A ring of words -/

section Ring

variable {W : Type*} {n : Nat} [NeZero n] {mix : W → W → W}

/-- One step of a ring that is read from its newest word on: the oldest word is the one behind it,
and the mixture of the two takes its place and is the newest word then. -/
def next (mix : W → W → W) (ring : Fin n → W) (i : Fin n) : W :=
  if i = 0 then mix (ring 0) (ring 1) else ring (i + 1)

@[simp] theorem next_zero (ring : Fin n → W) : next mix ring 0 = mix (ring 0) (ring 1) := if_pos rfl

theorem next_of_ne {ring : Fin n → W} {i : Fin n} (hi : i ≠ 0) : next mix ring i = ring (i + 1) :=
  if_neg hi

/-- A step loses nothing when a mixture and its first word determine the second one. -/
theorem next_injective (hmix : ∀ a, Function.Injective (mix a)) (hn : 1 < n) :
    Function.Injective (next (n := n) mix) := by
  intro ring ring' h
  have hone : (1 : Fin n) ≠ 0 := by
    intro h10
    have := congrArg Fin.val h10
    rw [Fin.val_zero, Fin.val_one', Nat.mod_eq_of_lt hn] at this
    cases this
  have hshift (i : Fin n) (hi : i ≠ 1) : ring i = ring' i := by
    have hpred : i - 1 ≠ 0 := fun h0 => hi (sub_eq_zero.mp h0)
    have := congrFun h (i - 1)
    rwa [next_of_ne hpred, next_of_ne hpred, sub_add_cancel] at this
  funext i
  by_cases hi : i = 1
  · have hfirst := congrFun h 0
    rw [next_zero, next_zero, hshift 0 hone.symm] at hfirst
    rw [hi]
    exact hmix _ hfirst
  · exact hshift i hi

/-- A ring that mixes zeros to zero and loses nothing keeps a word that is not zero. -/
theorem next_ne_zero [Zero W] (hmix : ∀ a, Function.Injective (mix a)) (hn : 1 < n)
    (hzero : mix 0 0 = 0) {ring : Fin n → W} (h : ring ≠ 0) : next mix ring ≠ 0 := by
  have hnext : next (n := n) mix 0 = 0 := by
    funext i
    by_cases hi : i = 0
    · rw [hi, next_zero]
      exact hzero
    · rw [next_of_ne hi]
      rfl
  intro h0
  exact h (next_injective hmix hn (h0.trans hnext.symm))

/-- After `k` steps the words that they made stand in front of the newest one, going backwards. -/
theorem iterate_eq {ring ring' : Fin n → W}
    (h : ∀ k, (next mix)^[k + 1] ring 0 = (next mix)^[k + 1] ring' 0) (k : Nat) :
    ∀ i < min k n, (next mix)^[k] ring (-Fin.ofNat n i) = (next mix)^[k] ring' (-Fin.ofNat n i) := by
  induction k with
  | zero =>
    intro i hi
    omega
  | succ k ih =>
    intro i hi
    cases i with
    | zero => simpa using h k
    | succ i =>
      have hne : -Fin.ofNat n (i + 1) ≠ 0 := by
        rw [neg_ne_zero]
        intro h0
        have := congrArg Fin.val h0
        rw [Fin.val_ofNat, Nat.mod_eq_of_lt (by omega), Fin.val_zero] at this
        cases this
      have hsucc : Fin.ofNat n (i + 1) = Fin.ofNat n i + 1 := by
        apply Fin.ext
        rw [Fin.val_add, Fin.val_ofNat, Fin.val_ofNat, Fin.val_one', ← Nat.add_mod]
      have hprev : -Fin.ofNat n (i + 1) + 1 = -Fin.ofNat n i := by
        rw [hsucc, neg_add, neg_add_cancel_right]
      rw [Function.iterate_succ_apply', Function.iterate_succ_apply', next_of_ne hne,
        next_of_ne hne, hprev]
      exact ih i (by omega)

/-- **Observability.** The words that a ring makes determine what it held at the start. -/
theorem eq_of_words (hmix : ∀ a, Function.Injective (mix a)) (hn : 1 < n) {ring ring' : Fin n → W}
    (h : ∀ k, (next mix)^[k + 1] ring 0 = (next mix)^[k + 1] ring' 0) : ring = ring' := by
  apply (next_injective hmix hn).iterate n
  funext i
  have hi := iterate_eq h n (-i).val (by omega)
  rwa [Fin.ofNat_val_eq_self, neg_neg] at hi

end Ring

end WordRing

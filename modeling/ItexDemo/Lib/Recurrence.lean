import Mathlib.Data.Nat.Basic
import Mathlib.Algebra.Group.Nat.Defs

/-!
# Recurrences that are computed in place

A sequence of words where word `k + n` is a mixture of the words `k + m`, `k` and `k + 1`. A generator
keeps `n` words of it and overwrites them one after the other with the next `n`; by the time it needs a
word of the next block that word is already there.
-/

namespace Recurrence

variable {W : Type*} {mix : W → W → W → W} {n m : Nat}

/-- Word `k + n` is the mixture of the words `k + m`, `k` and `k + 1`. -/
def Follows (mix : W → W → W → W) (n m : Nat) (x : Nat → W) : Prop :=
  ∀ k, x (k + n) = mix (x (k + m)) (x k) (x (k + 1))

/-- The sequence that starts with the words `start`. -/
def sequence (mix : W → W → W → W) (n m : Nat) (hm : m < n) (hn : 1 < n) (start : Nat → W) (k : Nat) :
    W :=
  if k < n then start k
  else mix (sequence mix n m hm hn start (k - n + m)) (sequence mix n m hm hn start (k - n))
    (sequence mix n m hm hn start (k - n + 1))
termination_by k
decreasing_by all_goals omega

section Sequence

variable {hm : m < n} {hn : 1 < n} {start : Nat → W}

theorem sequence_of_lt {k : Nat} (hk : k < n) : sequence mix n m hm hn start k = start k := by
  rw [sequence, if_pos hk]

theorem sequence_follows : Follows mix n m (sequence mix n m hm hn start) := by
  intro k
  rw [sequence, if_neg (by omega), Nat.add_sub_cancel]

end Sequence

/-- Two sequences that agree on `n` words in a row agree from there on. -/
theorem Follows.eq_of_window {x y : Nat → W} (hx : Follows mix n m x) (hy : Follows mix n m y)
    (hm : m < n) (hn : 1 < n) {a b : Nat} (h : ∀ i < n, x (a + i) = y (b + i)) (i : Nat) :
    x (a + i) = y (b + i) := by
  induction i using Nat.strong_induction_on with
  | _ i ih =>
    by_cases hi : i < n
    · exact h i hi
    · obtain ⟨j, rfl⟩ := Nat.exists_eq_add_of_le (Nat.le_of_not_lt hi)
      rw [show a + (n + j) = a + j + n by omega, show b + (n + j) = b + j + n by omega, hx, hy]
      rw [show a + j + m = a + (j + m) by omega, show b + j + m = b + (j + m) by omega,
        ih (j + m) (by omega)]
      rw [ih j (by omega), Nat.add_assoc, Nat.add_assoc, ih (j + 1) (by omega)]

/-! ## In place -/

/-- A block of words from word `b` on, whose first `p` words have been overwritten with those of the
next block. -/
def Overwritten (x : Nat → W) (b p : Nat) (words : Vector W n) : Prop :=
  ∀ i (_ : i < n), words[i] = if i < p then x (b + n + i) else x (b + i)

section InPlace

variable {x : Nat → W} {b p : Nat} {words : Vector W n}

theorem Overwritten.new (h : Overwritten x b p words) {i : Nat} (hi : i < n) (hp : i < p) :
    words[i] = x (b + n + i) := by
  rw [h i hi, if_pos hp]

theorem Overwritten.old (h : Overwritten x b p words) {i : Nat} (hi : i < n) (hp : p ≤ i) :
    words[i] = x (b + i) := by
  rw [h i hi, if_neg (Nat.not_lt.mpr hp)]

/-- The next word is overwritten. -/
theorem Overwritten.set (h : Overwritten x b p words) (hp : p < n) {w : W} (hw : w = x (b + n + p)) :
    Overwritten x b (p + 1) (words.set p w) := by
  intro i hi
  rw [Vector.getElem_set]
  by_cases hip : p = i
  · subst hip
    rw [if_pos rfl, if_pos (Nat.lt_succ_self p), hw]
  · rw [if_neg hip, h i hi]
    by_cases hlt : i < p
    · rw [if_pos hlt, if_pos (by omega)]
    · rw [if_neg hlt, if_neg (by omega)]

/-- All words are overwritten. -/
theorem Overwritten.next (h : Overwritten x b n words) : Overwritten x (b + n) 0 words := by
  intro i hi
  rw [h i hi, if_pos hi, if_neg (Nat.not_lt_zero i)]

/-- The word that is `m` further on is still the old one. -/
theorem Follows.set_early (hx : Follows mix n m x) (h : Overwritten x b p words) (hpm : p + m < n)
    (hp : p + 1 < n) :
    Overwritten x b (p + 1) (words.set p (mix words[p + m] words[p] words[p + 1])) := by
  refine h.set (by omega) ?_
  rw [h.old hpm (by omega), h.old (by omega) (Nat.le_refl p), h.old hp (by omega),
    show b + n + p = b + p + n by omega, hx, Nat.add_assoc, Nat.add_assoc]

/-- The word that is `m` further on is in the next block. -/
theorem Follows.set_late (hx : Follows mix n m x) (h : Overwritten x b p words) {q : Nat}
    (hq : q + n = p + m) (hm : m < n) (hp : p + 1 < n) :
    Overwritten x b (p + 1) (words.set p (mix words[q] words[p] words[p + 1])) := by
  refine h.set (by omega) ?_
  rw [h.new (by omega) (by omega), h.old (by omega) (Nat.le_refl p), h.old hp (by omega),
    show b + n + p = b + p + n by omega, hx, show b + n + q = b + p + m by omega,
    show b + (p + 1) = b + p + 1 by omega]

/-- The last word is mixed with the first word of the next block. -/
theorem Follows.set_last (hx : Follows mix n m x) (h : Overwritten x b p words) {q : Nat}
    (hq : q + n = p + m) (hm : m < n) (hp : p + 1 = n) (hpos : 0 < p) :
    Overwritten x b n (words.set p (mix words[q] words[p] words[0])) := by
  have hset : Overwritten x b (p + 1) (words.set p (mix words[q] words[p] words[0])) := by
    refine h.set (by omega) ?_
    rw [h.new (by omega) (by omega), h.old (by omega) (Nat.le_refl p), h.new (by omega) hpos,
      show b + n + p = b + p + n by omega, hx, show b + n + q = b + p + m by omega,
      show b + n + 0 = b + p + 1 by omega]
  rwa [hp] at hset

end InPlace

/-! ## Zeros -/

/-- `n` words that are zero come after zeros only, when a mixture with a zero says that one part of the
first word and the other part of the second one are zero. Of word `0` only the first part is read. -/
theorem Follows.eq_zero_of_window [Zero W] {x : Nat → W} (hx : Follows mix n m x) (hm : 1 < m)
    (hmn : m < n) {Upper Lower : W → Prop} (hmix : ∀ u v, mix 0 u v = 0 → Upper u ∧ Lower v)
    (hparts : ∀ k, Upper (x k) → Lower (x k) → x k = 0) {k : Nat} (h : ∀ i < n, x (k + 1 + i) = 0) :
    Upper (x 0) ∧ ∀ i, 0 < i → i ≤ n → x i = 0 := by
  have hfollow {j : Nat} (hzero : ∀ i, j + 1 < i → i ≤ j + n → x i = 0) (hlast : x (j + n) = 0) :
      Upper (x j) ∧ Lower (x (j + 1)) := by
    refine hmix _ _ ?_
    rw [← hzero (j + m) (by omega) (by omega), ← hx, hlast, hzero (j + m) (by omega) (by omega)]
  -- the induction goes back from word `k` to word `0`
  have hback : ∀ d j, j + d = k → Upper (x j) ∧ ∀ i, j < i → i ≤ j + n → x i = 0 := by
    intro d
    induction d with
    | zero =>
      intro j hj
      obtain rfl : j = k := hj
      have hzero : ∀ i, j < i → i ≤ j + n → x i = 0 := by
        intro i hlo hhi
        have hi := h (i - (j + 1)) (by omega)
        rwa [Nat.add_sub_of_le hlo] at hi
      exact ⟨(hfollow (fun i hlo => hzero i (by omega)) (hzero _ (by omega) (Nat.le_refl _))).1, hzero⟩
    | succ d ih =>
      intro j hj
      obtain ⟨hupper, hzero⟩ := ih (j + 1) (by omega)
      obtain ⟨hupper', hlower⟩ := hfollow (fun i hlo hhi => hzero i hlo (by omega))
        (hzero (j + n) (by omega) (by omega))
      refine ⟨hupper', ?_⟩
      intro i hlo hhi
      rcases Nat.eq_or_lt_of_le hlo with rfl | hlt
      · exact hparts (j + 1) hupper hlower
      · exact hzero i hlt (by omega)
  obtain ⟨hupper, hzero⟩ := hback k 0 (Nat.zero_add k)
  exact ⟨hupper, fun i hlo hhi => hzero i hlo (by omega)⟩

end Recurrence

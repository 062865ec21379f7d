import Mathlib.Data.Int.ModEq
import Mathlib.RingTheory.Coprime.Lemmas
import Mathlib.Tactic.LinearCombination
import Mathlib.Tactic.Linarith

/-!
# Multiplication modulo a number, by Schrage's method

For `m = a * q + r` the product `a * x` is reduced by as many multiples of `m` as `q` fits into `x`.
Nothing in it gets larger than `m` or `x`, and one correction brings it into the range of the
residues when `x` is not much larger than `m`. Division is the truncating one, also of negative
numbers. A number that is too large gets smaller in every step.
-/

namespace Schrage

/-- The modulus is `m = a * q + r`, with a remainder that is small against `q`. -/
structure Split (a q r m : Int) : Prop where
  eq : m = a * q + r
  a_pos : 0 < a
  q_pos : 0 < q
  r_nonneg : 0 ≤ r
  quarter : 4 * r ≤ q
  coprime : IsCoprime m a

/-- The product before the correction. -/
def reduced (a q r x : Int) : Int := a * x.tmod q - x.tdiv q * r

/-- The product modulo `m`. -/
def step (a q r m x : Int) : Int :=
  if reduced a q r x < 0 then reduced a q r x + m else reduced a q r x

section Bounds

variable {a q r m x B : Int}

theorem tdiv_mul_le (hx : 0 ≤ x) (q : Int) (hq : 0 ≤ q) : 0 ≤ x.tdiv q * q ∧ x.tdiv q * q ≤ x := by
  have hdiv : q * x.tdiv q + x.tmod q = x := Int.mul_tdiv_add_tmod x q
  have hmod : 0 ≤ x.tmod q := Int.tmod_nonneg q hx
  have hmul := Int.mul_nonneg (Int.tdiv_nonneg hx hq) hq
  rw [Int.mul_comm] at hdiv
  omega

theorem reduced_neg (a q r x : Int) : reduced a q r (-x) = -reduced a q r x := by
  rw [reduced, reduced, Int.neg_tmod, Int.neg_tdiv]
  ring

theorem Split.product_le (h : Split a q r m) : a * q ≤ m := by
  have := h.eq
  have := h.r_nonneg
  omega

theorem Split.m_pos (h : Split a q r m) : 0 < m := by
  have := Int.mul_pos h.a_pos h.q_pos
  have := h.product_le
  omega

/-- The subtracted multiples of `m` leave the product. -/
theorem Split.reduced_eq (h : Split a q r m) (x : Int) :
    reduced a q r x = a * x - x.tdiv q * m := by
  have hdiv : q * x.tdiv q + x.tmod q = x := Int.mul_tdiv_add_tmod x q
  rw [reduced, h.eq]
  linear_combination a * hdiv

/-- What is subtracted is at most a quarter of the number. -/
theorem Split.excess_le (h : Split a q r m) (hx : 0 ≤ x) :
    0 ≤ x.tdiv q * r ∧ 4 * (x.tdiv q * r) ≤ x := by
  have hk : 0 ≤ x.tdiv q := Int.tdiv_nonneg hx h.q_pos.le
  have hle : x.tdiv q * (4 * r) ≤ x.tdiv q * q := Int.mul_le_mul_of_nonneg_left h.quarter hk
  have hx' := (tdiv_mul_le hx q h.q_pos.le).2
  constructor
  · exact Int.mul_nonneg hk h.r_nonneg
  · linarith

theorem Split.product_bounds (h : Split a q r m) (hx : 0 ≤ x) :
    0 ≤ a * x.tmod q ∧ a * x.tmod q < a * q := by
  constructor
  · exact Int.mul_nonneg h.a_pos.le (Int.tmod_nonneg q hx)
  · exact Int.mul_lt_mul_of_pos_left (Int.tmod_lt_of_pos x h.q_pos) h.a_pos

theorem Split.reduced_of_nonneg (h : Split a q r m) (hx : 0 ≤ x) :
    -x ≤ 4 * reduced a q r x ∧ reduced a q r x < m := by
  have hprod := h.product_bounds hx
  have hexc := h.excess_le hx
  have hm := h.product_le
  rw [reduced]
  omega

theorem Split.reduced_of_nonpos (h : Split a q r m) (hx : x ≤ 0) :
    -m < reduced a q r x ∧ 4 * reduced a q r x ≤ -x := by
  have hneg := h.reduced_of_nonneg (x := -x) (by omega)
  rw [reduced_neg] at hneg
  omega

/-- A number that is larger than `m` gets smaller. -/
theorem Split.step_contract (h : Split a q r m) (hB : m ≤ B) (hlo : -(4 * B) < x)
    (hhi : x < 4 * B) : -B < step a q r m x ∧ step a q r m x < B := by
  have hm := h.m_pos
  unfold step
  rcases Int.le_total 0 x with hx | hx
  · have hred := h.reduced_of_nonneg hx
    split <;> omega
  · have hred := h.reduced_of_nonpos hx
    split <;> omega

/-- One correction is enough when the number is below four times the modulus. -/
theorem Split.step_range (h : Split a q r m) (hlo : -(4 * m) < x) (hhi : x < 4 * m) :
    0 ≤ step a q r m x ∧ step a q r m x < m := by
  have hm := h.m_pos
  unfold step
  rcases Int.le_total 0 x with hx | hx
  · have hred := h.reduced_of_nonneg hx
    split <;> omega
  · have hred := h.reduced_of_nonpos hx
    split <;> omega

theorem Split.step_modEq (h : Split a q r m) (x : Int) : step a q r m x ≡ a * x [ZMOD m] := by
  have hred : reduced a q r x ≡ a * x [ZMOD m] := by
    rw [h.reduced_eq, Int.modEq_iff_dvd]
    exact ⟨x.tdiv q, by ring⟩
  unfold step
  split
  · exact (Int.modEq_iff_dvd.mpr ⟨-1, by ring⟩).trans hred
  · exact hred

/-- A step makes a multiple of the modulus of nothing else. -/
theorem Split.dvd_step_iff (h : Split a q r m) (x : Int) : m ∣ step a q r m x ↔ m ∣ x := by
  rw [(h.step_modEq x).dvd_iff]
  constructor
  · exact h.coprime.dvd_of_dvd_mul_left
  · exact fun hdvd => Dvd.dvd.mul_left hdvd a

/-- The residues other than zero are kept. -/
theorem Split.step_residue (h : Split a q r m) (hlo : -(4 * m) < x) (hhi : x < 4 * m)
    (hx : ¬ m ∣ x) : 1 ≤ step a q r m x ∧ step a q r m x ≤ m - 1 := by
  have hrange := h.step_range hlo hhi
  have hne : step a q r m x ≠ 0 := by
    intro h0
    have hdvd := (h.dvd_step_iff x).mp (h0 ▸ dvd_zero m)
    exact hx hdvd
  omega

end Bounds

theorem not_dvd_of_residue {m x : Int} (hlo : 1 ≤ x) (hhi : x ≤ m - 1) : ¬ m ∣ x := by
  intro hdvd
  have := Int.le_of_dvd (by omega) hdvd
  omega

end Schrage

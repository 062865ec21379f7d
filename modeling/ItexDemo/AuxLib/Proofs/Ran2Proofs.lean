import Mathlib.Tactic.NormNum
import ItexDemo.Lib.Schrage
import ItexDemo.AuxLib.Rng

/-!
# The state of `ran2`

Both recurrences are Schrage's method. `_ran2_idum` has the rounds of the warm-up to come into its
range, `_ran2_idum2` starts at the seed and has one draw: a seed that is too large for it leaves the
range, and the next index is taken from outside the table.
-/

namespace RandomNumberGenerator

open Schrage (Split)

/-! ## One recurrence -/

theorem split_idum : Split IA1 IQ1 IR1 IM1 where
  eq := by decide
  a_pos := by decide
  q_pos := by decide
  r_nonneg := by decide
  quarter := by decide
  coprime := by
    rw [Int.isCoprime_iff_gcd_eq_one]
    decide +kernel

theorem split_idum2 : Split IA2 IQ2 IR2 IM2 where
  eq := by decide
  a_pos := by decide
  q_pos := by decide
  r_nonneg := by decide
  quarter := by decide
  coprime := by
    rw [Int.isCoprime_iff_gcd_eq_one]
    decide +kernel

/-- A `long` that can be negated. -/
def Negatable (n : Int) : Prop := -2 ^ 63 < n ∧ n < 2 ^ 63

theorem long_of_negatable {n : Int} (h : Negatable n) : long n = some n := by
  unfold Negatable at h
  exact if_pos (by omega)

section Advance

variable {a q r m x : Int}

/-- No operation of a recurrence overflows, whatever the number is. -/
theorem advance_eq (h : Split a q r m) (hm : m < 2 ^ 31) (hx : Negatable x) :
    advance a q r m x = some (Schrage.step a q r m x) ∧ Negatable (Schrage.step a q r m x) := by
  unfold Negatable at hx
  have hrest : x - x.tdiv q * q = x.tmod q := by rw [Int.tmod_def, Int.mul_comm]
  have hprod := h.product_le
  have hpos := h.m_pos
  have hperiod : Negatable (x.tdiv q * q) ∧ Negatable (x.tmod q) ∧ Negatable (a * x.tmod q) ∧
      Negatable (x.tdiv q * r) ∧ Negatable (Schrage.reduced a q r x) := by
    unfold Negatable
    rcases Int.le_total 0 x with hx0 | hx0
    · have hmul := Schrage.tdiv_mul_le hx0 q h.q_pos.le
      have hproduct := h.product_bounds hx0
      have hexcess := h.excess_le hx0
      have hreduced := h.reduced_of_nonneg hx0
      omega
    · have hneg : 0 ≤ -x := by omega
      have hmul := Schrage.tdiv_mul_le hneg q h.q_pos.le
      have hproduct := h.product_bounds hneg
      have hexcess := h.excess_le hneg
      have hreduced := h.reduced_of_nonpos hx0
      rw [Int.neg_tdiv, Int.neg_mul] at hmul hexcess
      rw [Int.neg_tmod, Int.mul_neg] at hproduct
      omega
  obtain ⟨hk, hmod, hfull, hexcess, hreduced⟩ := hperiod
  have hcorrected : Schrage.reduced a q r x < 0 → Negatable (Schrage.reduced a q r x + m) := by
    intro hneg
    unfold Negatable at hreduced ⊢
    omega
  constructor
  · rw [advance, long_of_negatable hk]
    simp only [Option.bind_eq_bind, Option.bind_some]
    rw [hrest, long_of_negatable hmod, Option.bind_some, long_of_negatable hfull, Option.bind_some,
      long_of_negatable hexcess, Option.bind_some]
    change (long (Schrage.reduced a q r x)).bind _ = _
    rw [long_of_negatable hreduced, Option.bind_some, Schrage.step]
    by_cases hneg : Schrage.reduced a q r x < 0
    · rw [if_pos hneg, if_pos hneg, long_of_negatable (hcorrected hneg)]
    · rw [if_neg hneg, if_neg hneg]
      rfl
  · rw [Schrage.step]
    by_cases hneg : Schrage.reduced a q r x < 0
    · rw [if_pos hneg]
      exact hcorrected hneg
    · rw [if_neg hneg]
      exact hreduced

end Advance

/-- The value of `_ran2_idum` after `idum`. -/
def idumStep (idum : Int) : Int := Schrage.step IA1 IQ1 IR1 IM1 idum

/-- The value of `_ran2_idum2` after `idum2`. -/
def idum2Step (idum2 : Int) : Int := Schrage.step IA2 IQ2 IR2 IM2 idum2

/-- A residue modulo `m` that is not zero. -/
def Residue (m x : Int) : Prop := 1 ≤ x ∧ x ≤ m - 1

theorem advanceIdum_eq {idum : Int} (h : Negatable idum) :
    advanceIdum idum = some (idumStep idum) ∧ Negatable (idumStep idum) :=
  advance_eq split_idum (by decide) h

theorem advanceIdum2_eq {idum2 : Int} (h : Negatable idum2) :
    advanceIdum2 idum2 = some (idum2Step idum2) ∧ Negatable (idum2Step idum2) :=
  advance_eq split_idum2 (by decide) h

/-- A residue modulo `m`. -/
def Reduced (m x : Int) : Prop := 0 ≤ x ∧ x < m

theorem Residue.reduced {m x : Int} (h : Residue m x) : Reduced m x := by
  unfold Residue at h
  unfold Reduced
  omega

theorem Reduced.residue {m x : Int} (h : Reduced m x) (hndvd : ¬ m ∣ x) : Residue m x := by
  have hne : x ≠ 0 := by
    rintro rfl
    exact hndvd (dvd_zero m)
  unfold Reduced at h
  unfold Residue
  omega

theorem Reduced.negatable {m x : Int} (h : Reduced m x) (hm : m < 2 ^ 31) : Negatable x := by
  unfold Reduced at h
  unfold Negatable
  omega

theorem Reduced.step {a q r m x : Int} (hsplit : Split a q r m) (h : Reduced m x) :
    Reduced m (Schrage.step a q r m x) := by
  have hpos := hsplit.m_pos
  unfold Reduced at h
  exact hsplit.step_range (by omega) (by omega)

theorem residue_step {a q r m x : Int} (hsplit : Split a q r m) (h : Residue m x) :
    Residue m (Schrage.step a q r m x) := by
  have hndvd := Schrage.not_dvd_of_residue h.1 h.2
  unfold Residue at h
  exact hsplit.step_residue (by omega) (by omega) hndvd

/-! ## Seeding -/

/-- The number that the warm-up begins with: the seed as a `long` without its sign, and `1` for
zero. -/
def magnitude (seed : BitVec 64) : Int := if seed.toInt = 0 then 1 else |seed.toInt|

/-- The rounds bring `_ran2_idum` below this number. -/
def warmBound (round : Nat) : Int := IM1 * 4 ^ (8 - round)

theorem warmBound_succ (round : Nat) : warmBound round ≤ 4 * warmBound (round + 1) := by
  unfold warmBound
  by_cases h : round < 8
  · have hpow : (8 - round) = (8 - (round + 1)) + 1 := by omega
    rw [hpow, pow_succ]
    exact le_of_eq (by ring)
  · rw [show 8 - round = 0 by omega, show 8 - (round + 1) = 0 by omega]
    decide

theorem le_warmBound (round : Nat) : IM1 ≤ warmBound round := by
  have hpow : (1 : Int) ≤ 4 ^ (8 - round) := Int.pow_pos (by decide)
  have := Int.mul_le_mul_of_nonneg_left hpow (show 0 ≤ IM1 by decide)
  rwa [Int.mul_one] at this

/-- What the warm-up from `a` has reached after some rounds. -/
structure Warming (a : Int) (round : Nat) (rng : RandomNumberGenerator) : Prop where
  idum2 : rng.ran2_idum2 = a
  negatable : Negatable rng.ran2_idum
  dvd_iff : IM1 ∣ rng.ran2_idum ↔ IM1 ∣ a
  small : a < warmBound 0 → -warmBound round < rng.ran2_idum ∧ rng.ran2_idum < warmBound round
  idum : a < warmBound 0 → 9 ≤ round → Reduced IM1 rng.ran2_idum
  iv : ∀ j : Fin 32, 40 ≤ j.val + round → (IM1 ∣ rng.ran2_iv.get j ↔ IM1 ∣ a) ∧
    (a < warmBound 0 → Reduced IM1 (rng.ran2_iv.get j))

theorem Warming.start {a : Int} (rng : RandomNumberGenerator) (hpos : 0 < a) (h : Negatable a) :
    Warming a 0 { rng with ran2_idum := a, ran2_idum2 := a } where
  idum2 := rfl
  negatable := h
  dvd_iff := Iff.rfl
  small hlt := by
    constructor
    · exact Int.lt_trans (Int.neg_lt_of_neg_lt (by omega)) hpos
    · exact hlt
  idum _ hround := absurd hround (by decide)
  iv j hj := absurd hj (by omega)

/-- **Step lemma.** One round of the warm-up. -/
theorem Warming.warm {a : Int} {round : Nat} {rng : RandomNumberGenerator} (h : Warming a round rng)
    (hround : round < 40) :
    ∃ rng', RandomNumberGenerator.warm round rng = some rng' ∧ Warming a (round + 1) rng' := by
  obtain ⟨heq, hneg⟩ := advanceIdum_eq h.negatable
  have hdvd : IM1 ∣ idumStep rng.ran2_idum ↔ IM1 ∣ a :=
    (split_idum.dvd_step_iff _).trans h.dvd_iff
  have hsmall (hlt : a < warmBound 0) : -warmBound (round + 1) < idumStep rng.ran2_idum ∧
      idumStep rng.ran2_idum < warmBound (round + 1) := by
    have hbound := h.small hlt
    have hsucc := warmBound_succ round
    exact split_idum.step_contract (le_warmBound _) (by omega) (by omega)
  have hreduced (hlt : a < warmBound 0) (hle : 8 ≤ round) :
      Reduced IM1 (idumStep rng.ran2_idum) := by
    have hbound := h.small hlt
    have hlast : warmBound round = IM1 := by
      rw [warmBound, show 8 - round = 0 by omega]
      rfl
    rw [hlast] at hbound
    have hpos := split_idum.m_pos
    exact split_idum.step_range (by omega) (by omega)
  unfold RandomNumberGenerator.warm
  rw [heq]
  simp only [Option.bind_eq_bind, Option.bind_some, Option.pure_def]
  refine ⟨_, rfl, ?_⟩
  have hj : NTAB.toNat + 7 - round = 39 - round := rfl
  split
  · rename_i hlt
    refine ⟨h.idum2, hneg, hdvd, hsmall, fun ha _ => hreduced ha (by omega), ?_⟩
    intro j hle
    change (IM1 ∣ (rng.ran2_iv.set (⟨NTAB.toNat + 7 - round, hlt⟩ : Fin 32)
      (idumStep rng.ran2_idum)).get j ↔ IM1 ∣ a) ∧ (a < warmBound 0 → Reduced IM1
        ((rng.ran2_iv.set (⟨NTAB.toNat + 7 - round, hlt⟩ : Fin 32) (idumStep rng.ran2_idum)).get j))
    rw [Loop.get_set]
    split
    · exact ⟨hdvd, fun ha => hreduced ha (by omega)⟩
    · rename_i hne
      refine h.iv j ?_
      have hval : j.val ≠ 39 - round := fun hval => hne (Fin.ext hval)
      omega
  · refine ⟨h.idum2, hneg, hdvd, hsmall, fun ha hle => hreduced ha (by omega), ?_⟩
    intro j hle
    exact h.iv j (by omega)

/-- What the warm-up from `a` leaves. -/
structure Warmed (a : Int) (rng : RandomNumberGenerator) : Prop where
  idum2 : rng.ran2_idum2 = a
  dvd_iff : IM1 ∣ rng.ran2_idum ↔ IM1 ∣ a
  idum : a < warmBound 0 → Reduced IM1 rng.ran2_idum
  iv_dvd_iff : ∀ j, IM1 ∣ rng.ran2_iv.get j ↔ IM1 ∣ a
  iv : a < warmBound 0 → ∀ j, Reduced IM1 (rng.ran2_iv.get j)
  iy : rng.ran2_iy = rng.ran2_iv.get 0

theorem magnitude_pos (seed : BitVec 64) : 0 < magnitude seed := by
  unfold magnitude
  split
  · exact Int.one_pos
  · exact abs_pos.mpr (by assumption)

theorem startIdum_eq {seed : BitVec 64} (h : seed ≠ BitVec.intMin 64) :
    startIdum seed = some (magnitude seed) ∧ Negatable (magnitude seed) := by
  have hlo := BitVec.le_toInt seed
  have hhi := BitVec.toInt_lt (x := seed)
  have hne : seed.toInt ≠ -2 ^ 63 := fun hmin => h (BitVec.eq_of_toInt_eq hmin)
  have hneg : Negatable (magnitude seed) := by
    unfold Negatable magnitude
    split
    · decide
    · rcases abs_cases seed.toInt with habs | habs <;> omega
  refine ⟨?_, hneg⟩
  unfold startIdum magnitude at *
  by_cases h0 : seed.toInt = 0
  · simp only [if_pos h0]
    rfl
  · simp only [if_neg h0] at hneg ⊢
    by_cases hlt : seed.toInt < 0
    · rw [if_pos hlt]
      rw [abs_of_neg hlt] at hneg ⊢
      exact long_of_negatable hneg
    · rw [if_neg hlt, abs_of_nonneg (by omega)]

/-- The seeding succeeds for all seeds but one. -/
theorem ran2_rand_init_spec (rng : RandomNumberGenerator) {seed : BitVec 64}
    (h : seed ≠ BitVec.intMin 64) :
    ∃ rng₀, rng.ran2_rand_init seed = some rng₀ ∧ Warmed (magnitude seed) rng₀ := by
  obtain ⟨hstart, hneg⟩ := startIdum_eq h
  have hwarming := Warming.start rng (magnitude_pos seed) hneg
  obtain ⟨rng', hloop, hwarm⟩ := Loop.forRange_spec (show 0 ≤ 40 by decide)
    (fun _ _ _ hlt h => Warming.warm h hlt) hwarming
  refine ⟨{ rng' with ran2_iy := rng'.ran2_iv[0] }, ?_, ?_⟩
  · unfold ran2_rand_init
    simp only [Option.bind_eq_bind, hstart, Option.bind_some, hloop, Option.pure_def]
  · exact {
      idum2 := hwarm.idum2
      dvd_iff := hwarm.dvd_iff
      idum := fun ha => hwarm.idum ha (by decide)
      iv_dvd_iff := fun j => (hwarm.iv j (by omega)).1
      iv := fun ha j => (hwarm.iv j (by omega)).2 ha
      iy := rfl }

theorem ran2_rand_init_intMin (rng : RandomNumberGenerator) :
    rng.ran2_rand_init (BitVec.intMin 64) = none := by
  have hstart : startIdum (BitVec.intMin 64) = none := by decide
  rw [ran2_rand_init, hstart]
  rfl

/-! ## Drawing -/

/-- What a draw needs: the next `_ran2_idum2` is a residue, the other members are. -/
structure Drawable (rng : RandomNumberGenerator) : Prop where
  idum : Reduced IM1 rng.ran2_idum
  idum2_negatable : Negatable rng.ran2_idum2
  idum2 : Reduced IM2 (idum2Step rng.ran2_idum2)
  iy : Reduced IM1 rng.ran2_iy
  iv : ∀ j, Reduced IM1 (rng.ran2_iv.get j)

/-- None of them is zero. -/
structure Ready (rng : RandomNumberGenerator) : Prop where
  idum : Residue IM1 rng.ran2_idum
  idum2_negatable : Negatable rng.ran2_idum2
  idum2 : Residue IM2 (idum2Step rng.ran2_idum2)
  iy : Residue IM1 rng.ran2_iy
  iv : ∀ j, Residue IM1 (rng.ran2_iv.get j)

theorem Ready.drawable {rng : RandomNumberGenerator} (h : rng.Ready) : rng.Drawable where
  idum := h.idum.reduced
  idum2_negatable := h.idum2_negatable
  idum2 := h.idum2.reduced
  iy := h.iy.reduced
  iv j := (h.iv j).reduced

/-- The ranges of the members and of the index. -/
structure Ran2InRange (rng : RandomNumberGenerator) : Prop where
  idum : 1 ≤ rng.ran2_idum ∧ rng.ran2_idum ≤ IM1 - 1
  iy : 1 ≤ rng.ran2_iy ∧ rng.ran2_iy ≤ IMM1
  index : 0 ≤ rng.ran2_iy.tdiv NDIV ∧ rng.ran2_iy.tdiv NDIV < NTAB

theorem index_of_reduced {iy : Int} (h : Reduced IM1 iy) : 0 ≤ iy.tdiv NDIV ∧ iy.tdiv NDIV < NTAB := by
  obtain ⟨hlo, hhi⟩ := h
  have hndiv : NDIV = 67108862 := by decide
  have him1 : IM1 = 2147483563 := rfl
  have hntab : NTAB = 32 := rfl
  rw [Int.tdiv_eq_ediv_of_nonneg (by omega), hndiv, hntab]
  omega

theorem Ready.inRange {rng : RandomNumberGenerator} (h : rng.Ready) : rng.Ran2InRange where
  idum := h.idum
  iy := h.iy
  index := index_of_reduced h.iy.reduced

/-- One correction is enough, since the moduli are close to each other. -/
theorem nextIy_eq {entry idum2 : Int} (he : Reduced IM1 entry) (h2 : Reduced IM2 idum2) :
    ∃ iy, nextIy entry idum2 = some iy ∧ Residue IM1 iy := by
  unfold Reduced at he h2
  have him1 : IM1 = 2147483563 := rfl
  have him2 : IM2 = 2147483399 := rfl
  have himm1 : IMM1 = 2147483562 := rfl
  have hdiff : Negatable (entry - idum2) := by
    unfold Negatable
    omega
  unfold nextIy
  rw [long_of_negatable hdiff]
  simp only [Option.bind_eq_bind, Option.bind_some, Option.pure_def]
  by_cases hlt : entry - idum2 < 1
  · have hsum : Negatable (entry - idum2 + IMM1) := by
      unfold Negatable
      omega
    refine ⟨entry - idum2 + IMM1, ?_, ?_⟩
    · rw [if_pos hlt, long_of_negatable hsum]
    · unfold Residue
      omega
  · refine ⟨entry - idum2, if_neg hlt, ?_⟩
    unfold Residue
    omega

theorem iv_index_eq {iy : Int} (h : Reduced IM1 iy) : ∃ j, iv_index (toInt32 (iy.tdiv NDIV)) = some j := by
  obtain ⟨hlo, hhi⟩ := index_of_reduced h
  have hntab : NTAB = 32 := rfl
  have hint : toInt32 (iy.tdiv NDIV) = iy.tdiv NDIV :=
    Int.bmod_eq_of_le_mul_two (by omega) (by omega)
  rw [hint, iv_index, dif_pos (by omega)]
  exact ⟨_, rfl⟩

/-- The table `iv'` is `iv` with `x` in entry `j`. -/
def Replaced (j : Fin 32) (x : Int) (iv iv' : Vector Int 32) : Prop :=
  ∀ i, iv'.get i = if i = j then x else iv.get i

/-- A draw steps both recurrences and replaces the entry that it used. -/
theorem Drawable.ran2_rand_real_eq {rng : RandomNumberGenerator} (h : rng.Drawable) :
    ∃ (j : Fin 32) (iv : Vector Int 32) (iy : Int) (out : Float),
      Replaced j (idumStep rng.ran2_idum) rng.ran2_iv iv ∧ Residue IM1 iy ∧
      rng.ran2_rand_real = some ({ rng with
        ran2_idum := idumStep rng.ran2_idum
        ran2_idum2 := idum2Step rng.ran2_idum2
        ran2_iv := iv
        ran2_iy := iy }, out) := by
  obtain ⟨hidum, -⟩ := advanceIdum_eq (h.idum.negatable (by decide))
  obtain ⟨hidum2, -⟩ := advanceIdum2_eq h.idum2_negatable
  obtain ⟨j, hj⟩ := iv_index_eq h.iy
  obtain ⟨iy, hiy, hresidue⟩ := nextIy_eq (h.iv j) h.idum2
  unfold RandomNumberGenerator.ran2_rand_real
  rw [hidum, hidum2, hj]
  simp only [Option.bind_eq_bind, Option.bind_some, hiy, Option.pure_def]
  exact ⟨j, _, iy, _, fun i => Loop.get_set rng.ran2_iv i j _, hresidue, rfl⟩

theorem Replaced.forall {P : Int → Prop} {j : Fin 32} {x : Int} {iv iv' : Vector Int 32}
    (hiv : Replaced j x iv iv') (h : ∀ i, P (iv.get i)) (hx : P x) (i : Fin 32) :
    P (iv'.get i) := by
  rw [hiv i]
  split
  · exact hx
  · exact h i

/-- **Step lemma.** -/
theorem Drawable.ran2_rand_real {rng : RandomNumberGenerator} (h : rng.Drawable) :
    ∃ rng' out, rng.ran2_rand_real = some (rng', out) ∧ rng'.Drawable := by
  obtain ⟨j, iv, iy, out, hiv, hiy, hdraw⟩ := h.ran2_rand_real_eq
  have hnew : Reduced IM1 (idumStep rng.ran2_idum) := h.idum.step split_idum
  exact ⟨_, out, hdraw, {
    idum := hnew
    idum2_negatable := (advanceIdum2_eq h.idum2_negatable).2
    idum2 := h.idum2.step split_idum2
    iy := hiy.reduced
    iv := hiv.forall h.iv hnew }⟩

/-- The same for residues other than zero. -/
theorem Ready.ran2_rand_real {rng : RandomNumberGenerator} (h : rng.Ready) :
    ∃ rng' out, rng.ran2_rand_real = some (rng', out) ∧ rng'.Ready ∧ Residue IM2 rng'.ran2_idum2 := by
  obtain ⟨j, iv, iy, out, hiv, hiy, hdraw⟩ := h.drawable.ran2_rand_real_eq
  have hnew : Residue IM1 (idumStep rng.ran2_idum) := residue_step split_idum h.idum
  refine ⟨_, out, hdraw, ?_, h.idum2⟩
  exact {
    idum := hnew
    idum2_negatable := (advanceIdum2_eq h.idum2_negatable).2
    idum2 := residue_step split_idum2 h.idum2
    iy := hiy
    iv := hiv.forall h.iv hnew }

/-- The state after `n` calls of `ran2_rand_real`. -/
def ran2_draws : (n : Nat) → RandomNumberGenerator → Option RandomNumberGenerator
  | 0, rng => some rng
  | n + 1, rng => rng.ran2_rand_real.bind fun result => ran2_draws n result.1

/-- **Run lemma.** -/
theorem Ready.ran2_draws (n : Nat) {rng : RandomNumberGenerator} (h : rng.Ready) :
    ∃ rng', ran2_draws n rng = some rng' ∧ rng'.Ready ∧ (0 < n → Residue IM2 rng'.ran2_idum2) := by
  induction n generalizing rng with
  | zero => exact ⟨rng, rfl, h, fun h0 => absurd h0 (by decide)⟩
  | succ n ih =>
    obtain ⟨rng₁, out, hdraw, hready, hidum2⟩ := h.ran2_rand_real
    obtain ⟨rng', hdraws, hready', hidum2'⟩ := ih hready
    refine ⟨rng', ?_, hready', ?_⟩
    · rw [RandomNumberGenerator.ran2_draws, hdraw, Option.bind_some, hdraws]
    · intro _
      cases n with
      | zero =>
        cases hdraws
        exact hidum2
      | succ n => exact hidum2' (by omega)

/-! ## The seeds that keep the ranges -/

/-- The seeds from which every member stays in its range. The warm-up does not advance
`_ran2_idum2`, so that the first step of it has to come into the range with one correction: it does
for every magnitude below `2 ^ 34`, and for none from `2 ^ 36` on. -/
structure Ran2Seed (seed : BitVec 64) : Prop where
  negated : seed ≠ BitVec.intMin 64
  idum : ¬ IM1 ∣ magnitude seed
  idum2 : ¬ IM2 ∣ magnitude seed
  first : magnitude seed / IQ2 * IR2 < IA2 * (magnitude seed % IQ2) + IM2

example : Ran2Seed 1 := ⟨by decide, by decide, by decide, by decide⟩

section Seeds

variable {a : Int}

theorem idum2Step_eq (ha : 0 < a) :
    idum2Step a = if IA2 * (a % IQ2) - a / IQ2 * IR2 < 0 then IA2 * (a % IQ2) - a / IQ2 * IR2 + IM2
      else IA2 * (a % IQ2) - a / IQ2 * IR2 := by
  rw [idum2Step, Schrage.step, Schrage.reduced, Int.tmod_eq_emod_of_nonneg ha.le,
    Int.tdiv_eq_ediv_of_nonneg ha.le]

/-- The first step of `_ran2_idum2`. -/
theorem residue_idum2Step_iff (ha : 0 < a) : Residue IM2 (idum2Step a) ↔
    ¬ IM2 ∣ a ∧ a / IQ2 * IR2 < IA2 * (a % IQ2) + IM2 := by
  have hdvd : IM2 ∣ idum2Step a ↔ IM2 ∣ a := split_idum2.dvd_step_iff a
  have hpos := split_idum2.m_pos
  constructor
  · intro h
    refine ⟨fun hd => Schrage.not_dvd_of_residue h.1 h.2 (hdvd.mpr hd), ?_⟩
    rw [idum2Step_eq ha] at h
    unfold Residue at h
    split at h <;> omega
  · rintro ⟨hndvd, hfirst⟩
    have hne : idum2Step a ≠ 0 := by
      intro h0
      exact hndvd (hdvd.mp (h0 ▸ dvd_zero IM2))
    have hlt := (split_idum2.reduced_of_nonneg ha.le).2
    rw [Schrage.reduced, Int.tmod_eq_emod_of_nonneg ha.le, Int.tdiv_eq_ediv_of_nonneg ha.le] at hlt
    rw [idum2Step_eq ha] at hne ⊢
    unfold Residue
    split at hne <;> split <;> omega

/-- The first step of `_ran2_idum2` does not leave it below zero. -/
theorem reduced_idum2Step_iff (ha : 0 < a) : Reduced IM2 (idum2Step a) ↔
    a / IQ2 * IR2 ≤ IA2 * (a % IQ2) + IM2 := by
  have hpos := split_idum2.m_pos
  have hlt := (split_idum2.reduced_of_nonneg ha.le).2
  rw [Schrage.reduced, Int.tmod_eq_emod_of_nonneg ha.le, Int.tdiv_eq_ediv_of_nonneg ha.le] at hlt
  rw [idum2Step_eq ha]
  unfold Reduced
  split <;> omega

/-- Such a seed is small enough for the warm-up. -/
theorem lt_warmBound (h : a / IQ2 * IR2 ≤ IA2 * (a % IQ2) + IM2) : a < warmBound 0 := by
  have hiq2 : IQ2 = 52774 := rfl
  have hia2 : IA2 = 40692 := rfl
  have hir2 : IR2 = 3791 := rfl
  have him2 : IM2 = 2147483399 := rfl
  have hbound : warmBound 0 = 140737482784768 := by decide
  rw [hiq2, hia2, hir2, him2] at h
  rw [hbound]
  omega

end Seeds

theorem Warmed.ready {seed : BitVec 64} {rng : RandomNumberGenerator}
    (h : Warmed (magnitude seed) rng) (hseed : Ran2Seed seed) : rng.Ready := by
  have hpos := magnitude_pos seed
  have hsmall := lt_warmBound hseed.first.le
  have hiv (j : Fin 32) : Residue IM1 (rng.ran2_iv.get j) :=
    (h.iv hsmall j).residue fun hd => hseed.idum ((h.iv_dvd_iff j).mp hd)
  exact {
    idum := (h.idum hsmall).residue fun hd => hseed.idum (h.dvd_iff.mp hd)
    idum2_negatable := by
      rw [h.idum2]
      exact (startIdum_eq hseed.negated).2
    idum2 := by
      rw [h.idum2, residue_idum2Step_iff hpos]
      exact ⟨hseed.idum2, hseed.first⟩
    iy := by
      rw [h.iy]
      exact hiv 0
    iv := hiv }

/-- The seeds from which the first step does not leave `_ran2_idum2` below zero. Every magnitude below
`2 ^ 34` is one of them, and none from `2 ^ 36` on. -/
structure FirstStep (seed : BitVec 64) : Prop where
  negated : seed ≠ BitVec.intMin 64
  first : magnitude seed / IQ2 * IR2 ≤ IA2 * (magnitude seed % IQ2) + IM2

example : FirstStep 2147483563 := ⟨by decide, by decide⟩

theorem Warmed.drawable {seed : BitVec 64} {rng : RandomNumberGenerator}
    (h : Warmed (magnitude seed) rng) (hseed : FirstStep seed) : rng.Drawable := by
  have hsmall := lt_warmBound hseed.first
  exact {
    idum := h.idum hsmall
    idum2_negatable := by
      rw [h.idum2]
      exact (startIdum_eq hseed.negated).2
    idum2 := by
      rw [h.idum2]
      exact (reduced_idum2Step_iff (magnitude_pos seed)).mpr hseed.first
    iy := by
      rw [h.iy]
      exact h.iv hsmall 0
    iv := h.iv hsmall }

/-- `ran2_rand_init(seed)` and any number of draws succeed, with every member in its range. -/
def StaysInRange (rng : RandomNumberGenerator) (seed : BitVec 64) : Prop :=
  ∃ rng₀, rng.ran2_rand_init seed = some rng₀ ∧ ∀ n, ∃ rng', ran2_draws n rng₀ = some rng' ∧
    rng'.Ran2InRange ∧ (0 < n → 1 ≤ rng'.ran2_idum2 ∧ rng'.ran2_idum2 ≤ IM2 - 1)

theorem StaysInRange.of_seed (rng : RandomNumberGenerator) {seed : BitVec 64} (h : Ran2Seed seed) :
    rng.StaysInRange seed := by
  obtain ⟨rng₀, hinit, hwarm⟩ := ran2_rand_init_spec rng h.negated
  refine ⟨rng₀, hinit, ?_⟩
  intro n
  obtain ⟨rng', hdraws, hready, hidum2⟩ := (hwarm.ready h).ran2_draws n
  exact ⟨rng', hdraws, hready.inRange, hidum2⟩

/-- A draw that succeeds leaves the next value in `_ran2_idum2`. -/
theorem ran2_rand_real_idum2 {rng rng' : RandomNumberGenerator} {out : Float}
    (hneg : Negatable rng.ran2_idum2) (h : rng.ran2_rand_real = some (rng', out)) :
    rng'.ran2_idum2 = idum2Step rng.ran2_idum2 := by
  unfold ran2_rand_real at h
  rw [(advanceIdum2_eq hneg).1] at h
  simp only [Option.bind_eq_bind, Option.bind_some, Option.bind_eq_some_iff] at h
  obtain ⟨idum, -, j, -, iy, -, hresult⟩ := h
  cases hresult
  rfl

theorem StaysInRange.seed {rng : RandomNumberGenerator} {seed : BitVec 64}
    (h : rng.StaysInRange seed) : Ran2Seed seed := by
  obtain ⟨rng₀, hinit, hdraws⟩ := h
  have hne : seed ≠ BitVec.intMin 64 := by
    intro hmin
    rw [hmin, ran2_rand_init_intMin] at hinit
    cases hinit
  obtain ⟨rng₀', hinit', hwarm⟩ := ran2_rand_init_spec rng hne
  obtain rfl : rng₀' = rng₀ := Option.some.inj (hinit'.symm.trans hinit)
  obtain ⟨rng', hzero, hrange, -⟩ := hdraws 0
  cases hzero
  obtain ⟨rng₁, hone, -, hidum2⟩ := hdraws 1
  obtain ⟨⟨rng₁', out⟩, hdraw, hrest⟩ := Option.bind_eq_some_iff.mp hone
  cases hrest
  have hfirst : Residue IM2 (idum2Step (magnitude seed)) := by
    rw [← hwarm.idum2, ← ran2_rand_real_idum2 _ hdraw]
    · exact hidum2 (by decide)
    · rw [hwarm.idum2]
      exact (startIdum_eq hne).2
  obtain ⟨hndvd2, hlt⟩ := (residue_idum2Step_iff (magnitude_pos seed)).mp hfirst
  have hndvd1 := Schrage.not_dvd_of_residue hrange.idum.1 hrange.idum.2
  exact ⟨hne, fun hd => hndvd1 (hwarm.dvd_iff.mpr hd), hndvd2, hlt⟩

/-- The state of `ran2` stays in its ranges, and the index in the table, in all runs from exactly
these seeds. -/
theorem ran2_in_range_iff (rng : RandomNumberGenerator) (seed : BitVec 64) :
    rng.StaysInRange seed ↔ Ran2Seed seed :=
  ⟨StaysInRange.seed, StaysInRange.of_seed rng⟩

/-- A generator whose memory is zero. -/
def blank : RandomNumberGenerator where
  mt_state := Vector.replicate 624 0
  mt_left := 1
  mt_initf := 0
  mt_next := 0
  ran2_idum2 := 123456789
  ran2_iy := 0
  ran2_iv := Vector.replicate 32 0
  ran2_idum := 0

/-- A number of nanoseconds since 1970 is too large: the first draw takes `_ran2_idum2` below zero. -/
theorem ran2_clock_seed : ¬ blank.StaysInRange 1500000000000000000 := by
  have hfirst : ((blank.ran2_rand_init 1500000000000000000).bind (ran2_draws 1)).map
      (fun rng => decide (1 ≤ rng.ran2_idum2)) = some false := by
    decide +kernel
  rintro ⟨rng₀, hinit, hdraws⟩
  obtain ⟨rng', hone, -, hidum2⟩ := hdraws 1
  rw [hinit, Option.bind_some, hone, Option.map_some, decide_eq_true (hidum2 (by decide)).1] at hfirst
  cases hfirst

end RandomNumberGenerator

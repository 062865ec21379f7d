import ItexDemo.Lib.Loop
import ItexDemo.Lib.WordRing
import ItexDemo.Lib.TransitionSystem
import ItexDemo.AuxLib.Random

/-!
# The states of the xorshift generators

Both steps are injective, so that zero, which they keep, is reached from nothing else. The state of
`Xorshift1024star` is a ring of words that is read from `s[p]` on.
-/

open WordRing

/-! ## `Xorshift64star` -/

namespace Xorshift64star

theorem x_generate (rng : Xorshift64star) :
    rng.generate.1.x = xorRight 27 (xorLeft 25 (xorRight 12 rng.x)) := rfl

theorem generate_injective : Function.Injective fun rng : Xorshift64star => rng.generate.1 := by
  intro rng rng' h
  have hx := congrArg x h
  dsimp only at hx
  rw [x_generate, x_generate] at hx
  have h25 := xorRight_injective (by decide) hx
  have h12 := xorLeft_injective (by decide) h25
  exact Xorshift64star.ext (xorRight_injective (by decide) h12)

theorem generate_ne_zero {rng : Xorshift64star} (h : rng.x ≠ 0) : rng.generate.1.x ≠ 0 := by
  intro h0
  have hzero : (generate { x := 0 }).1.x = 0 := by decide
  have heq := generate_injective (Xorshift64star.ext (h0.trans hzero.symm))
  exact h (congrArg x heq)

/-- The state after `n` calls of `generate`. -/
def calls (n : Nat) : Xorshift64star → Xorshift64star := (fun rng => rng.generate.1)^[n]

theorem calls_ne_zero {rng : Xorshift64star} (h : rng.x ≠ 0) (n : Nat) : (calls n rng).x ≠ 0 := by
  induction n with
  | zero => exact h
  | succ n ih =>
    rw [calls, Function.iterate_succ_apply']
    exact generate_ne_zero ih

end Xorshift64star

/-! ## `Xorshift1024star` -/

namespace Xorshift1024star

/-- `p` is an index of `s`. -/
def InRange (rng : Xorshift1024star) : Prop := 0 ≤ rng.p ∧ rng.p < 16

/-- The index that `p` is, when it is one. -/
def position (rng : Xorshift1024star) : Fin 16 := Fin.ofNat 16 rng.p.toNat

/-- The words from `s[p]` on, once around. -/
def ring (rng : Xorshift1024star) (i : Fin 16) : BitVec 64 := rng.s.get (rng.position + i)

/-- The word that `generate` stores. -/
def mix (s0 s1 : BitVec 64) : BitVec 64 := xorRight 30 s0 ^^^ xorRight 11 (xorLeft 31 s1)

theorem mix_injective (s0 : BitVec 64) : Function.Injective (mix s0) := by
  intro s1 s1' h
  have h11 : xorRight 11 (xorLeft 31 s1) = xorRight 11 (xorLeft 31 s1') := by
    have := congrArg (xorRight 30 s0 ^^^ ·) h
    simpa [mix, ← BitVec.xor_assoc] using this
  exact xorLeft_injective (by decide) (xorRight_injective (by decide) h11)

section Place

variable {rng : Xorshift1024star}

theorem place_p (h : rng.InRange) : place rng.p = some rng.position := by
  obtain ⟨hlo, hhi⟩ := h
  rw [place, dif_pos ⟨hlo, hhi⟩, position]
  congr 1
  apply Fin.ext
  rw [Fin.val_ofNat, Nat.mod_eq_of_lt (by omega)]

theorem land_eq (h : rng.InRange) : Int.land (rng.p + 1) 15 = (rng.p + 1) % 16 := by
  obtain ⟨n, hn⟩ := Int.eq_ofNat_of_zero_le h.1
  rw [hn]
  exact congrArg Int.ofNat (Nat.and_two_pow_sub_one_eq_mod (n + 1) 4)

theorem place_next (h : rng.InRange) : place ((rng.p + 1) % 16) = some (rng.position + 1) := by
  obtain ⟨hlo, hhi⟩ := h
  rw [place, dif_pos (by omega), position]
  congr 1
  apply Fin.ext
  rw [Fin.val_add, Fin.val_ofNat, Fin.val_one]
  dsimp only
  omega

/-- The position and the words around the ring are the whole state. -/
theorem eq_of_ring {rng' : Xorshift1024star} (hp : rng.p = rng'.p) (h : rng.ring = rng'.ring) :
    rng = rng' := by
  have hpos : rng.position = rng'.position := by rw [position, position, hp]
  apply Xorshift1024star.ext _ hp
  apply Vector.ext
  intro i hi
  have hword := congrFun h (⟨i, hi⟩ - rng.position)
  unfold ring at hword
  rw [← hpos, add_sub_cancel] at hword
  exact hword

end Place

/-- **Step lemma.** -/
theorem generate_spec {rng : Xorshift1024star} (h : rng.InRange) :
    ∃ rng', rng.generate = some (rng', rng'.ring 0 * 1181783497276652981) ∧ rng'.InRange ∧
      rng'.p = (rng.p + 1) % 16 ∧ rng'.ring = next mix rng.ring := by
  have hin : 0 ≤ (rng.p + 1) % 16 ∧ (rng.p + 1) % 16 < 16 := by omega
  let word := mix (rng.s.get rng.position) (rng.s.get (rng.position + 1))
  let rng' : Xorshift1024star :=
    { s := rng.s.set (rng.position + 1 : Fin 16) word, p := (rng.p + 1) % 16 }
  have hpos : rng'.position = rng.position + 1 := by
    have hplace : place rng'.p = some rng'.position := place_p hin
    rw [place_next h] at hplace
    exact (Option.some.inj hplace).symm
  have hring : rng'.ring = next mix rng.ring := by
    funext i
    rw [ring, hpos, Loop.get_set]
    by_cases hi : i = 0
    · rw [hi, next_zero, add_zero, if_pos rfl, ring, ring, add_zero]
    · rw [next_of_ne hi, if_neg (by simpa using hi), ring, add_assoc, add_comm 1 i]
  have hword : rng'.ring 0 = word := by rw [hring, next_zero, ring, ring, add_zero]
  refine ⟨rng', ?_, hin, rfl, hring⟩
  rw [generate, place_p h, land_eq h, hword]
  simp only [Option.bind_eq_bind, Option.bind_some, place_next h]
  rfl

theorem next_mix_injective : Function.Injective (next (n := 16) mix) :=
  next_injective mix_injective (by decide)

/-- The state after `n` calls of `generate`. -/
def calls : (n : Nat) → Xorshift1024star → Option Xorshift1024star
  | 0, rng => some rng
  | n + 1, rng => rng.generate.bind fun result => calls n result.1

/-- A word of `s` is not zero. -/
def Live (rng : Xorshift1024star) : Prop := ∃ i, rng.s.get i ≠ 0

section Steps

variable {rng rng' : Xorshift1024star}

theorem live_iff_ring : rng.Live ↔ rng.ring ≠ 0 := by
  constructor
  · rintro ⟨i, hi⟩ h0
    have hword := congrFun h0 (i - rng.position)
    rw [ring, add_sub_cancel] at hword
    exact hi hword
  · intro hring
    obtain ⟨i, hi⟩ := Function.ne_iff.mp hring
    exact ⟨rng.position + i, hi⟩

theorem generate_injOn (h : rng.InRange) (h' : rng'.InRange)
    (heq : rng.generate.map Prod.fst = rng'.generate.map Prod.fst) : rng = rng' := by
  obtain ⟨next₁, hgen, -, hp, hring⟩ := generate_spec h
  obtain ⟨next₂, hgen', -, hp', hring'⟩ := generate_spec h'
  rw [hgen, hgen', Option.map_some, Option.map_some] at heq
  obtain rfl : next₁ = next₂ := Option.some.inj heq
  have hmod : (rng.p + 1) % 16 = (rng'.p + 1) % 16 := hp.symm.trans hp'
  have hsame : rng.p = rng'.p := by
    obtain ⟨hlo, hhi⟩ := h
    obtain ⟨hlo', hhi'⟩ := h'
    omega
  exact eq_of_ring hsame (next_mix_injective (hring.symm.trans hring'))

theorem generate_live (h : rng.InRange) (hlive : rng.Live) :
    ∃ rng', rng.generate.map Prod.fst = some rng' ∧ rng'.Live ∧ rng'.InRange := by
  obtain ⟨rng', hgen, hin, -, hring⟩ := generate_spec h
  refine ⟨rng', by rw [hgen, Option.map_some], ?_, hin⟩
  rw [live_iff_ring] at hlive ⊢
  rw [hring]
  exact next_ne_zero mix_injective (by decide) (by decide) hlive

/-- **Run lemma.** -/
theorem calls_live (n : Nat) (h : rng.InRange) (hlive : rng.Live) :
    ∃ rng', calls n rng = some rng' ∧ rng'.Live ∧ rng'.InRange := by
  induction n generalizing rng with
  | zero => exact ⟨rng, rfl, hlive, h⟩
  | succ n ih =>
    obtain ⟨next₁, hgen, hlive₁, hin₁⟩ := generate_live h hlive
    obtain ⟨rng', hcalls, hrest⟩ := ih hin₁ hlive₁
    obtain ⟨result, hresult, rfl⟩ := Option.map_eq_some_iff.mp hgen
    refine ⟨rng', ?_, hrest⟩
    rw [calls, hresult, Option.bind_some, hcalls]

end Steps

end Xorshift1024star

/-- The states of both generators stay away from zero in every run, and no two states have the same
successor. -/
theorem Xorshift.never_collapses :
    (∀ rng : Xorshift64star, rng.x ≠ 0 → ∀ n, (rng.calls n).x ≠ 0) ∧
    (Function.Injective fun rng : Xorshift64star => rng.generate.1) ∧
    (∀ rng : Xorshift1024star, rng.Live → rng.InRange → ∀ n,
      ∃ rng', rng.calls n = some rng' ∧ rng'.Live ∧ rng'.InRange) ∧
    (∀ rng rng' : Xorshift1024star, rng.InRange → rng'.InRange →
      rng.generate.map Prod.fst = rng'.generate.map Prod.fst → rng = rng') := by
  refine ⟨?_, Xorshift64star.generate_injective, ?_, ?_⟩
  · intro rng h n
    exact Xorshift64star.calls_ne_zero h n
  · intro rng hlive h n
    exact Xorshift1024star.calls_live n h hlive
  · intro rng rng' h h' heq
    exact Xorshift1024star.generate_injOn h h' heq

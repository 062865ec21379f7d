import ItexDemo.AuxLib.Proofs.Ran2Proofs
import ItexDemo.AuxLib.Proofs.RandomProofs

/-!
# Seeding

What a draw reads has to be overwritten by the seeding function, or the stream depends on what the
object did before. The members that a draw reads agree after the seeding of any two objects, except
for the position of `Xorshift1024star`, from which the seed words are then read. A draw of `ran2` that
reads outside of its table has no result at all.
-/

open Transition WordRing

/-! ## Two draws -/

section SameDraw

variable {σ α β : Type} {R : σ → σ → Prop}

/-- Two draws fail together, or they give the same result in states that `R` relates. -/
def SameDraw (R : σ → σ → Prop) (x y : Option (σ × α)) : Prop :=
  Option.Rel (fun x y => R x.1 y.1 ∧ x.2 = y.2) x y

theorem SameDraw.map {x y : Option (σ × α)} (h : SameDraw R x y) (f : α → β) :
    SameDraw R (x.map fun r => (r.1, f r.2)) (y.map fun r => (r.1, f r.2)) :=
  Partial.rel_map h fun _ _ hxy => ⟨hxy.1, congrArg f hxy.2⟩

theorem SameDraw.bind {x y : Option (σ × α)} {f g : σ × α → Option (σ × β)} (h : SameDraw R x y)
    (hfg : ∀ s t a, R s t → SameDraw R (f (s, a)) (g (t, a))) :
    SameDraw R (x.bind f) (y.bind g) := by
  refine Partial.rel_bind h ?_
  rintro ⟨s, a⟩ ⟨t, b⟩ ⟨hst, hab⟩
  obtain rfl : a = b := hab
  exact hfg s t a hst

end SameDraw

/-! ## `Xorshift1024star` -/

namespace Xorshift1024star

/-- A call on an object. -/
inductive Call where
  | seed (seed : Vector (BitVec 64) 16)
  | generate

/-- The lives of an object, from its construction on. -/
def history : System Xorshift1024star Call where
  Init rng := ∃ count seed_rng, rng = new count seed_rng
  Tr
    | rng, .seed words, rng' => rng' = rng.seed words
    | rng, .generate, rng' => rng.generate.map Prod.fst = some rng'

theorem reachable_seed {rng : Xorshift1024star} (h : Reachable history rng)
    (words : Vector (BitVec 64) 16) : Reachable history (rng.seed words) := by
  have htr : history.Tr rng (.seed words) (rng.seed words) := rfl
  exact h.step htr

theorem reachable_generate {rng rng' : Xorshift1024star} (h : Reachable history rng)
    (heq : rng.generate.map Prod.fst = some rng') : Reachable history rng' := by
  have htr : history.Tr rng .generate rng' := heq
  exact h.step htr

theorem inRange_of_reachable {rng : Xorshift1024star} (h : Reachable history rng) : rng.InRange := by
  refine h.invariant ?_ ?_
  · rintro _ ⟨count, seed_rng, rfl⟩
    exact ⟨Int.le_refl 0, Int.lt_of_sub_pos (by decide : (0 : Int) < 16 - 0)⟩
  · intro rng call rng' hin htr
    cases call with
    | seed words =>
      have heq : rng' = rng.seed words := htr
      rw [heq]
      exact hin
    | generate =>
      obtain ⟨next₁, hgen, hin₁, -⟩ := generate_spec hin
      have heq : rng.generate.map Prod.fst = some rng' := htr
      rw [hgen] at heq
      cases heq
      exact hin₁

/-- A draw. -/
def draw (rng : Xorshift1024star) (_ : Unit) : Option (Xorshift1024star × BitVec 64) := rng.generate

/-- Two objects that hold the same words from their positions on. -/
def Agree (rng rng' : Xorshift1024star) : Prop :=
  rng.InRange ∧ rng'.InRange ∧ rng.ring = rng'.ring

theorem Agree.draw {rng rng' : Xorshift1024star} (h : Agree rng rng') (a : Unit) :
    SameDraw Agree (rng.draw a) (rng'.draw a) := by
  obtain ⟨hin, hin', hring⟩ := h
  obtain ⟨next₁, hgen, hin₁, -, hring₁⟩ := generate_spec hin
  obtain ⟨next₂, hgen', hin₂, -, hring₂⟩ := generate_spec hin'
  have hrings : next₁.ring = next₂.ring := by rw [hring₁, hring₂, hring]
  unfold Xorshift1024star.draw
  rw [hgen, hgen']
  exact .some ⟨⟨hin₁, hin₂, hrings⟩, by rw [hrings]⟩

theorem draws_succeed {rng : Xorshift1024star} (h : rng.InRange) (draws : List Unit) :
    ∃ out, outputs draw rng draws = some out := by
  refine outputs_succeed (I := InRange) ?_ h draws
  intro rng _ hin
  obtain ⟨rng', hgen, hin', -⟩ := generate_spec hin
  exact ⟨rng', _, hgen, hin'⟩

/-- The factor of the output has an inverse. -/
theorem output_injective : Function.Injective fun x : BitVec 64 => x * 1181783497276652981 :=
  mul_injective (d := 13515856136758413469) (by decide)

/-- The outputs of `n` draws, in terms of the ring. -/
theorem outputs_draw {rng : Xorshift1024star} (h : rng.InRange) (n : Nat) :
    outputs draw rng (List.replicate n ()) = some ((List.range n).map fun k =>
      (next mix)^[k + 1] rng.ring 0 * 1181783497276652981) := by
  induction n generalizing rng with
  | zero => rfl
  | succ n ih =>
    obtain ⟨rng₁, hgen, hin, -, hring⟩ := generate_spec h
    have hrest := ih hin
    unfold outputs at hrest ⊢
    obtain ⟨⟨rng', bs⟩, hrun, hbs⟩ := Option.map_eq_some_iff.mp hrest
    have hdraw : rng.draw () = some (rng₁, rng₁.ring 0 * 1181783497276652981) := hgen
    dsimp only at hbs
    rw [List.replicate_succ, runOut, hdraw, Option.bind_some]
    dsimp only
    rw [hrun, Option.map_some, Option.map_some, List.range_succ_eq_map, List.map_cons, List.map_map,
      hbs]
    simp only [Function.comp_def, Function.iterate_succ_apply, Function.iterate_zero_apply, hring]

/-- Equal streams come from equal words, read from the positions on. -/
theorem ring_eq_of_outputs {rng rng' : Xorshift1024star} (h : rng.InRange) (h' : rng'.InRange)
    (hout : ∀ draws, outputs draw rng draws = outputs draw rng' draws) : rng.ring = rng'.ring := by
  apply eq_of_words mix_injective (by decide)
  intro k
  have hk := hout (List.replicate (k + 1) ())
  rw [outputs_draw h, outputs_draw h'] at hk
  have hword := congrArg (fun bs => bs[k]?) (Option.some.inj hk)
  simp only [List.getElem?_map, List.getElem?_range (Nat.lt_succ_self k), Option.map_some,
    Option.some.injEq] at hword
  exact output_injective hword

theorem ring_seed (rng : Xorshift1024star) (words : Vector (BitVec 64) 16) (i : Fin 16) :
    (rng.seed words).ring i = words.get (rng.position + i) := rfl

end Xorshift1024star

/-! ## The Mersenne twister -/

namespace RandomNumberGenerator

/-- The functions that draw from the Mersenne twister. -/
inductive UniDraw where
  | int32
  | int31
  | real1
  | real2
  | real3
  | res53

/-- The result of a draw. -/
inductive Drawn where
  | unsigned (y : BitVec 64)
  | signed (y : Int)
  | real (y : Float)

/-- A draw from the Mersenne twister. -/
def uniDraw (rng : RandomNumberGenerator) : UniDraw → Option (RandomNumberGenerator × Drawn)
  | .int32 => rng.uni_rand_int32.map fun r => (r.1, .unsigned r.2)
  | .int31 => rng.uni_rand_int31.map fun r => (r.1, .signed r.2)
  | .real1 => rng.uni_rand_real1.map fun r => (r.1, .real r.2)
  | .real2 => rng.uni_rand_real2.map fun r => (r.1, .real r.2)
  | .real3 => rng.uni_rand_real3.map fun r => (r.1, .real r.2)
  | .res53 => rng.uni_rand_real_res53.map fun r => (r.1, .real r.2)

/-- The states agree in what a draw from the Mersenne twister reads. `_mt_next` is dead while a draw
would set it. -/
structure MtAgree (rng rng' : RandomNumberGenerator) : Prop where
  state : rng.mt_state = rng'.mt_state
  left : rng.mt_left = rng'.mt_left
  initf : rng.mt_initf = rng'.mt_initf
  next : rng.mt_left = 1 ∨ rng.mt_next = rng'.mt_next

section Agreement

variable {rng rng' : RandomNumberGenerator}

theorem MtAgree.mt_next_state (hstate : rng.mt_state = rng'.mt_state)
    (hinitf : rng.mt_initf = rng'.mt_initf) : MtAgree rng.mt_next_state rng'.mt_next_state := by
  have hstates : rng.mt_next_state.mt_state = rng'.mt_next_state.mt_state := by
    unfold RandomNumberGenerator.mt_next_state
    rw [hinitf]
    by_cases h : rng'.mt_initf = 0
    · simp only [if_pos h, uni_rand_init, hstate]
    · simp only [if_neg h, hstate]
  have hinitfs : rng.mt_next_state.mt_initf = rng'.mt_next_state.mt_initf := by
    unfold RandomNumberGenerator.mt_next_state
    rw [hinitf]
    by_cases h : rng'.mt_initf = 0
    · simp only [if_pos h, uni_rand_init]
    · simp only [if_neg h, hinitf]
  exact ⟨hstates, rfl, hinitfs, Or.inr rfl⟩

/-- `y = *_mt_next++`. -/
theorem MtAgree.load (h : MtAgree rng rng') (hnext : rng.mt_next = rng'.mt_next) :
    SameDraw MtAgree (rng.mt_state[rng.mt_next]?.map fun y => ({ rng with mt_next := rng.mt_next + 1 }, y))
      (rng'.mt_state[rng'.mt_next]?.map fun y => ({ rng' with mt_next := rng'.mt_next + 1 }, y)) := by
  rw [h.state, hnext]
  cases rng'.mt_state[rng'.mt_next]? with
  | none => exact .none
  | some y => exact .some ⟨⟨rfl, h.left, h.initf, Or.inr rfl⟩, rfl⟩

/-- **Step lemma.** -/
theorem MtAgree.nextWord (h : MtAgree rng rng') : SameDraw MtAgree rng.nextWord rng'.nextWord := by
  unfold RandomNumberGenerator.nextWord
  dsimp only
  rw [← h.left]
  by_cases hleft : rng.mt_left - 1 = 0
  · rw [if_pos hleft, if_pos hleft]
    exact (MtAgree.mt_next_state (by exact h.state) (by exact h.initf)).load rfl
  · have hnext : rng.mt_next = rng'.mt_next := by
      rcases h.next with hone | hnext
      · omega
      · exact hnext
    rw [if_neg hleft, if_neg hleft]
    exact MtAgree.load ⟨h.state, rfl, h.initf, Or.inr hnext⟩ hnext

theorem MtAgree.drawWith {α : Type} (h : MtAgree rng rng') (result : BitVec 64 → α) :
    SameDraw MtAgree (rng.drawWith result) (rng'.drawWith result) :=
  h.nextWord.map fun y => result (temper y)

theorem MtAgree.uniDraw (h : MtAgree rng rng') (a : UniDraw) :
    SameDraw MtAgree (rng.uniDraw a) (rng'.uniDraw a) := by
  cases a with
  | int32 => exact (h.drawWith _).map Drawn.unsigned
  | int31 => exact (h.drawWith _).map Drawn.signed
  | real1 => exact (h.drawWith _).map Drawn.real
  | real2 => exact (h.drawWith _).map Drawn.real
  | real3 => exact (h.drawWith _).map Drawn.real
  | res53 =>
    refine SameDraw.map ?_ Drawn.real
    refine (h.drawWith id).bind fun rng₁ rng₁' a h₁ => ?_
    refine (h₁.drawWith id).bind fun rng₂ rng₂' b h₂ => ?_
    exact .some ⟨h₂, rfl⟩

/-- The words up to number `i` are the same. -/
def SameUpTo (i : Nat) (mt_state mt_state' : Vector (BitVec 64) 624) : Prop :=
  ∀ k (_ : k < 624), k ≤ i → mt_state[k] = mt_state'[k]

/-- `uni_rand_init` overwrites the words one after the other. -/
theorem MtAgree.uni_rand_init (rng rng' : RandomNumberGenerator) (seed : BitVec 64) :
    MtAgree (rng.uni_rand_init seed) (rng'.uni_rand_init seed) := by
  have hfold : SameUpTo 623 (rng.uni_rand_init seed).mt_state (rng'.uni_rand_init seed).mt_state := by
    refine Loop.fold_rel (R := SameUpTo) ?_ ?_
    · intro i hi st st' hagree k hk hle
      rw [Vector.getElem_set, Vector.getElem_set, hagree i (by omega) (Nat.le_refl i)]
      split
      · rfl
      · exact hagree k hk (by omega)
    · intro k hk hle
      obtain rfl : k = 0 := by omega
      rw [Vector.getElem_set_self, Vector.getElem_set_self]
  refine ⟨?_, rfl, rfl, Or.inl rfl⟩
  apply Vector.ext
  intro k hk
  exact hfold k hk (by omega)

end Agreement

/-! ### The draws after a seeding -/

/-- A draw makes new words or reads one of them. -/
def MtReady (rng : RandomNumberGenerator) : Prop :=
  1 ≤ rng.mt_left ∧ (rng.mt_left = 1 ∨ rng.mt_left + rng.mt_next = 625)

/-- The draw succeeds and leaves an object that is ready for the next one. -/
def Succeeds {α : Type} (x : Option (RandomNumberGenerator × α)) : Prop :=
  ∃ rng a, x = some (rng, a) ∧ rng.MtReady

theorem Succeeds.map {α β : Type} {x : Option (RandomNumberGenerator × α)} (h : Succeeds x)
    (f : α → β) : Succeeds (x.map fun r => (r.1, f r.2)) := by
  obtain ⟨rng, a, rfl, hready⟩ := h
  exact ⟨rng, f a, rfl, hready⟩

theorem MtReady.nextWord {rng : RandomNumberGenerator} (h : rng.MtReady) :
    Succeeds rng.nextWord := by
  obtain ⟨hle, hnext⟩ := h
  unfold RandomNumberGenerator.nextWord
  dsimp only
  by_cases hleft : rng.mt_left - 1 = 0
  · have hone : (1 : Int) ≤ 624 := by decide
    rw [if_pos hleft]
    exact ⟨_, _, rfl, hone, Or.inr rfl⟩
  · have hlt : rng.mt_next < 624 := by omega
    rw [if_neg hleft]
    dsimp only
    rw [Vector.getElem?_eq_getElem hlt]
    refine ⟨_, _, rfl, ?_, Or.inr ?_⟩
    · dsimp only
      omega
    · dsimp only
      omega

theorem MtReady.drawWith {α : Type} {rng : RandomNumberGenerator} (h : rng.MtReady)
    (result : BitVec 64 → α) : Succeeds (rng.drawWith result) :=
  h.nextWord.map fun y => result (temper y)

/-- After a seeding all draws stay inside the words. -/
theorem MtReady.uniDraw {rng : RandomNumberGenerator} (h : rng.MtReady) (a : UniDraw) :
    Succeeds (rng.uniDraw a) := by
  cases a with
  | int32 => exact (h.drawWith _).map Drawn.unsigned
  | int31 => exact (h.drawWith _).map Drawn.signed
  | real1 => exact (h.drawWith _).map Drawn.real
  | real2 => exact (h.drawWith _).map Drawn.real
  | real3 => exact (h.drawWith _).map Drawn.real
  | res53 =>
    obtain ⟨rng₁, a, hfirst, hready₁⟩ := h.drawWith id
    obtain ⟨rng₂, b, hsecond, hready₂⟩ := hready₁.drawWith id
    refine Succeeds.map ?_ Drawn.real
    have hfirst' : rng.uni_rand_int32 = some (rng₁, a) := hfirst
    have hsecond' : rng₁.uni_rand_int32 = some (rng₂, b) := hsecond
    unfold uni_rand_real_res53
    simp only [Option.bind_eq_bind, hfirst', hsecond', Option.bind_some, Option.pure_def]
    exact ⟨rng₂, _, rfl, hready₂⟩

theorem MtReady.uni_rand_init (rng : RandomNumberGenerator) (seed : BitVec 64) :
    (rng.uni_rand_init seed).MtReady :=
  ⟨Int.le_refl 1, Or.inl rfl⟩

/-- Every run of draws after a seeding succeeds. -/
theorem uni_draws_succeed (rng : RandomNumberGenerator) (seed : BitVec 64) (draws : List UniDraw) :
    ∃ out, outputs uniDraw (rng.uni_rand_init seed) draws = some out :=
  outputs_succeed (fun _ a h => MtReady.uniDraw h a) (MtReady.uni_rand_init rng seed) draws

/-! ## `ran2` -/

/-- The members of `ran2` are the same. -/
structure Ran2Agree (rng rng' : RandomNumberGenerator) : Prop where
  idum : rng.ran2_idum = rng'.ran2_idum
  idum2 : rng.ran2_idum2 = rng'.ran2_idum2
  iy : rng.ran2_iy = rng'.ran2_iy
  iv : rng.ran2_iv = rng'.ran2_iv

/-- A draw from `ran2`. -/
def ran2Draw (rng : RandomNumberGenerator) (_ : Unit) : Option (RandomNumberGenerator × Float) :=
  rng.ran2_rand_real

theorem Ran2Agree.ran2Draw {rng rng' : RandomNumberGenerator} (h : Ran2Agree rng rng') (a : Unit) :
    SameDraw Ran2Agree (rng.ran2Draw a) (rng'.ran2Draw a) := by
  unfold RandomNumberGenerator.ran2Draw ran2_rand_real
  rw [h.idum, h.idum2, h.iy, h.iv]
  refine Partial.rel_bind_same _ fun idum => Partial.rel_bind_same _ fun idum2 => ?_
  refine Partial.rel_bind_same _ fun j => Partial.rel_bind_same _ fun iy => ?_
  exact .some ⟨⟨rfl, rfl, rfl, rfl⟩, rfl⟩

/-- The members that the warm-up has set by some round are the same. -/
structure SameWarmed (round : Nat) (rng rng' : RandomNumberGenerator) : Prop where
  idum : rng.ran2_idum = rng'.ran2_idum
  idum2 : rng.ran2_idum2 = rng'.ran2_idum2
  iv : ∀ j : Fin 32, 40 ≤ j.val + round → rng.ran2_iv.get j = rng'.ran2_iv.get j

theorem SameWarmed.warm {round : Nat} {rng rng' : RandomNumberGenerator}
    (h : SameWarmed round rng rng') :
    Option.Rel (SameWarmed (round + 1)) (warm round rng) (warm round rng') := by
  unfold RandomNumberGenerator.warm
  rw [h.idum]
  refine Partial.rel_bind_same _ fun idum => ?_
  by_cases hj : NTAB.toNat + 7 - round < 32
  · simp only [dif_pos hj]
    refine .some ⟨rfl, h.idum2, ?_⟩
    intro j hle
    change (rng.ran2_iv.set (⟨NTAB.toNat + 7 - round, hj⟩ : Fin 32) idum).get j =
      (rng'.ran2_iv.set (⟨NTAB.toNat + 7 - round, hj⟩ : Fin 32) idum).get j
    rw [Loop.get_set, Loop.get_set]
    split
    · rfl
    · rename_i hne
      have hval : j.val ≠ NTAB.toNat + 7 - round := fun hval => hne (Fin.ext hval)
      have hntab : NTAB.toNat = 32 := rfl
      exact h.iv j (by omega)
  · simp only [dif_neg hj]
    have hntab : NTAB.toNat = 32 := rfl
    exact .some ⟨rfl, h.idum2, fun j hle => h.iv j (by omega)⟩

/-- `ran2_rand_init` sets every member of `ran2`. -/
theorem Ran2Agree.ran2_rand_init (rng rng' : RandomNumberGenerator) (seed : BitVec 64) :
    Option.Rel Ran2Agree (rng.ran2_rand_init seed) (rng'.ran2_rand_init seed) := by
  unfold RandomNumberGenerator.ran2_rand_init
  refine Partial.rel_bind_same _ fun idum => ?_
  have hstart : SameWarmed 0 { rng with ran2_idum := idum, ran2_idum2 := idum }
      { rng' with ran2_idum := idum, ran2_idum2 := idum } :=
    ⟨rfl, rfl, fun j hle => absurd hle (by omega)⟩
  have hloop : Option.Rel (SameWarmed 40)
      (Loop.forRange 0 40 RandomNumberGenerator.warm
        { rng with ran2_idum := idum, ran2_idum2 := idum })
      (Loop.forRange 0 40 RandomNumberGenerator.warm
        { rng' with ran2_idum := idum, ran2_idum2 := idum }) :=
    Loop.forRange_rel (by decide) (fun _ _ _ _ _ h => SameWarmed.warm h) hstart
  have hcongr (s t : RandomNumberGenerator) (h : SameWarmed 40 s t) : Ran2Agree
      { s with ran2_iy := s.ran2_iv[0] } { t with ran2_iy := t.ran2_iv[0] } := by
    have hiv : s.ran2_iv = t.ran2_iv := by
      apply Vector.ext
      intro i hi
      exact h.iv ⟨i, hi⟩ (by omega)
    refine ⟨h.idum, h.idum2, ?_, hiv⟩
    dsimp only
    rw [hiv]
  exact Partial.rel_bind hloop fun s t h => .some (hcongr s t h)

/-- Every run of draws after a seeding succeeds when the first step of `_ran2_idum2` leaves a
residue. -/
theorem ran2_draws_succeed (rng : RandomNumberGenerator) {seed : BitVec 64} (h : FirstStep seed)
    (draws : List Unit) :
    ∃ out, ((rng.ran2_rand_init seed).bind fun rng => outputs ran2Draw rng draws) = some out := by
  obtain ⟨rng₀, hinit, hwarm⟩ := ran2_rand_init_spec rng h.negated
  rw [hinit, Option.bind_some]
  exact outputs_succeed (fun _ _ h => Drawable.ran2_rand_real h) (hwarm.drawable h) draws

end RandomNumberGenerator

/-! ## All four -/

/-- A draw from `Xorshift64star`. -/
def Xorshift64star.draw (rng : Xorshift64star) (_ : Unit) : Option (Xorshift64star × BitVec 64) :=
  some rng.generate

/-- Two objects of one class, whatever happened to them before, and a seed for both. -/
inductive Seeding where
  | xorshift64star (rng rng' : Xorshift64star) (seed : BitVec 64)
  | xorshift1024star (rng rng' : { rng // Reachable Xorshift1024star.history rng })
      (seed : Vector (BitVec 64) 16)
  | uni (rng rng' : RandomNumberGenerator) (seed : BitVec 64)
  | ran2 (rng rng' : RandomNumberGenerator) (seed : BitVec 64)

namespace Seeding

/-- Both runs give results, and they give the same ones. -/
def SameResults {β : Type} (x y : Option (List β)) : Prop := ∃ out, x = some out ∧ y = some out

theorem SameResults.of_eq {β : Type} {x y : Option (List β)} (h : ∃ out, x = some out)
    (heq : x = y) : SameResults x y := by
  obtain ⟨out, hout⟩ := h
  exact ⟨out, hout, heq.symm.trans hout⟩

theorem SameResults.eq {β : Type} {x y : Option (List β)} (h : SameResults x y) : x = y := by
  obtain ⟨out, hx, hy⟩ := h
  exact hx.trans hy.symm

/-- After both are seeded, equal draws give equal results. -/
def SameStream : Seeding → Prop
  | .xorshift64star rng rng' seed => ∀ draws,
    SameResults (outputs Xorshift64star.draw (rng.seed seed) draws)
      (outputs Xorshift64star.draw (rng'.seed seed) draws)
  | .xorshift1024star rng rng' seed => ∀ draws,
    SameResults (outputs Xorshift1024star.draw (rng.1.seed seed) draws)
      (outputs Xorshift1024star.draw (rng'.1.seed seed) draws)
  | .uni rng rng' seed => ∀ draws,
    SameResults (outputs RandomNumberGenerator.uniDraw (rng.uni_rand_init seed) draws)
      (outputs RandomNumberGenerator.uniDraw (rng'.uni_rand_init seed) draws)
  | .ran2 rng rng' seed => ∀ draws,
    SameResults
      ((rng.ran2_rand_init seed).bind fun rng => outputs RandomNumberGenerator.ran2Draw rng draws)
      ((rng'.ran2_rand_init seed).bind fun rng => outputs RandomNumberGenerator.ran2Draw rng draws)

/-- Two objects of class `Xorshift1024star` read the same seed words from their positions on, as they
do at equal positions. -/
def Aligned : Seeding → Prop
  | .xorshift1024star rng rng' seed =>
    ∀ i, seed.get (rng.1.position + i) = seed.get (rng'.1.position + i)
  | _ => True

/-- A seed of `ran2` leads into the table. -/
def InTable : Seeding → Prop
  | .ran2 _ _ seed => RandomNumberGenerator.FirstStep seed
  | _ => True

theorem xorshift64star_sameStream (rng rng' : Xorshift64star) (seed : BitVec 64) :
    (xorshift64star rng rng' seed).SameStream := fun draws =>
  .of_eq (outputs_succeed (I := fun _ => True) (fun _ _ _ => ⟨_, _, rfl, trivial⟩) trivial draws)
    rfl

theorem xorshift1024star_iff (rng rng' : { rng // Reachable Xorshift1024star.history rng })
    (seed : Vector (BitVec 64) 16) :
    (xorshift1024star rng rng' seed).SameStream ↔ (xorshift1024star rng rng' seed).Aligned := by
  have hin : (rng.1.seed seed).InRange :=
    Xorshift1024star.inRange_of_reachable (Xorshift1024star.reachable_seed rng.2 seed)
  have hin' : (rng'.1.seed seed).InRange :=
    Xorshift1024star.inRange_of_reachable (Xorshift1024star.reachable_seed rng'.2 seed)
  constructor
  · intro hsame i
    have hring := congrFun
      (Xorshift1024star.ring_eq_of_outputs hin hin' fun draws => (hsame draws).eq) i
    rwa [Xorshift1024star.ring_seed, Xorshift1024star.ring_seed] at hring
  · intro haligned draws
    have hring : (rng.1.seed seed).ring = (rng'.1.seed seed).ring := by
      funext i
      rw [Xorshift1024star.ring_seed, Xorshift1024star.ring_seed]
      exact haligned i
    exact .of_eq (Xorshift1024star.draws_succeed hin draws)
      (outputs_eq (R := Xorshift1024star.Agree) (fun _ _ a h => h.draw a) ⟨hin, hin', hring⟩ draws)

theorem uni_sameStream (rng rng' : RandomNumberGenerator) (seed : BitVec 64) :
    (uni rng rng' seed).SameStream := by
  intro draws
  exact .of_eq (RandomNumberGenerator.uni_draws_succeed rng seed draws)
    (outputs_eq (R := RandomNumberGenerator.MtAgree) (fun _ _ a h => h.uniDraw a)
      (RandomNumberGenerator.MtAgree.uni_rand_init rng rng' seed) draws)

theorem ran2_sameStream (rng rng' : RandomNumberGenerator) {seed : BitVec 64}
    (h : RandomNumberGenerator.FirstStep seed) : (ran2 rng rng' seed).SameStream := by
  intro draws
  refine .of_eq (RandomNumberGenerator.ran2_draws_succeed rng h draws) ?_
  refine Partial.bind_eq (RandomNumberGenerator.Ran2Agree.ran2_rand_init rng rng' seed) ?_
  intro s t hagree
  exact outputs_eq (R := RandomNumberGenerator.Ran2Agree) (fun _ _ a h => h.ran2Draw a) hagree draws

/-- The seed determines the stream, except that the stream of `Xorshift1024star` depends on where the
object stood, and that `ran2` needs a seed that leads into its table. -/
theorem sameStream_of_aligned (seeding : Seeding) :
    (seeding.Aligned ∧ seeding.InTable → seeding.SameStream) ∧
      (seeding.SameStream → seeding.Aligned) := by
  cases seeding with
  | xorshift64star rng rng' seed =>
    exact ⟨fun _ => xorshift64star_sameStream rng rng' seed, fun _ => trivial⟩
  | xorshift1024star rng rng' seed =>
    have hiff := xorshift1024star_iff rng rng' seed
    exact ⟨fun h => hiff.mpr h.1, hiff.mp⟩
  | uni rng rng' seed => exact ⟨fun _ => uni_sameStream rng rng' seed, fun _ => trivial⟩
  | ran2 rng rng' seed => exact ⟨fun h => ran2_sameStream rng rng' h.2, fun _ => trivial⟩

/-- The seed `IM1`, from which `_ran2_idum` stays zero, in two objects with different memory. -/
theorem sameStream_im1 : (ran2 RandomNumberGenerator.blank
    { RandomNumberGenerator.blank with ran2_iy := 7, ran2_idum := 5 } 2147483563).SameStream :=
  (sameStream_of_aligned _).1 ⟨trivial, by decide, by decide⟩

/-- From the number of nanoseconds of a clock the second draw of `ran2` reads outside of the table. -/
example : ((RandomNumberGenerator.blank.ran2_rand_init 1500000000000000000).bind fun rng =>
    outputs RandomNumberGenerator.ran2Draw rng [(), ()]).isNone = true := by
  decide +kernel

/-- A new object. -/
def fresh : { rng // Reachable Xorshift1024star.history rng } :=
  ⟨Xorshift1024star.new 1 2, .init ⟨1, 2, rfl⟩⟩

/-- A new object of which one number was drawn. -/
def used : { rng // Reachable Xorshift1024star.history rng } :=
  ⟨((Xorshift1024star.new 1 2).generate.map Prod.fst).get (by decide +kernel),
    Xorshift1024star.reachable_generate fresh.2 (Option.some_get _).symm⟩

/-- The seed `1, .., 16` leads to another first number once a number was drawn. -/
theorem used_other_stream :
    ¬ (xorshift1024star fresh used
      #v[1, 2, 3, 4, 5, 6, 7, 8, 9, 10, 11, 12, 13, 14, 15, 16]).SameStream := by
  intro hsame
  have hfirst := (hsame [()]).eq
  revert hfirst
  decide +kernel

end Seeding

import Mathlib.Logic.Basic
import ItexDemo.Lib.Partial

/-!
# Labelled transition systems

A system is given by its initial states and its labelled steps. The lemmas below carry an induction
over runs: what holds initially and is kept by every step holds in every reachable state, also when
the run is restricted to steps that meet a side condition. The second half is about partial step
functions with an output (`runOut`): two of them that agree step by step produce the same outputs.
-/

namespace Transition

/-- A labelled transition system over states `σ` and labels `α`. -/
structure System (σ α : Type*) where
  /-- The initial states. -/
  Init : σ → Prop
  /-- `Tr s a s'`: the system can go from `s` to `s'` by a step labelled `a`. -/
  Tr : σ → α → σ → Prop

variable {σ τ α β : Type*}

/-- The states reached by some run from an initial state. -/
inductive Reachable (S : System σ α) : σ → Prop where
  /-- An initial state is reachable. -/
  | init {s : σ} (h : S.Init s) : Reachable S s
  /-- A step from a reachable state leads to a reachable state. -/
  | step {s : σ} {a : α} {s' : σ} (h : Reachable S s) (ht : S.Tr s a s') : Reachable S s'

/-- `S` with only those steps that meet the side condition `ok`, a condition on the state before the
step and its label. -/
def System.restrict (S : System σ α) (ok : σ → α → Prop) : System σ α where
  Init := S.Init
  Tr := fun s a s' => S.Tr s a s' ∧ ok s a

/-- The system with one initial state whose steps are given by a partial function. -/
def System.ofStep (init : σ) (step : σ → α → Option σ) : System σ α where
  Init := fun s => s = init
  Tr := fun s a s' => step s a = some s'

/-- **Invariant rule.** What holds initially and is kept by every step holds in every reachable
state. -/
theorem Reachable.invariant {S : System σ α} {I : σ → Prop} (h0 : ∀ s, S.Init s → I s)
    (h1 : ∀ s a s', I s → S.Tr s a s' → I s') {s : σ} (h : Reachable S s) : I s := by
  induction h with
  | init h => exact h0 _ h
  | step _ ht ih => exact h1 _ _ _ ih ht

/-- The invariant rule for a system given by a partial function. -/
theorem Reachable.invariant_ofStep {init : σ} {step : σ → α → Option σ} {I : σ → Prop}
    (h0 : I init) (h1 : ∀ s a s', I s → step s a = some s' → I s') {s : σ}
    (h : Reachable (System.ofStep init step) s) : I s :=
  h.invariant (fun _ hs => by rw [show _ = init from hs]; exact h0) h1

/-- A run of a restricted system is a run of the system itself. -/
theorem Reachable.of_restrict {S : System σ α} {ok : σ → α → Prop} {s : σ}
    (h : Reachable (S.restrict ok) s) : Reachable S s := by
  induction h with
  | init h => exact .init h
  | step _ ht ih => exact .step ih ht.1

/-- A side condition that always holds does not restrict. -/
theorem Reachable.restrict_of_forall {S : System σ α} {ok : σ → α → Prop} (hok : ∀ s a, ok s a)
    {s : σ} (h : Reachable S s) : Reachable (S.restrict ok) s := by
  induction h with
  | init h => exact .init h
  | step _ ht ih => exact .step ih ⟨ht, hok _ _⟩

/-- The state after the labels `as`, when every one of them is enabled. -/
def run (step : σ → α → Option σ) : σ → List α → Option σ
  | s, [] => some s
  | s, a :: as => (step s a).bind fun s' => run step s' as

theorem run_snoc {step : σ → α → Option σ} {s s' s'' : σ} {as : List α} {a : α}
    (h : run step s as = some s') (ha : step s' a = some s'') : run step s (as ++ [a]) = some s'' := by
  induction as generalizing s with
  | nil =>
    obtain rfl := Option.some.inj h
    rw [List.nil_append, run, ha]
    rfl
  | cons b as ih =>
    obtain ⟨t, ht, hrun⟩ := Option.bind_eq_some_iff.mp h
    rw [List.cons_append, run, ht, Option.bind_some]
    exact ih hrun

theorem reachable_run {init : σ} {step : σ → α → Option σ} {s s' : σ} {as : List α}
    (hs : Reachable (System.ofStep init step) s) (h : run step s as = some s') :
    Reachable (System.ofStep init step) s' := by
  induction as generalizing s with
  | nil => simp only [run, Option.some.injEq] at h; exact h ▸ hs
  | cons a as ih =>
    obtain ⟨t, ht, hrun⟩ := Option.bind_eq_some_iff.mp h
    exact ih (hs.step ht) hrun

/-- A state that some list of labels leads to is reachable. -/
theorem reachable_of_run {init : σ} {step : σ → α → Option σ} {s : σ} (as : List α)
    (h : run step init as = some s) : Reachable (System.ofStep init step) s :=
  reachable_run (.init rfl) h

/-- Every step of the run along `as` meets the side condition `ok`. -/
def RunMeets (step : σ → α → Option σ) (ok : σ → α → Prop) : σ → List α → Prop
  | _, [] => True
  | s, a :: as => ok s a ∧ (match step s a with
    | some s' => RunMeets step ok s' as
    | none => True)

instance RunMeets.decidable {step : σ → α → Option σ} {ok : σ → α → Prop}
    [∀ s a, Decidable (ok s a)] : (s : σ) → (as : List α) → Decidable (RunMeets step ok s as)
  | _, [] => .isTrue trivial
  | s, a :: as =>
    have : Decidable (match step s a with
        | some s' => RunMeets step ok s' as
        | none => True) :=
      match step s a with
      | some s' => decidable s' as
      | none => .isTrue trivial
    inferInstanceAs (Decidable (ok s a ∧ _))

theorem RunMeets.of_forall {step : σ → α → Option σ} {ok : σ → α → Prop} (h : ∀ s a, ok s a) (s : σ)
    (as : List α) : RunMeets step ok s as := by
  induction as generalizing s with
  | nil => trivial
  | cons a as ih =>
    refine ⟨h s a, ?_⟩
    cases step s a with
    | none => trivial
    | some s' => exact ih s'

theorem RunMeets.imp {step : σ → α → Option σ} {ok ok' : σ → α → Prop} (h : ∀ s a, ok s a → ok' s a)
    {s : σ} {as : List α} (hok : RunMeets step ok s as) : RunMeets step ok' s as := by
  induction as generalizing s with
  | nil => trivial
  | cons a as ih =>
    refine ⟨h s a hok.1, ?_⟩
    have hrest := hok.2
    cases hs : step s a with
    | none => trivial
    | some s' =>
      rw [hs] at hrest
      exact ih hrest

theorem reachable_restrict_run {init : σ} {step : σ → α → Option σ} {ok : σ → α → Prop} {s s' : σ}
    (as : List α) (hs : Reachable ((System.ofStep init step).restrict ok) s)
    (hok : RunMeets step ok s as) (h : run step s as = some s') :
    Reachable ((System.ofStep init step).restrict ok) s' := by
  induction as generalizing s with
  | nil =>
    simp only [run, Option.some.injEq] at h
    exact h ▸ hs
  | cons a as ih =>
    obtain ⟨t, ht, hrun⟩ := Option.bind_eq_some_iff.mp h
    obtain ⟨ha, hrest⟩ := hok
    rw [ht] at hrest
    exact ih (hs.step ⟨ht, ha⟩) hrest hrun

/-! ## Steps with an output -/

/-- The state after the labels `as` and the outputs of their steps. -/
def runOut (step : σ → α → Option (σ × β)) : σ → List α → Option (σ × List β)
  | s, [] => some (s, [])
  | s, a :: as => (step s a).bind fun r => (runOut step r.1 as).map fun q => (q.1, r.2 :: q.2)

/-- A run with one more step. -/
theorem runOut_snoc {step : σ → α → Option (σ × β)} {s s' s'' : σ} {as : List α} {bs : List β} {a : α}
    {b : β} (h : runOut step s as = some (s', bs)) (ha : step s' a = some (s'', b)) :
    runOut step s (as ++ [a]) = some (s'', bs ++ [b]) := by
  induction as generalizing s bs with
  | nil =>
    cases h
    simp [runOut, ha]
  | cons a' as ih =>
    obtain ⟨⟨s₁, b'⟩, hstep, hrest⟩ := Option.bind_eq_some_iff.mp h
    obtain ⟨⟨s₂, bs'⟩, hrun, heq⟩ := Option.map_eq_some_iff.mp hrest
    cases heq
    rw [List.cons_append, runOut, hstep, Option.bind_some, ih hrun]
    rfl

/-- **Refinement rule.** If `R` relates two states and corresponding steps have equal outputs and
related results, then equal runs have equal outputs and related results. -/
theorem runOut_refines {step₁ : σ → α → Option (σ × β)} {step₂ : τ → α → Option (τ × β)}
    {R : σ → τ → Prop}
    (h : ∀ s t a, R s t →
      Option.Rel (fun x y => R x.1 y.1 ∧ x.2 = y.2) (step₁ s a) (step₂ t a))
    {s : σ} {t : τ} (hR : R s t) (as : List α) :
    Option.Rel (fun x y => R x.1 y.1 ∧ x.2 = y.2) (runOut step₁ s as) (runOut step₂ t as) := by
  induction as generalizing s t with
  | nil => exact .some ⟨hR, rfl⟩
  | cons a as ih =>
    rw [runOut, runOut]
    refine Partial.rel_bind (h s t a hR) ?_
    rintro x y ⟨hxy, hout⟩
    refine Partial.rel_map (ih hxy) ?_
    rintro p q ⟨hpq, hpo⟩
    exact ⟨hpq, by rw [hout, hpo]⟩

/-- The outputs of the steps along `as`. -/
def outputs (step : σ → α → Option (σ × β)) (s : σ) (as : List α) : Option (List β) :=
  (runOut step s as).map Prod.snd

/-- Related states of two systems give the same outputs. -/
theorem outputs_refines {step₁ : σ → α → Option (σ × β)} {step₂ : τ → α → Option (τ × β)}
    {R : σ → τ → Prop}
    (h : ∀ s t a, R s t → Option.Rel (fun x y => R x.1 y.1 ∧ x.2 = y.2) (step₁ s a) (step₂ t a))
    {s : σ} {t : τ} (hR : R s t) (as : List α) : outputs step₁ s as = outputs step₂ t as := by
  unfold outputs
  rw [Option.map_eq_bind, Option.map_eq_bind]
  refine Partial.bind_eq (runOut_refines h hR as) ?_
  rintro x y ⟨-, hout⟩
  exact congrArg some hout

/-- **Two runs.** Two states give the same outputs when they are in a relation that every step
keeps and that makes the outputs of a step equal. -/
theorem outputs_eq {step : σ → α → Option (σ × β)} {R : σ → σ → Prop}
    (h : ∀ s t a, R s t → Option.Rel (fun x y => R x.1 y.1 ∧ x.2 = y.2) (step s a) (step t a))
    {s t : σ} (hR : R s t) (as : List α) : outputs step s as = outputs step t as :=
  outputs_refines h hR as

/-- **Progress rule.** All steps succeed from a state with a property that lets every step succeed and
that the step keeps. -/
theorem outputs_succeed {step : σ → α → Option (σ × β)} {I : σ → Prop}
    (h : ∀ s a, I s → ∃ s' b, step s a = some (s', b) ∧ I s') {s : σ} (hI : I s) (as : List α) :
    ∃ bs, outputs step s as = some bs := by
  induction as generalizing s with
  | nil => exact ⟨[], rfl⟩
  | cons a as ih =>
    obtain ⟨s', b, hstep, hI'⟩ := h s a hI
    obtain ⟨bs, hrest⟩ := ih hI'
    unfold outputs at hrest ⊢
    obtain ⟨⟨s'', bs'⟩, hrun, -⟩ := Option.map_eq_some_iff.mp hrest
    rw [runOut, hstep, Option.bind_some, hrun]
    exact ⟨_, rfl⟩

/-- **History rule.** A property of the labels and outputs so far and the state they lead to, that
holds at the start and is kept when one more step is appended, holds of every run. -/
theorem runOut_history {step : σ → α → Option (σ × β)} {P : List α → List β → σ → Prop} {s₀ : σ}
    (h0 : P [] [] s₀)
    (h1 : ∀ as bs s a s' b, P as bs s → step s a = some (s', b) → P (as ++ [a]) (bs ++ [b]) s')
    {as : List α} {s : σ} {bs : List β} (h : runOut step s₀ as = some (s, bs)) : P as bs s := by
  suffices hgen : ∀ (as' : List α) (s₁ : σ) (pre : List α) (out : List β), P pre out s₁ →
      ∀ bs', runOut step s₁ as' = some (s, bs') → P (pre ++ as') (out ++ bs') s by
    simpa using hgen as s₀ [] [] h0 bs h
  intro as'
  induction as' with
  | nil =>
    intro s₁ pre out hP bs' hrun
    simp only [runOut, Option.some.injEq, Prod.mk.injEq] at hrun
    obtain ⟨rfl, rfl⟩ := hrun
    simpa using hP
  | cons a as' ih =>
    intro s₁ pre out hP bs' hrun
    obtain ⟨⟨s₂, b⟩, hstep, hrest⟩ := Option.bind_eq_some_iff.mp hrun
    obtain ⟨⟨s₃, bs''⟩, hrun', heq⟩ := Option.map_eq_some_iff.mp hrest
    simp only [Prod.mk.injEq] at heq
    obtain ⟨rfl, rfl⟩ := heq
    have := ih s₂ (pre ++ [a]) (out ++ [b]) (h1 _ _ _ _ _ _ hP hstep) bs'' hrun'
    simpa using this

end Transition

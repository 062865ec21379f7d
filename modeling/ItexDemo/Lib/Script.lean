import Mathlib.Logic.Basic

/-!
# Programs that wait for answers

A script calls operations and goes on with their answers, so that others can take steps in between.
What an operation does to the state of the caller is given by a `Semantics`: what has to hold when it
is called, and which answers and states may follow. `Safe` says that every call is made where it may
be made and that the result meets a postcondition, whatever the answers are; `Meets` is the triple
over it for scripts that can throw.
-/

/-- Programs over the operations `Op` with answers `Ans`. -/
inductive Script (Op : Type) (Ans : Op → Type) (α : Type) : Type where
  | ret (a : α)
  | call (op : Op) (k : Ans op → Script Op Ans α)

namespace Script

variable {Op : Type} {Ans : Op → Type} {σ ε α β : Type}

/-- Sequencing. -/
def bind (f : α → Script Op Ans β) : Script Op Ans α → Script Op Ans β
  | .ret a => f a
  | .call op k => .call op fun a => bind f (k a)

instance : Monad (Script Op Ans) where
  pure := .ret
  bind := fun p f => p.bind f

theorem bind_ret (p : Script Op Ans α) : p.bind (.ret) = p := by
  induction p with
  | ret a => rfl
  | call op k ih => exact congrArg (call op) (funext ih)

theorem bind_bind {γ : Type} (p : Script Op Ans α) (f : α → Script Op Ans β)
    (g : β → Script Op Ans γ) : (p.bind f).bind g = p.bind fun a => (f a).bind g := by
  induction p with
  | ret a => rfl
  | call op k ih => exact congrArg (call op) (funext ih)

instance : LawfulMonad (Script Op Ans) :=
  LawfulMonad.mk' _ bind_ret (fun _ _ => rfl) bind_bind

/-- What the operations do to the state of the caller. -/
structure Semantics (Op : Type) (Ans : Op → Type) (σ : Type) where
  /-- The operation may be called. -/
  Pre : Op → σ → Prop
  /-- It may be answered so and leave this state. -/
  Act : (op : Op) → σ → Ans op → σ → Prop

variable (M : Semantics Op Ans σ)

/-- Every operation is called where it may be, and the result has the property. -/
def Safe (Q : α → σ → Prop) : Script Op Ans α → σ → Prop
  | .ret a, s => Q a s
  | .call op k, s => M.Pre op s ∧ ∀ a s', M.Act op s a s' → Safe Q (k a) s'

variable {M}

/-- **Step rule.** A safe script that is answered goes on with a safe script. -/
theorem Safe.answer {Q : α → σ → Prop} {op : Op} {k : Ans op → Script Op Ans α} {s s' : σ}
    {a : Ans op} (h : Safe M Q (.call op k) s) (ha : M.Act op s a s') : Safe M Q (k a) s' :=
  h.2 a s' ha

theorem Safe.mono {Q Q' : α → σ → Prop} {p : Script Op Ans α} {s : σ} (h : Safe M Q p s)
    (hQ : ∀ a s, Q a s → Q' a s) : Safe M Q' p s := by
  induction p generalizing s with
  | ret a => exact hQ a s h
  | call op k ih => exact ⟨h.1, fun a s' ha => ih a (h.2 a s' ha)⟩

theorem Safe.bind {R : β → σ → Prop} {p : Script Op Ans α} {f : α → Script Op Ans β} {s : σ}
    (h : Safe M (fun a s => Safe M R (f a) s) p s) : Safe M R (p.bind f) s := by
  induction p generalizing s with
  | ret a => exact h
  | call op k ih => exact ⟨h.1, fun a s' ha => ih a (h.2 a s' ha)⟩

theorem Safe.of_bind {R : β → σ → Prop} {p : Script Op Ans α} {f : α → Script Op Ans β} {s : σ}
    (h : Safe M R (p.bind f) s) : Safe M (fun a s => Safe M R (f a) s) p s := by
  induction p generalizing s with
  | ret a => exact h
  | call op k ih => exact ⟨h.1, fun a s' ha => ih a (h.2 a s' ha)⟩

/-- Safety for operations that may be called in more states and are answered in fewer ways. -/
theorem Safe.weaken {M' : Semantics Op Ans σ} {Q : α → σ → Prop} {p : Script Op Ans α} {s : σ}
    (h : Safe M Q p s) (hpre : ∀ op s, M.Pre op s → M'.Pre op s)
    (hact : ∀ op s a s', M'.Act op s a s' → M.Act op s a s') : Safe M' Q p s := by
  induction p generalizing s with
  | ret a => exact h
  | call op k ih => exact ⟨hpre op s h.1, fun a s' ha => ih a (h.2 a s' (hact op s a s' ha))⟩

/-- **Transfer rule.** A script that is safe in `s` is safe in `t`, where more states allow the
operations and every answer that is possible in `t` is one that is possible in `s`. -/
theorem Safe.transfer {R : σ → σ → Prop} {Q : α → σ → Prop} {p : Script Op Ans α} {s t : σ}
    (h : Safe M Q p s) (hR : R s t) (hpre : ∀ op s t, R s t → M.Pre op s → M.Pre op t)
    (hact : ∀ op s t a t', R s t → M.Act op t a t' → ∃ s', M.Act op s a s' ∧ R s' t')
    (hQ : ∀ a s t, R s t → Q a s → Q a t) : Safe M Q p t := by
  induction p generalizing s t with
  | ret a => exact hQ a s t hR h
  | call op k ih =>
    refine ⟨hpre op s t hR h.1, fun a t' ha => ?_⟩
    obtain ⟨s', hs', hR'⟩ := hact op s t a t' hR ha
    exact ih a (h.2 a s' hs') hR'

/-! ## Scripts that call some operations only -/

/-- Every operation that is called has the property. -/
def Only (P : Op → Prop) : Script Op Ans α → Prop
  | .ret _ => True
  | .call op k => P op ∧ ∀ a, Only P (k a)

theorem Only.bind {P : Op → Prop} {p : Script Op Ans α} {f : α → Script Op Ans β} (h : Only P p)
    (hf : ∀ a, Only P (f a)) : Only P (p.bind f) := by
  induction p with
  | ret a => exact hf a
  | call op k ih => exact ⟨h.1, fun a => ih a (h.2 a)⟩

/-! ## Running a script -/

/-- Run a script with a handler of its operations, which may fail to answer. -/
def run (h : (op : Op) → σ → Option (Ans op × σ)) : Script Op Ans α → σ → Option (α × σ)
  | .ret a, s => some (a, s)
  | .call op k, s => (h op s).bind fun r => run h (k r.1) r.2

/-- The semantics of a handler: an operation may be called where it is answered. -/
def Semantics.ofHandler (h : (op : Op) → σ → Option (Ans op × σ)) : Semantics Op Ans σ where
  Pre := fun op s => (h op s).isSome
  Act := fun op s a s' => h op s = some (a, s')

/-- A script that is safe for a handler runs to its end. -/
theorem Safe.run {h : (op : Op) → σ → Option (Ans op × σ)} {Q : α → σ → Prop}
    {p : Script Op Ans α} {s : σ} (hp : Safe (.ofHandler h) Q p s) :
    ∃ a s', p.run h s = some (a, s') ∧ Q a s' := by
  induction p generalizing s with
  | ret a => exact ⟨a, s, rfl, hp⟩
  | call op k ih =>
    obtain ⟨⟨a, s'⟩, ha⟩ := Option.isSome_iff_exists.mp hp.1
    obtain ⟨b, s'', hrun, hQ⟩ := ih a (hp.2 a s' ha)
    refine ⟨b, s'', ?_, hQ⟩
    rw [Script.run, ha]
    exact hrun

/-! ## Scripts that can throw -/

/-- Scripts that throw `ε`. -/
abbrev Code (Op : Type) (Ans : Op → Type) (ε α : Type) : Type := ExceptT ε (Script Op Ans) α

/-- Call one operation. -/
def ask (op : Op) : Code Op Ans ε (Ans op) := ExceptT.mk (.call op fun a => .ret (.ok a))

theorem Only.ask {P : Op → Prop} {op : Op} (h : P op) :
    Only P (Script.ask op : Code Op Ans ε (Ans op)).run :=
  ⟨h, fun _ => trivial⟩

theorem Only.next {P : Op → Prop} {x : Code Op Ans ε α} {f : α → Code Op Ans ε β} (h : Only P x.run)
    (hf : ∀ a, Only P (f a).run) : Only P (x >>= f).run := by
  refine Only.bind h fun r => ?_
  cases r with
  | ok a => exact hf a
  | error e => trivial

/-- The postcondition for both ways to end. -/
def Ends (Q : α → σ → Prop) (E : ε → σ → Prop) : Except ε α → σ → Prop
  | .ok a, s => Q a s
  | .error e, s => E e s

variable (M) in
/-- From a state with `P` the script returns with `Q` or throws with `E`. -/
def Meets (P : σ → Prop) (x : Code Op Ans ε α) (Q : α → σ → Prop) (E : ε → σ → Prop) : Prop :=
  ∀ s, P s → Safe M (Ends Q E) x.run s

section Rules

variable {P P' : σ → Prop} {Q Q' : α → σ → Prop} {E E' : ε → σ → Prop} {x : Code Op Ans ε α}

theorem Meets.bind {R : β → σ → Prop} {f : α → Code Op Ans ε β} (h : Meets M P x Q E)
    (hf : ∀ a, Meets M (Q a) (f a) R E) : Meets M P (x >>= f) R E := by
  intro s hs
  refine Safe.bind ((h s hs).mono fun r s' hr => ?_)
  cases r with
  | ok a => exact hf a s' hr
  | error e => exact hr

theorem Meets.tryCatch {f : ε → Code Op Ans ε α} (h : Meets M P x Q E)
    (hf : ∀ e, Meets M (E e) (f e) Q E') : Meets M P (tryCatch x f) Q E' := by
  intro s hs
  refine Safe.bind ((h s hs).mono fun r s' hr => ?_)
  cases r with
  | ok a => exact hr
  | error e => exact hf e s' hr

/-- The rule of consequence. -/
theorem Meets.weaken (h : Meets M P x Q E) (hP : ∀ s, P' s → P s) (hQ : ∀ a s, Q a s → Q' a s)
    (hE : ∀ e s, E e s → E' e s) : Meets M P' x Q' E' := by
  intro s hs
  refine (h s (hP s hs)).mono fun r s' hr => ?_
  cases r with
  | ok a => exact hQ a s' hr
  | error e => exact hE e s' hr

theorem Meets.pre (h : Meets M P x Q E) (hP : ∀ s, P' s → P s) : Meets M P' x Q E :=
  h.weaken hP (fun _ _ hQ => hQ) fun _ _ hE => hE

/-- To prove a triple from each state that meets its precondition. -/
theorem Meets.start (h : ∀ s₀, P s₀ → Meets M (fun s => s = s₀) x Q E) : Meets M P x Q E :=
  fun s hs => h s hs s rfl

theorem Meets.return {a : α} (h : ∀ s, P s → Q a s) : Meets M P (pure a : Code Op Ans ε α) Q E :=
  h

theorem Meets.raise {e : ε} (h : ∀ s, P s → E e s) : Meets M P (throw e : Code Op Ans ε α) Q E :=
  h

theorem Meets.ask {op : Op} {Q : Ans op → σ → Prop} (hpre : ∀ s, P s → M.Pre op s)
    (h : ∀ s a s', P s → M.Act op s a s' → Q a s') :
    Meets M P (ask op : Code Op Ans ε (Ans op)) Q E :=
  fun s hs => ⟨hpre s hs, fun a s' ha => h s a s' hs ha⟩

theorem Meets.ite {c : Prop} [Decidable c] {y : Code Op Ans ε α} (hx : c → Meets M P x Q E)
    (hy : ¬c → Meets M P y Q E) : Meets M P (if c then x else y) Q E := by
  by_cases h : c
  · rw [if_pos h]
    exact hx h
  · rw [if_neg h]
    exact hy h

/-- An operation that a handler answers. -/
theorem Meets.answered {h : (op : Op) → σ → Option (Ans op × σ)} {op : Op} {s s' : σ} {a : Ans op}
    {E : ε → σ → Prop} (ha : h op s = some (a, s')) :
    Meets (.ofHandler h) (fun t => t = s) (Script.ask op : Code Op Ans ε (Ans op))
      (fun b t => b = a ∧ t = s') E := by
  refine .ask (fun t ht => ?_) fun t b t' ht hb => ?_
  · show (h op t).isSome = true
    rw [ht, ha]
    rfl
  · rw [ht] at hb
    exact Prod.mk.inj (Option.some.inj (Eq.trans (Eq.symm hb) ha))

end Rules

/-! ## Scripts that end with a failure -/

/-- Behind an answer that is a failure nothing is called, and the script throws. -/
def Halts (fails : (op : Op) → Ans op → Prop) : Script Op Ans (Except ε α) → Prop
  | .ret _ => True
  | .call op k => ∀ a, (fails op a → ∃ e, k a = .ret (.error e)) ∧ Halts fails (k a)

section Halts

variable {fails : (op : Op) → Ans op → Prop} {x : Code Op Ans ε α} {f : α → Code Op Ans ε β}

theorem Halts.next (h : Halts fails x.run) (hf : ∀ a, Halts fails (f a).run) :
    Halts fails (x >>= f).run := by
  suffices hgen : ∀ p : Script Op Ans (Except ε α), Halts fails p →
      Halts fails (p.bind (ExceptT.bindCont f)) from hgen x.run h
  intro p
  induction p with
  | ret r =>
    intro _
    cases r with
    | ok a => exact hf a
    | error e => trivial
  | call op k ih =>
    refine fun hp a => ⟨fun hfail => ?_, ih a (hp a).2⟩
    obtain ⟨e, he⟩ := (hp a).1 hfail
    refine ⟨e, ?_⟩
    show (k a).bind _ = _
    rw [he]
    rfl

theorem Halts.ask {op : Op} (h : ∀ a, ¬fails op a) :
    Halts fails (Script.ask op : Code Op Ans ε (Ans op)).run :=
  fun a => ⟨fun hfail => absurd hfail (h a), trivial⟩

/-- An operation whose failures are thrown. -/
theorem Halts.ask_next {op : Op} {f : Ans op → Code Op Ans ε β}
    (h : ∀ a, fails op a → ∃ e, f a = throw e) (hf : ∀ a, Halts fails (f a).run) :
    Halts fails (Script.ask op >>= f).run := by
  refine fun a => ⟨fun hfail => ?_, hf a⟩
  obtain ⟨e, he⟩ := h a hfail
  exact ⟨e, he⟩

theorem Halts.ite {c : Prop} [Decidable c] {y : Code Op Ans ε α} (hx : Halts fails x.run)
    (hy : Halts fails y.run) : Halts fails (if c then x else y).run := by
  by_cases h : c
  · rwa [if_pos h]
  · rwa [if_neg h]

end Halts

/-! ## Scripts with one result -/

variable (M) in
/-- From `s` the script returns `a` and leaves `s'`, whatever the answers are. -/
def Does (s : σ) (x : Code Op Ans ε α) (a : α) (s' : σ) : Prop :=
  Meets M (fun t => t = s) x (fun b t => b = a ∧ t = s') fun _ _ => False

section Does

variable {s s' s'' : σ} {x : Code Op Ans ε α} {a : α}

theorem Does.return : Does M s (pure a : Code Op Ans ε α) a s :=
  Meets.return fun _ ht => ⟨rfl, ht⟩

theorem Does.bind {f : α → Code Op Ans ε β} {Q : β → σ → Prop} {E : ε → σ → Prop}
    (h : Does M s x a s') (hf : Meets M (fun t => t = s') (f a) Q E) :
    Meets M (fun t => t = s) (x >>= f) Q E := by
  refine Meets.bind (h.weaken (fun _ ht => ht) (fun _ _ hr => hr) fun _ _ he => he.elim) fun b => ?_
  rintro t ⟨rfl, ht⟩
  exact hf t ht

theorem Does.next {f : α → Code Op Ans ε β} {b : β} (h : Does M s x a s') (hf : Does M s' (f a) b s'') :
    Does M s (x >>= f) b s'' :=
  h.bind hf

theorem Does.meets {Q : α → σ → Prop} {E : ε → σ → Prop} (h : Does M s x a s') (hQ : Q a s') :
    Meets M (fun t => t = s) x Q E := by
  refine h.weaken (fun _ ht => ht) (fun b t hr => ?_) fun _ _ he => he.elim
  obtain ⟨rfl, rfl⟩ := hr
  exact hQ

/-- An operation with one answer. -/
theorem Does.ask {op : Op} {a : Ans op} (hpre : M.Pre op s)
    (h : ∀ b t, M.Act op s b t → b = a ∧ t = s') :
    Does M s (Script.ask op : Code Op Ans ε (Ans op)) a s' := by
  refine Meets.ask (fun t ht => ?_) fun t b t' ht hb => ?_
  · rw [ht]
    exact hpre
  · rw [ht] at hb
    exact h b t' hb

end Does

end Script

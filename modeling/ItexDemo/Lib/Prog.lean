import Mathlib.Logic.Basic

/-!
# Programs with a state that can stop

A program changes a state and either returns or stops; the state is kept when it stops. `Meets` is
the triple with two postconditions, one for each way to end, and the rules below take a program
apart along its text.
-/

/-- Programs over the state `σ` that stop with `ε` or return `α`. -/
abbrev Prog (σ ε α : Type) : Type := ExceptT ε (StateM σ) α

namespace Prog

variable {σ ε α β : Type}

/-- Run a program. -/
def exec (x : Prog σ ε α) (s : σ) : Except ε α × σ := x.run.run s

@[simp] theorem exec_pure (a : α) (s : σ) : exec (pure a : Prog σ ε α) s = (.ok a, s) := rfl

@[simp] theorem exec_throw (e : ε) (s : σ) : exec (throw e : Prog σ ε α) s = (.error e, s) := rfl

@[simp] theorem exec_get (s : σ) : exec (get : Prog σ ε σ) s = (.ok s, s) := rfl

@[simp] theorem exec_set (s' s : σ) : exec (set s' : Prog σ ε PUnit) s = (.ok ⟨⟩, s') := rfl

@[simp] theorem exec_modify (f : σ → σ) (s : σ) :
    exec (modify f : Prog σ ε PUnit) s = (.ok ⟨⟩, f s) := rfl

theorem exec_bind (x : Prog σ ε α) (f : α → Prog σ ε β) (s : σ) :
    exec (x >>= f) s =
      match exec x s with
      | (.ok a, s') => exec (f a) s'
      | (.error e, s') => (.error e, s') := by
  show (match exec x s with | (r, s') => (ExceptT.bindCont f r).run s') = _
  rcases exec x s with ⟨r, s'⟩
  cases r <;> rfl

theorem exec_bind_ok {x : Prog σ ε α} {f : α → Prog σ ε β} {s s' : σ} {a : α}
    (h : exec x s = (.ok a, s')) : exec (x >>= f) s = exec (f a) s' := by
  rw [exec_bind, h]

theorem exec_bind_error {x : Prog σ ε α} {f : α → Prog σ ε β} {s s' : σ} {e : ε}
    (h : exec x s = (.error e, s')) : exec (x >>= f) s = (.error e, s') := by
  rw [exec_bind, h]

theorem exec_tryCatch (x : Prog σ ε α) (f : ε → Prog σ ε α) (s : σ) :
    exec (tryCatch x f) s =
      match exec x s with
      | (.ok a, s') => (.ok a, s')
      | (.error e, s') => exec (f e) s' := by
  show (match exec x s with | (r, s') => ((match r with
    | .ok a => ExceptT.run (pure a : Prog σ ε α)
    | .error e => (f e).run : StateM σ (Except ε α))).run s') = _
  rcases exec x s with ⟨r, s'⟩
  cases r <;> rfl

/-- From a state with `P` the program returns with `Q` or stops with `E`. -/
def Meets (P : σ → Prop) (x : Prog σ ε α) (Q : α → σ → Prop) (E : ε → σ → Prop) : Prop :=
  ∀ s, P s →
    match exec x s with
    | (.ok a, s') => Q a s'
    | (.error e, s') => E e s'

section Rules

variable {P P' : σ → Prop} {Q Q' : α → σ → Prop} {E E' : ε → σ → Prop} {x : Prog σ ε α}

theorem Meets.ok (h : Meets P x Q E) {s s' : σ} {a : α} (hs : P s)
    (hx : exec x s = (.ok a, s')) : Q a s' := by
  have := h s hs
  rwa [hx] at this

theorem Meets.error (h : Meets P x Q E) {s s' : σ} {e : ε} (hs : P s)
    (hx : exec x s = (.error e, s')) : E e s' := by
  have := h s hs
  rwa [hx] at this

/-- The rule for a program that is followed by another one. -/
theorem Meets.bind {R : β → σ → Prop} {f : α → Prog σ ε β} (h : Meets P x Q E)
    (hf : ∀ a, Meets (Q a) (f a) R E) : Meets P (x >>= f) R E := by
  intro s hs
  have hx := h s hs
  rw [exec_bind]
  rcases hexec : exec x s with ⟨r, s'⟩
  rw [hexec] at hx
  cases r with
  | ok a => exact hf a s' hx
  | error e => exact hx

/-- The rule of consequence. -/
theorem Meets.weaken (h : Meets P x Q E) (hP : ∀ s, P' s → P s) (hQ : ∀ a s, Q a s → Q' a s)
    (hE : ∀ e s, E e s → E' e s) : Meets P' x Q' E' := by
  intro s hs
  have hx := h s (hP s hs)
  rcases hexec : exec x s with ⟨r, s'⟩
  rw [hexec] at hx
  cases r with
  | ok a => exact hQ a s' hx
  | error e => exact hE e s' hx

theorem Meets.pre (h : Meets P x Q E) (hP : ∀ s, P' s → P s) : Meets P' x Q E :=
  h.weaken hP (fun _ _ hQ => hQ) fun _ _ hE => hE

theorem Meets.post (h : Meets P x Q E) (hQ : ∀ a s, Q a s → Q' a s) : Meets P x Q' E :=
  h.weaken (fun _ hP => hP) hQ fun _ _ hE => hE

theorem Meets.stop (h : Meets P x Q E) (hE : ∀ e s, E e s → E' e s) : Meets P x Q E' :=
  h.weaken (fun _ hP => hP) (fun _ _ hQ => hQ) hE

/-- To prove a triple from each state that meets its precondition. -/
theorem Meets.start (h : ∀ s₀, P s₀ → Meets (fun s => s = s₀) x Q E) : Meets P x Q E :=
  fun s hs => h s hs s rfl

theorem Meets.return {a : α} (h : ∀ s, P s → Q a s) : Meets P (pure a : Prog σ ε α) Q E := by
  intro s hs
  exact h s hs

theorem Meets.raise {e : ε} (h : ∀ s, P s → E e s) : Meets P (throw e : Prog σ ε α) Q E := by
  intro s hs
  exact h s hs

/-- Reading the state: the continuation is proved for the state that is read. -/
theorem Meets.read {f : σ → Prog σ ε α} (h : ∀ s₀, P s₀ → Meets (fun s => s = s₀) (f s₀) Q E) :
    Meets P (get >>= f) Q E := by
  intro s hs
  exact h s hs s rfl

theorem Meets.change {f : σ → σ} {Q : PUnit → σ → Prop} (h : ∀ s, P s → Q ⟨⟩ (f s)) :
    Meets P (modify f : Prog σ ε PUnit) Q E := by
  intro s hs
  exact h s hs

theorem Meets.ite {c : Prop} [Decidable c] {y : Prog σ ε α} (hx : c → Meets P x Q E)
    (hy : ¬c → Meets P y Q E) : Meets P (if c then x else y) Q E := by
  by_cases h : c
  · rw [if_pos h]
    exact hx h
  · rw [if_neg h]
    exact hy h

end Rules

end Prog

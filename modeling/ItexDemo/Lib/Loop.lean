import Mathlib.Logic.Function.Basic
import ItexDemo.Lib.Partial

/-!
# Counted loops over checked arrays

A loop body is a step that fails where it would leave an array. `forRange` runs a body for every
number of a range; its invariant rule goes up one number at a time. `Filled` says what an array of a
known size holds, and the rules for `load` and `store` keep it.
-/

namespace Loop

variable {σ : Type*}

/-- `count` rounds of `body`, with the numbers from `start` on. -/
def rounds (body : Nat → σ → Option σ) : Nat → Nat → σ → Option σ
  | 0, _, s => some s
  | count + 1, start, s => (body start s).bind (rounds body count (start + 1))

/-- `for(i = start; i < stop; i++)`. -/
def forRange (start stop : Nat) (body : Nat → σ → Option σ) (s : σ) : Option σ :=
  rounds body (stop - start) start s

/-- `for(i = 0; i < rows; i++) for(j = 0; j < columns; j++)`. -/
def nested (rows columns : Nat) (body : Nat → Nat → σ → Option σ) (s : σ) : Option σ :=
  forRange 0 rows (fun i => forRange 0 columns (body i)) s

theorem rounds_spec {body : Nat → σ → Option σ} {P : Nat → σ → Prop} {count start : Nat} {s : σ}
    (hstep : ∀ i s, start ≤ i → i < start + count → P i s → ∃ s', body i s = some s' ∧ P (i + 1) s')
    (h : P start s) : ∃ s', rounds body count start s = some s' ∧ P (start + count) s' := by
  induction count generalizing start s with
  | zero => exact ⟨s, rfl, h⟩
  | succ count ih =>
    obtain ⟨s₁, hs₁, h₁⟩ := hstep start s (Nat.le_refl _) (by omega) h
    obtain ⟨s₂, hs₂, h₂⟩ := ih (fun i s hlo hhi => hstep i s (by omega) (by omega)) h₁
    refine ⟨s₂, ?_, ?_⟩
    · rw [rounds, hs₁, Option.bind_some, hs₂]
    · rwa [show start + (count + 1) = start + 1 + count by omega]

/-- The invariant rule: when every round succeeds and takes the invariant one number further, the
loop succeeds and ends with the invariant at its bound. -/
theorem forRange_spec {start stop : Nat} {body : Nat → σ → Option σ} {P : Nat → σ → Prop} {s : σ}
    (hle : start ≤ stop)
    (hstep : ∀ i s, start ≤ i → i < stop → P i s → ∃ s', body i s = some s' ∧ P (i + 1) s')
    (h : P start s) : ∃ s', forRange start stop body s = some s' ∧ P stop s' := by
  have hstop : start + (stop - start) = stop := by omega
  rw [forRange, ← hstop, Nat.add_sub_cancel_left]
  exact rounds_spec (fun i s hlo hhi => hstep i s hlo (by omega)) h

theorem rounds_eq_none_of {body : Nat → σ → Option σ} {P : Nat → σ → Prop} {count start i : Nat}
    {s : σ} (hstep : ∀ k s s', P k s → body k s = some s' → P (k + 1) s') (hs : P start s)
    (hlo : start ≤ i) (hhi : i < start + count) (h : ∀ s, P i s → body i s = none) :
    rounds body count start s = none := by
  induction count generalizing start s with
  | zero => omega
  | succ count ih =>
    rw [rounds]
    rcases Nat.eq_or_lt_of_le hlo with rfl | hlt
    · rw [h s hs, Option.bind_none]
    · cases hbody : body start s with
      | none => rfl
      | some s₁ => exact ih (hstep start s s₁ hs hbody) (by omega) (by omega)

/-- A loop with a round that fails on every state that it can begin in fails. -/
theorem forRange_eq_none_of {start stop i : Nat} {body : Nat → σ → Option σ} {P : Nat → σ → Prop}
    {s : σ} (hstep : ∀ k s s', P k s → body k s = some s' → P (k + 1) s') (hs : P start s)
    (hlo : start ≤ i) (hhi : i < stop) (h : ∀ s, P i s → body i s = none) :
    forRange start stop body s = none :=
  rounds_eq_none_of hstep hs hlo (by omega) h

/-- A loop with a round that fails on every state fails. -/
theorem forRange_eq_none {start stop i : Nat} {body : Nat → σ → Option σ} (hlo : start ≤ i)
    (hhi : i < stop) (h : ∀ s, body i s = none) (s : σ) : forRange start stop body s = none :=
  forRange_eq_none_of (P := fun _ _ => True) (fun _ _ _ _ _ => trivial) trivial hlo hhi
    fun s _ => h s

theorem rounds_rel {body : Nat → σ → Option σ} {R : Nat → σ → σ → Prop} {count start : Nat} {s t : σ}
    (hstep : ∀ i s t, start ≤ i → i < start + count → R i s t →
      Option.Rel (R (i + 1)) (body i s) (body i t))
    (h : R start s t) :
    Option.Rel (R (start + count)) (rounds body count start s) (rounds body count start t) := by
  induction count generalizing start s t with
  | zero => exact .some h
  | succ count ih =>
    rw [rounds, rounds, show start + (count + 1) = start + 1 + count by omega]
    refine Partial.rel_bind (hstep start s t (Nat.le_refl _) (by omega) h) ?_
    intro s₁ t₁ h₁
    exact ih (fun i s t hlo hhi => hstep i s t (by omega) (by omega)) h₁

/-- **Two runs.** Two loops with one body keep a relation between their states that every round
takes one number further; when one of them fails, so does the other. -/
theorem forRange_rel {start stop : Nat} {body : Nat → σ → Option σ} {R : Nat → σ → σ → Prop}
    {s t : σ} (hle : start ≤ stop)
    (hstep : ∀ i s t, start ≤ i → i < stop → R i s t → Option.Rel (R (i + 1)) (body i s) (body i t))
    (h : R start s t) :
    Option.Rel (R stop) (forRange start stop body s) (forRange start stop body t) := by
  obtain ⟨count, rfl⟩ := Nat.exists_eq_add_of_le hle
  rw [forRange, forRange, Nat.add_sub_cancel_left]
  exact rounds_rel hstep h

/-- The same for a loop whose rounds do not fail. -/
theorem fold_rel {n : Nat} {body : (i : Nat) → i < n → σ → σ} {R : Nat → σ → σ → Prop}
    (hstep : ∀ i (hi : i < n) s t, R i s t → R (i + 1) (body i hi s) (body i hi t)) {s t : σ}
    (h : R 0 s t) : R n (Nat.fold n body s) (Nat.fold n body t) := by
  induction n with
  | zero => exact h
  | succ n ih =>
    rw [Nat.fold_succ, Nat.fold_succ]
    exact hstep n (Nat.lt_succ_self n) _ _ (ih fun i hi => hstep i (Nat.lt_succ_of_lt hi))

/-- The invariant rule for such a loop. -/
theorem fold_spec {n : Nat} {body : (i : Nat) → i < n → σ → σ} {P : Nat → σ → Prop}
    (hstep : ∀ i (hi : i < n) s, P i s → P (i + 1) (body i hi s)) {s : σ} (h : P 0 s) :
    P n (Nat.fold n body s) :=
  fold_rel (R := fun i s _ => P i s) (fun i hi s _ hP => hstep i hi s hP) (t := s) h

section Arrays

variable {α : Type*}

/-- `xs[i] = x`. -/
def store (xs : List α) (i : Nat) (x : α) : Option (List α) :=
  if i < xs.length then some (xs.set i x) else none

theorem length_of_store {xs xs' : List α} {i : Nat} {x : α} (h : store xs i x = some xs') :
    xs'.length = xs.length := by
  unfold store at h
  split at h
  · cases h
    exact List.length_set
  · cases h

/-- The array has `n` elements, and they are the values of `f`. -/
structure Filled (xs : List α) (n : Nat) (f : Nat → α) : Prop where
  length_eq : xs.length = n
  load : ∀ i < n, xs[i]? = some (f i)

theorem Filled.replicate (n : Nat) (x : α) : Filled (List.replicate n x) n fun _ => x where
  length_eq := List.length_replicate
  load i h := by rw [List.getElem?_replicate, if_pos h]

theorem Filled.store {xs : List α} {n : Nat} {f : Nat → α} (h : Filled xs n f) {i : Nat}
    (hi : i < n) (x : α) :
    ∃ xs', store xs i x = some xs' ∧ Filled xs' n (Function.update f i x) := by
  refine ⟨xs.set i x, if_pos (by rwa [h.length_eq]), ?_, ?_⟩
  · rw [List.length_set, h.length_eq]
  · intro k hk
    rw [List.getElem?_set]
    by_cases hki : i = k
    · subst hki
      rw [if_pos rfl, if_pos (by rwa [h.length_eq]), Function.update_self]
    · rw [if_neg hki, h.load k hk, Function.update_of_ne (Ne.symm hki)]

theorem Filled.congr {xs : List α} {n : Nat} {f g : Nat → α} (h : Filled xs n f)
    (hfg : ∀ i < n, f i = g i) : Filled xs n g where
  length_eq := h.length_eq
  load i hi := by rw [h.load i hi, hfg i hi]

/-- The elements of an array of a fixed size after a store. -/
theorem get_set {n : Nat} (xs : Vector α n) (i j : Fin n) (x : α) :
    (xs.set j x).get i = if i = j then x else xs.get i := by
  change (xs.set j x)[i.val] = if i = j then x else xs[i.val]
  rw [Vector.getElem_set]
  by_cases h : i = j
  · rw [if_pos h, if_pos (congrArg Fin.val h).symm]
  · rw [if_neg h, if_neg (fun hval => h (Fin.ext hval.symm))]

end Arrays

end Loop

import Mathlib.Data.Option.Basic

/-!
# Two runs that may fail

`Option.Rel R x y` says that two computations fail together or have results that `R` relates. The
rules follow the sequencing of the computations.
-/

namespace Partial

variable {α β γ δ : Type*} {R : α → β → Prop} {S : γ → δ → Prop} {x : Option α} {y : Option β}

theorem rel_cases (h : Option.Rel R x y) :
    (x = none ∧ y = none) ∨ ∃ a b, x = some a ∧ y = some b ∧ R a b := by
  cases h with
  | none => exact Or.inl ⟨rfl, rfl⟩
  | some h => exact Or.inr ⟨_, _, rfl, rfl, h⟩

/-- A result of the first run is related to one of the second. -/
theorem exists_right (h : Option.Rel R x y) {a : α} (hx : x = some a) : ∃ b, y = some b ∧ R a b := by
  subst hx
  rcases rel_cases h with ⟨hx, -⟩ | ⟨a', b, hx, hy, hab⟩
  · cases hx
  · cases hx
    exact ⟨b, hy, hab⟩

theorem exists_left (h : Option.Rel R x y) {b : β} (hy : y = some b) : ∃ a, x = some a ∧ R a b := by
  subst hy
  rcases rel_cases h with ⟨-, hy⟩ | ⟨a, b', hx, hy, hab⟩
  · cases hy
  · cases hy
    exact ⟨a, hx, hab⟩

theorem rel_bind {f : α → Option γ} {g : β → Option δ} (h : Option.Rel R x y)
    (hfg : ∀ a b, R a b → Option.Rel S (f a) (g b)) : Option.Rel S (x.bind f) (y.bind g) := by
  cases h with
  | none => exact .none
  | some h => exact hfg _ _ h

theorem rel_map {f : α → γ} {g : β → δ} (h : Option.Rel R x y) (hfg : ∀ a b, R a b → S (f a) (g b)) :
    Option.Rel S (x.map f) (y.map g) := by
  cases h with
  | none => exact .none
  | some h => exact .some (hfg _ _ h)

/-- A computation that both runs have in common. -/
theorem rel_bind_same (x : Option α) {f : α → Option γ} {g : α → Option δ}
    (hfg : ∀ a, Option.Rel S (f a) (g a)) : Option.Rel S (x.bind f) (x.bind g) := by
  cases x with
  | none => exact .none
  | some a => exact hfg a

/-- Runs whose rest does not see the difference. -/
theorem bind_eq {f : α → Option γ} {g : β → Option γ} (h : Option.Rel R x y)
    (hfg : ∀ a b, R a b → f a = g b) : x.bind f = y.bind g := by
  cases h with
  | none => rfl
  | some h => exact hfg _ _ h

end Partial

import Mathlib.Logic.Basic

/-!
# Exclusive references

A relation `R p o` says that place `p` refers to object `o`. It is exclusive when no object is
referred to from two places. An object can be handed over from one place to another, and objects
can be dropped, without losing this.
-/

namespace Ownership

variable {P O : Type*}

/-- No object is referred to from two places. -/
def Exclusive (R : P → O → Prop) : Prop := ∀ o p q, R p o → R q o → p = q

/-- `R'` is `R` with object `o` at place `p` and at no other place. -/
def Relocates (R R' : P → O → Prop) (o : O) (p : P) : Prop :=
  ∀ q x, R' q x ↔ (R q x ∧ x ≠ o) ∨ (q = p ∧ x = o)

/-- Every object of `S` is referred to from some place. -/
def Covers (R : P → O → Prop) (S : O → Prop) : Prop := ∀ o, S o → ∃ p, R p o

/-- `R'` refers only to what `R` refers to, except that a `moved` object has its new place. -/
def Follows (R R' : P → O → Prop) (moved : Option (P × O)) : Prop :=
  ∀ p o, R' p o → (R p o ∧ ∀ q, moved ≠ some (q, o)) ∨ moved = some (p, o)

theorem Exclusive.follow {R R' : P → O → Prop} {moved : Option (P × O)} (hR : Exclusive R)
    (h : Follows R R' moved) : Exclusive R' := by
  intro x q₁ q₂ h₁ h₂
  rcases h q₁ x h₁ with ⟨h₁, hstays⟩ | hmoved₁
  · rcases h q₂ x h₂ with ⟨h₂, -⟩ | hmoved₂
    · exact hR x q₁ q₂ h₁ h₂
    · exact absurd hmoved₂ (hstays q₂)
  · rcases h q₂ x h₂ with ⟨-, hstays⟩ | hmoved₂
    · exact absurd hmoved₁ (hstays q₁)
    · exact (Prod.mk.inj (Option.some.inj (hmoved₁.symm.trans hmoved₂))).1

theorem Relocates.follows {R R' : P → O → Prop} {o : O} {p : P} (h : Relocates R R' o p) :
    Follows R R' (some (p, o)) := by
  intro q x hq
  rcases (h q x).mp hq with ⟨hold, hx⟩ | ⟨rfl, rfl⟩
  · exact .inl ⟨hold, fun q' heq => hx (Prod.mk.inj (Option.some.inj heq)).2.symm⟩
  · exact .inr rfl

theorem Exclusive.relocate {R R' : P → O → Prop} {o : O} {p : P} (hR : Exclusive R)
    (h : Relocates R R' o p) : Exclusive R' :=
  hR.follow h.follows

theorem Relocates.of_others {R R' : P → O → Prop} {o : O} {p : P}
    (hothers : ∀ q x, x ≠ o → (R' q x ↔ R q x)) (hself : ∀ q, R' q o ↔ q = p) :
    Relocates R R' o p := by
  intro q x
  by_cases hx : x = o
  · subst hx
    simp [hself q]
  · simp [hx, hothers q x hx]

theorem Exclusive.mono {R R' : P → O → Prop} (hR : Exclusive R) (h : ∀ p o, R' p o → R p o) :
    Exclusive R' :=
  fun o p q hp hq => hR o p q (h p o hp) (h q o hq)

theorem Covers.relocate {R R' : P → O → Prop} {S S' : O → Prop} {o : O} {p : P} (hR : Covers R S)
    (h : Relocates R R' o p) (hS : ∀ x, S' x → x = o ∨ S x) : Covers R' S' := by
  intro x hx
  by_cases hxo : x = o
  · exact ⟨p, (h p x).mpr (Or.inr ⟨rfl, hxo⟩)⟩
  · obtain ⟨q, hq⟩ := hR x ((hS x hx).resolve_left hxo)
    exact ⟨q, (h q x).mpr (Or.inl ⟨hq, hxo⟩)⟩

end Ownership

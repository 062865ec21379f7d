import Mathlib.Data.Nat.Init
import ItexDemo.Lib.Loop

/-!
# Grids in flat arrays

A grid whose lines are `c` elements long and stand one after the other has its elements at
`i * c + j`. `Painted` is about such an array while it is written: a grid of `width` columns and
`height` rows, stored row after row, that is filled column after column.
-/

namespace Grid

theorem cell_lt {r c i j : Nat} (hi : i < r) (hj : j < c) : i * c + j < r * c := by
  have hrow : (i + 1) * c ≤ r * c := Nat.mul_le_mul_right c hi
  have hsucc : (i + 1) * c = i * c + c := Nat.succ_mul i c
  omega

theorem cell_inj {c i j i' j' : Nat} (hj : j < c) (hj' : j' < c) (h : i * c + j = i' * c + j') :
    i = i' ∧ j = j' := by
  have hrow : i = i' := by
    have := congrArg (· / c) h
    rwa [Nat.mul_comm i, Nat.mul_comm i', Nat.mul_add_div (by omega), Nat.mul_add_div (by omega),
      Nat.div_eq_of_lt hj, Nat.div_eq_of_lt hj'] at this
  subst hrow
  exact ⟨rfl, by omega⟩

/-- The element in column `i` and row `j`. -/
def index (width i j : Nat) : Nat := i + width * j

theorem index_eq (width i j : Nat) : index width i j = j * width + i := by
  rw [index, Nat.mul_comm, Nat.add_comm]

theorem index_lt {width height i j : Nat} (hi : i < width) (hj : j < height) :
    index width i j < width * height := by
  rw [index_eq, Nat.mul_comm width]
  exact cell_lt hj hi

theorem index_inj {width i j i' j' : Nat} (hi : i < width) (hi' : i' < width)
    (h : index width i j = index width i' j') : i = i' ∧ j = j' := by
  rw [index_eq, index_eq] at h
  exact (cell_inj hi hi' h).symm

/-- Every index of the array is that of an element of the grid. -/
theorem exists_index {width height k : Nat} (h : k < width * height) :
    ∃ i < width, ∃ j < height, k = index width i j := by
  have hwidth : 0 < width := Nat.pos_of_mul_pos_right (Nat.zero_lt_of_lt h)
  refine ⟨k % width, Nat.mod_lt _ hwidth, k / width, Nat.div_lt_of_lt_mul h, ?_⟩
  rw [index, Nat.mod_add_div]

section Painting

variable {α : Type*} {width height i j : Nat} {fill : α} {cell : Nat → Nat → Option α} {xs : List α}

/-- Column `i'` and row `j'` come before column `i` and row `j`. -/
def Before (i j i' j' : Nat) : Prop := i' < i ∨ i' = i ∧ j' < j

/-- The elements before column `i` and row `j` are those of `cell`, the others are `fill`. -/
structure Painted (xs : List α) (width height : Nat) (fill : α) (cell : Nat → Nat → Option α)
    (i j : Nat) : Prop where
  length_eq : xs.length = width * height
  done : ∀ i' < width, ∀ j' < height, Before i j i' j' → xs[index width i' j']? = cell i' j'
  todo : ∀ i' < width, ∀ j' < height, ¬ Before i j i' j' → xs[index width i' j']? = some fill

theorem Painted.replicate (width height : Nat) (fill : α) (cell : Nat → Nat → Option α) :
    Painted (List.replicate (width * height) fill) width height fill cell 0 0 where
  length_eq := List.length_replicate
  done i' _ j' _ h := by
    unfold Before at h
    omega
  todo i' hi' j' hj' _ := by rw [List.getElem?_replicate, if_pos (index_lt hi' hj')]

/-- The next element of a column. -/
theorem Painted.store (h : Painted xs width height fill cell i j) (hi : i < width) (hj : j < height)
    {x : α} (hx : cell i j = some x) :
    ∃ xs', Loop.store xs (index width i j) x = some xs' ∧
      Painted xs' width height fill cell i (j + 1) := by
  have hlt : index width i j < xs.length := by
    rw [h.length_eq]
    exact index_lt hi hj
  have hother {i' j' : Nat} (hi' : i' < width) (hne : ¬ (i' = i ∧ j' = j)) :
      (xs.set (index width i j) x)[index width i' j']? = xs[index width i' j']? := by
    apply List.getElem?_set_ne
    intro heq
    obtain ⟨rfl, rfl⟩ := index_inj hi hi' heq
    exact hne ⟨rfl, rfl⟩
  refine ⟨xs.set (index width i j) x, if_pos hlt, ?_, ?_, ?_⟩
  · rw [List.length_set, h.length_eq]
  · intro i' hi' j' hj' hbefore
    by_cases hcell : i' = i ∧ j' = j
    · obtain ⟨rfl, rfl⟩ := hcell
      rw [List.getElem?_set_self hlt, hx]
    · rw [hother hi' hcell]
      apply h.done i' hi' j' hj'
      unfold Before at hbefore ⊢
      omega
  · intro i' hi' j' hj' hafter
    unfold Before at hafter
    rw [hother hi' (by omega)]
    apply h.todo i' hi' j' hj'
    unfold Before
    omega

/-- A full column is followed by the next one. -/
theorem Painted.next (h : Painted xs width height fill cell i height) :
    Painted xs width height fill cell (i + 1) 0 where
  length_eq := h.length_eq
  done i' hi' j' hj' hbefore := by
    apply h.done i' hi' j' hj'
    unfold Before at hbefore ⊢
    omega
  todo i' hi' j' hj' hafter := by
    apply h.todo i' hi' j' hj'
    unfold Before at hafter ⊢
    omega

/-- The elements of a column that has been painted. -/
theorem Painted.column (h : Painted xs width height fill cell i j) {i' j' : Nat} (hi' : i' < i)
    (hwidth : i' < width) (hj' : j' < height) : xs[index width i' j']? = cell i' j' :=
  h.done i' hwidth j' hj' (Or.inl hi')

end Painting

end Grid

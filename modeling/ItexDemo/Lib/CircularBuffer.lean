import Mathlib.Data.List.Basic

/-!
# Circular buffers

A buffer of fixed capacity that overwrites its oldest element when it is full. Seen from its whole
input, such a buffer holds the last `capacity` elements that were pushed (`CircularBuffer.Holds`).
-/

/-- A circular buffer: at most `capacity` elements, the oldest first. -/
structure CircularBuffer (α : Type*) where
  capacity : Nat
  items : List α
  bounded : items.length ≤ capacity

namespace CircularBuffer

variable {α : Type*}

/-- The empty buffer of the given capacity. -/
def new (capacity : Nat) : CircularBuffer α where
  capacity := capacity
  items := []
  bounded := Nat.zero_le _

/-- The number of elements. -/
def size (b : CircularBuffer α) : Nat := b.items.length

/-- No element is stored. -/
def empty (b : CircularBuffer α) : Bool := b.items.isEmpty

/-- The next `pushBack` overwrites the oldest element. -/
def full (b : CircularBuffer α) : Bool := b.items.length == b.capacity

/-- Append an element. A full buffer drops its oldest element; a buffer of capacity `0` stays
empty. -/
def pushBack (b : CircularBuffer α) (x : α) : CircularBuffer α :=
  if hf : b.full then
    if he : b.empty then b
    else
      { b with
        items := b.items.tail ++ [x]
        bounded := by
          have hb := b.bounded
          have hpos : 0 < b.items.length := by simpa [empty, List.length_pos_iff] using he
          simp only [List.length_append, List.length_tail, List.length_singleton]
          omega }
  else
    { b with
      items := b.items ++ [x]
      bounded := by
        have hb := b.bounded
        have hne : b.items.length ≠ b.capacity := by simpa [full] using hf
        simp only [List.length_append, List.length_singleton]
        omega }

theorem pushBack_capacity (b : CircularBuffer α) (x : α) :
    (b.pushBack x).capacity = b.capacity := by
  unfold pushBack
  split_ifs <;> rfl

/-- The buffer holds what is left of the input `xs`: its last `capacity` elements. -/
def Holds (b : CircularBuffer α) (xs : List α) : Prop :=
  b.items = xs.drop (xs.length - b.capacity)

/-- Of the last elements of an input only the last ones are left when more is pushed. -/
theorem last_append (k : Nat) (xs ys : List α) :
    (xs.drop (xs.length - k) ++ ys).drop ((xs.drop (xs.length - k) ++ ys).length - k) =
      (xs ++ ys).drop ((xs ++ ys).length - k) := by
  rw [← List.drop_append_of_le_length (Nat.sub_le _ _), List.drop_drop]
  congr 1
  rw [List.length_drop, List.length_append]
  omega

theorem holds_new (capacity : Nat) : (new capacity : CircularBuffer α).Holds [] := by
  simp [Holds, new]

theorem Holds.size_eq {b : CircularBuffer α} {xs : List α} (h : b.Holds xs) :
    b.size = min xs.length b.capacity := by
  rw [size, show b.items = _ from h, List.length_drop]
  omega

theorem Holds.full_iff {b : CircularBuffer α} {xs : List α} (h : b.Holds xs) :
    b.full = true ↔ b.capacity ≤ xs.length := by
  have hs := h.size_eq
  unfold size at hs
  simp only [full, beq_iff_eq, hs]
  omega

theorem Holds.getElem? {b : CircularBuffer α} {xs : List α} (h : b.Holds xs) (i : Nat) :
    b.items[i]? = xs[xs.length - b.capacity + i]? := by
  rw [show b.items = _ from h, List.getElem?_drop]

/-- Pushing an element appends it to the input. -/
theorem Holds.pushBack {b : CircularBuffer α} {xs : List α} (h : b.Holds xs) (x : α) :
    (b.pushBack x).Holds (xs ++ [x]) := by
  have hs := h.size_eq
  have hfull := h.full_iff
  unfold Holds at h ⊢
  rw [pushBack_capacity, List.length_append, List.length_singleton]
  unfold CircularBuffer.pushBack
  split_ifs with hf he
  · -- capacity `0`: the buffer keeps nothing of its input
    simp only [empty, List.isEmpty_iff] at he
    have hcap : b.capacity = 0 := by
      simp only [full, beq_iff_eq, he, List.length_nil] at hf
      omega
    simp [he, hcap]
  · have hle := hfull.mp hf
    have hne : b.items ≠ [] := by simpa [empty] using he
    have hpos : 0 < b.capacity := by
      have := List.length_pos_iff.mpr hne
      have := b.bounded
      omega
    show b.items.tail ++ [x] = _
    rw [h, List.tail_drop, List.drop_append_of_le_length (by omega)]
    congr 2
    omega
  · have hlt : xs.length < b.capacity := by
      by_contra hge
      exact hf (hfull.mpr (by omega))
    show b.items ++ [x] = _
    rw [h, show xs.length - b.capacity = 0 by omega, show xs.length + 1 - b.capacity = 0 by omega]
    simp

end CircularBuffer

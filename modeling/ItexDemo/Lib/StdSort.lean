import Mathlib.Order.Defs.LinearOrder
import Mathlib.Data.List.Sort

/-!
# Sorting with an unspecified order of equivalent elements

`std::sort` rearranges a range so that no element comes before one that is smaller than it; how it
orders equivalent elements is left open. A `StdSort` is any function that does this.
-/

/-- A comparison that `std::sort` may be called with. -/
structure StrictWeakOrder {α : Type*} (lt : α → α → Bool) : Prop where
  asymm : ∀ a b, lt a b = true → lt b a = false
  /-- Not being smaller is transitive. -/
  trans : ∀ a b c, lt b a = false → lt c b = false → lt c a = false

/-- An implementation of `std::sort`. -/
structure StdSort (α : Type*) where
  sort : (α → α → Bool) → List α → List α
  perm : ∀ lt xs, (sort lt xs).Perm xs
  sorted : ∀ lt xs, StrictWeakOrder lt → (sort lt xs).Pairwise fun a b => lt b a = false

namespace StdSort

variable {α β : Type*}

theorem length_sort (s : StdSort α) (lt : α → α → Bool) (xs : List α) :
    (s.sort lt xs).length = xs.length := (s.perm lt xs).length_eq

/-- The order of a key, ascending. -/
theorem strictWeakOrder_key [LinearOrder β] (key : α → β) :
    StrictWeakOrder fun a b => decide (key a < key b) where
  asymm a b h := by
    simp only [decide_eq_true_eq, decide_eq_false_iff_not, not_lt] at h ⊢
    exact h.le
  trans a b c hab hbc := by
    simp only [decide_eq_false_iff_not, not_lt] at hab hbc ⊢
    exact hab.trans hbc

/-- The order of a key, descending. -/
theorem strictWeakOrder_key_desc [LinearOrder β] (key : α → β) :
    StrictWeakOrder fun a b => decide (key a > key b) where
  asymm a b h := (strictWeakOrder_key key).asymm b a h
  trans a b c hab hbc := (strictWeakOrder_key key).trans c b a hbc hab

/-- Insertion sort is one of them. -/
def insertion (α : Type*) : StdSort α where
  sort lt xs := xs.insertionSort fun a b => lt b a = false
  perm lt xs := List.perm_insertionSort _ xs
  sorted lt xs h := by
    have htotal : Std.Total fun a b => lt b a = false := ⟨fun a b => by
      cases hlt : lt b a with
      | false => exact Or.inl rfl
      | true => exact Or.inr (h.asymm b a hlt)⟩
    have htrans : IsTrans α fun a b => lt b a = false := ⟨h.trans⟩
    exact List.pairwise_insertionSort _ xs

/-! ## A key that tells the elements apart -/

section Keys

variable {key : α → β} {xs ys : List α}

/-- The keys of the elements are different. -/
def KeyNodup (key : α → β) (xs : List α) : Prop := (xs.map key).Nodup

theorem KeyNodup.filter (h : KeyNodup key xs) (p : α → Bool) : KeyNodup key (xs.filter p) :=
  List.Nodup.sublist (List.Sublist.map key List.filter_sublist) h

theorem KeyNodup.perm (h : KeyNodup key xs) (hperm : ys.Perm xs) : KeyNodup key ys :=
  (hperm.map key).nodup_iff.mpr h

variable [LinearOrder β] (s : StdSort α)

/-- Sorted in descending order of different keys: every key is below the ones before it. -/
theorem sort_desc_pairwise (h : KeyNodup key xs) :
    (s.sort (fun a b => decide (key a > key b)) xs).Pairwise fun a b => key b < key a := by
  have hsorted := s.sorted _ xs (strictWeakOrder_key_desc key)
  have hne : (s.sort (fun a b => decide (key a > key b)) xs).Pairwise fun a b => key a ≠ key b :=
    List.pairwise_map.mp (h.perm (s.perm _ xs))
  refine (hsorted.and hne).imp ?_
  rintro a b ⟨hle, hne⟩
  simp only [decide_eq_false_iff_not, not_lt, gt_iff_lt] at hle
  exact lt_of_le_of_ne hle hne.symm

theorem sort_asc_pairwise (h : KeyNodup key xs) :
    (s.sort (fun a b => decide (key a < key b)) xs).Pairwise fun a b => key a < key b := by
  have hsorted := s.sorted _ xs (strictWeakOrder_key key)
  have hne : (s.sort (fun a b => decide (key a < key b)) xs).Pairwise fun a b => key a ≠ key b :=
    List.pairwise_map.mp (h.perm (s.perm _ xs))
  refine (hsorted.and hne).imp ?_
  rintro a b ⟨hle, hne⟩
  simp only [decide_eq_false_iff_not, not_lt] at hle
  exact lt_of_le_of_ne hle hne

/-- In a list with descending keys the index of an element is the number of greater keys. -/
theorem countP_key_getElem (h : xs.Pairwise fun a b => key b < key a) {i : Nat}
    (hi : i < xs.length) : xs.countP (fun y => decide (key xs[i] < key y)) = i := by
  have hsplit : xs = xs.take i ++ xs[i] :: xs.drop (i + 1) := by
    rw [List.getElem_cons_drop, List.take_append_drop]
  have hbefore : ∀ y ∈ xs.take i, key xs[i] < key y := by
    intro y hy
    rw [hsplit, List.pairwise_append] at h
    exact h.2.2 y hy xs[i] List.mem_cons_self
  have hafter : ∀ y ∈ xs[i] :: xs.drop (i + 1), ¬ key xs[i] < key y := by
    intro y hy
    rw [hsplit, List.pairwise_append] at h
    rcases List.mem_cons.mp hy with rfl | hy
    · exact lt_irrefl _
    · exact ((List.pairwise_cons.mp h.2.1).1 y hy).asymm
  have hfirst : (xs.take i).countP (fun y => decide (key xs[i] < key y)) = i := by
    rw [List.countP_eq_length.mpr fun y hy => decide_eq_true (hbefore y hy), List.length_take]
    omega
  have hrest : (xs[i] :: xs.drop (i + 1)).countP (fun y => decide (key xs[i] < key y)) = 0 :=
    List.countP_eq_zero.mpr fun y hy => by simp [hafter y hy]
  calc xs.countP (fun y => decide (key xs[i] < key y))
      = (xs.take i ++ xs[i] :: xs.drop (i + 1)).countP (fun y => decide (key xs[i] < key y)) :=
        congrArg (List.countP fun y => decide (key xs[i] < key y)) hsplit
    _ = i := by rw [List.countP_append, hfirst, hrest, Nat.add_zero]

/-- An element is among the `limit` ones behind the first `offset` ones when the number of greater
keys says so. -/
theorem mem_window_iff (h : xs.Pairwise fun a b => key b < key a) {offset limit : Nat} {x : α} :
    x ∈ (xs.drop offset).take limit ↔
      x ∈ xs ∧ offset ≤ xs.countP (fun y => decide (key x < key y)) ∧
        xs.countP (fun y => decide (key x < key y)) < offset + limit := by
  constructor
  · intro hx
    obtain ⟨i, hi, rfl⟩ := List.getElem_of_mem hx
    have hlength := hi
    rw [List.length_take, List.length_drop] at hlength
    have hget : ((xs.drop offset).take limit)[i] = xs[offset + i] := by
      rw [List.getElem_take, List.getElem_drop]
    rw [hget, countP_key_getElem h (by omega)]
    exact ⟨List.getElem_mem _, by omega, by omega⟩
  · rintro ⟨hx, hlo, hhi⟩
    obtain ⟨i, hi, rfl⟩ := List.getElem_of_mem hx
    rw [countP_key_getElem h hi] at hlo hhi
    have hlength : i - offset < ((xs.drop offset).take limit).length := by
      rw [List.length_take, List.length_drop]
      omega
    have hget : ((xs.drop offset).take limit)[i - offset] = xs[i] := by
      simp only [List.getElem_take, List.getElem_drop]
      congr 1
      omega
    rw [← hget]
    exact List.getElem_mem hlength

/-- Two lists with ascending keys are equal when they have the same elements. -/
theorem eq_of_ascending (hxs : xs.Pairwise fun a b => key a < key b)
    (hys : ys.Pairwise fun a b => key a < key b) (hmem : ∀ x, x ∈ xs ↔ x ∈ ys) : xs = ys := by
  have hnodup {zs : List α} (h : zs.Pairwise fun a b => key a < key b) : zs.Nodup :=
    h.imp fun hlt heq => absurd hlt (by rw [heq]; exact lt_irrefl _)
  have hperm : xs.Perm ys := (List.perm_ext_iff_of_nodup (hnodup hxs) (hnodup hys)).mpr hmem
  exact hperm.eq_of_pairwise (fun a b _ _ hab hba => absurd hab hba.asymm) hxs hys

/-- The keys of an ascending list are different. -/
theorem keyNodup_of_ascending (h : xs.Pairwise fun a b => key a < key b) : KeyNodup key xs :=
  List.pairwise_map.mpr (h.imp fun hlt => hlt.ne)

/-- Sorting an ascending list the other way turns it around. -/
theorem sort_desc_of_ascending (h : xs.Pairwise fun a b => key a < key b) :
    s.sort (fun a b => decide (key a > key b)) xs = xs.reverse := by
  have hsorted := s.sort_desc_pairwise (keyNodup_of_ascending h)
  rw [← List.reverse_eq_iff]
  refine eq_of_ascending (List.pairwise_reverse.mpr hsorted) h fun x => ?_
  rw [List.mem_reverse, (s.perm _ xs).mem_iff]

theorem sort_asc_of_descending (h : xs.Pairwise fun a b => key b < key a) :
    s.sort (fun a b => decide (key a < key b)) xs = xs.reverse := by
  have hrev : xs.reverse.Pairwise fun a b => key a < key b := List.pairwise_reverse.mpr h
  have hnodup : KeyNodup key xs := (keyNodup_of_ascending hrev).perm xs.reverse_perm.symm
  refine eq_of_ascending (s.sort_asc_pairwise hnodup) hrev fun x => ?_
  rw [List.mem_reverse, (s.perm _ xs).mem_iff]

end Keys

end StdSort

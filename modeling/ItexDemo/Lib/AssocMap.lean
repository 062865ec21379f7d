import Mathlib.Data.List.Basic

/-!
# Finite maps as association lists

`find`, `emplace`, `assign` and `erase` follow the lookup, `emplace`, `operator[]` assignment and
`erase` of the standard containers: `emplace` keeps a value that is present, `assign` replaces it.
-/

namespace AssocMap

variable {K V : Type*} [DecidableEq K]

/-- The value stored under `k`. -/
def find : List (K × V) → K → Option V
  | [], _ => none
  | (k', v) :: m, k => if k' = k then some v else find m k

/-- Store `v` under `k` unless a value is stored there already. -/
def emplace (m : List (K × V)) (k : K) (v : V) : List (K × V) :=
  if (find m k).isSome then m else m ++ [(k, v)]

/-- Store `v` under `k`. -/
def assign : List (K × V) → K → V → List (K × V)
  | [], k, v => [(k, v)]
  | (k', v') :: m, k, v => if k' = k then (k, v) :: m else (k', v') :: assign m k v

/-- Store entries one after the other. -/
def assignAll (m entries : List (K × V)) : List (K × V) :=
  entries.foldl (fun m entry => assign m entry.1 entry.2) m

/-- The value of the last entry with this key. -/
def last : List (K × V) → K → Option V
  | [], _ => none
  | (k', v) :: entries, k => (last entries k).or (if k' = k then some v else none)

/-- Remove what is stored under `k`. -/
def erase : List (K × V) → K → List (K × V)
  | [], _ => []
  | (k', v) :: m, k => if k' = k then erase m k else (k', v) :: erase m k

@[simp] theorem find_nil (k : K) : find ([] : List (K × V)) k = none := rfl

theorem mem_of_find {m : List (K × V)} {k : K} {v : V} (h : find m k = some v) : (k, v) ∈ m := by
  induction m with
  | nil => cases h
  | cons p m ih =>
    obtain ⟨k₁, v₁⟩ := p
    unfold find at h
    split_ifs at h with hk
    · cases h
      rw [hk]
      exact List.mem_cons_self
    · exact List.mem_cons_of_mem _ (ih h)

theorem find_append (m m' : List (K × V)) (k : K) : find (m ++ m') k = (find m k).or (find m' k) := by
  induction m with
  | nil => rfl
  | cons p m ih =>
    obtain ⟨k₁, v₁⟩ := p
    by_cases hk : k₁ = k
    · simp [find, hk]
    · simp [find, hk, ih]

theorem find_eq_none {m : List (K × V)} {k : K} (h : ∀ p ∈ m, p.1 ≠ k) : find m k = none := by
  cases hfind : find m k with
  | none => rfl
  | some v => exact absurd rfl (h _ (mem_of_find hfind))

@[simp] theorem find_assign (m : List (K × V)) (k : K) (v : V) (k' : K) :
    find (assign m k v) k' = if k' = k then some v else find m k' := by
  induction m with
  | nil => simp [assign, find, eq_comm]
  | cons p m ih =>
    obtain ⟨k₁, v₁⟩ := p
    by_cases h1 : k₁ = k
    · subst h1
      by_cases h2 : k' = k₁
      · simp [assign, find, h2]
      · simp [assign, find, h2, Ne.symm h2]
    · by_cases h2 : k₁ = k'
      · subst h2
        simp [assign, find, h1]
      · simp [assign, find, h1, h2, ih]

theorem emplace_of_some {m : List (K × V)} {k : K} {v w : V} (h : find m k = some w) :
    emplace m k v = m := by
  rw [emplace, h]
  rfl

theorem emplace_of_none {m : List (K × V)} {k : K} {v : V} (h : find m k = none) :
    emplace m k v = m ++ [(k, v)] := by
  rw [emplace, h]
  rfl

theorem assign_of_none {m : List (K × V)} {k : K} {v : V} (h : find m k = none) :
    assign m k v = m ++ [(k, v)] := by
  induction m with
  | nil => rfl
  | cons p m ih =>
    obtain ⟨k₁, v₁⟩ := p
    rw [find] at h
    split_ifs at h with hk
    rw [assign, if_neg hk, ih h, List.cons_append]

theorem find_isSome {m : List (K × V)} {k : K} : (find m k).isSome ↔ k ∈ m.map Prod.fst := by
  induction m with
  | nil => simp
  | cons p m ih =>
    obtain ⟨k₁, v₁⟩ := p
    by_cases hk : k₁ = k
    · simp [find, hk]
    · simp [find, hk, ih, Ne.symm hk]

theorem nodup_emplace {m : List (K × V)} (h : (m.map Prod.fst).Nodup) (k : K) (v : V) :
    ((emplace m k v).map Prod.fst).Nodup := by
  cases hfind : find m k with
  | some w =>
    rw [emplace_of_some hfind]
    exact h
  | none =>
    have hk : k ∉ m.map Prod.fst := by
      rw [← find_isSome, hfind]
      exact nofun
    rw [emplace_of_none hfind, List.map_append, List.nodup_append]
    refine ⟨h, by simp, fun k₁ hk₁ k₂ hk₂ => ?_⟩
    obtain rfl : k₂ = k := List.mem_singleton.mp hk₂
    rintro rfl
    exact hk hk₁

/-- A key that is there keeps its place, a new one comes last. -/
theorem keys_assign (m : List (K × V)) (k : K) (v : V) :
    (assign m k v).map Prod.fst =
      if k ∈ m.map Prod.fst then m.map Prod.fst else m.map Prod.fst ++ [k] := by
  induction m with
  | nil => rfl
  | cons p m ih =>
    obtain ⟨k₁, v₁⟩ := p
    by_cases hk : k₁ = k
    · simp [assign, hk]
    · rw [assign, if_neg hk, List.map_cons, ih]
      by_cases hin : k ∈ m.map Prod.fst
      · have hin' : k ∈ ((k₁, v₁) :: m).map Prod.fst := by
          rw [List.map_cons]
          exact List.mem_cons_of_mem _ hin
        rw [if_pos hin, if_pos hin', List.map_cons]
      · have hout : k ∉ ((k₁, v₁) :: m).map Prod.fst := by
          rw [List.map_cons, List.mem_cons]
          rintro (h | h)
          · exact hk h.symm
          · exact hin h
        rw [if_neg hin, if_neg hout, List.map_cons, List.cons_append]

@[simp] theorem find_erase (m : List (K × V)) (k k' : K) :
    find (erase m k) k' = if k' = k then none else find m k' := by
  induction m with
  | nil => simp [erase]
  | cons p m ih =>
    obtain ⟨k₁, v₁⟩ := p
    by_cases h1 : k₁ = k
    · subst h1
      by_cases h2 : k' = k₁
      · subst h2
        simpa [erase] using ih
      · simp [erase, find, ih, h2, Ne.symm h2]
    · by_cases h2 : k₁ = k'
      · subst h2
        simp [erase, find, h1]
      · simp [erase, find, h1, h2, ih]

/-- A later entry replaces an earlier one with its key. -/
theorem assignAll_append (m entries entries' : List (K × V)) :
    assignAll m (entries ++ entries') = assignAll (assignAll m entries) entries' :=
  List.foldl_append

theorem find_assignAll (m entries : List (K × V)) (k : K) :
    find (assignAll m entries) k = (last entries k).or (find m k) := by
  induction entries generalizing m with
  | nil => rfl
  | cons entry entries ih =>
    obtain ⟨k', v⟩ := entry
    have hcons : assignAll m ((k', v) :: entries) = assignAll (assign m k' v) entries := rfl
    rw [hcons, ih, find_assign, last]
    by_cases hk : k' = k
    · simp [hk]
    · simp [hk, Ne.symm hk]

theorem mem_of_last {entries : List (K × V)} {k : K} {v : V} (h : last entries k = some v) :
    (k, v) ∈ entries := by
  induction entries with
  | nil => cases h
  | cons entry entries ih =>
    obtain ⟨k', v'⟩ := entry
    rw [last] at h
    cases hrest : last entries k with
    | some w =>
      rw [hrest, Option.some_or] at h
      exact List.mem_cons_of_mem _ (ih (hrest.trans h))
    | none =>
      rw [hrest, Option.none_or] at h
      split_ifs at h with hk
      cases h
      rw [hk]
      exact List.mem_cons_self

theorem exists_last {entries : List (K × V)} {k : K} {v : V} (h : (k, v) ∈ entries) :
    ∃ w, last entries k = some w := by
  induction entries with
  | nil => cases h
  | cons entry entries ih =>
    obtain ⟨k', v'⟩ := entry
    rw [last]
    rcases List.mem_cons.mp h with heq | hrest
    · obtain ⟨rfl, rfl⟩ := Prod.mk.inj heq
      cases hlast : last entries k with
      | none => exact ⟨v, by simp⟩
      | some w => exact ⟨w, by simp⟩
    · obtain ⟨w, hw⟩ := ih hrest
      exact ⟨w, by rw [hw, Option.some_or]⟩

/-- An entry is the last one of its key when all entries of this key have its value. -/
theorem last_of_mem {entries : List (K × V)} {k : K} {v : V} (h : (k, v) ∈ entries)
    (hunique : ∀ w, (k, w) ∈ entries → w = v) : last entries k = some v := by
  obtain ⟨w, hw⟩ := exists_last h
  rw [hw, hunique w (mem_of_last hw)]

/-- With different keys, an entry is what is stored under its key. -/
theorem find_of_mem {m : List (K × V)} (h : (m.map Prod.fst).Nodup) {entry : K × V}
    (hmem : entry ∈ m) : find m entry.1 = some entry.2 := by
  induction m with
  | nil => cases hmem
  | cons entry' m ih =>
    obtain ⟨k', v'⟩ := entry'
    rw [List.map_cons, List.nodup_cons] at h
    rw [find]
    rcases List.mem_cons.mp hmem with rfl | hrest
    · exact if_pos rfl
    · have hk : k' ≠ entry.1 := by
        intro hk
        have hin : entry.1 ∈ m.map Prod.fst := List.mem_map_of_mem hrest
        exact h.1 (hk ▸ hin)
      rw [if_neg hk, ih h.2 hrest]

/-- With different keys, every entry is the last one of its key. -/
theorem last_eq_find {entries : List (K × V)} (h : (entries.map Prod.fst).Nodup) (k : K) :
    last entries k = find entries k := by
  cases hfind : find entries k with
  | some v =>
    apply last_of_mem (mem_of_find hfind)
    intro w hw
    have hother : find entries k = some w := find_of_mem h hw
    rw [hfind] at hother
    exact (Option.some.inj hother).symm
  | none =>
    cases hlast : last entries k with
    | none => rfl
    | some v =>
      have hother : find entries k = some v := find_of_mem h (mem_of_last hlast)
      rw [hfind] at hother
      cases hother

omit [DecidableEq K] in
/-- A function that keeps the keys and has a result for every entry. -/
theorem exists_mapM {m : List (K × V)} {f : K × V → Option (K × V)} {P : K → V → Prop}
    (h : ∀ p ∈ m, ∃ v, f p = some (p.1, v) ∧ P p.1 v) :
    ∃ m', m.mapM f = some m' ∧ m'.map Prod.fst = m.map Prod.fst ∧ ∀ p ∈ m', P p.1 p.2 := by
  induction m with
  | nil => exact ⟨[], rfl, rfl, nofun⟩
  | cons p m ih =>
    obtain ⟨v, hv, hP⟩ := h p List.mem_cons_self
    obtain ⟨m', hm', hkeys, hall⟩ := ih fun q hq => h q (List.mem_cons_of_mem _ hq)
    refine ⟨(p.1, v) :: m', ?_, ?_, ?_⟩
    · rw [List.mapM_cons, hv, hm']
      rfl
    · rw [List.map_cons, List.map_cons, hkeys]
    · intro q hq
      rcases List.mem_cons.mp hq with rfl | hq
      · exact hP
      · exact hall q hq

theorem assign_assign (m : List (K × V)) (k : K) (v v' : V) :
    assign (assign m k v) k v' = assign m k v' := by
  induction m with
  | nil =>
    simp only [assign, if_true]
  | cons p m ih =>
    obtain ⟨k₁, v₁⟩ := p
    by_cases hk : k₁ = k
    · rw [assign, if_pos hk, assign, if_pos rfl, assign, if_pos hk]
    · rw [assign, if_neg hk, assign, if_neg hk, assign, if_neg hk, ih]

/-- Storing what is there changes nothing. -/
theorem assign_of_find {m : List (K × V)} {k : K} {v : V} (h : find m k = some v) :
    assign m k v = m := by
  induction m with
  | nil => cases h
  | cons p m ih =>
    obtain ⟨k₁, v₁⟩ := p
    unfold find at h
    by_cases hk : k₁ = k
    · rw [if_pos hk, Option.some.injEq] at h
      rw [assign, if_pos hk, hk, h]
    · rw [if_neg hk] at h
      rw [assign, if_neg hk, ih h]

end AssocMap

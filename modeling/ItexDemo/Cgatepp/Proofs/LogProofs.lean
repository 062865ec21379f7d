import Mathlib.Data.Set.List
import ItexDemo.Cgatepp.Proofs.VolumeProofs

/-!
# Proofs: the volumes of a path

The volumes have the ids from zero on, and all but the last one hold records (`Log`). The directory
then lists exactly these ids. Here is what the log is after a store and after a file was created.
-/

namespace Cgatepp

namespace Dumper

variable {d : Config}

variable (d) in
/-- The volumes on the file system. When the log is `kept`, they hold what has been written, in
order. -/
structure Log (kept : Prop) (vols : List Volume) (w : World) : Prop where
  paths : Discoverable d w.directories
  nodup : (w.files.map Prod.fst).Nodup
  volume : ∀ i v, vols[i]? = some v →
    ∃ content, AssocMap.find w.files (composeFilePath d i) = some content ∧ v.Layout d [] content
  absent : ∀ i, vols.length ≤ i → AssocMap.find w.files (composeFilePath d i) = none
  listed : ∀ path ∈ w.files.map Prod.fst,
    d.paths.parent_path path = d.paths.parent_path d.file_path_ → isVolume d path →
      ∃ id, composeFilePath d id = path
  full : ∀ i v, vols[i]? = some v → i + 1 < vols.length → v.records ≠ []
  count : vols.length < 2 ^ 64
  written : kept → vols.flatMap Volume.records = w.written

theorem composeFilePath_injective {i j : Nat} (h : composeFilePath d i = composeFilePath d j) :
    i = j := by
  unfold composeFilePath at h
  rw [List.append_assoc, List.append_assoc] at h
  exact Decimal.digits_injective (List.append_cancel_left (List.append_cancel_left h))

section Log

variable {kept : Prop} {vols : List Volume} {w w' : World}

/-- The log depends on the files and on what has been written. -/
theorem Log.congr (h : Log d kept vols w) (hdirs : w'.directories = w.directories)
    (hfiles : w'.files = w.files) (hwritten : w'.written = w.written) : Log d kept vols w' where
  paths := hdirs ▸ h.paths
  nodup := hfiles ▸ h.nodup
  volume := hfiles ▸ h.volume
  absent := hfiles ▸ h.absent
  listed := hfiles ▸ h.listed
  full := h.full
  count := h.count
  written := hwritten ▸ h.written

/-- A file of the path exists exactly for the ids of the volumes. -/
theorem Log.mem_files (h : Log d kept vols w) (i : Nat) :
    composeFilePath d i ∈ w.files.map Prod.fst ↔ i < vols.length := by
  rw [← AssocMap.find_isSome]
  constructor
  · intro hsome
    by_contra hlt
    rw [h.absent i (Nat.le_of_not_lt hlt)] at hsome
    cases hsome
  · intro hlt
    obtain ⟨content, hfind, -⟩ := h.volume i vols[i] (List.getElem?_eq_getElem hlt)
    rw [hfind]
    rfl

/-- `get_file_ids_list` finds the ids of the volumes. -/
theorem Log.ids (h : Log d kept vols w) :
    ∃ ids, readIds d ((w.files.map Prod.fst).filter fun file =>
        d.paths.parent_path file = d.paths.parent_path d.file_path_) = .ok ids ∧
      ids.insertionSort (· ≤ ·) = List.range vols.length := by
  obtain ⟨ids, hids⟩ : ∃ ids : List Nat, ids.map (composeFilePath d) =
      ((w.files.map Prod.fst).filter fun file =>
        d.paths.parent_path file = d.paths.parent_path d.file_path_).filter
          fun path => isVolume d path := by
    rw [← Set.mem_range, Set.range_list_map]
    intro path hpath
    simp only [List.mem_filter, decide_eq_true_eq] at hpath
    obtain ⟨⟨hmem, hparent⟩, hvolume⟩ := hpath
    exact h.listed path hmem hparent hvolume
  have hmem : ∀ i, i ∈ ids ↔ i < vols.length := by
    intro i
    have hi : i ∈ ids ↔ composeFilePath d i ∈ ids.map (composeFilePath d) := by
      constructor
      · exact List.mem_map_of_mem
      · intro hin
        obtain ⟨j, hj, heq⟩ := List.mem_map.mp hin
        exact composeFilePath_injective heq ▸ hj
    rw [hi, hids, ← h.mem_files i]
    simp only [List.mem_filter, decide_eq_true_eq]
    constructor
    · exact fun hin => hin.1.1
    · exact fun hin => ⟨⟨hin, h.paths.parent i⟩, h.paths.volume i⟩
  have hnodup : ids.Nodup := by
    have hmap : (ids.map (composeFilePath d)).Nodup := by
      rw [hids]
      exact (h.nodup.filter _).filter _
    exact List.Nodup.of_map _ hmap
  refine ⟨ids, ?_, ?_⟩
  · unfold readIds
    rw [← hids]
    have hread : ∀ is : List Nat, (∀ i ∈ is, i < 2 ^ 64) →
        (is.map (composeFilePath d)).mapM (fun path =>
          Decimal.stoull ((d.paths.extension path).drop 5)) = .ok is := by
      intro is his
      induction is with
      | nil => rfl
      | cons i is ih =>
        have hi := Decimal.stoull_digits (his i List.mem_cons_self)
        rw [List.map_cons, List.mapM_cons, h.paths.id i, hi,
          ih fun j hj => his j (List.mem_cons_of_mem _ hj)]
        rfl
    refine hread ids fun i hi => ?_
    have hlt := (hmem i).mp hi
    have hcount := h.count
    omega
  · have hperm : (ids.insertionSort (· ≤ ·)).Perm (List.range vols.length) := by
      refine (List.perm_insertionSort _ ids).trans ?_
      rw [List.perm_ext_iff_of_nodup hnodup List.nodup_range]
      intro i
      rw [hmem, List.mem_range]
    exact hperm.eq_of_sortedLE List.sortedLE_insertionSort (List.sortedLT_range _).sortedLE

/-- A volume gets other contents. -/
theorem Log.update (h : Log d kept vols w) {i : Nat} {v : Volume} {content : List UInt8}
    {written : List Record} (hi : i < vols.length) (hlayout : v.Layout d [] content)
    (hfull : i + 1 < vols.length → v.records ≠ [])
    (hwritten : kept → (vols.set i v).flatMap Volume.records = written) :
    Log d kept (vols.set i v)
      { w with
        files := AssocMap.assign w.files (composeFilePath d i) content
        written := written } where
  paths := h.paths
  nodup := by
    rw [AssocMap.keys_assign, if_pos ((h.mem_files i).mpr hi)]
    exact h.nodup
  volume := by
    intro j v' hj
    by_cases hij : j = i
    · subst hij
      rw [List.getElem?_set_self hi, Option.some.injEq] at hj
      subst hj
      exact ⟨content, by rw [AssocMap.find_assign, if_pos rfl], hlayout⟩
    · rw [List.getElem?_set_ne (Ne.symm hij)] at hj
      obtain ⟨content', hfind, hlayout'⟩ := h.volume j v' hj
      refine ⟨content', ?_, hlayout'⟩
      rw [AssocMap.find_assign, if_neg fun heq => hij (composeFilePath_injective heq), hfind]
  absent := by
    intro j hj
    rw [List.length_set] at hj
    have hij : j ≠ i := by omega
    rw [AssocMap.find_assign, if_neg fun heq => hij (composeFilePath_injective heq)]
    exact h.absent j hj
  listed := by
    intro path hpath
    rw [AssocMap.keys_assign, if_pos ((h.mem_files i).mpr hi)] at hpath
    exact h.listed path hpath
  full := by
    intro j v' hj hlt
    rw [List.length_set] at hlt
    by_cases hij : j = i
    · subst hij
      rw [List.getElem?_set_self hi, Option.some.injEq] at hj
      subst hj
      exact hfull hlt
    · rw [List.getElem?_set_ne (Ne.symm hij)] at hj
      exact h.full j v' hj hlt
  count := by
    rw [List.length_set]
    exact h.count
  written := hwritten

/-- A new volume behind the others, which all hold records. -/
theorem Log.create (h : Log d kept vols w) (hsize : GoodSize d)
    (hall : ∀ v ∈ vols, v.records ≠ []) (hcount : vols.length + 1 < 2 ^ 64) :
    Log d kept (vols ++ [{ initialised := false, records := [] }])
      { w with
        files := AssocMap.assign w.files (composeFilePath d vols.length)
          (List.replicate d.file_size_ 0) } where
  paths := h.paths
  nodup := by
    have hnew : composeFilePath d vols.length ∉ w.files.map Prod.fst := by
      intro hmem
      exact Nat.lt_irrefl _ ((h.mem_files _).mp hmem)
    rw [AssocMap.keys_assign, if_neg hnew, List.nodup_append]
    refine ⟨h.nodup, by simp, fun path hpath path' hpath' => ?_⟩
    rw [List.mem_singleton.mp hpath']
    rintro rfl
    exact hnew hpath
  volume := by
    intro j v hj
    by_cases hlt : j < vols.length
    · rw [List.getElem?_append_left hlt] at hj
      obtain ⟨content, hfind, hlayout⟩ := h.volume j v hj
      refine ⟨content, ?_, hlayout⟩
      have hne : j ≠ vols.length := by omega
      rw [AssocMap.find_assign, if_neg fun heq => hne (composeFilePath_injective heq), hfind]
    · obtain ⟨hlen, -⟩ := List.getElem?_eq_some_iff.mp hj
      rw [List.length_append, List.length_singleton] at hlen
      obtain rfl : j = vols.length := by omega
      rw [List.getElem?_concat_length, Option.some.injEq] at hj
      subst hj
      exact ⟨_, by rw [AssocMap.find_assign, if_pos rfl], Volume.layout_zeros hsize⟩
  absent := by
    intro j hj
    rw [List.length_append, List.length_singleton] at hj
    have hne : j ≠ vols.length := by omega
    rw [AssocMap.find_assign, if_neg fun heq => hne (composeFilePath_injective heq)]
    exact h.absent j (by omega)
  listed := by
    intro path hpath hparent hvolume
    rw [AssocMap.keys_assign] at hpath
    split_ifs at hpath with hin
    · exact h.listed path hpath hparent hvolume
    · rcases List.mem_append.mp hpath with hpath | hpath
      · exact h.listed path hpath hparent hvolume
      · exact ⟨vols.length, (List.mem_singleton.mp hpath).symm⟩
  full := by
    intro j v hj hlt
    rw [List.length_append, List.length_singleton] at hlt
    rw [List.getElem?_append_left (by omega)] at hj
    exact hall v (List.mem_of_getElem? hj)
  count := by
    rw [List.length_append, List.length_singleton]
    exact hcount
  written := by
    intro hk
    simpa using h.written hk

/-- The bytes of the mapped volume. -/
theorem Log.mapped (h : Log d kept vols w) {i : Nat} {v : Volume} (hv : vols[i]? = some v)
    (hmap : w.mapped_file_ = some (composeFilePath d i)) :
    ∃ content, w.mapped = some (composeFilePath d i, content) ∧ v.Layout d [] content ∧
      AssocMap.find w.files (composeFilePath d i) = some content := by
  obtain ⟨content, hfind, hlayout⟩ := h.volume i v hv
  refine ⟨content, ?_, hlayout, hfind⟩
  rw [World.mapped, hmap, Option.bind_some, hfind, Option.map_some]

end Log

end Dumper

end Cgatepp

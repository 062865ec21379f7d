import Mathlib.Data.Set.List
import ItexDemo.Cgatepp.Replaying
import ItexDemo.Cgatepp.Proofs.WritingProofs

/-!
# Proofs: the volumes that `get_file_ids_list` finds
-/

namespace Cgatepp

namespace Dumper

open Script

variable {d : Config} {w : World} {β : Type} {Q : Except Exception β → World → Prop}

/-- All values are read, or the first one that cannot be read decides. -/
theorem mapM_eq_ok {α γ ε : Type} {f : α → Except ε γ} {xs : List α} {ys : List γ} :
    xs.mapM f = .ok ys ↔ xs.map f = ys.map .ok := by
  induction xs generalizing ys with
  | nil =>
    rw [List.mapM_nil]
    cases ys with
    | nil => exact iff_of_true rfl rfl
    | cons y ys => exact iff_of_false nofun nofun
  | cons x xs ih =>
    rw [List.mapM_cons, List.map_cons]
    cases hx : f x with
    | error e =>
      cases ys with
      | nil => exact iff_of_false nofun nofun
      | cons y ys => exact iff_of_false nofun nofun
    | ok y =>
      cases hxs : xs.mapM f with
      | error e =>
        refine iff_of_false nofun fun h => ?_
        cases ys with
        | nil => cases h
        | cons y' ys =>
          have htail := ih.mpr (List.cons.inj h).2
          rw [hxs] at htail
          cases htail
      | ok ys' =>
        have htail := ih.mp hxs
        rw [htail]
        constructor
        · intro h
          cases h
          rfl
        · intro h
          have hinj : Function.Injective (Except.ok (ε := ε) (α := γ)) := fun _ _ => Except.ok.inj
          have heq : y :: ys' = ys := List.map_injective_iff.mpr hinj h
          rw [← heq]
          rfl

/-! ## Going backwards -/

/-- The ids are read from the names of the files in the directory. -/
theorem safe_getFileIdsList {f : List Nat → Code β} (hdir : HasDirectory d w) :
    Safe (anyAnswer d) Q (getFileIdsList d >>= f).run w ↔
      Safe (anyAnswer d) Q ((match (taken d w).mapM (readId d) with
        | .ok ids => pure (ids.insertionSort (· ≤ ·))
        | .error failure => throw (.conversion failure)) >>= f).run w := by
  have hask : ∀ choice, answer d.paths d.proto choice
      (.isDirectory (d.paths.parent_path d.file_path_)) w = some (true, w) := by
    intro choice
    exact congrArg (fun b => some (b, w)) (decide_eq_true hdir)
  have hfiles : ∀ choice, answer d.paths d.proto choice
      (.directoryIterator (d.paths.parent_path d.file_path_)) w =
        some ((w.files.map Prod.fst).filter fun file =>
          d.paths.parent_path file = d.paths.parent_path d.file_path_, w) := fun _ => rfl
  refine (safe_ask hask).trans ?_
  show Safe (anyAnswer d) Q (Script.ask (Op.directoryIterator (d.paths.parent_path d.file_path_)) >>=
    fun (files : List Text) => (match readIds d files with
      | .ok ids_list => pure (ids_list.insertionSort (· ≤ ·))
      | .error failure => throw (.conversion failure)) >>= f).run w ↔ _
  exact safe_ask hfiles

/-- Without the directory there are no ids. -/
theorem safe_getFileIdsList_nil {f : List Nat → Code β} (hdir : ¬HasDirectory d w) :
    Safe (anyAnswer d) Q (getFileIdsList d >>= f).run w ↔
      Safe (anyAnswer d) Q (f []).run w := by
  have hask : ∀ choice, answer d.paths d.proto choice
      (.isDirectory (d.paths.parent_path d.file_path_)) w = some (false, w) := by
    intro choice
    exact congrArg (fun b => some (b, w)) (decide_eq_false hdir)
  exact safe_ask hask

/-! ## The ids -/

theorem mem_taken {file : Text} :
    file ∈ taken d w ↔ file ∈ w.files.map Prod.fst ∧
      d.paths.parent_path file = d.paths.parent_path d.file_path_ ∧ isVolume d file := by
  unfold taken
  rw [List.mem_filter, List.mem_filter, decide_eq_true_eq, decide_eq_true_eq, and_assoc]

theorem mem_of_map_ok {ids : List Nat} (h : (taken d w).map (readId d) = ids.map .ok) (id : Nat) :
    id ∈ ids ↔ ∃ file ∈ taken d w, readId d file = .ok id := by
  have hinj : Function.Injective (Except.ok (ε := Decimal.Failure) (α := Nat)) :=
    fun _ _ => Except.ok.inj
  rw [← List.mem_map_of_injective hinj, ← h, List.mem_map]

/-- What is read is the list of the ids, if and only if the files stand for the volumes. -/
theorem standFor_iff (hfiles : (w.files.map Prod.fst).Nodup) :
    (∃ ids, (taken d w).mapM (readId d) = .ok ids ∧ ids.Nodup ∧
        ∀ id, id ∈ ids ↔ id < 2 ^ 64 ∧ HasVolume d w id) ↔ StandFor d w := by
  have hnodup : (taken d w).Nodup := (hfiles.filter _).filter _
  have hinj : Function.Injective (Except.ok (ε := Decimal.Failure) (α := Nat)) :=
    fun _ _ => Except.ok.inj
  constructor
  · rintro ⟨ids, hids, hdistinct, hmem⟩
    have hmap := mapM_eq_ok.mp hids
    have hread := mem_of_map_ok hmap
    refine ⟨fun file hfile => ?_, fun id hlt hvolume => ?_, ?_⟩
    · have hin : readId d file ∈ ids.map .ok := by
        rw [← hmap]
        exact List.mem_map_of_mem hfile
      obtain ⟨id, hid, heq⟩ := List.mem_map.mp hin
      exact ⟨id, ((hmem id).mp hid).1, heq.symm, ((hmem id).mp hid).2⟩
    · exact (hread id).mp ((hmem id).mpr ⟨hlt, hvolume⟩)
    · have hdistinct' : ((taken d w).map (readId d)).Nodup := by
        rw [hmap]
        exact hdistinct.map hinj
      exact fun file hfile file' hfile' heq => List.inj_on_of_nodup_map hdistinct' hfile hfile' heq
  · intro h
    obtain ⟨ids, hids⟩ : ∃ ids : List Nat, ids.map .ok = (taken d w).map (readId d) := by
      rw [← Set.mem_range, Set.range_list_map]
      intro r hr
      obtain ⟨file, hfile, rfl⟩ := List.mem_map.mp hr
      obtain ⟨id, -, hid, -⟩ := h.id file hfile
      exact ⟨id, hid.symm⟩
    have hread := mem_of_map_ok hids.symm
    refine ⟨ids, mapM_eq_ok.mpr hids.symm, ?_, fun id => ?_⟩
    · apply List.Nodup.of_map Except.ok
      rw [hids]
      exact hnodup.map_on fun file hfile file' hfile' heq => h.inj file hfile file' hfile' heq
    · rw [hread id]
      constructor
      · rintro ⟨file, hfile, hid⟩
        obtain ⟨id', hlt, hid', hvolume⟩ := h.id file hfile
        rw [hid] at hid'
        rw [Except.ok.inj hid']
        exact ⟨hlt, hvolume⟩
      · rintro ⟨hlt, hvolume⟩
        exact h.file id hlt hvolume

/-- When the volumes are taken, others may not be. -/
theorem standFor_iff_volumes (hnames : NamesAlike d) (hzero : isVolume d (composeFilePath d 0)) :
    StandFor d w ↔ ∀ file ∈ taken d w, ∃ id, id < 2 ^ 64 ∧ file = composeFilePath d id := by
  have hread : ∀ id < 2 ^ 64, readId d (composeFilePath d id) = .ok id := by
    intro id hlt
    unfold readId
    rw [hnames.id hzero]
    exact Decimal.stoull_digits hlt
  have htaken : ∀ id, HasVolume d w id → composeFilePath d id ∈ taken d w := by
    intro id hvolume
    exact mem_taken.mpr ⟨AssocMap.find_isSome.mp hvolume, hnames.parent hzero id, hnames.volume hzero id⟩
  constructor
  · intro h file hfile
    obtain ⟨id, hlt, hid, hvolume⟩ := h.id file hfile
    refine ⟨id, hlt, h.inj file hfile _ (htaken id hvolume) ?_⟩
    rw [hid, hread id hlt]
  · intro h
    refine ⟨fun file hfile => ?_, fun id hlt hvolume => ?_, fun file hfile file' hfile' heq => ?_⟩
    · obtain ⟨id, hlt, rfl⟩ := h file hfile
      exact ⟨id, hlt, hread id hlt, AssocMap.find_isSome.mpr (mem_taken.mp hfile).1⟩
    · exact ⟨_, htaken id hvolume, hread id hlt⟩
    · obtain ⟨id, hlt, rfl⟩ := h file hfile
      obtain ⟨id', hlt', rfl⟩ := h file' hfile'
      rw [hread id hlt, hread id' hlt'] at heq
      rw [Except.ok.inj heq]

theorem takesVolumes_iff (hnames : NamesAlike d) : TakesVolumes d w ↔ StandFor d w := by
  unfold TakesVolumes
  by_cases hzero : isVolume d (composeFilePath d 0)
  · rw [if_pos hzero, standFor_iff_volumes hnames hzero]
  · rw [if_neg hzero]

/-- A sorted list is strictly increasing when no id is twice in it. -/
theorem pairwise_insertionSort {ids : List Nat} :
    (ids.insertionSort (· ≤ ·)).Pairwise (· < ·) ↔ ids.Nodup := by
  rw [← List.sortedLT_iff_pairwise, List.sortedLT_iff_nodup_and_sortedLE]
  have hperm := List.perm_insertionSort (· ≤ ·) ids
  constructor
  · exact fun h => hperm.nodup_iff.mp h.1
  · exact fun h => ⟨hperm.nodup_iff.mpr h, List.sortedLE_insertionSort⟩

theorem listsVolumes_directory (hfiles : (w.files.map Prod.fst).Nodup) (hdir : HasDirectory d w) :
    ListsVolumes d w ↔ StandFor d w := by
  have hpure : getFileIdsList d = getFileIdsList d >>= pure := (bind_pure _).symm
  unfold ListsVolumes
  rw [hpure, safe_getFileIdsList hdir, ← standFor_iff hfiles]
  cases hread : (taken d w).mapM (readId d) with
  | error failure =>
    apply iff_of_false
    · exact id
    · rintro ⟨ids, hids, -⟩
      cases hids
  | ok ids =>
    have hmem : ∀ id, id ∈ ids.insertionSort (· ≤ ·) ↔ id ∈ ids := fun id =>
      (List.perm_insertionSort _ ids).mem_iff
    constructor
    · rintro ⟨-, hpairwise, hids⟩
      refine ⟨ids, rfl, pairwise_insertionSort.mp hpairwise, fun id => ?_⟩
      rw [← hmem, hids]
    · rintro ⟨ids', hids', hnodup, hids⟩
      obtain rfl := Except.ok.inj hids'
      refine ⟨rfl, pairwise_insertionSort.mpr hnodup, fun id => ?_⟩
      rw [hmem, hids]

theorem listsVolumes_no_directory (hdir : ¬HasDirectory d w) :
    ListsVolumes d w ↔ ∀ id < 2 ^ 64, ¬HasVolume d w id := by
  have hpure : getFileIdsList d = getFileIdsList d >>= pure := (bind_pure _).symm
  unfold ListsVolumes
  rw [hpure, safe_getFileIdsList_nil hdir]
  constructor
  · rintro ⟨-, -, hmem⟩ id hlt hvolume
    exact List.not_mem_nil ((hmem id).mpr ⟨hlt, hvolume⟩)
  · intro hnone
    refine ⟨rfl, List.Pairwise.nil, fun id => ?_⟩
    exact iff_of_false List.not_mem_nil fun h => hnone id h.1 h.2

/-- `get_file_ids_list` returns the ids of the volumes, if and only if the directory exists and only
volumes are taken for volumes, or neither the directory nor a volume exists. -/
theorem listsVolumes_iff (hfiles : (w.files.map Prod.fst).Nodup) (hnames : NamesAlike d) :
    ListsVolumes d w ↔ (HasDirectory d w → TakesVolumes d w) ∧
      (¬HasDirectory d w → ∀ id < 2 ^ 64, ¬HasVolume d w id) := by
  by_cases hdir : HasDirectory d w
  · rw [listsVolumes_directory hfiles hdir, takesVolumes_iff hnames]
    constructor
    · exact fun h => ⟨fun _ => h, fun hnot => absurd hdir hnot⟩
    · exact fun h => h.1 hdir
  · rw [listsVolumes_no_directory hdir]
    constructor
    · exact fun h => ⟨fun hin => absurd hin hdir, fun _ => h⟩
    · exact fun h => h.2 hdir

/-! ## Names in `boost::filesystem` -/

/-- A name with the extension that `compose_file_path` appends, backwards. -/
theorem reverse_composed (name : Text) (id : Nat) :
    (name ++ volumePrefix ++ Decimal.digits id).reverse =
      ((Decimal.digits id).reverse ++ "-lov".toList) ++ '.' :: name.reverse := by
  simp [volumePrefix]

/-- Neither a dot nor a slash is behind the last dot. -/
theorem ne_of_mem_end {c e : Char} {id : Nat} (hc : c.isDigit = false) (hc' : c ∉ "-lov".toList)
    (he : e ∈ (Decimal.digits id).reverse ++ "-lov".toList) : decide (e ≠ c) = true := by
  rw [decide_eq_true_eq]
  rintro rfl
  rcases List.mem_append.mp he with h | h
  · rw [Decimal.isDigit_of_mem_digits (List.mem_reverse.mp h)] at hc
    cases hc
  · exact hc' h

theorem reverse_composed_slash (name : Text) (id : Nat) :
    ∃ ext, (name ++ volumePrefix ++ Decimal.digits id).reverse = ext ++ name.reverse ∧
      ∀ e ∈ ext, decide (e ≠ '/') = true := by
  refine ⟨((Decimal.digits id).reverse ++ "-lov".toList) ++ ['.'], ?_, fun e he => ?_⟩
  · rw [reverse_composed, List.append_assoc _ ['.'], List.singleton_append]
  · rcases List.mem_append.mp he with h | h
    · exact ne_of_mem_end (by decide) (by decide) h
    · rw [List.mem_singleton.mp h]
      decide

theorem lastSegment_composed (name : Text) (id : Nat) :
    lastSegment (name ++ volumePrefix ++ Decimal.digits id) =
      lastSegment name ++ volumePrefix ++ Decimal.digits id := by
  obtain ⟨ext, hext, hslash⟩ := reverse_composed_slash name id
  have hreverse : ext.reverse = volumePrefix ++ Decimal.digits id := by
    have h := congrArg List.reverse hext
    rw [List.reverse_reverse, List.reverse_append, List.reverse_reverse, List.append_assoc] at h
    exact (List.append_cancel_left h).symm
  unfold lastSegment
  rw [hext, List.takeWhile_append_of_pos hslash, List.reverse_append, hreverse, List.append_assoc]

theorem plainFilename_composed (name : Text) (id : Nat) :
    plainFilename (name ++ volumePrefix ++ Decimal.digits id) =
      lastSegment name ++ volumePrefix ++ Decimal.digits id := by
  unfold plainFilename
  rw [if_neg, lastSegment_composed]
  intro hlast
  rw [List.getLast?_append_of_ne_nil _ (Decimal.digits_ne_nil id)] at hlast
  have hdigit := Decimal.isDigit_of_mem_digits (List.mem_of_getLast? hlast)
  cases hdigit

theorem splitExtension_composed (name : Text) (id : Nat) :
    splitExtension (name ++ volumePrefix ++ Decimal.digits id) =
      (name, volumePrefix ++ Decimal.digits id) := by
  have hmem : ∀ c ∈ volumePrefix, c ∈ name ++ volumePrefix ++ Decimal.digits id := fun c hc =>
    List.mem_append_left _ (List.mem_append_right _ hc)
  have hv : 'v' ∈ name ++ volumePrefix ++ Decimal.digits id := hmem _ (by decide)
  have hne : ∀ other : Text, 'v' ∉ other → name ++ volumePrefix ++ Decimal.digits id ≠ other :=
    fun other hother heq => hother (heq ▸ hv)
  have hend : ∀ e ∈ (Decimal.digits id).reverse ++ "-lov".toList, decide (e ≠ '.') = true :=
    fun e he => ne_of_mem_end (by decide) (by decide) he
  unfold splitExtension
  rw [if_pos ⟨hmem _ (by decide), hne _ (by decide), hne _ (by decide)⟩, reverse_composed,
    List.takeWhile_append_of_pos hend, List.dropWhile_append_of_pos hend]
  simp [volumePrefix]

/-- The paths outside of the root directory are all taken apart so. -/
theorem namesAlike_plain (hpaths : d.paths = plainPaths) : NamesAlike d := by
  have hext : ∀ id, d.paths.extension (composeFilePath d id) = volumePrefix ++ Decimal.digits id := by
    intro id
    rw [hpaths]
    show (splitExtension (plainFilename (composeFilePath d id))).2 = _
    rw [composeFilePath, plainFilename_composed, splitExtension_composed]
  have hstem : ∀ id, d.paths.stem (composeFilePath d id) = lastSegment d.file_path_ := by
    intro id
    rw [hpaths]
    show (splitExtension (plainFilename (composeFilePath d id))).1 = _
    rw [composeFilePath, plainFilename_composed, splitExtension_composed]
  refine ⟨fun _ id => ?_, fun hzero id => ?_, fun _ id => ?_⟩
  · obtain ⟨ext, hreverse, hslash⟩ := reverse_composed_slash d.file_path_ id
    rw [hpaths]
    show (((composeFilePath d id).reverse.dropWhile (· ≠ '/')).drop 1).reverse =
      ((d.file_path_.reverse.dropWhile (· ≠ '/')).drop 1).reverse
    rw [composeFilePath, hreverse, List.dropWhile_append_of_pos hslash]
  · refine ⟨?_, ?_⟩
    · rw [hstem, ← hstem 0]
      exact hzero.1
    · rw [hext]
      exact List.isPrefixOf_iff_prefix.mpr (List.prefix_append _ _)
  · rw [hext]
    rfl

section Examples

/-- Two volumes, and a file that is none. -/
def twoVolumes : World :=
  plainWorld "var".toList [("var/log.vol-1".toList, []), ("var/other.vol-7".toList, []),
    ("var/log.vol-0".toList, [])]

theorem listsVolumes_two : ListsVolumes oneRecordVolumes twoVolumes := by
  refine (listsVolumes_iff (by decide) (namesAlike_plain rfl)).mpr ⟨fun _ => ?_, fun hdir => ?_⟩
  · have htaken : taken oneRecordVolumes twoVolumes =
        [composeFilePath oneRecordVolumes 1, composeFilePath oneRecordVolumes 0] := by decide
    refine (if_pos (by decide)).mpr fun file hfile => ?_
    rw [htaken] at hfile
    rcases List.mem_cons.mp hfile with rfl | hfile
    · exact ⟨1, by decide, rfl⟩
    · exact ⟨0, by decide, List.mem_singleton.mp hfile⟩
  · exact absurd (by decide) hdir

/-- The volumes of a path without a directory are not found. -/
theorem volumes_beside_not_listed : ¬∀ (d : Config) (w : World), (w.files.map Prod.fst).Nodup →
    NamesAlike d → ListsVolumes d w := by
  intro h
  have hlists := h { oneRecordVolumes with file_path_ := "log".toList }
    (plainWorld "var".toList [("log.vol-0".toList, [])]) (by decide) (namesAlike_plain rfl)
  have hnone := (listsVolumes_no_directory (by decide)).mp hlists
  exact hnone 0 (by decide) (by decide)

end Examples

end Dumper

end Cgatepp

import ItexDemo.Cgatepp.Proofs.LogProofs

/-!
# Proofs: the functions of a `Dumper`

One lemma for each function, over operations that are called only while the volumes form a log. Most
functions have one result, whatever the answers are.
-/

namespace Cgatepp

namespace Dumper

open Script

variable {d : Config}

/-- What the log is compared with, whether the wrapped handler may throw, and which function runs. -/
structure Setting where
  kept : Prop
  mayThrow : Prop
  function : Function

variable (d) in
/-- The record that is made at this time can be written. -/
def Admits (S : Setting) (choice : Choice) (w : World) : Prop :=
  ∀ record, S.function.record choice.time = some record → Recordable d w record

variable (d) in
/-- The operations, which are called while the volumes form a log. -/
def machine (S : Setting) : Semantics Op Ans World where
  Pre := fun op w => (∃ vols, Log d S.kept vols w) ∧
    (S.kept → op ≠ .outOfFuel) ∧
    (op ≠ .outOfFuel → ∀ choice, (answer d.paths d.proto choice op w).isSome)
  Act := fun op w a w' => ∃ choice, choice.opening = .opened ∧ (choice.throws = true → S.mayThrow) ∧
    (op = .getTime → Admits d S choice w) ∧ answer d.paths d.proto choice op w = some (a, w')

variable {S : Setting} {vols : List Volume} {w w' : World}

/-! ## Operations -/

/-- An operation with one answer, when files open. -/
theorem does_answered {op : Op} {a : Ans op} (hlog : Log d S.kept vols w)
    (hfuel : op ≠ .outOfFuel)
    (hsome : ∀ choice, (answer d.paths d.proto choice op w).isSome)
    (ha : ∀ choice, choice.opening = .opened →
      answer d.paths d.proto choice op w = some (a, w')) :
    Does (machine d S) w (Script.ask op : Code (Ans op)) a w' := by
  refine .ask ⟨⟨vols, hlog⟩, fun _ => hfuel, fun _ => hsome⟩ ?_
  rintro b t ⟨choice, hopened, -, -, hb⟩
  rw [ha choice hopened, Option.some.injEq, Prod.mk.injEq] at hb
  exact ⟨hb.1.symm, hb.2.symm⟩

/-- An operation with one answer. -/
theorem does_ask {op : Op} {a : Ans op} (hlog : Log d S.kept vols w) (hfuel : op ≠ .outOfFuel)
    (ha : ∀ choice, answer d.paths d.proto choice op w = some (a, w')) :
    Does (machine d S) w (Script.ask op : Code (Ans op)) a w' := by
  refine does_answered hlog hfuel (fun choice => ?_) fun choice _ => ha choice
  rw [ha choice]
  rfl

variable (d) in
/-- Volume `i`, which is `v`, is mapped. -/
structure Mapped (kept : Prop) (vols : List Volume) (i : Nat) (v : Volume) (w : World) : Prop where
  log : Log d kept vols w
  volume : vols[i]? = some v
  mapped : w.mapped_file_ = some (composeFilePath d i)
  current : w.current_id_ = i

theorem Mapped.lt {kept : Prop} {i : Nat} {v : Volume} (h : Mapped d kept vols i v w) :
    i < vols.length :=
  (List.getElem?_eq_some_iff.mp h.volume).1

/-- What the functions below leave alone. -/
structure Frame (w w' : World) : Prop where
  state_ : w'.state_ = w.state_
  returned : w'.returned = w.returned
  written : w'.written = w.written

theorem Frame.refl (w : World) : Frame w w := ⟨rfl, rfl, rfl⟩

theorem Frame.trans {w₁ w₂ w₃ : World} (h₁ : Frame w₁ w₂) (h₂ : Frame w₂ w₃) : Frame w₁ w₃ :=
  ⟨h₂.state_.trans h₁.state_, h₂.returned.trans h₁.returned, h₂.written.trans h₁.written⟩

/-- A load from the mapped volume. -/
theorem does_load {path : Text} {content bytes : List UInt8} {offset size : Nat}
    (hlog : Log d S.kept vols w) (hmapped : w.mapped = some (path, content))
    (hslice : Bytes.slice content offset size = some bytes) :
    Does (machine d S) w (Script.ask (Op.load offset size) : Code (List UInt8)) bytes w := by
  refine does_ask hlog nofun fun choice => ?_
  show (w.mapped.bind fun p => (Bytes.slice p.2 offset size).map fun bytes => (bytes, w)) = _
  rw [hmapped, Option.bind_some, hslice]
  rfl

theorem does_getPos {i : Nat} {v : Volume} (hsize : GoodSize d) (h : Mapped d S.kept vols i v w) :
    Does (machine d S) w getPos (v.position d) w := by
  obtain ⟨content, hmapped, hlayout, -⟩ := h.log.mapped h.volume h.mapped
  obtain ⟨hslice, hdecode⟩ := hlayout.header hsize
  refine (does_load h.log hmapped hslice).next ?_
  rw [hdecode]
  exact Does.return

/-- A store into the mapped volume. -/
theorem does_store {path : Text} {content bytes : List UInt8} {offset : Nat}
    {completes : Option Record} (hlog : Log d S.kept vols w)
    (hmapped : w.mapped = some (path, content))
    (hroom : offset + bytes.length ≤ content.length) :
    Does (machine d S) w (Script.ask (Op.store offset bytes completes) : Code Unit) ()
      { w with
        files := AssocMap.assign w.files path (Bytes.overwrite content offset bytes)
        written := w.written ++ completes.toList } := by
  have hstore : w.store offset bytes completes = some { w with
      files := AssocMap.assign w.files path (Bytes.overwrite content offset bytes)
      written := w.written ++ completes.toList } := by
    rw [World.store, hmapped, Option.bind_some]
    exact if_pos hroom
  have ha : ∀ choice, answer d.paths d.proto choice (.store offset bytes completes) w =
      (w.store offset bytes completes).map fun w' => ((), w') := fun _ => rfl
  refine does_ask hlog nofun fun choice => ?_
  rw [ha, hstore]
  rfl

/-! ## Volumes -/

variable (d) in
/-- The bytes of the mapped volume, with `behind` stored behind its records. -/
structure Pending (kept : Prop) (vols : List Volume) (i : Nat) (v : Volume) (behind : List UInt8)
    (w : World) : Prop extends Mapped d kept vols i v w where
  content : ∃ content, AssocMap.find w.files (composeFilePath d i) = some content ∧
    v.Layout d behind content

theorem Mapped.pending {kept : Prop} {i : Nat} {v : Volume} (h : Mapped d kept vols i v w) :
    Pending d kept vols i v [] w :=
  ⟨h, h.log.volume i v h.volume⟩

/-- A store behind the records of the mapped volume. -/
theorem does_storeBehind {i : Nat} {v : Volume} {behind : List UInt8} {offset : Nat}
    (new : List UInt8) (h : Pending d S.kept vols i v behind w)
    (hoffset : offset = 8 + (frames d v.records).length + behind.length)
    (hroom : offset + new.length ≤ d.file_size_) :
    ∃ w', Does (machine d S) w (Script.ask (Op.store offset new none) : Code Unit) () w' ∧
      Pending d S.kept vols i v (behind ++ new) w' ∧ Frame w w' := by
  obtain ⟨content, hfind, hlayout⟩ := h.content
  have hmapped : w.mapped = some (composeFilePath d i, content) := by
    rw [World.mapped, h.mapped, Option.bind_some, hfind, Option.map_some]
  have hin : offset + new.length ≤ content.length := by rwa [hlayout.length]
  have hnew := hlayout.store hoffset hin
  have hset : vols.set i v = vols := by
    obtain ⟨hlt, hget⟩ := List.getElem?_eq_some_iff.mp h.volume
    rw [← hget, List.set_getElem_self]
  have hwritten : S.kept → (vols.set i v).flatMap Volume.records = w.written := by
    rw [hset]
    exact h.log.written
  have hlog := h.log.update h.lt hnew.weaken (h.log.full i v h.volume) hwritten
  rw [hset] at hlog
  refine ⟨_, does_store h.log hmapped hin, ?_, ⟨rfl, rfl, by simp⟩⟩
  refine ⟨⟨hlog.congr rfl rfl (by simp), h.volume, h.mapped, h.current⟩, _, ?_, hnew⟩
  rw [AssocMap.find_assign, if_pos rfl]

/-- `SerializeToArray`. -/
theorem does_storeBytes {i : Nat} {v : Volume} {behind : List UInt8} {offset : Nat}
    (new : List UInt8) (h : Pending d S.kept vols i v behind w)
    (hoffset : offset = 8 + (frames d v.records).length + behind.length)
    (hroom : offset + new.length ≤ d.file_size_) :
    ∃ w', Does (machine d S) w (storeBytes offset new) () w' ∧
      Pending d S.kept vols i v (behind ++ new) w' ∧ Frame w w' := by
  induction new generalizing behind offset w with
  | nil => exact ⟨w, .return, by simpa using h, .refl w⟩
  | cons byte new ih =>
    rw [List.length_cons] at hroom
    obtain ⟨w₁, hdoes₁, h₁, hframe₁⟩ := does_storeBehind [byte] h hoffset (by
      rw [List.length_singleton]
      omega)
    have hnext : offset + 1 = 8 + (frames d v.records).length + (behind ++ [byte]).length := by
      rw [hoffset, List.length_append, List.length_singleton]
      omega
    obtain ⟨w₂, hdoes₂, h₂, hframe₂⟩ := ih h₁ hnext (by omega)
    refine ⟨w₂, hdoes₁.next hdoes₂, ?_, hframe₁.trans hframe₂⟩
    rwa [List.append_assoc, List.singleton_append] at h₂

/-- The volumes in front of volume `i`, this one, and those behind it. -/
theorem split_at {i : Nat} {v : Volume} (hv : vols[i]? = some v) :
    vols = vols.take i ++ v :: vols.drop (i + 1) := by
  obtain ⟨hlt, hget⟩ := List.getElem?_eq_some_iff.mp hv
  rw [← hget, ← List.drop_eq_getElem_cons hlt, List.take_append_drop]

/-- A record in the last volume is the last one of all. -/
theorem flatMap_set_last {i : Nat} {v : Volume} {record : Record} (hv : vols[i]? = some v)
    (hlast : i + 1 = vols.length) :
    (vols.set i { initialised := true, records := v.records ++ [record] }).flatMap Volume.records =
      vols.flatMap Volume.records ++ [record] := by
  have hlen : (vols.take i).length = i := by
    rw [List.length_take]
    omega
  have hdrop : vols.drop (i + 1) = [] := List.drop_of_length_le (by omega)
  have hsplit := split_at hv
  rw [hdrop] at hsplit
  rw [List.set_eq_take_append_cons_drop, if_pos (by omega), hdrop]
  conv => rhs; rw [hsplit]
  simp

/-- The last three steps of `write_next`: the size, the record, and the position behind them. -/
theorem does_append {i : Nat} {v : Volume} {record : Record} (hsize : GoodSize d)
    (h : Mapped d S.kept vols i v w) (hshort : (d.proto.serialize record).length < 2 ^ 16)
    (hroom : 8 + (frames d v.records).length + 2 + recordSize d record ≤ d.file_size_)
    (hlast : S.kept → i + 1 = vols.length) :
    ∃ w', Does (machine d S) w (do
        Script.ask (Op.store (8 + (frames d v.records).length)
          (Bytes.encode 2 (recordSize d record)) none)
        serializeToArray d record (8 + (frames d v.records).length + 2) (recordSize d record)
        setPos (8 + (frames d v.records).length + 2 + recordSize d record) (some record)) () w' ∧
      Mapped d S.kept
        (vols.set i { initialised := true, records := v.records ++ [record] }) i
        { initialised := true, records := v.records ++ [record] } w' ∧
      w'.written = w.written ++ [record] ∧ w'.state_ = w.state_ ∧ w'.returned = w.returned := by
  have hlen := recordSize_of_short hshort
  have h2 : (Bytes.encode 2 (recordSize d record)).length = 2 := Bytes.length_encode 2 _
  obtain ⟨w₁, hdoes₁, h₁, hframe₁⟩ := does_storeBehind (Bytes.encode 2 (recordSize d record))
    h.pending rfl (by rw [h2, List.length_nil]; omega)
  rw [List.nil_append] at h₁
  obtain ⟨w₂, hdoes₂, h₂, hframe₂⟩ := does_storeBytes (d.proto.serialize record) h₁
    (by rw [h2]) (by omega)
  have hserialize : serializeToArray d record (8 + (frames d v.records).length + 2)
      (recordSize d record) = storeBytes (8 + (frames d v.records).length + 2)
        (d.proto.serialize record) := if_pos (by omega)
  obtain ⟨content, hfind, hlayout⟩ := h₂.content
  have hmapped : w₂.mapped = some (composeFilePath d i, content) := by
    rw [World.mapped, h₂.mapped, Option.bind_some, hfind, Option.map_some]
  have hbound : 0 + (Bytes.encode 8 (8 + (frames d v.records).length + 2 +
      recordSize d record)).length ≤ content.length := by
    have hgood := hsize.1
    rw [Bytes.length_encode, hlayout.length]
    omega
  have hdoes₃ : Does (machine d S) w₂
      (setPos (8 + (frames d v.records).length + 2 + recordSize d record) (some record)) () _ :=
    does_store h₂.log hmapped hbound
  rw [hserialize]
  refine ⟨_, hdoes₁.next (hdoes₂.next hdoes₃), ⟨?_, ?_, h₂.mapped, h₂.current⟩, ?_,
    hframe₂.state_.trans hframe₁.state_, hframe₂.returned.trans hframe₁.returned⟩
  · refine h₂.log.update h.lt (hlayout.setPos hshort) (fun _ => by simp) fun hk => ?_
    rw [flatMap_set_last h.volume (hlast hk), h₂.log.written hk]
    rfl
  · rw [List.getElem?_set_self h.lt]
  · show w₂.written ++ [record] = _
    rw [hframe₂.written, hframe₁.written]

/-- A new volume gets its position, another one has it. -/
theorem does_initialisePos {i : Nat} {v : Volume} (hsize : GoodSize d)
    (h : Mapped d S.kept vols i v w) :
    ∃ w', Does (machine d S) w initialisePos () w' ∧
      Mapped d S.kept (vols.set i { initialised := true, records := v.records }) i
        { initialised := true, records := v.records } w' ∧ Frame w w' := by
  by_cases hinit : v.initialised = true
  · have hv : ({ initialised := true, records := v.records } : Volume) = v := by rw [← hinit]
    have hset : vols.set i v = vols := by
      obtain ⟨hlt, hget⟩ := List.getElem?_eq_some_iff.mp h.volume
      rw [← hget, List.set_getElem_self]
    have hpos : v.position d ≠ 0 := by
      rw [Volume.position, if_pos hinit]
      omega
    rw [hv, hset]
    refine ⟨w, (does_getPos hsize h).next ?_, h, .refl w⟩
    rw [if_neg hpos]
    exact .return
  · have hnew : v.initialised = false := Bool.eq_false_iff.mpr hinit
    have hpos : v.position d = 0 := by rw [Volume.position, if_neg hinit]
    obtain ⟨content, hmapped, hlayout, hfind⟩ := h.log.mapped h.volume h.mapped
    have hrecords := hlayout.empty hnew
    have hbound : 0 + (Bytes.encode 8 8).length ≤ content.length := by
      have hgood := hsize.1
      rw [Bytes.length_encode, hlayout.length]
      omega
    have hwritten : S.kept →
        (vols.set i { initialised := true, records := [] }).flatMap Volume.records = w.written := by
      intro hk
      have hlen : (vols.take i).length = i := by
        rw [List.length_take]
        have := h.lt
        omega
      rw [← h.log.written hk, List.set_eq_take_append_cons_drop, if_pos h.lt]
      conv => rhs; rw [split_at h.volume]
      simp [hrecords]
    have hdoes : Does (machine d S) w (setPos 8 none) () _ :=
      does_store h.log hmapped hbound
    rw [hrecords]
    refine ⟨{ w with
      files := AssocMap.assign w.files (composeFilePath d i)
        (Bytes.overwrite content 0 (Bytes.encode 8 8))
      written := w.written ++ (none : Option Record).toList },
      (does_getPos hsize h).next ?_, ⟨?_, ?_, h.mapped, h.current⟩, ⟨rfl, rfl, ?_⟩⟩
    · rw [hpos, if_pos rfl]
      exact hdoes
    · have hlog := h.log.update h.lt (hlayout.initialise hnew)
        (fun hlt => absurd hrecords (h.log.full i v h.volume hlt)) hwritten
      exact hlog.congr rfl rfl (by simp)
    · rw [List.getElem?_set_self h.lt]
    · simp

/-- A file that there is is opened. -/
theorem does_openExisting {i : Nat} (hlog : Log d S.kept vols w) (hi : i < vols.length) :
    Does (machine d S) w (openVolume d i 0) ()
      { w with mapped_file_ := some (composeFilePath d i) } := by
  have hsome : (AssocMap.find w.files (composeFilePath d i)).isSome := by
    rw [AssocMap.find_isSome, hlog.mem_files]
    exact hi
  have ha : ∀ choice, answer d.paths d.proto choice (.open (composeFilePath d i) 0) w =
      some (w.openFile (composeFilePath d i) 0 choice.opening) := fun _ => rfl
  have hopen : Does (machine d S) w
      (Script.ask (Op.open (composeFilePath d i) 0) : Code Opening) .opened
      { w with mapped_file_ := some (composeFilePath d i) } := by
    refine does_answered hlog nofun (fun choice => ?_) fun choice hopened => ?_
    · rw [ha]
      rfl
    · rw [ha, hopened, World.openFile, if_neg (Nat.lt_irrefl 0), if_pos hsome]
      rfl
  exact hopen.next .return

/-- A file is created behind the volumes. -/
theorem does_openNew {size : Nat} (hlog : Log d S.kept vols w) (hpos : 0 < size) :
    Does (machine d S) w (openVolume d vols.length size) ()
      { w with
        files := AssocMap.assign w.files (composeFilePath d vols.length) (List.replicate size 0)
        mapped_file_ := some (composeFilePath d vols.length) } := by
  have ha : ∀ choice, answer d.paths d.proto choice
      (.open (composeFilePath d vols.length) size) w =
        some (w.openFile (composeFilePath d vols.length) size choice.opening) := fun _ => rfl
  have hopen : Does (machine d S) w
      (Script.ask (Op.open (composeFilePath d vols.length) size) : Code Opening) .opened
      { w with
        files := AssocMap.assign w.files (composeFilePath d vols.length) (List.replicate size 0)
        mapped_file_ := some (composeFilePath d vols.length) } := by
    refine does_answered hlog nofun (fun choice => ?_) fun choice hopened => ?_
    · rw [ha]
      rfl
    · rw [ha, hopened, World.openFile, if_pos hpos]
      rfl
  exact hopen.next .return

/-- The first steps of `open_file_and_get_pos`, up to the opening. -/
theorem does_switchTo {i new_file_size pos : Nat} (hlog : Log d S.kept vols w)
    (hrest : Does (machine d S) { w with mapped_file_ := none, current_id_ := i } (do
      openVolume d i new_file_size
      let state_ : Mode ← Script.ask Op.state
      if state_ = .REPLAYING then pure (0 + 8)
      else do
        initialisePos
        getPos) pos w') :
    Does (machine d S) w (openFileAndGetPos d i new_file_size) pos w' := by
  have hisOpen : Does (machine d S) w (Script.ask Op.isOpen : Code Bool) w.mapped_file_.isSome w :=
    does_ask hlog nofun fun _ => rfl
  have hclosed : Log d S.kept vols { w with mapped_file_ := none } := hlog.congr rfl rfl rfl
  have hid : Does (machine d S) { w with mapped_file_ := none }
      (Script.ask (Op.setCurrentId i) : Code Unit) ()
      { w with mapped_file_ := none, current_id_ := i } :=
    does_ask hclosed nofun fun _ => rfl
  unfold openFileAndGetPos
  refine hisOpen.next ?_
  cases hmap : w.mapped_file_ with
  | none =>
    have hw : { w with mapped_file_ := none } = w := by rw [← hmap]
    rw [hw] at hid
    exact hid.next hrest
  | some path =>
    have hclose : Does (machine d S) w (Script.ask Op.close : Code Unit) ()
        { w with mapped_file_ := none } :=
      does_ask hlog nofun fun _ => rfl
    exact hclose.next (hid.next hrest)

/-- The way to a volume that there is, during a replay. -/
theorem does_openExistingFile {i : Nat} {v : Volume} (hlog : Log d S.kept vols w)
    (hv : vols[i]? = some v) (hstate : w.state_ = .REPLAYING) :
    ∃ w', Does (machine d S) w (openFileAndGetPos d i 0) 8 w' ∧ Mapped d S.kept vols i v w' ∧
      Frame w w' := by
  have hi : i < vols.length := (List.getElem?_eq_some_iff.mp hv).1
  have hswitched : Log d S.kept vols { w with mapped_file_ := none, current_id_ := i } :=
    hlog.congr rfl rfl rfl
  have hopened : Mapped d S.kept vols i v
      { w with mapped_file_ := some (composeFilePath d i), current_id_ := i } :=
    ⟨hlog.congr rfl rfl rfl, hv, rfl, rfl⟩
  have hmode : Does (machine d S)
      { w with mapped_file_ := some (composeFilePath d i), current_id_ := i }
      (Script.ask Op.state : Code Mode) w.state_ _ :=
    does_ask hopened.log nofun fun _ => rfl
  refine ⟨_, does_switchTo hlog ((does_openExisting hswitched hi).next (hmode.next ?_)), hopened,
    ⟨rfl, rfl, rfl⟩⟩
  rw [if_pos hstate]
  exact .return

/-- The way to a new volume behind the others. -/
theorem does_openNewFile {i : Nat} (hsize : GoodSize d) (hlog : Log d S.kept vols w)
    (hlast : i = vols.length) (hall : ∀ v ∈ vols, v.records ≠ [])
    (hcount : vols.length + 1 < 2 ^ 64) :
    ∃ w' initialised, Does (machine d S) w (openFileAndGetPos d i d.file_size_) 8 w' ∧
      Mapped d S.kept (vols ++ [{ initialised := initialised, records := [] }]) i
        { initialised := initialised, records := [] } w' ∧ Frame w w' := by
  subst hlast
  have hpos : 0 < d.file_size_ := Nat.lt_of_lt_of_le (by decide) hsize.1
  have hswitched : Log d S.kept vols { w with mapped_file_ := none, current_id_ := vols.length } :=
    hlog.congr rfl rfl rfl
  have hcreated : Mapped d S.kept (vols ++ [{ initialised := false, records := [] }]) vols.length
      { initialised := false, records := [] }
      { w with
        files := AssocMap.assign w.files (composeFilePath d vols.length)
          (List.replicate d.file_size_ 0)
        mapped_file_ := some (composeFilePath d vols.length)
        current_id_ := vols.length } :=
    ⟨(hlog.create hsize hall hcount).congr rfl rfl rfl, List.getElem?_concat_length, rfl, rfl⟩
  have hopen := does_openNew (w := { w with mapped_file_ := none, current_id_ := vols.length })
    hswitched hpos
  have hmode : Does (machine d S) { w with
        files := AssocMap.assign w.files (composeFilePath d vols.length)
          (List.replicate d.file_size_ 0)
        mapped_file_ := some (composeFilePath d vols.length)
        current_id_ := vols.length }
      (Script.ask Op.state : Code Mode) w.state_ _ :=
    does_ask hcreated.log nofun fun _ => rfl
  by_cases hstate : w.state_ = .REPLAYING
  · refine ⟨_, false, does_switchTo hlog (hopen.next (hmode.next ?_)), hcreated, ⟨rfl, rfl, rfl⟩⟩
    rw [if_pos hstate]
    exact .return
  · obtain ⟨w₁, hinit, hmapped, hframe⟩ := does_initialisePos hsize hcreated
    have hset : (vols ++ [({ initialised := false, records := [] } : Volume)]).set vols.length
        { initialised := true, records := [] } = vols ++ [{ initialised := true, records := [] }] := by
      rw [List.set_append_right _ _ (Nat.le_refl _), Nat.sub_self]
      rfl
    rw [hset] at hmapped
    refine ⟨w₁, true, does_switchTo hlog (hopen.next (hmode.next ?_)), hmapped,
      ⟨hframe.state_, hframe.returned, hframe.written⟩⟩
    rw [if_neg hstate]
    exact hinit.next (does_getPos hsize hmapped)

/-! ## Writing -/

/-- All volumes hold records when the last one does. -/
theorem Log.filled_set {i : Nat} {v : Volume} (hlog : Log d S.kept vols w)
    (hlast : i + 1 = vols.length) (hv : v.records ≠ []) :
    ∀ u ∈ vols.set i v, u.records ≠ [] := by
  intro u hu
  obtain ⟨j, hj, hget⟩ := List.getElem_of_mem hu
  rw [List.getElem_set] at hget
  rw [List.length_set] at hj
  split_ifs at hget with hij
  · exact hget ▸ hv
  · exact hlog.full j u (hget ▸ List.getElem?_eq_getElem hj) (by omega)

/-- `write_next`, at the end of the log. -/
theorem does_writeNext {i : Nat} {v : Volume} {record : Record} (hsize : GoodSize d)
    (h : Mapped d S.kept vols i v w) (hinit : v.initialised = true)
    (hlast : i + 1 = vols.length) (hrecord : Recordable d w record) :
    ∃ w' vols' i' v', Does (machine d S) w (writeNext d record) () w' ∧
      Mapped d S.kept vols' i' v' w' ∧ v'.initialised = true ∧ i' + 1 = vols'.length ∧
      (∀ u ∈ vols', u.records ≠ []) ∧ w'.written = w.written ++ [record] ∧
      w'.state_ = w.state_ ∧ w'.returned = w.returned := by
  obtain ⟨hfits, hids⟩ := hrecord
  have hpos := does_getPos hsize h
  have hposition : v.position d = 8 + (frames d v.records).length := by
    rw [Volume.position, if_pos hinit]
  unfold writeNext
  rw [hposition] at hpos
  by_cases hroom : 8 + (frames d v.records).length + 2 + recordSize d record ≤ d.file_size_
  · have hcond : ¬(8 + (frames d v.records).length + 2 + recordSize d record) % 2 ^ 64 >
        d.file_size_ := by
      rw [Nat.mod_eq_of_lt (Nat.lt_of_le_of_lt hroom (Nat.lt_trans hsize.2 (by decide)))]
      omega
    obtain ⟨w', happend, hmapped, hwritten, hstate, hreturned⟩ :=
      does_append hsize h hfits.1 hroom fun _ => hlast
    refine ⟨w', _, i, _, hpos.next ?_, hmapped, rfl, ?_, ?_, hwritten, hstate, hreturned⟩
    · rw [if_neg hcond]
      exact happend
    · rw [List.length_set, hlast]
    · exact h.log.filled_set hlast (by simp)
  · have hids : w.current_id_ + 2 < 2 ^ 64 := by
      refine hids.resolve_left fun hin => hroom ?_
      obtain ⟨path, content, hmapped, hle⟩ := hin
      obtain ⟨content', hmapped', hlayout, -⟩ := h.log.mapped h.volume h.mapped
      obtain ⟨-, rfl⟩ := Prod.mk.inj (Option.some.inj (hmapped.symm.trans hmapped'))
      have hheader := hlayout.headerPosition hsize
      rw [headerPosition, hposition] at hheader
      rwa [hheader] at hle
    have hnonempty : v.records ≠ [] := by
      intro hempty
      have hfit := hfits.2
      rw [hempty, frames_nil, List.length_nil] at hroom
      omega
    have hall : ∀ u ∈ vols, u.records ≠ [] := by
      have hset : vols.set i v = vols := by
        obtain ⟨hlt, hget⟩ := List.getElem?_eq_some_iff.mp h.volume
        rw [← hget, List.set_getElem_self]
      exact hset ▸ h.log.filled_set hlast hnonempty
    have hle : 8 + (frames d v.records).length ≤ d.file_size_ := by
      obtain ⟨content, -, hlayout⟩ := h.log.volume i v h.volume
      exact Nat.le_of_add_right_le hlayout.length_le
    have hsmall := recordSize_lt (d := d) record
    have hlarge := hsize.2
    have hcond : (8 + (frames d v.records).length + 2 + recordSize d record) % 2 ^ 64 >
        d.file_size_ := by
      rw [Nat.mod_eq_of_lt (by omega)]
      omega
    have hcurrent : Does (machine d S) w (Script.ask Op.currentId : Code Nat) w.current_id_ w :=
      does_ask h.log (by simp) fun _ => rfl
    have hid : (w.current_id_ + 1) % 2 ^ 64 = vols.length := by
      rw [Nat.mod_eq_of_lt (by omega), h.current, hlast]
    obtain ⟨w₁, initialised, hopen, hmapped₁, hframe₁⟩ :=
      does_openNewFile hsize h.log hid hall (by rw [← hlast, ← h.current]; exact hids)
    have hlast₁ : (w.current_id_ + 1) % 2 ^ 64 + 1 =
        (vols ++ [({ initialised := initialised, records := [] } : Volume)]).length := by
      rw [hid, List.length_append, List.length_singleton]
    obtain ⟨w', happend, hmapped, hwritten, hstate, hreturned⟩ :=
      does_append hsize hmapped₁ hfits.1 (by rw [frames_nil]; exact hfits.2) fun _ => hlast₁
    refine ⟨w', _, _, _, hpos.next ?_, hmapped, rfl, ?_, ?_, ?_, hstate.trans hframe₁.state_,
      hreturned.trans hframe₁.returned⟩
    · rw [if_pos hcond]
      exact hcurrent.next (hopen.next happend)
    · rw [List.length_set, hlast₁]
    · exact hmapped₁.log.filled_set hlast₁ (by simp)
    · rw [hwritten, hframe₁.written]

end Dumper

end Cgatepp

import ItexDemo.Cgatepp.Proofs.MappingProofs
import ItexDemo.Cgatepp.Proofs.VolumeProofs

/-!
# Proofs: what `write_next` stores

The functions that `write_next` calls have one result each, apart from the openings, so that what
is safe behind them can be computed backwards through its text.
-/

namespace Cgatepp

namespace Dumper

open Script

variable {d : Config} {w w' : World} {α β : Type} {Q : Except Exception β → World → Prop}

/-! ## Going backwards -/

/-- An operation with one answer. -/
theorem safe_ask {op : Op} {a : Ans op} {f : Ans op → Code β}
    (ha : ∀ choice, answer d.paths d.proto choice op w = some (a, w')) :
    Safe (anyAnswer d) Q (Script.ask op >>= f).run w ↔ Safe (anyAnswer d) Q (f a).run w' := by
  constructor
  · rintro ⟨-, h⟩
    exact h a w' ⟨⟨0, false, .opened⟩, ha _⟩
  · intro h
    refine ⟨fun choice => ?_, ?_⟩
    · rw [ha choice]
      rfl
    · rintro b t ⟨choice, hb⟩
      obtain ⟨rfl, rfl⟩ := Prod.mk.inj (Option.some.inj ((ha choice).symm.trans hb))
      exact h

/-- An operation that may not be called. -/
theorem not_safe_ask {op : Op} {f : Ans op → Code β}
    (ha : ∀ choice, answer d.paths d.proto choice op w = none) :
    ¬Safe (anyAnswer d) Q (Script.ask op >>= f).run w := by
  rintro ⟨h, -⟩
  have hsome := h ⟨0, false, .opened⟩
  rw [ha] at hsome
  cases hsome

variable {path : Text} {content : List UInt8}

theorem safe_getPos {f : Nat → Code β} (hmapped : w.mapped = some (path, content))
    (hlen : 8 ≤ content.length) :
    Safe (anyAnswer d) Q (getPos >>= f).run w ↔
      Safe (anyAnswer d) Q (f (headerPosition content)).run w := by
  have hload : ∀ choice, answer d.paths d.proto choice (.load 0 8) w = some (content.take 8, w) := by
    intro choice
    show (w.mapped.bind fun p => (Bytes.slice p.2 0 8).map fun bytes => (bytes, w)) = _
    rw [hmapped, Option.bind_some, Bytes.slice, if_pos (by omega)]
    rfl
  exact safe_ask hload

theorem not_safe_getPos {f : Nat → Code β} (hshort : ∀ p, w.mapped = some p → p.2.length < 8) :
    ¬Safe (anyAnswer d) Q (getPos >>= f).run w := by
  have hload : ∀ choice, answer d.paths d.proto choice (.load 0 8) w = none := by
    intro choice
    show (w.mapped.bind fun p => (Bytes.slice p.2 0 8).map fun bytes => (bytes, w)) = none
    cases hmapped : w.mapped with
    | none => rfl
    | some p =>
      have hlt := hshort p hmapped
      rw [Option.bind_some, Bytes.slice, if_neg (by omega)]
      rfl
  exact not_safe_ask hload

/-- The world after a store into the mapped file. -/
def World.stored (w : World) (path : Text) (content : List UInt8) (completes : Option Record) :
    World :=
  { w with
    files := AssocMap.assign w.files path content
    written := w.written ++ completes.toList }

theorem find_of_mapped (hmapped : w.mapped = some (path, content)) :
    w.mapped_file_ = some path ∧ AssocMap.find w.files path = some content := by
  obtain ⟨path', hpath', hmap⟩ := Option.bind_eq_some_iff.mp hmapped
  obtain ⟨content', hfind, heq⟩ := Option.map_eq_some_iff.mp hmap
  obtain ⟨rfl, rfl⟩ := Prod.mk.inj heq
  exact ⟨hpath', hfind⟩

theorem mapped_stored {completes : Option Record} {content' : List UInt8}
    (hmapped : w.mapped = some (path, content)) :
    (w.stored path content' completes).mapped = some (path, content') := by
  have hpath := (find_of_mapped hmapped).1
  unfold World.mapped World.stored
  rw [hpath, Option.bind_some, AssocMap.find_assign, if_pos rfl, Option.map_some]

theorem stored_stored (content' content'' : List UInt8) (completes : Option Record) :
    (w.stored path content' none).stored path content'' completes =
      w.stored path content'' completes := by
  unfold World.stored
  rw [AssocMap.assign_assign, Option.toList_none, List.append_nil]

theorem stored_self (hmapped : w.mapped = some (path, content)) : w.stored path content none = w := by
  unfold World.stored
  rw [AssocMap.assign_of_find (find_of_mapped hmapped).2, Option.toList_none, List.append_nil]

theorem safe_store {offset : Nat} {bytes : List UInt8} {completes : Option Record}
    {f : Unit → Code β} (hmapped : w.mapped = some (path, content))
    (hroom : offset + bytes.length ≤ content.length) :
    Safe (anyAnswer d) Q (Script.ask (Op.store offset bytes completes) >>= f).run w ↔
      Safe (anyAnswer d) Q (f ()).run
        (w.stored path (Bytes.overwrite content offset bytes) completes) := by
  have hstore : w.store offset bytes completes =
      some (w.stored path (Bytes.overwrite content offset bytes) completes) := by
    rw [World.store, hmapped, Option.bind_some]
    exact if_pos hroom
  have ha : ∀ choice, answer d.paths d.proto choice (.store offset bytes completes) w =
      (w.store offset bytes completes).map fun w' => ((), w') := fun _ => rfl
  refine safe_ask fun choice => ?_
  rw [ha, hstore]
  rfl

theorem not_safe_store {offset : Nat} {bytes : List UInt8} {completes : Option Record}
    {f : Unit → Code β} (hmapped : w.mapped = some (path, content))
    (hroom : content.length < offset + bytes.length) :
    ¬Safe (anyAnswer d) Q (Script.ask (Op.store offset bytes completes) >>= f).run w := by
  have hstore : w.store offset bytes completes = none := by
    rw [World.store, hmapped, Option.bind_some]
    exact if_neg (Nat.not_le.mpr hroom)
  have ha : ∀ choice, answer d.paths d.proto choice (.store offset bytes completes) w =
      (w.store offset bytes completes).map fun w' => ((), w') := fun _ => rfl
  refine not_safe_ask fun choice => ?_
  rw [ha, hstore]
  rfl

/-- The single stores of `SerializeToArray`. -/
theorem safe_storeBytes {offset : Nat} {bytes : List UInt8} {f : Unit → Code β}
    (hmapped : w.mapped = some (path, content)) (hroom : offset + bytes.length ≤ content.length) :
    Safe (anyAnswer d) Q (storeBytes offset bytes >>= f).run w ↔
      Safe (anyAnswer d) Q (f ()).run
        (w.stored path (Bytes.overwrite content offset bytes) none) := by
  induction bytes generalizing offset w content with
  | nil =>
    have hnil : Bytes.overwrite content offset [] = content := by
      rw [Bytes.overwrite, List.append_nil, List.length_nil, Nat.add_zero, List.take_append_drop]
    rw [hnil, stored_self hmapped]
    exact Iff.rfl
  | cons byte bytes ih =>
    rw [List.length_cons] at hroom
    have hone : offset + [byte].length ≤ content.length := by
      rw [List.length_singleton]
      omega
    have hrest : offset + 1 + bytes.length ≤ (Bytes.overwrite content offset [byte]).length := by
      rw [Bytes.length_overwrite hone]
      omega
    refine (safe_store hmapped hone).trans ((ih (mapped_stored hmapped) hrest).trans ?_)
    have happend : Bytes.overwrite (Bytes.overwrite content offset [byte]) (offset + 1) bytes =
        Bytes.overwrite content offset (byte :: bytes) := Bytes.overwrite_append hone
    rw [happend, stored_stored]

theorem not_safe_storeBytes {offset : Nat} {bytes : List UInt8} {f : Unit → Code β}
    (hne : bytes ≠ []) (hmapped : w.mapped = some (path, content))
    (hroom : content.length < offset + bytes.length) :
    ¬Safe (anyAnswer d) Q (storeBytes offset bytes >>= f).run w := by
  induction bytes generalizing offset w content with
  | nil => exact absurd rfl hne
  | cons byte bytes ih =>
    rw [List.length_cons] at hroom
    by_cases hone : offset + [byte].length ≤ content.length
    · intro h
      have hrest := (safe_store hmapped hone).mp h
      rw [List.length_singleton] at hone
      have hlen : (Bytes.overwrite content offset [byte]).length = content.length :=
        Bytes.length_overwrite hone
      refine ih ?_ (mapped_stored hmapped) (by omega) hrest
      rintro rfl
      rw [List.length_nil] at hroom
      omega
    · exact not_safe_store hmapped (by omega)

theorem headerPosition_overwrite (content : List UInt8) (n : Nat) :
    headerPosition (Bytes.overwrite content 0 (Bytes.encode 8 n)) = n % 2 ^ 64 := by
  have htake : (Bytes.overwrite content 0 (Bytes.encode 8 n)).take 8 = Bytes.encode 8 n := by
    have hlen : (Bytes.encode 8 n).length = 8 := Bytes.length_encode 8 n
    rw [Bytes.overwrite, List.take_zero, List.nil_append, List.take_left' hlen]
  rw [headerPosition, htake, Bytes.decode_encode_mod]
  rfl

/-! ## The next volume -/

/-- The world when the volume `id` is about to be opened. -/
def World.closed (w : World) (id : Nat) : World :=
  { w with mapped_file_ := none, current_id_ := id }

/-- The world with a volume of zeros that is opened. -/
def World.created (w : World) (path : Text) (size : Nat) : World :=
  { w with
    files := AssocMap.assign w.files path (.replicate size 0)
    mapped_file_ := some path }

theorem mapped_created {path : Text} {size : Nat} :
    (w.created path size).mapped = some (path, .replicate size 0) := by
  unfold World.mapped World.created
  rw [Option.bind_some, AssocMap.find_assign, if_pos rfl, Option.map_some]

/-- A file is opened, or one of the two failures is left. -/
theorem safe_openVolume {id size : Nat} {f : Unit → Code β} :
    Safe (anyAnswer d) Q (openVolume d id size >>= f).run w ↔
      (∀ w', w.openFile (composeFilePath d id) size .opened = (.opened, w') →
        Safe (anyAnswer d) Q (f ()).run w') ∧
        Q (.error (.dumper "Can not open memory mapped file")) w ∧ Q (.error .boost) w := by
  constructor
  · rintro ⟨-, h⟩
    refine ⟨fun w' hw' => ?_, ?_, ?_⟩
    · refine h .opened w' ⟨⟨0, false, .opened⟩, ?_⟩
      exact congrArg some hw'
    · exact h .notOpen w ⟨⟨0, false, .notOpen⟩, rfl⟩
    · exact h .threw w ⟨⟨0, false, .threw⟩, rfl⟩
  · rintro ⟨hok, hnot, hthrew⟩
    refine ⟨fun choice => rfl, ?_⟩
    rintro a t ⟨choice, ha⟩
    have hopen : w.openFile (composeFilePath d id) size choice.opening = (a, t) :=
      Option.some.inj ha
    have hfailed : a ≠ .opened → t = w := by
      have hfailed' : (w.openFile (composeFilePath d id) size choice.opening).1 ≠ .opened →
          (w.openFile (composeFilePath d id) size choice.opening).2 = w := openFile_failed
      rwa [hopen] at hfailed'
    cases a with
    | opened =>
      cases hchoice : choice.opening with
      | opened => exact hok t (hchoice ▸ hopen)
      | notOpen =>
        rw [hchoice] at hopen
        cases hopen
      | threw =>
        rw [hchoice] at hopen
        cases hopen
    | notOpen =>
      rw [hfailed nofun]
      exact hnot
    | threw =>
      rw [hfailed nofun]
      exact hthrew

/-- The opening of a new volume. -/
theorem safe_openVolume_new {id size : Nat} {f : Unit → Code β} (hsize : 0 < size) :
    Safe (anyAnswer d) Q (openVolume d id size >>= f).run w ↔
      Safe (anyAnswer d) Q (f ()).run (w.created (composeFilePath d id) size) ∧
        Q (.error (.dumper "Can not open memory mapped file")) w ∧ Q (.error .boost) w := by
  have hopened : w.openFile (composeFilePath d id) size .opened =
      (.opened, w.created (composeFilePath d id) size) := if_pos hsize
  refine safe_openVolume.trans (and_congr_left fun _ => ?_)
  rw [hopened]
  constructor
  · exact fun h => h _ rfl
  · rintro h w' heq
    rw [← (Prod.mk.inj heq).2]
    exact h

/-- The end of `open_file_and_get_pos`. -/
def initialPos : Code Nat := do
  let state_ : Mode ← Script.ask Op.state
  if state_ = .REPLAYING then pure (0 + 8)
  else do
    initialisePos
    getPos

/-- The closing of the old file. -/
theorem safe_close {id size : Nat} {f : Nat → Code β} :
    Safe (anyAnswer d) Q (openFileAndGetPos d id size >>= f).run w ↔
      Safe (anyAnswer d) Q (openVolume d id size >>= fun _ => initialPos >>= f).run
        (w.closed id) := by
  have hopen : ∀ choice, answer d.paths d.proto choice .isOpen w = some (w.mapped_file_.isSome, w) :=
    fun _ => rfl
  have hassoc : (openVolume d id size >>= fun _ => initialPos >>= f) =
      (openVolume d id size >>= fun _ => initialPos) >>= f := (bind_assoc _ _ _).symm
  rw [hassoc]
  obtain ⟨directories, files, mapped_file_, current_id_, state_, written, returned⟩ := w
  refine (safe_ask hopen).trans ?_
  cases mapped_file_ with
  | none =>
    show Safe (anyAnswer d) Q (Script.ask (Op.setCurrentId id) >>= fun _ =>
      (openVolume d id size >>= fun _ => initialPos) >>= f).run _ ↔ _
    exact safe_ask fun _ => rfl
  | some path =>
    show Safe (anyAnswer d) Q (Script.ask Op.close >>= fun _ =>
      Script.ask (Op.setCurrentId id) >>= fun _ =>
        (openVolume d id size >>= fun _ => initialPos) >>= f).run _ ↔ _
    exact (safe_ask fun _ => rfl).trans (safe_ask fun _ => rfl)

/-- The bytes of a volume whose position is initialised. -/
def initialised (content : List UInt8) : List UInt8 :=
  if headerPosition content = 0 then Bytes.overwrite content 0 (Bytes.encode 8 8) else content

theorem length_initialised (hlen : 8 ≤ content.length) :
    (initialised content).length = content.length := by
  unfold initialised
  split
  · apply Bytes.length_overwrite
    rw [Bytes.length_encode]
    omega
  · rfl

/-- The position of a volume that is opened for recording. -/
theorem safe_initialPos_dumping {f : Nat → Code β} (hmode : w.state_ = .DUMPING) :
    Safe (anyAnswer d) Q (initialPos >>= f).run w ↔
      Safe (anyAnswer d) Q (getPos >>= fun pos =>
        (if pos = 0 then setPos (pos + 8) none else pure ()) >>= fun _ => getPos >>= f).run w := by
  have hstate : ∀ choice, answer d.paths d.proto choice .state w = some (w.state_, w) := fun _ => rfl
  have hassoc : (initialisePos >>= fun _ => getPos) >>= f =
      getPos >>= fun pos => (if pos = 0 then setPos (pos + 8) none else pure ()) >>= fun _ =>
        getPos >>= f := by
    unfold initialisePos
    rw [bind_assoc, bind_assoc]
  refine (safe_ask hstate).trans ?_
  show Safe (anyAnswer d) Q ((if w.state_ = .REPLAYING then pure (0 + 8)
    else initialisePos >>= fun _ => getPos) >>= f).run w ↔ _
  rw [hmode, if_neg nofun, hassoc]

theorem safe_initialPos {f : Nat → Code β} (hmode : w.state_ = .DUMPING)
    (hmapped : w.mapped = some (path, content)) (hlen : 8 ≤ content.length) :
    Safe (anyAnswer d) Q (initialPos >>= f).run w ↔
      Safe (anyAnswer d) Q (f (headerPosition (initialised content))).run
        (w.stored path (initialised content) none) := by
  refine (safe_initialPos_dumping hmode).trans ((safe_getPos hmapped hlen).trans ?_)
  have hlen' := length_initialised hlen
  have hread : Safe (anyAnswer d) Q (getPos >>= f).run (w.stored path (initialised content) none) ↔
      Safe (anyAnswer d) Q (f (headerPosition (initialised content))).run
        (w.stored path (initialised content) none) :=
    safe_getPos (mapped_stored hmapped) (by omega)
  refine Iff.trans ?_ hread
  unfold initialised
  by_cases hpos : headerPosition content = 0
  · rw [if_pos hpos, if_pos hpos, hpos]
    apply safe_store hmapped
    rw [Bytes.length_encode]
    omega
  · rw [if_neg hpos, if_neg hpos, stored_self hmapped]
    exact Iff.rfl

theorem not_safe_initialPos {f : Nat → Code β} (hmode : w.state_ = .DUMPING)
    (hmapped : w.mapped = some (path, content)) (hlen : content.length < 8) :
    ¬Safe (anyAnswer d) Q (initialPos >>= f).run w := by
  intro hsafe
  refine not_safe_getPos ?_ ((safe_initialPos_dumping hmode).mp hsafe)
  intro p hp
  rw [hmapped] at hp
  rw [← Option.some.inj hp]
  exact hlen

theorem headerPosition_zeros (n : Nat) : headerPosition (.replicate n 0) = 0 := by
  have hdecode : ∀ k, Bytes.decode (.replicate k 0) = 0 := by
    intro k
    induction k with
    | zero => rfl
    | succ k ih => rw [List.replicate_succ', Bytes.decode_concat, ih]; rfl
  rw [headerPosition, List.take_replicate, hdecode]

theorem initialised_zeros : initialised (.replicate d.file_size_ 0) = newVolume d :=
  if_pos (headerPosition_zeros _)

theorem length_newVolume (hF : 8 ≤ d.file_size_) : (newVolume d).length = d.file_size_ := by
  have hlen : 8 ≤ (List.replicate d.file_size_ (0 : UInt8)).length := by
    rw [List.length_replicate]
    exact hF
  rw [← initialised_zeros, length_initialised hlen, List.length_replicate]

theorem headerPosition_newVolume : headerPosition (newVolume d) = 8 := by
  rw [newVolume, headerPosition_overwrite]
  rfl

variable (d) in
/-- The world when `open_file_and_get_pos` has made a new volume. -/
def World.rotated (w : World) (id : Nat) : World :=
  ((w.closed id).created (composeFilePath d id) d.file_size_).stored (composeFilePath d id)
    (newVolume d) none

/-- Where `open_file_and_get_pos` goes with a new volume. -/
theorem safe_openFileAndGetPos {id : Nat} {f : Nat → Code β} (hF : 8 ≤ d.file_size_)
    (hmode : w.state_ = .DUMPING) :
    Safe (anyAnswer d) Q (openFileAndGetPos d id d.file_size_ >>= f).run w ↔
      Safe (anyAnswer d) Q (f 8).run (w.rotated d id) ∧
        Q (.error (.dumper "Can not open memory mapped file")) (w.closed id) ∧
        Q (.error .boost) (w.closed id) := by
  have hmode' : ((w.closed id).created (composeFilePath d id) d.file_size_).state_ = .DUMPING := hmode
  have hpos := safe_initialPos (d := d) (Q := Q) (f := f) hmode' mapped_created (by
    rw [List.length_replicate]
    exact hF)
  rw [initialised_zeros, headerPosition_newVolume] at hpos
  refine safe_close.trans ((safe_openVolume_new (by omega)).trans ?_)
  rw [hpos]
  exact Iff.rfl

/-! ## One record -/

variable (d) in
/-- The volume with the record stored at `pos`. -/
def withRecord (record : Record) (content : List UInt8) (pos : Nat) : List UInt8 :=
  Bytes.overwrite
    (Bytes.overwrite content pos
      (Bytes.encode 2 (d.proto.serialize record).length ++ d.proto.serialize record)) 0
    (Bytes.encode 8 (pos + 2 + (d.proto.serialize record).length))

section Record

variable {record : Record}

/-- A record that is stored inside of a volume. -/
theorem storedExactly (hlow : 8 ≤ headerPosition content)
    (hshort : (d.proto.serialize record).length < 2 ^ 16)
    (hroom : headerPosition content + 2 + (d.proto.serialize record).length ≤ content.length)
    (hfits : headerPosition content + 2 + (d.proto.serialize record).length ≤ d.file_size_)
    (hlt : headerPosition content + 2 + (d.proto.serialize record).length < 2 ^ 64) :
    StoredExactly d record content (withRecord d record content (headerPosition content)) := by
  generalize hpos : headerPosition content = pos at hlow hroom hfits hlt ⊢
  generalize hser : d.proto.serialize record = ser at hshort hroom hfits hlt ⊢
  have h2 : (Bytes.encode 2 ser.length).length = 2 := Bytes.length_encode 2 _
  have h8 : (Bytes.encode 8 (pos + 2 + ser.length)).length = 8 := Bytes.length_encode 8 _
  have hin : pos + (Bytes.encode 2 ser.length ++ ser).length ≤ content.length := by
    rw [List.length_append, h2]
    omega
  have hfirst : pos + (Bytes.encode 2 ser.length).length ≤ content.length := by
    rw [h2]
    omega
  have hlen₁ : (Bytes.overwrite content pos (Bytes.encode 2 ser.length ++ ser)).length =
      content.length := Bytes.length_overwrite hin
  have hheader : 0 + (Bytes.encode 8 (pos + 2 + ser.length)).length ≤
      (Bytes.overwrite content pos (Bytes.encode 2 ser.length ++ ser)).length := by
    rw [h8, hlen₁]
    omega
  have happend : Bytes.overwrite (Bytes.overwrite content pos (Bytes.encode 2 ser.length))
      (pos + 2) ser = Bytes.overwrite content pos (Bytes.encode 2 ser.length ++ ser) := by
    have happend' := @Bytes.overwrite_append _ _ _ ser hfirst
    rwa [h2] at happend'
  have hsecond : pos + 2 + ser.length ≤
      (Bytes.overwrite content pos (Bytes.encode 2 ser.length)).length := by
    rw [Bytes.length_overwrite hfirst]
    omega
  unfold withRecord
  rw [hser]
  refine ⟨?_, ⟨Bytes.encode 2 ser.length, ?_, ?_⟩, ?_, ?_, ?_, ?_⟩
  · rw [hpos, hser]
    exact ⟨hlow, hfits⟩
  · rw [hpos, Bytes.slice_overwrite_of_ge hheader (by rw [h8]; omega), ← happend,
      Bytes.slice_overwrite_of_le hsecond (Nat.le_refl _)]
    have hslice := Bytes.slice_overwrite hfirst
    rwa [h2] at hslice
  · rw [hser]
    exact Bytes.decode_encode hshort
  · rw [hpos, hser, Bytes.slice_overwrite_of_ge hheader (by rw [h8]; omega), ← happend]
    exact Bytes.slice_overwrite hsecond
  · rw [hpos, hser, headerPosition_overwrite, Nat.mod_eq_of_lt hlt]
  · rw [Bytes.length_overwrite hheader, hlen₁]
  · intro i hi hwhere
    rw [hpos, hser] at hwhere
    rw [Bytes.getElem?_overwrite hheader (.inr (by rw [h8]; omega)), Bytes.getElem?_overwrite hin]
    rw [List.length_append, h2]
    omega

/-- The last three steps of `write_next`. -/
def stores (d : Config) (record : Record) (pos : Nat) : Code Unit := do
  Script.ask (Op.store pos (Bytes.encode 2 (recordSize d record)) none)
  serializeToArray d record (pos + 2) (recordSize d record)
  setPos (pos + 2 + recordSize d record) (some record)

section Stores

variable {R : Except Exception Unit → World → Prop} {pos : Nat}

theorem safe_setPos {n : Nat} (hmapped : w.mapped = some (path, content))
    (hlen : 8 ≤ content.length) :
    Safe (anyAnswer d) R (setPos n (some record)).run w ↔
      R (.ok ()) (w.stored path (Bytes.overwrite content 0 (Bytes.encode 8 n)) (some record)) := by
  have hroom : 0 + (Bytes.encode 8 n).length ≤ content.length := by
    rw [Bytes.length_encode]
    omega
  exact safe_store (f := pure) hmapped hroom

/-- A record whose size is kept in 16 bits. -/
theorem safe_stores (hshort : (d.proto.serialize record).length < 2 ^ 16)
    (hmapped : w.mapped = some (path, content)) (hlen : 8 ≤ content.length) :
    Safe (anyAnswer d) R (stores d record pos).run w ↔
      pos + 2 + (d.proto.serialize record).length ≤ content.length ∧
        R (.ok ()) (w.stored path (withRecord d record content pos) (some record)) := by
  have hsize : recordSize d record = (d.proto.serialize record).length := Nat.mod_eq_of_lt hshort
  have hserialize : serializeToArray d record (pos + 2) (recordSize d record) =
      storeBytes (pos + 2) (d.proto.serialize record) := by
    unfold serializeToArray
    rw [hsize, if_pos (Nat.le_refl _)]
  have h2 : (Bytes.encode 2 (d.proto.serialize record).length).length = 2 := Bytes.length_encode 2 _
  unfold stores
  rw [hserialize, hsize]
  by_cases hfirst : pos + (Bytes.encode 2 (d.proto.serialize record).length).length ≤ content.length
  · have hlen₁ := Bytes.length_overwrite hfirst
    have happend := @Bytes.overwrite_append _ _ _ (d.proto.serialize record) hfirst
    have hmapped₁ : (w.stored path (Bytes.overwrite content pos
        (Bytes.encode 2 (d.proto.serialize record).length)) none).mapped = some (path, _) :=
      mapped_stored hmapped
    refine (safe_store hmapped hfirst).trans ?_
    rw [h2] at hfirst happend
    by_cases hroom : pos + 2 + (d.proto.serialize record).length ≤ content.length
    · have hroom₁ : pos + 2 + (d.proto.serialize record).length ≤ (Bytes.overwrite content pos
          (Bytes.encode 2 (d.proto.serialize record).length)).length := by
        rw [hlen₁]
        exact hroom
      have hlen₂ := Bytes.length_overwrite hroom₁
      refine (safe_storeBytes hmapped₁ hroom₁).trans ?_
      refine (safe_setPos (mapped_stored hmapped₁) (by omega)).trans ?_
      rw [happend, stored_stored, stored_stored]
      exact ⟨fun hR => ⟨hroom, hR⟩, fun h => h.2⟩
    · refine iff_of_false ?_ fun h => hroom h.1
      refine not_safe_storeBytes ?_ hmapped₁ (by omega)
      intro hnil
      rw [hnil] at hroom
      exact hroom hfirst
  · refine iff_of_false (not_safe_store hmapped (by omega)) fun h => ?_
    rw [h2] at hfirst
    omega

/-- A record whose size is cut to 16 bits, which is not stored. -/
theorem ok_of_safe_stores (hlong : ¬(d.proto.serialize record).length < 2 ^ 16)
    (hmapped : w.mapped = some (path, content)) (hlen : 8 ≤ content.length)
    (h : Safe (anyAnswer d) R (stores d record pos).run w) : ∃ w', R (.ok ()) w' := by
  have hsize := recordSize_lt (d := d) record
  have hserialize : serializeToArray d record (pos + 2) (recordSize d record) = pure () := by
    unfold serializeToArray
    rw [if_neg (by omega)]
  unfold stores at h
  rw [hserialize] at h
  by_cases hfirst : pos + (Bytes.encode 2 (recordSize d record)).length ≤ content.length
  · have hlen₁ := Bytes.length_overwrite hfirst
    have hrest := (safe_store hmapped hfirst).mp h
    exact ⟨_, (safe_setPos (mapped_stored hmapped) (by omega)).mp hrest⟩
  · exact absurd h (not_safe_store hmapped (by omega))

end Stores

/-! ## `write_next` -/

theorem StoredExactly.short {content' : List UInt8} (h : StoredExactly d record content content') :
    (d.proto.serialize record).length < 2 ^ 16 := by
  obtain ⟨bytes, hslice, hdecode⟩ := h.size
  have hlt := Bytes.decode_lt bytes
  rw [Bytes.length_slice hslice, hdecode] at hlt
  exact hlt

theorem Written.short {w' : World} (h : Written d w record (.ok ()) w') :
    (d.proto.serialize record).length < 2 ^ 16 := by
  obtain ⟨path, content, content', -, -, hstored, -⟩ := h
  exact hstored.short

theorem Written.fits {w' : World} (h : Written d w record (.ok ()) w') :
    10 + (d.proto.serialize record).length ≤ d.file_size_ := by
  obtain ⟨path, content, content', -, -, hstored, -⟩ := h
  have hinside := hstored.inside
  omega

variable (d record) in
/-- The switch of `write_next` to the next volume. -/
def rotate : Code Unit := do
  let current_id : Nat ← Script.ask Op.currentId
  openFileAndGetPos d ((current_id + 1) % 2 ^ 64) d.file_size_ >>= stores d record

theorem writeNext_eq : writeNext d record = getPos >>= fun pos =>
    if (pos + 2 + recordSize d record) % 2 ^ 64 > d.file_size_ then rotate d record
    else stores d record pos := rfl

/-- Every record is stored or has a position that covers what is not stored. -/
theorem exists_ok_of_safe {R : Except Exception Unit → World → Prop} {pos : Nat}
    (hmapped : w.mapped = some (path, content)) (hlen : 8 ≤ content.length)
    (h : Safe (anyAnswer d) R (stores d record pos).run w) : ∃ w', R (.ok ()) w' := by
  by_cases hshort : (d.proto.serialize record).length < 2 ^ 16
  · exact ⟨_, ((safe_stores hshort hmapped hlen).mp h).2⟩
  · exact ok_of_safe_stores hshort hmapped hlen h

theorem headerPosition_lt (content : List UInt8) : headerPosition content < 2 ^ 64 := by
  have hlt := Bytes.decode_lt (content.take 8)
  have hpow : 256 ^ (content.take 8).length ≤ 256 ^ 8 :=
    Nat.pow_le_pow_right (by decide) (List.length_take_le 8 content)
  exact Nat.lt_of_lt_of_le hlt hpow

theorem headerPosition_withRecord (pos : Nat) :
    headerPosition (withRecord d record content pos) =
      (pos + 2 + (d.proto.serialize record).length) % 2 ^ 64 :=
  headerPosition_overwrite _ _

/-- The record at the position of the mapped volume. -/
theorem safe_stores_mapped (hmapped : w.mapped = some (path, content)) (hlen : 8 ≤ content.length)
    (htest : (headerPosition content + 2 + recordSize d record) % 2 ^ 64 ≤ d.file_size_) :
    Safe (anyAnswer d) (Written d w record) (stores d record (headerPosition content)).run w ↔
      Storable d record content := by
  by_cases hshort : (d.proto.serialize record).length < 2 ^ 16
  · rw [recordSize_of_short hshort] at htest
    refine (safe_stores hshort hmapped hlen).trans ?_
    constructor
    · rintro ⟨hroom, hwritten⟩
      refine ⟨hshort, hwritten.fits, hlen, fun _ => ?_⟩
      obtain ⟨path', content₀, content', hmapped', hfrom, hstored, -⟩ := hwritten
      rw [mapped_stored hmapped] at hmapped'
      obtain ⟨rfl, rfl⟩ := Prod.mk.inj (Option.some.inj hmapped')
      have hposition := hstored.position
      have hinside := hstored.inside
      have hlt := headerPosition_lt content
      rw [headerPosition_withRecord] at hposition
      rcases hfrom with hold | ⟨rfl, -⟩
      · rw [hmapped] at hold
        obtain ⟨-, rfl⟩ := Prod.mk.inj (Option.some.inj hold)
        omega
      · rw [headerPosition_newVolume] at hposition
        omega
    · intro h
      obtain ⟨hlow, hlt, hroom⟩ := h.room htest
      rw [Nat.mod_eq_of_lt hlt] at htest
      refine ⟨hroom, path, content, _, mapped_stored hmapped, .inl hmapped,
        storedExactly hlow hshort hroom htest hlt, fun other hother => ?_⟩
      exact (AssocMap.find_assign _ _ _ _).trans (if_neg hother)
  · apply iff_of_false
    · intro hsafe
      obtain ⟨w', hw'⟩ := exists_ok_of_safe hmapped hlen hsafe
      exact hshort hw'.short
    · exact fun h => hshort h.short

/-! ## The next volume for a record -/

theorem mapped_rotated {id : Nat} :
    (w.rotated d id).mapped = some (composeFilePath d id, newVolume d) :=
  mapped_stored mapped_created

theorem find_stored_rotated {id : Nat} {content : List UInt8} {completes : Option Record} {other : Text}
    (hother : other ≠ composeFilePath d id) :
    AssocMap.find ((w.rotated d id).stored (composeFilePath d id) content completes).files other =
      AssocMap.find w.files other := by
  have hassign : ∀ files : List (Text × List UInt8), ∀ bytes,
      AssocMap.find (AssocMap.assign files (composeFilePath d id) bytes) other =
        AssocMap.find files other := fun files bytes =>
    (AssocMap.find_assign _ _ _ _).trans (if_neg hother)
  exact (hassign _ _).trans ((hassign _ _).trans (hassign _ _))

/-- A volume that can be created. -/
theorem safe_rotate (hmode : w.state_ = .DUMPING) (hF : 0 < d.file_size_) :
    Safe (anyAnswer d) (Written d w record) (rotate d record).run w ↔
      (d.proto.serialize record).length < 2 ^ 16 ∧
        10 + (d.proto.serialize record).length ≤ d.file_size_ := by
  have hid : ∀ choice, answer d.paths d.proto choice .currentId w = some (w.current_id_, w) :=
    fun _ => rfl
  refine (safe_ask hid).trans ?_
  by_cases hlen : 8 ≤ d.file_size_
  · refine (safe_openFileAndGetPos hlen hmode).trans ?_
    have hnew : 8 ≤ (newVolume d).length := by
      rw [length_newVolume hlen]
      exact hlen
    by_cases hshort : (d.proto.serialize record).length < 2 ^ 16
    · rw [safe_stores hshort mapped_rotated hnew, length_newVolume hlen]
      constructor
      · rintro ⟨⟨hroom, -⟩, -⟩
        exact ⟨hshort, by omega⟩
      · rintro ⟨-, hfits⟩
        refine ⟨⟨by omega, ?_⟩, rfl, rfl⟩
        refine ⟨_, _, _, mapped_stored mapped_rotated, .inr ⟨rfl, rfl⟩, ?_, fun other hother => ?_⟩
        · have hstored := @storedExactly d (newVolume d) record
          rw [headerPosition_newVolume, length_newVolume hlen] at hstored
          exact hstored (by omega) hshort (by omega) (by omega) (by omega)
        · exact find_stored_rotated hother
    · apply iff_of_false
      · rintro ⟨hsafe, -⟩
        obtain ⟨w', hw'⟩ := exists_ok_of_safe mapped_rotated hnew hsafe
        exact hshort hw'.short
      · exact fun h => hshort h.1
  · apply iff_of_false
    · intro hsafe
      have hopened := ((safe_openVolume_new hF).mp (safe_close.mp hsafe)).1
      refine not_safe_initialPos ?_ mapped_created ?_ hopened
      · exact hmode
      · rw [List.length_replicate]
        omega
    · intro h
      omega

/-- Without a size only a volume that is there can be opened, and no record fits into it. -/
theorem safe_rotate_zero (hmode : w.state_ = .DUMPING) (hF : d.file_size_ = 0) :
    Safe (anyAnswer d) (Written d w record) (rotate d record).run w ↔
      AssocMap.find w.files (composeFilePath d ((w.current_id_ + 1) % 2 ^ 64)) = none := by
  have hid : ∀ choice, answer d.paths d.proto choice .currentId w = some (w.current_id_, w) :=
    fun _ => rfl
  refine (safe_ask hid).trans (safe_close.trans (safe_openVolume.trans ?_))
  rw [hF]
  generalize hpath : composeFilePath d ((w.current_id_ + 1) % 2 ^ 64) = path
  constructor
  · rintro ⟨hsafe, -⟩
    by_contra hsome
    obtain ⟨content, hfind⟩ := Option.ne_none_iff_exists'.mp hsome
    obtain ⟨w', hw'⟩ : ∃ w', w' = { w.closed ((w.current_id_ + 1) % 2 ^ 64) with
        mapped_file_ := some path } := ⟨_, rfl⟩
    have hopened : (w.closed ((w.current_id_ + 1) % 2 ^ 64)).openFile path 0 .opened =
        (.opened, w') := by
      rw [hw']
      exact if_pos (Option.isSome_iff_exists.mpr ⟨content, hfind⟩)
    have hmode' : w'.state_ = .DUMPING := by
      rw [hw']
      exact hmode
    have hmapped : w'.mapped = some (path, content) := by
      rw [hw']
      show (AssocMap.find w.files path).map _ = _
      rw [hfind]
      rfl
    have hrest := hsafe w' hopened
    by_cases hlen : 8 ≤ content.length
    · have hinit := (safe_initialPos hmode' hmapped hlen).mp hrest
      obtain ⟨w'', hw''⟩ := exists_ok_of_safe (mapped_stored hmapped)
        (by rw [length_initialised hlen]; exact hlen) hinit
      have hfits := hw''.fits
      omega
    · exact not_safe_initialPos hmode' hmapped (by omega) hrest
  · intro hnone
    refine ⟨fun w' hw' => ?_, rfl, rfl⟩
    have hthrew : (w.closed ((w.current_id_ + 1) % 2 ^ 64)).openFile path 0 .opened =
        (.threw, w.closed ((w.current_id_ + 1) % 2 ^ 64)) := by
      refine if_neg ?_
      rw [show AssocMap.find (w.closed _).files path = none from hnone]
      exact nofun
    rw [hthrew] at hw'
    cases hw'

theorem safe_writeNext (hmode : w.state_ = .DUMPING) :
    Safe (anyAnswer d) (Written d w record) (writeNext d record).run w ↔
      ∃ path content, w.mapped = some (path, content) ∧
        (Storable d record content ∨ Refused d w record content) := by
  rw [writeNext_eq]
  cases hmapped : w.mapped with
  | none =>
    apply iff_of_false
    · apply not_safe_getPos
      intro p hp
      rw [hmapped] at hp
      cases hp
    · rintro ⟨path, content, hnone, -⟩
      cases hnone
  | some p =>
    obtain ⟨path, content⟩ := p
    have hone : (∃ path' content', some (path, content) = some (path', content') ∧
        (Storable d record content' ∨ Refused d w record content')) ↔
        Storable d record content ∨ Refused d w record content := by
      constructor
      · rintro ⟨path', content', heq, h⟩
        obtain ⟨rfl, rfl⟩ := Prod.mk.inj (Option.some.inj heq)
        exact h
      · exact fun h => ⟨path, content, rfl, h⟩
    rw [hone]
    by_cases hlen : 8 ≤ content.length
    · refine (safe_getPos hmapped hlen).trans ?_
      by_cases htest : (headerPosition content + 2 + recordSize d record) % 2 ^ 64 > d.file_size_
      · rw [if_pos htest]
        rcases Nat.eq_zero_or_pos d.file_size_ with hF | hF
        · rw [safe_rotate_zero hmode hF]
          constructor
          · intro hnone
            exact .inr ⟨hF, hnone, hlen, by omega⟩
          · rintro (h | h)
            · have := h.fits
              omega
            · exact h.next
        · rw [safe_rotate hmode hF]
          constructor
          · rintro ⟨hshort, hfits⟩
            refine .inl ⟨hshort, hfits, hlen, fun hroom => ?_⟩
            rw [recordSize_of_short hshort] at htest
            omega
          · rintro (h | h)
            · exact ⟨h.short, h.fits⟩
            · have := h.size
              omega
      · rw [if_neg htest, safe_stores_mapped hmapped hlen (by omega)]
        constructor
        · exact .inl
        · rintro (h | h)
          · exact h
          · have hsize := h.size
            have hfull := h.full
            omega
    · apply iff_of_false
      · apply not_safe_getPos
        intro p hp
        rw [hmapped] at hp
        rw [← Option.some.inj hp]
        exact Nat.lt_of_not_le hlen
      · rintro (h | h)
        · exact hlen h.header
        · exact hlen h.header

variable (record) in
/-- While a `Dumper` records, `write_next` stores its record exactly or throws, if and only if a volume
is mapped, the record fits into a volume, and the sum in the test of `write_next` is not cut. -/
theorem writesExactly_iff (hmode : w.state_ = .DUMPING) :
    WritesExactly d w record ↔ ∃ path content, w.mapped = some (path, content) ∧
      (Storable d record content ∨ Refused d w record content) :=
  safe_writeNext hmode

end Record

section Examples

/-- The volume of `oneRecordVolumes` before its first record. -/
def emptyVolume : World :=
  { plainWorld "var".toList [("var/log.vol-0".toList, newVolume oneRecordVolumes)] with
    mapped_file_ := some "var/log.vol-0".toList }

theorem writesExactly_listenerOpen :
    WritesExactly oneRecordVolumes emptyVolume (recordOf .onListenerOpen 1) := by
  refine (writesExactly_iff _ rfl).mpr ⟨_, newVolume oneRecordVolumes, rfl, .inl ?_⟩
  refine ⟨by decide, by decide, by decide, fun _ => ?_⟩
  rw [headerPosition_newVolume]
  decide

/-- A `Dumper` that records and waits for a callback. -/
def State.records (s : State) : Bool :=
  match s.process with
  | .idle => s.world.state_ = .DUMPING
  | _ => false

/-- A record that is larger than a volume is stored behind its end. -/
theorem large_record_outside : ¬∀ (d : Config) (w : World) (s : State) (call : HandlerCall)
    (time : UInt64), Transition.Reachable (system d w) s → s.records →
      WritesExactly d s.world (recordOf call time) := by
  intro h
  have hrun : (Transition.run (next oneRecordVolumes)
      { world := plainWorld "var".toList [], process := .absent } constructed).any
        State.records = true := by
    decide +kernel
  obtain ⟨s, hs, hrecords⟩ := (Option.any_eq_true _ _).mp hrun
  have hmode : s.world.state_ = .DUMPING := by
    unfold State.records at hrecords
    split at hrecords
    · exact of_decide_eq_true hrecords
    · cases hrecords
  have hwrites := h oneRecordVolumes (plainWorld "var".toList []) s (.onReplReplstate [0]) 1
    (Transition.reachable_of_run _ hs) hrecords
  obtain ⟨path, content, -, hstorable | hrefused⟩ := (safe_writeNext hmode).mp hwrites
  · exact absurd hstorable.fits (by decide)
  · exact absurd hrefused.size (by decide)

end Examples


end Dumper

end Cgatepp

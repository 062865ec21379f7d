import ItexDemo.Cgatepp.Appending
import ItexDemo.Cgatepp.Proofs.DiscoveryProofs
import ItexDemo.Cgatepp.Proofs.LogProofs
import ItexDemo.Cgatepp.Proofs.MappingProofs

/-!
# Proofs: recorded volumes are appended to

Between the functions every volume has a position behind its header, and only a volume is mapped
(`Sound`). While a record is stored, the position of the mapped volume is at most the one where the
record begins (`Holds`), so that no store is in front of it.
-/

namespace Cgatepp

namespace Dumper

open Script Transition

variable {d : Config} {function : Function} {w w' : World} {path : Text} {content : List UInt8}

theorem Keeps.of_files (h : w'.files = w.files) : Keeps w w' :=
  fun _ content hfind => ⟨content, h ▸ hfind, rfl, fun _ _ _ => rfl⟩

/-- A store into the header, or behind what is recorded, keeps what is recorded. -/
theorem keeps_stored {bytes : List UInt8} {offset : Nat} {completes : Option Record}
    (hfind : AssocMap.find w.files path = some content)
    (hroom : offset + bytes.length ≤ content.length)
    (hwhere : offset + bytes.length ≤ 8 ∨ headerPosition content ≤ offset) :
    Keeps w (w.stored path (Bytes.overwrite content offset bytes) completes) := by
  intro path' content' hfind'
  show ∃ content'', AssocMap.find (AssocMap.assign _ _ _) _ = _ ∧ _
  by_cases hpath : path' = path
  · subst hpath
    obtain rfl : content' = content := Option.some.inj (hfind'.symm.trans hfind)
    refine ⟨_, by rw [AssocMap.find_assign, if_pos rfl], Bytes.length_overwrite hroom,
      fun i hlow hhigh => Bytes.getElem?_overwrite hroom ?_⟩
    rcases hwhere with h | h
    · right
      omega
    · left
      omega
  · exact ⟨content', by rw [AssocMap.find_assign, if_neg hpath, hfind'], rfl, fun _ _ _ => rfl⟩

/-- A new file keeps those that there are. -/
theorem keeps_created {size : Nat} (hnone : AssocMap.find w.files path = none) :
    Keeps w (w.created path size) := by
  intro path' content' hfind'
  have hne : path' ≠ path := by
    rintro rfl
    cases hfind'.symm.trans hnone
  refine ⟨content', ?_, rfl, fun _ _ _ => rfl⟩
  show AssocMap.find (AssocMap.assign _ _ _) _ = _
  rw [AssocMap.find_assign, if_neg hne, hfind']

/-! ## Operations -/

variable (d) in
/-- The operation keeps what is recorded and creates no file that exists. -/
structure Adds (op : Op) (w : World) : Prop where
  keeps : ∀ choice a w', answer d.paths d.proto choice op w = some (a, w') → Keeps w w'
  creates : ∀ path size, op = .open path size → 0 < size → AssocMap.find w.files path = none

variable (d) in
/-- The operations of this function, which append only; its record can be appended. -/
def appending (function : Function) : Semantics Op Ans World where
  Pre := Adds d
  Act := fun op w a w' => ∃ choice, answer d.paths d.proto choice op w = some (a, w') ∧
    (op = .getTime → ∀ record, function.record choice.time = some record → Appendable d w record)

/-- An operation that does not touch the files. -/
theorem appending_ask {op : Op} {P : World → Prop} {Q : Ans op → World → Prop}
    {E : Exception → World → Prop} (hopen : ∀ path size, op ≠ .open path size)
    (hfiles : ∀ choice w a w', answer d.paths d.proto choice op w = some (a, w') →
      w'.files = w.files)
    (h : ∀ choice w a w', P w → answer d.paths d.proto choice op w = some (a, w') → Q a w') :
    Meets (appending d function) P (Script.ask op : Code (Ans op)) Q E := by
  refine .ask (fun w _ => ⟨fun choice a w' ha => ?_, fun path size heq => ?_⟩) fun w a w' hw ha => ?_
  · exact .of_files (hfiles choice w a w' ha)
  · exact absurd heq (hopen path size)
  · obtain ⟨choice, ha, -⟩ := ha
    exact h choice w a w' hw ha

/-- An operation with one effect, which does not touch the files. -/
theorem appending_answered {op : Op} {P : World → Prop} {Q : Ans op → World → Prop}
    {E : Exception → World → Prop} {result : Choice → World → Ans op} {effect : World → World}
    (hopen : ∀ path size, op ≠ .open path size)
    (ha : ∀ choice w, answer d.paths d.proto choice op w = some (result choice w, effect w))
    (hfiles : ∀ w, (effect w).files = w.files)
    (h : ∀ choice w, P w → Q (result choice w) (effect w)) :
    Meets (appending d function) P (Script.ask op : Code (Ans op)) Q E := by
  refine appending_ask hopen (fun choice w a w' hans => ?_) fun choice w a w' hw hans => ?_
  · rw [ha choice w] at hans
    obtain ⟨-, rfl⟩ := Prod.mk.inj (Option.some.inj hans)
    exact hfiles w
  · rw [ha choice w] at hans
    obtain ⟨rfl, rfl⟩ := Prod.mk.inj (Option.some.inj hans)
    exact h choice w hw

/-- An operation that does not change anything. -/
theorem appending_still {op : Op} {P : World → Prop} {E : Exception → World → Prop}
    (hopen : ∀ path size, op ≠ .open path size)
    (h : ∀ choice w a w', answer d.paths d.proto choice op w = some (a, w') → w' = w) :
    Meets (appending d function) P (Script.ask op : Code (Ans op)) (fun _ => P) E := by
  refine appending_ask hopen (fun choice w a w' ha => ?_) fun choice w a w' hw ha => ?_
  · rw [h choice w a w' ha]
  · rw [h choice w a w' ha]
    exact hw

theorem answer_load {choice : Choice} {offset size : Nat} {bytes : List UInt8}
    (h : answer d.paths d.proto choice (.load offset size) w = some (bytes, w')) :
    w' = w ∧ ∃ path content, w.mapped = some (path, content) ∧
      Bytes.slice content offset size = some bytes := by
  obtain ⟨⟨path, content⟩, hmapped, h⟩ := Option.bind_eq_some_iff.mp h
  obtain ⟨piece, hslice, h⟩ := Option.map_eq_some_iff.mp h
  obtain ⟨rfl, rfl⟩ := Prod.mk.inj h
  exact ⟨rfl, path, content, hmapped, hslice⟩

theorem answer_store {choice : Choice} {offset : Nat} {bytes : List UInt8}
    {completes : Option Record} {a : Unit} (hmapped : w.mapped = some (path, content))
    (h : answer d.paths d.proto choice (.store offset bytes completes) w = some (a, w')) :
    offset + bytes.length ≤ content.length ∧
      w' = w.stored path (Bytes.overwrite content offset bytes) completes := by
  obtain ⟨w'', hstore, h⟩ := Option.map_eq_some_iff.mp h
  obtain ⟨-, rfl⟩ := Prod.mk.inj h
  unfold World.store at hstore
  rw [hmapped, Option.bind_some] at hstore
  obtain ⟨hroom, hstore⟩ := Option.ite_none_right_eq_some.mp hstore
  exact ⟨hroom, (Option.some.inj hstore).symm⟩

/-! ## The mapped volume -/

variable (d) in
/-- A volume with the property is mapped, and the other ones have a position. -/
def Holds (P : List UInt8 → Prop) (w : World) : Prop :=
  ∃ id content, w.mapped = some (composeFilePath d id, content) ∧ P content ∧
    ∀ id' content', id' ≠ id → AssocMap.find w.files (composeFilePath d id') = some content' →
      GoodPosition content'

variable (d) in
/-- Every volume has a position, and nothing else than a volume is mapped. -/
structure Sound (w : World) : Prop where
  positioned : Positioned d w
  mapped : ∀ path, w.mapped_file_ = some path → ∃ id, composeFilePath d id = path

theorem Holds.mono {P P' : List UInt8 → Prop} (h : Holds d P w) (hP : ∀ content, P content → P' content) :
    Holds d P' w := by
  obtain ⟨id, content, hmapped, hcontent, hothers⟩ := h
  exact ⟨id, content, hmapped, hP content hcontent, hothers⟩

theorem Holds.sound (h : Holds d GoodPosition w) : Sound d w := by
  obtain ⟨id, content, hmapped, hcontent, hothers⟩ := h
  obtain ⟨hpath, hfind⟩ := find_of_mapped hmapped
  constructor
  · intro id' content' hfind'
    by_cases hid : id' = id
    · subst hid
      obtain rfl : content' = content := Option.some.inj (hfind'.symm.trans hfind)
      exact hcontent
    · exact hothers id' content' hid hfind'
  · intro path hmap
    exact ⟨id, Option.some.inj (hpath.symm.trans hmap)⟩

theorem Sound.holds (h : Sound d w) (hmapped : w.mapped = some (path, content)) :
    Holds d GoodPosition w := by
  obtain ⟨hpath, hfind⟩ := find_of_mapped hmapped
  obtain ⟨id, rfl⟩ := h.mapped path hpath
  exact ⟨id, content, hmapped, h.positioned id content hfind,
    fun id' content' _ hfind' => h.positioned id' content' hfind'⟩

/-- A volume that was stored into. -/
theorem holds_stored {P : List UInt8 → Prop} {id : Nat} {content' : List UInt8}
    {completes : Option Record} (hmapped : w.mapped = some (composeFilePath d id, content))
    (hothers : ∀ id' content', id' ≠ id →
      AssocMap.find w.files (composeFilePath d id') = some content' → GoodPosition content')
    (hP : P content') : Holds d P (w.stored (composeFilePath d id) content' completes) := by
  refine ⟨id, content', mapped_stored hmapped, hP, fun id' other hid hfind => ?_⟩
  refine hothers id' other hid ?_
  have hne : composeFilePath d id' ≠ composeFilePath d id :=
    fun heq => hid (composeFilePath_injective heq)
  rw [← hfind]
  show _ = AssocMap.find (AssocMap.assign _ _ _) _
  rw [AssocMap.find_assign, if_neg hne]

/-- `get_pos` reads the position of the mapped volume. -/
theorem appending_getPos {E : Exception → World → Prop} {P : World → Prop}
    {Q : List UInt8 → Prop} (h : ∀ w path content, P w → w.mapped = some (path, content) → Holds d Q w) :
    Meets (appending d function) P getPos
      (fun pos w => P w ∧ Holds d (fun content => Q content ∧ headerPosition content = pos) w) E := by
  have hload : Meets (appending d function) P (Script.ask (Op.load 0 8) : Code (List UInt8))
      (fun bytes w => P w ∧
        Holds d (fun content => Q content ∧ headerPosition content = Bytes.decode bytes) w) E := by
    refine appending_ask nofun (fun choice w a w' ha => ?_) fun choice w a w' hw ha => ?_
    · rw [(answer_load ha).1]
    · obtain ⟨rfl, path, content, hmapped, hslice⟩ := answer_load ha
      obtain ⟨id, content', hmapped', hcontent, hothers⟩ := h w' path content hw hmapped
      obtain ⟨rfl, rfl⟩ := Prod.mk.inj (Option.some.inj (hmapped.symm.trans hmapped'))
      refine ⟨hw, id, content, hmapped', ⟨hcontent, ?_⟩, hothers⟩
      rw [Bytes.slice, if_pos (Bytes.slice_le hslice)] at hslice
      rw [headerPosition, ← Option.some.inj hslice]
      rfl
  exact hload.bind fun bytes => .return fun _ hw => hw

/-- A store behind the position. -/
theorem appending_store {E : Exception → World → Prop} {pos offset : Nat} (bytes : List UInt8)
    (hpos : 8 ≤ pos) (hoffset : pos ≤ offset) :
    Meets (appending d function) (Holds d fun content => headerPosition content ≤ pos)
      (Script.ask (Op.store offset bytes none) : Code Unit)
      (fun _ => Holds d fun content => headerPosition content ≤ pos) E := by
  refine .ask (fun w hw => ⟨fun choice a w' ha => ?_, nofun⟩) fun w a w' hw ha => ?_
  · obtain ⟨id, content, hmapped, hcontent, -⟩ := hw
    obtain ⟨hroom, rfl⟩ := answer_store hmapped ha
    exact keeps_stored (find_of_mapped hmapped).2 hroom (.inr (by omega))
  · obtain ⟨id, content, hmapped, hcontent, hothers⟩ := hw
    obtain ⟨choice, ha, -⟩ := ha
    obtain ⟨hroom, rfl⟩ := answer_store hmapped ha
    refine holds_stored hmapped hothers ?_
    rwa [headerPosition, Bytes.take_overwrite hroom (by omega)]

/-- `set_pos` gives the mapped volume this position. -/
theorem appending_setPos {E : Exception → World → Prop} {P : List UInt8 → Prop} {pos : Nat}
    {completes : Option Record} (hpos : pos < 2 ^ 63) :
    Meets (appending d function) (Holds d P) (setPos pos completes)
      (fun _ => Holds d fun content => headerPosition content = pos) E := by
  have hlen : (Bytes.encode 8 pos).length = 8 := Bytes.length_encode 8 pos
  refine .ask (fun w hw => ⟨fun choice a w' ha => ?_, nofun⟩) fun w a w' hw ha => ?_
  · obtain ⟨id, content, hmapped, -⟩ := hw
    obtain ⟨hroom, rfl⟩ := answer_store hmapped ha
    exact keeps_stored (find_of_mapped hmapped).2 hroom (.inl (by omega))
  · obtain ⟨id, content, hmapped, -, hothers⟩ := hw
    obtain ⟨choice, ha, -⟩ := ha
    obtain ⟨hroom, rfl⟩ := answer_store hmapped ha
    refine holds_stored hmapped hothers ?_
    rw [headerPosition_overwrite, Nat.mod_eq_of_lt (by omega)]

theorem appending_storeBytes {E : Exception → World → Prop} {pos offset : Nat} (bytes : List UInt8)
    (hpos : 8 ≤ pos) (hoffset : pos ≤ offset) :
    Meets (appending d function) (Holds d fun content => headerPosition content ≤ pos)
      (storeBytes offset bytes)
      (fun _ => Holds d fun content => headerPosition content ≤ pos) E := by
  induction bytes generalizing offset with
  | nil => exact .return fun _ hw => hw
  | cons byte bytes ih =>
    exact (appending_store [byte] hpos hoffset).bind fun _ => ih (by omega)

/-- The stores of `write_next`, behind the position. -/
theorem appending_stores {E : Exception → World → Prop} {record : Record} {pos : Nat}
    (hpos : 8 ≤ pos) (hlt : pos + 2 + recordSize d record < 2 ^ 63) :
    Meets (appending d function) (Holds d fun content => headerPosition content ≤ pos)
      (stores d record pos) (fun _ => Sound d) E := by
  have hserialize : Meets (appending d function)
      (Holds d fun content => headerPosition content ≤ pos)
      (serializeToArray d record (pos + 2) (recordSize d record))
      (fun _ => Holds d fun content => headerPosition content ≤ pos) E :=
    .ite (fun _ => appending_storeBytes _ hpos (by omega)) fun _ => .return fun _ hw => hw
  have hposition : Meets (appending d function)
      (Holds d fun content => headerPosition content ≤ pos)
      (setPos (pos + 2 + recordSize d record) (some record)) (fun _ => Sound d) E := by
    refine (appending_setPos hlt).weaken (fun _ hw => hw) (fun _ w hw => ?_) fun _ _ he => he
    refine (hw.mono fun content hcontent => ⟨?_, ?_⟩).sound
    · omega
    · omega
  exact (appending_store _ hpos (Nat.le_refl _)).bind fun _ => hserialize.bind fun _ => hposition

/-! ## Openings -/

/-- A file is created or found, or nothing happens. -/
theorem openFile_cases (w : World) (path : Text) (size : Nat) (opening : Opening) :
    (0 < size ∧ w.openFile path size opening = (.opened, w.created path size)) ∨
    (size = 0 ∧ (AssocMap.find w.files path).isSome ∧
      w.openFile path size opening = (.opened, { w with mapped_file_ := some path })) ∨
    ((w.openFile path size opening).1 ≠ .opened ∧ (w.openFile path size opening).2 = w) := by
  by_cases hopened : (w.openFile path size opening).1 = .opened
  · unfold World.openFile at hopened ⊢
    cases opening with
    | opened =>
      dsimp only at hopened ⊢
      split_ifs at hopened ⊢ with hsize hfind
      · exact .inl ⟨hsize, rfl⟩
      · exact .inr (.inl ⟨by omega, hfind, rfl⟩)
    | notOpen => cases hopened
    | threw => cases hopened
  · exact .inr (.inr ⟨hopened, openFile_failed hopened⟩)

/-- A volume is opened that does not exist if it is created, and has the property. -/
theorem appending_openVolume {id size : Nat} {P : List UInt8 → Prop} (hpositioned : Positioned d w)
    (hnew : 0 < size →
      AssocMap.find w.files (composeFilePath d id) = none ∧ P (List.replicate size 0))
    (hold : size = 0 → ∀ content, AssocMap.find w.files (composeFilePath d id) = some content →
      P content) :
    Meets (appending d function) (fun t => t = w) (openVolume d id size) (fun _ => Holds d P)
      fun _ t => t = w := by
  have hopen : Meets (appending d function) (fun t => t = w)
      (Script.ask (Op.open (composeFilePath d id) size) : Code Opening)
      (fun opening t => (opening = .opened → Holds d P t) ∧ (opening ≠ .opened → t = w))
      fun _ t => t = w := by
    refine .ask (fun t ht => ?_) fun t opening t' ht ha => ?_
    · subst ht
      refine ⟨fun choice a t' ha => ?_, fun path size' heq hpos => ?_⟩
      · obtain rfl : (t.openFile (composeFilePath d id) size choice.opening).2 = t' :=
          congrArg Prod.snd (Option.some.inj ha)
        rcases openFile_cases t (composeFilePath d id) size choice.opening with
          ⟨hpos, h⟩ | ⟨-, -, h⟩ | ⟨-, h⟩
        · rw [h]
          exact keeps_created (hnew hpos).1
        · rw [h]
          exact .of_files rfl
        · rw [h]
          exact .of_files rfl
      · cases heq
        exact (hnew hpos).1
    · subst ht
      obtain ⟨choice, ha, -⟩ := ha
      have hfile : t.openFile (composeFilePath d id) size choice.opening = (opening, t') :=
        Option.some.inj ha
      rcases openFile_cases t (composeFilePath d id) size choice.opening with
        ⟨hpos, h⟩ | ⟨hzero, hfind, h⟩ | ⟨hne, h⟩
      · obtain ⟨rfl, rfl⟩ := Prod.mk.inj (h.symm.trans hfile)
        refine ⟨fun _ => ⟨id, _, mapped_created, (hnew hpos).2, fun id' content' hid hfind' => ?_⟩,
          fun hne => absurd rfl hne⟩
        have hne : composeFilePath d id' ≠ composeFilePath d id :=
          fun heq => hid (composeFilePath_injective heq)
        refine hpositioned id' content' ?_
        rw [← hfind']
        show _ = AssocMap.find (AssocMap.assign _ _ _) _
        rw [AssocMap.find_assign, if_neg hne]
      · obtain ⟨rfl, rfl⟩ := Prod.mk.inj (h.symm.trans hfile)
        obtain ⟨content, hcontent⟩ := Option.isSome_iff_exists.mp hfind
        refine ⟨fun _ => ⟨id, content, ?_, hold hzero content hcontent, fun id' content' _ hfind' =>
          hpositioned id' content' hfind'⟩, fun hne => absurd rfl hne⟩
        rw [World.mapped, Option.bind_some, hcontent, Option.map_some]
      · rw [hfile] at hne h
        exact ⟨fun heq => absurd heq hne, fun _ => h⟩
  refine hopen.bind fun opening => ?_
  cases opening with
  | opened => exact .return fun t ht => ht.1 rfl
  | notOpen => exact .raise fun t ht => ht.2 fun h => by cases h
  | threw => exact .raise fun t ht => ht.2 fun h => by cases h

/-- A volume without a position gets the first one. -/
theorem appending_initialisePos {E : Exception → World → Prop} :
    Meets (appending d function) (Holds d fun content => headerPosition content = 0) initialisePos
      (fun _ => Holds d fun content => headerPosition content = 8) E := by
  refine (appending_getPos fun w path content hw _ => hw).bind fun pos => .ite (fun hzero => ?_)
    fun hne => ?_
  · subst hzero
    exact (appending_setPos (by decide)).weaken (fun w hw => hw.1) (fun _ w hw => hw)
      fun _ _ he => he
  · refine .return fun w hw => ?_
    obtain ⟨-, id, content, -, ⟨hzero, hpos⟩, -⟩ := hw
    exact absurd (hpos.symm.trans hzero) hne

/-- One that has a position keeps it. -/
theorem appending_initialisePos_good {E : Exception → World → Prop} :
    Meets (appending d function) (Holds d GoodPosition) initialisePos
      (fun _ => Holds d GoodPosition) E := by
  refine (appending_getPos fun w path content hw _ => hw).bind fun pos => .ite (fun hzero => ?_)
    fun _ => .return fun w hw => hw.1
  subst hzero
  refine (appending_setPos (by decide)).weaken (fun w hw => hw.1) (fun _ w hw => ?_)
    fun _ _ he => he
  exact hw.mono fun content hcontent => ⟨by omega, by omega⟩

/-- `open_file_and_get_pos`, when the opening gives a volume with `P`, and giving it a position makes
`P'` of it. -/
theorem appending_openFileAndGetPos {id size : Nat} {P P' : List UInt8 → Prop} (hsound : Sound d w)
    (hvolume : ∀ t, t.files = w.files → Meets (appending d function) (fun t' => t' = t)
      (openVolume d id size) (fun _ => Holds d P) fun _ t' => t' = t)
    (hinit : Meets (appending d function) (Holds d P) initialisePos (fun _ => Holds d P')
      fun _ => Sound d) :
    Meets (appending d function) (fun t => t = w) (openFileAndGetPos d id size)
      (fun pos t => pos = 8 ∧ Holds d P t ∨
        Holds d (fun content => P' content ∧ headerPosition content = pos) t)
      fun _ => Sound d := by
  have hisOpen : Meets (appending d function) (fun t => t = w) (Script.ask Op.isOpen : Code Bool)
      (fun _ t => Sound d t ∧ t.files = w.files) fun _ => Sound d :=
    appending_answered nofun (fun _ _ => rfl) (fun _ => rfl) fun _ _ ht => ⟨ht ▸ hsound, ht ▸ rfl⟩
  have hclose : Meets (appending d function) (fun t => Sound d t ∧ t.files = w.files)
      (Script.ask Op.close : Code Unit) (fun _ t => Sound d t ∧ t.files = w.files)
      fun _ => Sound d :=
    appending_answered nofun (fun _ _ => rfl) (fun _ => rfl) fun _ _ ht =>
      ⟨⟨ht.1.positioned, nofun⟩, ht.2⟩
  have hid : Meets (appending d function) (fun t => Sound d t ∧ t.files = w.files)
      (Script.ask (Op.setCurrentId id) : Code Unit) (fun _ t => Sound d t ∧ t.files = w.files)
      fun _ => Sound d :=
    appending_answered nofun (fun _ _ => rfl) (fun _ => rfl) fun _ _ ht =>
      ⟨⟨ht.1.positioned, ht.1.mapped⟩, ht.2⟩
  have hopened : Meets (appending d function) (fun t => Sound d t ∧ t.files = w.files)
      (openVolume d id size) (fun _ => Holds d P) fun _ => Sound d := by
    refine .start fun t ht => ?_
    exact (hvolume t ht.2).weaken (fun _ ht' => ht') (fun _ _ ht' => ht') fun _ _ ht' => ht' ▸ ht.1
  have hstate : Meets (appending d function) (Holds d P) (Script.ask Op.state : Code Mode)
      (fun _ => Holds d P) fun _ => Sound d :=
    appending_answered nofun (fun _ _ => rfl) (fun _ => rfl) fun _ _ hw => hw
  have hpos : Meets (appending d function) (Holds d P') getPos
      (fun pos t => pos = 8 ∧ Holds d P t ∨
        Holds d (fun content => P' content ∧ headerPosition content = pos) t) fun _ => Sound d :=
    (appending_getPos fun w path content hw _ => hw).weaken (fun _ hw => hw)
      (fun _ _ hw => .inr hw.2) fun _ _ hw => hw
  have hrest : Meets (appending d function) (fun t => Sound d t ∧ t.files = w.files) (do
        Script.ask (Op.setCurrentId id)
        openVolume d id size
        let state_ : Mode ← Script.ask Op.state
        if state_ = .REPLAYING then pure (0 + 8)
        else do
          initialisePos
          getPos : Code Nat)
      (fun pos t => pos = 8 ∧ Holds d P t ∨
        Holds d (fun content => P' content ∧ headerPosition content = pos) t)
      fun _ => Sound d := by
    refine hid.bind fun _ => hopened.bind fun _ => hstate.bind fun state_ => ?_
    cases state_ with
    | REPLAYING => exact .return fun _ hw => .inl ⟨rfl, hw⟩
    | DUMPING => exact hinit.bind fun _ => hpos
  refine hisOpen.bind fun is_open => ?_
  cases is_open with
  | true => exact hclose.bind fun _ => hrest
  | false => exact hrest

/-- The next volume, where there is none. -/
theorem appending_openNext {id : Nat} (hsound : Sound d w)
    (hnone : AssocMap.find w.files (composeFilePath d id) = none) :
    Meets (appending d function) (fun t => t = w) (openFileAndGetPos d id d.file_size_)
      (fun pos t => pos = 8 ∧ Holds d (fun content => headerPosition content ≤ pos) t)
      fun _ => Sound d := by
  refine (appending_openFileAndGetPos (P := fun content => headerPosition content = 0) hsound
    (fun t ht => appending_openVolume ?_ (fun _ => ⟨?_, headerPosition_zeros _⟩) ?_)
    appending_initialisePos).weaken (fun _ ht => ht) (fun pos t ht => ?_) fun _ _ ht => ht
  · intro id content hfind
    exact hsound.positioned id content (ht ▸ hfind)
  · rw [ht, hnone]
  · intro _ content hfind
    rw [ht, hnone] at hfind
    cases hfind
  · rcases ht with ⟨rfl, hholds⟩ | hholds
    · exact ⟨rfl, hholds.mono fun content hzero => by omega⟩
    · obtain ⟨id', content, hmapped, ⟨height, hpos⟩, hothers⟩ := hholds
      exact ⟨by omega, id', content, hmapped, by omega, hothers⟩

/-- A volume that there is, in a replay. -/
theorem appending_openFound {id : Nat} :
    Meets (appending d function) (Sound d) (openFileAndGetPos d id 0) (fun _ => Sound d)
      fun _ => Sound d := by
  refine .start fun w hsound => ?_
  refine (appending_openFileAndGetPos (P := GoodPosition) hsound
    (fun t ht => appending_openVolume ?_ (fun hpos => absurd hpos (Nat.lt_irrefl 0)) ?_)
    appending_initialisePos_good).weaken (fun _ ht => ht) (fun pos t ht => ?_) fun _ _ ht => ht
  · intro id content hfind
    exact hsound.positioned id content (ht ▸ hfind)
  · intro _ content hfind
    exact hsound.positioned id content (ht ▸ hfind)
  · rcases ht with ⟨-, hholds⟩ | hholds
    · exact hholds.sound
    · exact (hholds.mono fun content hcontent => hcontent.1).sound

/-! ## Writing -/

/-- The position that `write_next` reads, and what it compares with the size. -/
theorem Appendable.room_or_next {record : Record} {pos : Nat} (h : Appendable d w record)
    (hpos : Holds d (fun content => GoodPosition content ∧ headerPosition content = pos) w) :
    pos + 2 + recordSize d record ≤ d.file_size_ ∨
      AssocMap.find w.files (composeFilePath d ((w.current_id_ + 1) % 2 ^ 64)) = none := by
  rcases h with ⟨path, content, hmapped, hroom⟩ | hnext
  · obtain ⟨id, content', hmapped', ⟨-, hpos⟩, -⟩ := hpos
    obtain ⟨-, rfl⟩ := Prod.mk.inj (Option.some.inj (hmapped.symm.trans hmapped'))
    rw [headerPosition] at hpos
    rw [hpos] at hroom
    exact .inl hroom
  · exact .inr (Option.not_isSome_iff_eq_none.mp hnext)

/-- `write_next`, for a record that can be appended. -/
theorem appending_writeNext {record : Record} (hsize : d.file_size_ < 2 ^ 63) :
    Meets (appending d function) (fun w => Sound d w ∧ Appendable d w record) (writeNext d record)
      (fun _ => Sound d) fun _ => Sound d := by
  have hlt := recordSize_lt (d := d) record
  rw [writeNext_eq]
  refine .start fun w hw => ?_
  obtain ⟨hsound, hrecord⟩ := hw
  have hgetPos : Meets (appending d function) (fun t => t = w) getPos
      (fun pos t => t = w ∧
        Holds d (fun content => GoodPosition content ∧ headerPosition content = pos) t)
      fun _ => Sound d :=
    appending_getPos fun t path content ht hmapped => ht ▸ hsound.holds (ht ▸ hmapped)
  refine hgetPos.bind fun pos => .start fun t ht => ?_
  obtain ⟨rfl, hpos⟩ := ht
  have hgood : 8 ≤ pos ∧ pos < 2 ^ 63 := by
    obtain ⟨-, content, -, ⟨hgood, hpos⟩, -⟩ := hpos
    exact hpos ▸ hgood
  have hmod : (pos + 2 + recordSize d record) % 2 ^ 64 = pos + 2 + recordSize d record :=
    Nat.mod_eq_of_lt (by omega)
  rw [hmod]
  refine .ite (fun hfull => ?_) fun hroom => ?_
  · have hnone := (hrecord.room_or_next hpos).resolve_left (by omega)
    have hcurrent : Meets (appending d function) (fun t' => t' = t)
        (Script.ask Op.currentId : Code Nat) (fun id t' => t' = t ∧ id = t.current_id_)
        fun _ => Sound d :=
      appending_answered nofun (fun _ _ => rfl) (fun _ => rfl) fun _ _ ht' => ⟨ht', ht' ▸ rfl⟩
    refine hcurrent.bind fun id => .start fun t' ht' => ?_
    obtain ⟨rfl, rfl⟩ := ht'
    refine (appending_openNext hsound hnone).bind fun pos => .start fun t ht => ?_
    obtain ⟨rfl, hholds⟩ := ht
    refine (appending_stores (Nat.le_refl 8) (by omega)).pre fun t' ht' => ?_
    rw [ht']
    exact hholds
  · refine (appending_stores hgood.1 (by omega)).pre fun t' ht' => ?_
    rw [ht']
    exact hpos.mono fun content hcontent => Nat.le_of_eq hcontent.2

/-- The time of a record, which can be appended. -/
theorem appending_getTime {E : Exception → World → Prop} :
    Meets (appending d function) (Sound d) (Script.ask Op.getTime : Code UInt64)
      (fun time w => Sound d w ∧
        ∀ record, function.record time = some record → Appendable d w record) E := by
  refine .ask (fun w _ => ⟨fun choice a w' ha => ?_, nofun⟩) fun w a w' hw ha => ?_
  · rw [← (Prod.mk.inj (Option.some.inj ha)).2]
    exact .of_files rfl
  · obtain ⟨choice, ha, hrecord⟩ := ha
    obtain ⟨rfl, rfl⟩ := Prod.mk.inj (Option.some.inj ha)
    exact ⟨hw, hrecord rfl⟩

theorem appending_writeMark (hsize : d.file_size_ < 2 ^ 63) {record_type : RecordType}
    (hmark : ∀ time, function.record time =
      some { record_type := record_type, timestamp := time, message := .notSet }) :
    Meets (appending d function) (Sound d) (writeMark d record_type) (fun _ => Sound d)
      fun _ => Sound d := by
  refine appending_getTime.bind fun time => (appending_writeNext hsize).pre fun w hw => ?_
  exact ⟨hw.1, hw.2 _ (hmark time)⟩

/-! ## The interface -/

theorem appending_callHandler (call : HandlerCall) :
    Meets (appending d function) (Sound d) (callHandler call) (fun _ => Sound d)
      fun _ => Sound d := by
  have hask : Meets (appending d function) (Sound d) (Script.ask (Op.handle call) : Code Bool)
      (fun _ => Sound d) fun _ => Sound d :=
    appending_answered nofun (fun _ _ => rfl) (fun _ => rfl) fun _ _ hw => hw
  refine hask.bind fun throws => ?_
  cases throws with
  | true => exact .raise fun _ hw => hw
  | false => exact .return fun _ hw => hw

/-- The steps of a replay. -/
theorem appending_reading : Reading d (appending d function) (Sound d) fun _ => Sound d where
  read := fun op hop => by
    cases op with
    | load offset size => exact appending_still nofun fun choice w a w' ha => (answer_load ha).1
    | parse bytes =>
      exact appending_answered nofun (fun _ _ => rfl) (fun _ => rfl) fun _ _ hw =>
        ⟨hw.positioned, hw.mapped⟩
    | isDirectory path =>
      exact appending_answered nofun (fun _ _ => rfl) (fun _ => rfl) fun _ _ hw => hw
    | directoryIterator path =>
      exact appending_answered nofun (fun _ _ => rfl) (fun _ => rfl) fun _ _ hw => hw
    | currentId =>
      exact appending_answered nofun (fun _ _ => rfl) (fun _ => rfl) fun _ _ hw => hw
    | undefined => exact appending_still nofun fun choice w a => nomatch (show Empty from a)
    | outOfFuel => exact appending_still nofun fun choice w a => nomatch (show Empty from a)
    | _ => exact absurd hop id
  conversion := fun failure w hw => hw
  next := fun id => appending_openFound
  call := appending_callHandler

theorem appending_setState {E : Exception → World → Prop} (mode : Mode) :
    Meets (appending d function) (Sound d) (Script.ask (Op.setState mode) : Code Unit)
      (fun _ => Sound d) E :=
  appending_answered nofun (fun _ _ => rfl) (fun _ => rfl) fun _ _ hw => ⟨hw.positioned, hw.mapped⟩

theorem appending_replayRecordedStream (fuel : Nat) :
    Meets (appending d function) (Sound d) (replayRecordedStream d fuel) (fun _ => Sound d)
      fun _ => Sound d := by
  refine .ite (fun _ => ?_) fun _ => .return fun _ hw => hw
  refine (appending_setState .REPLAYING).bind fun _ =>
    appending_reading.getFileIdsList.bind fun ids_list => ?_
  cases hfirst : ids_list.head? with
  | none =>
    have hnone : Meets (appending d function) (Sound d) (undefined : Code Unit) (fun _ => Sound d)
        fun _ => Sound d := appending_reading.undefined
    exact hnone.bind fun _ => appending_setState .DUMPING
  | some first =>
    exact appending_openFound.bind fun pos =>
      (appending_reading.replayLoop fuel pos).bind fun _ => appending_setState .DUMPING

theorem appending_onCallback (hsize : d.file_size_ < 2 ^ 63) (call : HandlerCall) :
    Meets (appending d (.callback call)) (Sound d) (onCallback d call) (fun _ => Sound d)
      fun _ => Sound d := by
  have hstate : Meets (appending d (.callback call)) (Sound d) (Script.ask Op.state : Code Mode)
      (fun _ => Sound d) fun _ => Sound d :=
    appending_answered nofun (fun _ _ => rfl) (fun _ => rfl) fun _ _ hw => hw
  refine hstate.bind fun mode => ?_
  cases mode with
  | REPLAYING => exact .return fun _ hw => hw
  | DUMPING =>
    refine appending_getTime.bind fun time => ?_
    refine Meets.bind ((appending_writeNext hsize).pre fun w hw => ⟨hw.1, hw.2 _ rfl⟩) fun _ => ?_
    exact .ite (fun _ => appending_callHandler call) fun _ => .return fun _ hw => hw

theorem appending_destruct (hsize : d.file_size_ < 2 ^ 63) :
    Meets (appending d .destruct) (Sound d) (destruct d) (fun _ => Sound d) fun _ => Sound d := by
  have hisOpen : Meets (appending d .destruct) (Sound d) (Script.ask Op.isOpen : Code Bool)
      (fun _ => Sound d) fun _ => Sound d :=
    appending_answered nofun (fun _ _ => rfl) (fun _ => rfl) fun _ _ hw => hw
  have hclose : Meets (appending d .destruct) (Sound d) (Script.ask Op.close : Code Unit)
      (fun _ => Sound d) fun _ => Sound d :=
    appending_answered nofun (fun _ _ => rfl) (fun _ => rfl) fun _ _ hw => ⟨hw.positioned, nofun⟩
  refine hisOpen.bind fun is_open => ?_
  cases is_open with
  | false => exact .return fun _ hw => hw
  | true => exact (appending_writeMark hsize fun time => rfl).bind fun _ => hclose

/-- The first volume does not exist when no volume is listed. -/
theorem appending_getFileIdsList :
    Meets (appending d function) (fun w => Positioned d w ∧ FindsFirst d w) (getFileIdsList d)
      (fun ids_list w => Positioned d w ∧ (ids_list = [] → ¬HasVolume d w 0))
      fun _ => Positioned d := by
  have hdirectory : Meets (appending d function) (fun w => Positioned d w ∧ FindsFirst d w)
      (Script.ask (Op.isDirectory (d.paths.parent_path d.file_path_)) : Code Bool)
      (fun directory w => Positioned d w ∧ (HasVolume d w 0 → directory = true ∧ taken d w ≠ []))
      fun _ => Positioned d :=
    appending_answered nofun (fun _ _ => rfl) (fun _ => rfl) fun _ _ hw =>
      ⟨hw.1, fun hvolume => ⟨decide_eq_true (hw.2 hvolume).1, (hw.2 hvolume).2⟩⟩
  refine hdirectory.bind fun directory => ?_
  cases directory with
  | false => exact .return fun w hw => ⟨hw.1, fun _ hvolume => by cases (hw.2 hvolume).1⟩
  | true =>
    have hfiles : Meets (appending d function)
        (fun w => Positioned d w ∧ (HasVolume d w 0 → true = true ∧ taken d w ≠ []))
        (Script.ask (Op.directoryIterator (d.paths.parent_path d.file_path_)) : Code (List Text))
        (fun files w => Positioned d w ∧
          (HasVolume d w 0 → (files.filter fun file => isVolume d file) ≠ []))
        fun _ => Positioned d :=
      appending_answered nofun (fun _ _ => rfl) (fun _ => rfl) fun _ _ hw =>
        ⟨hw.1, fun hvolume => (hw.2 hvolume).2⟩
    refine hfiles.bind fun files => ?_
    cases hids : readIds d files with
    | error failure => exact .raise fun w hw => hw.1
    | ok ids_list =>
      refine .return fun w hw => ⟨hw.1, fun hnil hvolume => hw.2 hvolume ?_⟩
      have hread := mapM_eq_ok.mp hids
      have hempty : ids_list = [] := by
        have hlen := List.length_insertionSort (· ≤ ·) ids_list
        rw [hnil] at hlen
        exact List.length_eq_zero_iff.mp hlen.symm
      rw [hempty, List.map_nil] at hread
      exact List.map_eq_nil_iff.mp hread

/-- The first volume is created only where it does not exist. -/
theorem appending_newFileSize (ids_list : List Nat) :
    Meets (appending d function)
      (fun w => Positioned d w ∧ (ids_list = [] → ¬HasVolume d w 0)) (newFileSize d ids_list)
      (fun size w => Positioned d w ∧ (0 < size → ids_list = [] ∧ ¬HasVolume d w 0))
      fun _ => Positioned d := by
  refine .ite (fun hnil => .return fun w hw => ⟨hw.1, fun _ => ⟨hnil, hw.2 hnil⟩⟩) fun _ => ?_
  have hfile : Meets (appending d function)
      (fun w => Positioned d w ∧ (ids_list = [] → ¬HasVolume d w 0))
      (Script.ask (Op.fileSize (composeFilePath d (ids_list.getLast?.getD 0))) : Code (Option Nat))
      (fun _ => Positioned d) fun _ => Positioned d :=
    appending_answered nofun (fun _ _ => rfl) (fun _ => rfl) fun _ _ hw => hw.1
  refine hfile.bind fun size => ?_
  rcases size with _ | fs_file_size
  · exact .raise fun _ hw => hw
  · exact .ite (fun _ => .raise fun _ hw => hw) fun _ =>
      .return fun w hw => ⟨hw, fun hpos => absurd hpos (Nat.lt_irrefl 0)⟩

theorem appending_construct (hsize : d.file_size_ < 2 ^ 63) :
    Meets (appending d .construct) (fun w => Positioned d w ∧ FindsFirst d w) (construct d)
      (fun _ => Sound d) fun _ => Positioned d := by
  have hdumping : Meets (appending d .construct) (fun w => Positioned d w ∧ FindsFirst d w)
      (Script.ask (Op.setState .DUMPING) : Code Unit)
      (fun _ w => Positioned d w ∧ FindsFirst d w) fun _ => Positioned d :=
    appending_answered nofun (fun _ _ => rfl) (fun _ => rfl) fun _ _ hw => hw
  have hcurrent : ∀ (ids_list : List Nat) id, Meets (appending d .construct)
      (fun w => Positioned d w ∧ (ids_list = [] → ¬HasVolume d w 0))
      (Script.ask (Op.setCurrentId id) : Code Unit)
      (fun _ w => Positioned d w ∧ (ids_list = [] → ¬HasVolume d w 0)) fun _ => Positioned d :=
    fun _ _ => appending_answered nofun (fun _ _ => rfl) (fun _ => rfl) fun _ _ hw => hw
  have hmark : Meets (appending d .construct) (Sound d) (writeMark d .DUMPER_OPEN)
      (fun _ => Sound d) fun _ => Positioned d :=
    (appending_writeMark hsize fun time => rfl).weaken (fun _ hw => hw) (fun _ _ hw => hw)
      fun _ _ hw => hw.positioned
  refine hdumping.bind fun _ => appending_getFileIdsList.bind fun ids_list => ?_
  refine (hcurrent ids_list _).bind fun _ => (appending_newFileSize ids_list).bind fun size => ?_
  refine .start fun w hw => ?_
  obtain ⟨hpositioned, hnew⟩ := hw
  by_cases hpos : 0 < size
  · obtain ⟨rfl, hvolume⟩ := hnew hpos
    have hopen : Meets (appending d .construct) (fun t => t = w) (openVolume d 0 size)
        (fun _ => Holds d fun content => headerPosition content = 0) fun _ => Positioned d := by
      refine (appending_openVolume hpositioned (fun _ => ⟨?_, headerPosition_zeros _⟩)
        fun hzero => ?_).weaken (fun _ ht => ht) (fun _ _ ht => ht) fun _ _ ht => ht ▸ hpositioned
      · exact Option.not_isSome_iff_eq_none.mp hvolume
      · omega
    refine hopen.bind fun _ => appending_initialisePos.bind fun _ => hmark.pre fun t ht => ?_
    exact (ht.mono fun content hposition => ⟨by omega, by omega⟩).sound
  · have hopen : Meets (appending d .construct) (fun t => t = w)
        (openVolume d (ids_list.getLast?.getD 0) size) (fun _ => Holds d GoodPosition)
        fun _ => Positioned d := by
      refine (appending_openVolume hpositioned (fun h => absurd h hpos) fun _ content hfind => ?_).weaken
        (fun _ ht => ht) (fun _ _ ht => ht) fun _ _ ht => ht ▸ hpositioned
      exact hpositioned _ content hfind
    exact hopen.bind fun _ => appending_initialisePos_good.bind fun _ =>
      hmark.pre fun t ht => ht.sound

/-! ## Runs -/

variable (d) in
/-- What holds when a function has ended. -/
def LeavesPositions : Function → Except Exception Unit → World → Prop
  | .construct, .error _, w => Positioned d w
  | _, _, w => Sound d w

variable (d) in
/-- What holds in every state of a run. -/
def AppendingInv (s : State) : Prop :=
  match s.process with
  | .absent => Positioned d s.world
  | .idle => Sound d s.world
  | .running function rest => Safe (appending d function) (LeavesPositions d function) rest s.world

theorem AppendingInv.finish {r : Except Exception Unit} (h : LeavesPositions d function r w) :
    AppendingInv d (finish function r w) := by
  cases function with
  | construct =>
    cases r with
    | ok _ => exact h
    | error e => exact h
  | callback call => exact h
  | replay => exact h
  | destruct => exact (show Sound d w from h).positioned

/-- One step that appends only. -/
theorem appendingInv_step (hsize : d.file_size_ < 2 ^ 63) {s s' : State} {act : Act}
    (h : AppendingInv d s) (hstep : next d s act = some s') (hcareful : Careful d s act) :
    AppendingInv d s' := by
  obtain ⟨w, process⟩ := s
  cases act with
  | construct =>
    cases process with
    | absent =>
      cases hstep
      refine (appending_construct hsize w ⟨h, hcareful⟩).mono fun r w' hr => ?_
      cases r <;> exact hr
    | idle => cases hstep
    | running function rest => cases hstep
  | callback call =>
    cases process with
    | absent => cases hstep
    | idle =>
      cases hstep
      refine (appending_onCallback hsize call w h).mono fun r w' hr => ?_
      cases r <;> exact hr
    | running function rest => cases hstep
  | replay fuel =>
    cases process with
    | absent => cases hstep
    | idle =>
      cases hstep
      refine (appending_replayRecordedStream fuel w h).mono fun r w' hr => ?_
      cases r <;> exact hr
    | running function rest => cases hstep
  | destruct =>
    cases process with
    | absent => cases hstep
    | idle =>
      cases hstep
      refine (appending_destruct hsize w h).mono fun r w' hr => ?_
      cases r <;> exact hr
    | running function rest => cases hstep
  | step choice =>
    cases process with
    | absent => cases hstep
    | idle => cases hstep
    | running function rest =>
      cases rest with
      | ret r =>
        cases hstep
        exact .finish h
      | call op k =>
        obtain ⟨⟨a, w'⟩, ha, rfl⟩ := Option.map_eq_some_iff.mp hstep
        refine h.2 a w' ⟨choice, ha, fun htime record hrecord => ?_⟩
        subst htime
        exact hcareful function rfl record hrecord
  | crash => exact hcareful.elim

/-- A step that carries out no operation leaves the files as they are. -/
theorem files_of_next {s s' : State} {act : Act} (hstep : next d s act = some s')
    (hop : ∀ function op k choice, s.process = .running function (.call op k) →
      act ≠ .step choice) : s'.world.files = s.world.files := by
  obtain ⟨w, process⟩ := s
  cases process with
  | absent =>
    cases act with
    | construct => cases hstep; rfl
    | crash => cases hstep; rfl
    | _ => cases hstep
  | idle =>
    cases act with
    | callback call => cases hstep; rfl
    | replay fuel => cases hstep; rfl
    | destruct => cases hstep; rfl
    | crash => cases hstep; rfl
    | _ => cases hstep
  | running function rest =>
    cases act with
    | step choice =>
      cases rest with
      | ret r =>
        cases hstep
        cases function with
        | construct => cases r <;> rfl
        | _ => rfl
      | call op k => exact absurd rfl (hop function op k choice rfl)
    | crash => cases hstep; rfl
    | _ => cases hstep

/-- **Append only.** In every run from volumes that have a position, in which the first volume is
found when a `Dumper` is constructed and every record has room in the mapped volume or there is no
next one, no step changes what is recorded or creates a file that exists. -/
theorem appends_only {s : State} {act : Act} (hsize : d.file_size_ < 2 ^ 63) (hstart : Positioned d w)
    (h : Reachable ((system d w).restrict (Careful d)) s) : AppendsOnly d s act := by
  have hinv : AppendingInv d s := by
    refine h.invariant (fun s hs => ?_) fun s act s' hs hstep => ?_
    · rw [show s = _ from hs]
      exact hstart
    · exact appendingInv_step hsize hs hstep.1 hstep.2
  obtain ⟨w', process⟩ := s
  constructor
  · intro s' hstep
    by_cases hop : ∃ function op k choice,
        process = .running function (.call op k) ∧ act = .step choice
    · obtain ⟨function, op, k, choice, rfl, rfl⟩ := hop
      obtain ⟨⟨a, w''⟩, ha, rfl⟩ := Option.map_eq_some_iff.mp hstep
      exact hinv.1.keeps choice a w'' ha
    · refine .of_files (files_of_next hstep fun function op k choice hprocess hact => hop ?_)
      exact ⟨function, op, k, choice, hprocess, hact⟩
  · rintro choice function path size k - hprocess hpos
    obtain rfl : process = .running function (.call (.open path size) k) := hprocess
    exact hinv.1.creates path size rfl hpos

section Examples

/-- A callback that is about to open the next volume. -/
theorem appends_only_rotating :
    ∃ s, run (next oneRecordVolumes) { world := plainWorld "var".toList [], process := .absent }
      (rotating []) = some s ∧ AppendsOnly oneRecordVolumes s (atOne .opened) := by
  have hrun : (run (next oneRecordVolumes)
      { world := plainWorld "var".toList [], process := .absent } (rotating [])).isSome := by
    decide +kernel
  obtain ⟨s, hs⟩ := Option.isSome_iff_exists.mp hrun
  have hmeets : RunMeets (next oneRecordVolumes) (Careful oneRecordVolumes)
      { world := plainWorld "var".toList [], process := .absent } (rotating []) := by
    decide +kernel
  have hstart : Positioned oneRecordVolumes (plainWorld "var".toList []) := by
    intro id content hfind
    cases hfind
  exact ⟨s, hs, appends_only (by decide) hstart (reachable_restrict_run _ (.init rfl) hmeets hs)⟩

/-- A `Dumper` whose path has no directory. -/
def withoutDirectory : Config := { oneRecordVolumes with file_path_ := "log".toList }

/-- A `Dumper` is constructed and destroyed, and another one comes to its first opening. -/
def reopening : List Act :=
  .construct :: .replicate 15 (atOne .opened) ++ .destruct :: .replicate 20 (atOne .opened) ++
    .construct :: .replicate 3 (atOne .opened)

/-- A file that exists is about to be created. -/
def State.createsAgain (s : State) : Bool :=
  match s.process with
  | .running _ (.call (.open path size) _) => 0 < size && (AssocMap.find s.world.files path).isSome
  | _ => false

theorem not_appendsOnly {s : State} (h : s.createsAgain) : ¬AppendsOnly d s (atOne .opened) := by
  intro honly
  obtain ⟨w, process⟩ := s
  unfold State.createsAgain at h
  split at h
  · next function path size k hprocess =>
    obtain ⟨hpos, hsome⟩ := Bool.and_eq_true_iff.mp h
    rw [honly.creates _ function path size k rfl hprocess (of_decide_eq_true hpos)] at hsome
    cases hsome
  · cases h

/-- The first volume of a path without a directory is not found, and is created again. -/
theorem first_volume_created_again : ¬∀ (d : Config) (w : World) (s : State) (act : Act),
    (∀ id, ¬HasVolume d w id) → Reachable (system d w) s → AppendsOnly d s act := by
  intro h
  have hrun : (run (next withoutDirectory)
      { world := plainWorld "var".toList [], process := .absent } reopening).any
        State.createsAgain = true := by
    decide +kernel
  obtain ⟨s, hs, hcreates⟩ := (Option.any_eq_true _ _).mp hrun
  refine not_appendsOnly hcreates (h _ _ s (atOne .opened) (fun id hvolume => ?_) (reachable_of_run _ hs))
  cases hvolume

end Examples

end Dumper

end Cgatepp

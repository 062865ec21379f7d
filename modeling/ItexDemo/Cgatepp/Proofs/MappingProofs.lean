import ItexDemo.Cgatepp.Mapping
import ItexDemo.Cgatepp.PlainLibraries
import ItexDemo.Cgatepp.Proofs.ReadingProofs

/-!
# Proofs: no access without a mapping

Outside of a replay the file that `current_id_` names is mapped. A replay that fails leaves that file
mapped, or none, and then callbacks do nothing. So only an opening that fails inside of a callback can
lead to an access without a mapping.
-/

namespace Cgatepp

namespace Dumper

open Script Transition

variable {d : Config}

variable (d) in
/-- The operations of this function, where the openings of a callback succeed. -/
def mapping (function : Function) : Semantics Op Ans World where
  Pre := fun op w => op.Accesses → w.mapped.isSome
  Act := fun op w a w' => ∃ choice, answer d.paths d.proto choice op w = some (a, w') ∧
    ∀ call path size, function = .callback call → op = .open path size →
      (w.openFile path size choice.opening).1 = .opened

variable (d) in
/-- The file that `current_id_` names is mapped, in this mode. -/
def Held (mode : Mode) (w : World) : Prop := Named d w ∧ w.state_ = mode

variable (d) in
/-- No other file is mapped, in this mode. -/
def Loose (mode : Mode) (w : World) : Prop :=
  (w.mapped_file_ ≠ none → Named d w) ∧ w.state_ = mode

/-- An opening has failed, which does not happen in callbacks. -/
def Closed (function : Function) (mode : Mode) (w : World) : Prop :=
  w.mapped_file_ = none ∧ w.state_ = mode ∧ ∀ call, function ≠ .callback call

variable (d) in
/-- Between the calls of functions. -/
def Settled (w : World) : Prop :=
  (w.mapped_file_ ≠ none → Named d w) ∧ (w.state_ = .DUMPING → Named d w)

variable {function : Function} {mode : Mode} {w : World}

theorem Held.loose (h : Held d mode w) : Loose d mode w := ⟨fun _ => h.1, h.2⟩

theorem Held.settled (h : Held d mode w) : Settled d w := ⟨fun _ => h.1, fun _ => h.1⟩

theorem Closed.loose (h : Closed function mode w) : Loose d mode w :=
  ⟨fun hne => absurd h.1 hne, h.2.1⟩

theorem Loose.settled (h : Loose d .REPLAYING w) : Settled d w :=
  ⟨h.1, fun hmode => nomatch h.2.symm.trans hmode⟩

/-! ## Operations -/

/-- An operation that keeps what holds. -/
theorem mapping_ask {op : Op} {P : World → Prop} {E : Exception → World → Prop}
    (hpre : ∀ w, P w → op.Accesses → w.mapped.isSome)
    (h : ∀ choice w a w', P w → answer d.paths d.proto choice op w = some (a, w') → P w') :
    Meets (mapping d function) P (Script.ask op : Code (Ans op)) (fun _ => P) E := by
  refine .ask hpre fun w a w' hw ha => ?_
  obtain ⟨choice, ha, -⟩ := ha
  exact h choice w a w' hw ha

/-- An operation with one effect, which does not go through the mapping. -/
theorem mapping_answered {op : Op} {P : World → Prop} {Q : Ans op → World → Prop}
    {E : Exception → World → Prop} {result : Choice → World → Ans op} {effect : World → World}
    (hop : ¬op.Accesses)
    (ha : ∀ choice w, answer d.paths d.proto choice op w = some (result choice w, effect w))
    (h : ∀ choice w, P w → Q (result choice w) (effect w)) :
    Meets (mapping d function) P (Script.ask op : Code (Ans op)) Q E := by
  refine .ask (fun w _ hacc => absurd hacc hop) fun w a w' hw hans => ?_
  obtain ⟨choice, hans, -⟩ := hans
  rw [ha choice w] at hans
  obtain ⟨rfl, rfl⟩ := Prod.mk.inj (Option.some.inj hans)
  exact h choice w hw

/-- An operation that does not change anything. -/
theorem mapping_still {op : Op} {P : World → Prop} {E : Exception → World → Prop}
    (hop : ¬op.Accesses)
    (h : ∀ choice w a w', answer d.paths d.proto choice op w = some (a, w') → w' = w) :
    Meets (mapping d function) P (Script.ask op : Code (Ans op)) (fun _ => P) E := by
  refine mapping_ask (fun w _ hacc => absurd hacc hop) fun choice w a w' hw ha => ?_
  rw [h choice w a w' ha]
  exact hw

theorem mapping_load {offset size : Nat} {E : Exception → World → Prop} :
    Meets (mapping d function) (Held d mode)
      (Script.ask (Op.load offset size) : Code (List UInt8)) (fun _ => Held d mode) E := by
  refine mapping_ask (fun w hw _ => hw.1.2) fun choice w a w' hw ha => ?_
  obtain ⟨p, hp, ha⟩ := Option.bind_eq_some_iff.mp ha
  obtain ⟨bytes, -, ha⟩ := Option.map_eq_some_iff.mp ha
  obtain ⟨-, rfl⟩ := Prod.mk.inj ha
  exact hw

theorem mapping_store {offset : Nat} {bytes : List UInt8} {completes : Option Record}
    {E : Exception → World → Prop} :
    Meets (mapping d function) (Held d mode)
      (Script.ask (Op.store offset bytes completes) : Code Unit) (fun _ => Held d mode) E := by
  refine mapping_ask (fun w hw _ => hw.1.2) fun choice w a w' hw ha => ?_
  obtain ⟨w'', hstore, ha⟩ := Option.map_eq_some_iff.mp ha
  obtain ⟨-, rfl⟩ := Prod.mk.inj ha
  obtain ⟨⟨path, content⟩, hmapped, hstore⟩ := Option.bind_eq_some_iff.mp hstore
  dsimp only at hstore
  split_ifs at hstore
  cases hstore
  refine ⟨⟨hw.1.1, ?_⟩, hw.2⟩
  obtain ⟨path', hpath', hfind⟩ := Option.bind_eq_some_iff.mp hmapped
  obtain ⟨content', hfind, heq⟩ := Option.map_eq_some_iff.mp hfind
  obtain ⟨rfl, rfl⟩ := Prod.mk.inj heq
  unfold World.mapped
  rw [hpath', Option.bind_some, AssocMap.find_assign, if_pos rfl]
  rfl

theorem mapping_getPos {E : Exception → World → Prop} :
    Meets (mapping d function) (Held d mode) getPos (fun _ => Held d mode) E :=
  mapping_load.bind fun _ => .return fun _ hw => hw

theorem mapping_initialisePos {E : Exception → World → Prop} :
    Meets (mapping d function) (Held d mode) initialisePos (fun _ => Held d mode) E := by
  refine mapping_getPos.bind fun pos => ?_
  exact .ite (fun _ => mapping_store) fun _ => .return fun _ hw => hw

/-- A file that is opened is mapped. -/
theorem openFile_opened {path : Text} {size : Nat} {opening : Opening}
    (h : (w.openFile path size opening).1 = .opened) :
    (w.openFile path size opening).2.mapped_file_ = some path ∧
      (w.openFile path size opening).2.mapped.isSome ∧
      (w.openFile path size opening).2.current_id_ = w.current_id_ ∧
      (w.openFile path size opening).2.state_ = w.state_ := by
  unfold World.openFile at h ⊢
  cases opening with
  | opened =>
    dsimp only at h ⊢
    split_ifs at h ⊢ with hsize hfind
    · refine ⟨rfl, ?_, rfl, rfl⟩
      simp [World.mapped, AssocMap.find_assign]
    · refine ⟨rfl, ?_, rfl, rfl⟩
      simp [World.mapped, hfind]
  | notOpen => cases h
  | threw => cases h

/-- A file that is not opened changes nothing. -/
theorem openFile_failed {path : Text} {size : Nat} {opening : Opening}
    (h : (w.openFile path size opening).1 ≠ .opened) : (w.openFile path size opening).2 = w := by
  unfold World.openFile at h ⊢
  cases opening with
  | opened =>
    dsimp only at h ⊢
    split_ifs at h ⊢ with hsize hfind
    · exact absurd rfl h
    · exact absurd rfl h
    · rfl
  | notOpen => rfl
  | threw => rfl

/-- Opening a file maps it, or changes nothing; in a callback it maps it. -/
theorem mapping_openVolume {id size : Nat} (hid : w.current_id_ = id) :
    Meets (mapping d function) (fun t => t = w) (openVolume d id size)
      (fun _ => Held d w.state_) fun _ t => t = w ∧ ∀ call, function ≠ .callback call := by
  have hopen : Meets (mapping d function) (fun t => t = w)
      (Script.ask (Op.open (composeFilePath d id) size) : Code Opening)
      (fun opening t => (opening = .opened → Held d w.state_ t) ∧
        (opening ≠ .opened → t = w ∧ ∀ call, function ≠ .callback call))
      fun _ t => t = w ∧ ∀ call, function ≠ .callback call := by
    refine .ask (fun t ht hacc => nomatch hacc) fun t opening t' ht ha => ?_
    subst ht
    obtain ⟨choice, ha, hcallback⟩ := ha
    have hfile : t.openFile (composeFilePath d id) size choice.opening = (opening, t') :=
      Option.some.inj ha
    obtain rfl : (t.openFile (composeFilePath d id) size choice.opening).1 = opening := by rw [hfile]
    obtain rfl : (t.openFile (composeFilePath d id) size choice.opening).2 = t' := by rw [hfile]
    constructor
    · intro hopened
      obtain ⟨hpath, hmapped, hcurrent, hstate⟩ := openFile_opened hopened
      refine ⟨⟨?_, hmapped⟩, hstate⟩
      rw [hpath, hcurrent, hid]
    · intro hfailed
      refine ⟨openFile_failed hfailed, fun call hcall => ?_⟩
      exact hfailed (hcallback call _ _ hcall rfl)
  refine hopen.bind fun opening => ?_
  cases opening with
  | opened => exact .return fun t ht => ht.1 rfl
  | notOpen => exact .raise fun t ht => ht.2 nofun
  | threw => exact .raise fun t ht => ht.2 nofun

theorem mapping_openFileAndGetPos {id size : Nat} :
    Meets (mapping d function) (fun w => w.state_ = mode) (openFileAndGetPos d id size)
      (fun _ => Held d mode) fun _ => Closed function mode := by
  have hisOpen : Meets (mapping d function) (fun w => w.state_ = mode)
      (Script.ask Op.isOpen : Code Bool)
      (fun is_open w => w.state_ = mode ∧ (is_open = false → w.mapped_file_ = none))
      fun _ => Closed function mode :=
    mapping_answered nofun (fun _ _ => rfl) fun _ _ hw =>
      ⟨hw, fun hnone => Option.not_isSome_iff_eq_none.mp (Bool.eq_false_iff.mp hnone)⟩
  have hrest : Meets (mapping d function)
      (fun w => w.state_ = mode ∧ w.mapped_file_ = none) (do
        Script.ask (Op.setCurrentId id)
        openVolume d id size
        let state_ : Mode ← Script.ask Op.state
        if state_ = .REPLAYING then pure (0 + 8)
        else do
          initialisePos
          getPos : Code Nat) (fun _ => Held d mode) fun _ => Closed function mode := by
    have hid : Meets (mapping d function) (fun w => w.state_ = mode ∧ w.mapped_file_ = none)
        (Script.ask (Op.setCurrentId id) : Code Unit)
        (fun _ w => w.state_ = mode ∧ w.mapped_file_ = none ∧ w.current_id_ = id)
        fun _ => Closed function mode :=
      mapping_answered nofun (fun _ _ => rfl) fun _ _ hw => ⟨hw.1, hw.2, rfl⟩
    have hvolume : Meets (mapping d function)
        (fun w => w.state_ = mode ∧ w.mapped_file_ = none ∧ w.current_id_ = id)
        (openVolume d id size) (fun _ => Held d mode) fun _ => Closed function mode := by
      refine .start fun w hw => ?_
      obtain ⟨hmode, hnone, hcurrent⟩ := hw
      refine (mapping_openVolume hcurrent).weaken (fun _ ht => ht) (fun _ _ ht => hmode ▸ ht) ?_
      rintro e t ⟨rfl, hcallback⟩
      exact ⟨hnone, hmode, hcallback⟩
    have hstate : Meets (mapping d function) (Held d mode) (Script.ask Op.state : Code Mode)
        (fun _ => Held d mode) fun _ => Closed function mode :=
      mapping_answered nofun (fun _ _ => rfl) fun _ _ hw => hw
    refine hid.bind fun _ => hvolume.bind fun _ => hstate.bind fun state_ => ?_
    cases state_ with
    | REPLAYING => exact .return fun _ hw => hw
    | DUMPING => exact mapping_initialisePos.bind fun _ => mapping_getPos
  refine hisOpen.bind fun is_open => ?_
  cases is_open with
  | true =>
    have hclose : Meets (mapping d function)
        (fun w => w.state_ = mode ∧ (true = false → w.mapped_file_ = none))
        (Script.ask Op.close : Code Unit) (fun _ w => w.state_ = mode ∧ w.mapped_file_ = none)
        fun _ => Closed function mode :=
      mapping_answered nofun (fun _ _ => rfl) fun _ _ hw => ⟨hw.1, rfl⟩
    exact hclose.bind fun _ => hrest
  | false => exact hrest.pre fun w hw => ⟨hw.1, hw.2 rfl⟩

/-! ## Writing -/

theorem mapping_storeBytes {E : Exception → World → Prop} (bytes : List UInt8) (offset : Nat) :
    Meets (mapping d function) (Held d mode) (storeBytes offset bytes) (fun _ => Held d mode) E := by
  induction bytes generalizing offset with
  | nil => exact .return fun _ hw => hw
  | cons byte bytes ih => exact mapping_store.bind fun _ => ih (offset + 1)

theorem mapping_writeNext (record : Record) :
    Meets (mapping d function) (Held d mode) (writeNext d record) (fun _ => Held d mode)
      fun _ => Closed function mode := by
  have hcurrent : Meets (mapping d function) (Held d mode) (Script.ask Op.currentId : Code Nat)
      (fun _ => Held d mode) fun _ => Closed function mode :=
    mapping_answered nofun (fun _ _ => rfl) fun _ _ hw => hw
  have hopen : ∀ id, Meets (mapping d function) (Held d mode) (openFileAndGetPos d id d.file_size_)
      (fun _ => Held d mode) fun _ => Closed function mode := fun id =>
    mapping_openFileAndGetPos.pre fun _ hw => hw.2
  have hstores : ∀ pos, Meets (mapping d function) (Held d mode) (do
      Script.ask (Op.store pos (Bytes.encode 2 (recordSize d record)) none)
      serializeToArray d record (pos + 2) (recordSize d record)
      setPos (pos + 2 + recordSize d record) (some record) : Code Unit) (fun _ => Held d mode)
      fun _ => Closed function mode := by
    intro pos
    have hserialize : Meets (mapping d function) (Held d mode)
        (serializeToArray d record (pos + 2) (recordSize d record)) (fun _ => Held d mode)
        fun _ => Closed function mode :=
      .ite (fun _ => mapping_storeBytes _ _) fun _ => .return fun _ hw => hw
    exact mapping_store.bind fun _ => hserialize.bind fun _ => mapping_store
  refine mapping_getPos.bind fun pos => .ite (fun _ => ?_) fun _ => hstores pos
  exact hcurrent.bind fun id => (hopen _).bind fun pos => hstores pos

theorem mapping_writeMark (record_type : RecordType) :
    Meets (mapping d function) (Held d mode) (writeMark d record_type) (fun _ => Held d mode)
      fun _ => Closed function mode := by
  have htime : Meets (mapping d function) (Held d mode) (Script.ask Op.getTime : Code UInt64)
      (fun _ => Held d mode) fun _ => Closed function mode :=
    mapping_answered nofun (fun _ _ => rfl) fun _ _ hw => hw
  exact htime.bind fun time => mapping_writeNext _

/-! ## Reading -/

theorem mapping_undefined {α : Type} {P : World → Prop} {Q : α → World → Prop}
    {E : Exception → World → Prop} : Meets (mapping d function) P undefined Q E := by
  have hask : Meets (mapping d function) P (Script.ask Op.undefined : Code Empty)
      (fun _ _ => False) E :=
    .ask (fun w hw hacc => nomatch hacc) fun w a => nomatch (show Empty from a)
  exact hask.bind fun a => nomatch a

/-- `get_file_ids_list` does not change anything. -/
theorem mapping_getFileIdsList {P : World → Prop} :
    Meets (mapping d function) P (getFileIdsList d) (fun _ => P) fun _ => P :=
  meets_getFileIdsList
    (fun _ => mapping_answered nofun (fun _ _ => rfl) fun _ _ hw => hw)
    (fun _ => mapping_answered nofun (fun _ _ => rfl) fun _ _ hw => hw)
    fun _ _ hw => hw

theorem mapping_parse {bytes : List UInt8} {E : Exception → World → Prop} :
    Meets (mapping d function) (Held d mode) (Script.ask (Op.parse bytes) : Code Record)
      (fun _ => Held d mode) E :=
  mapping_answered nofun (fun _ _ => rfl) fun _ _ hw => hw

/-! ## The interface -/

theorem mapping_callHandler {P : World → Prop} (call : HandlerCall) :
    Meets (mapping d function) P (callHandler call) (fun _ => P) fun e w => e = .handler ∧ P w := by
  have hask : Meets (mapping d function) P (Script.ask (Op.handle call) : Code Bool) (fun _ => P)
      fun e w => e = .handler ∧ P w :=
    mapping_answered nofun (fun _ _ => rfl) fun _ _ hw => hw
  refine hask.bind fun throws => ?_
  cases throws with
  | true => exact .raise fun _ hw => ⟨rfl, hw⟩
  | false => exact .return fun _ hw => hw

/-- The steps of a replay. -/
theorem mapping_reading : Reading d (mapping d function) (Held d .REPLAYING)
    fun _ => Loose d .REPLAYING where
  read := fun op hop => by
    cases op with
    | load offset size => exact mapping_load
    | parse bytes => exact mapping_parse
    | isDirectory path =>
      exact mapping_answered nofun (fun _ _ => rfl) fun _ _ hw => hw
    | directoryIterator path =>
      exact mapping_answered nofun (fun _ _ => rfl) fun _ _ hw => hw
    | currentId =>
      exact mapping_answered nofun (fun _ _ => rfl) fun _ _ hw => hw
    | undefined => exact mapping_still nofun fun choice w a => nomatch (show Empty from a)
    | outOfFuel => exact mapping_still nofun fun choice w a => nomatch (show Empty from a)
    | _ => exact absurd hop id
  conversion := fun failure w hw => hw.loose
  next := fun id => mapping_openFileAndGetPos.weaken (fun _ hw => hw.2) (fun _ _ hw => hw)
    fun _ _ hw => Closed.loose hw
  call := fun call => (mapping_callHandler call).weaken (fun _ hw => hw) (fun _ _ hw => hw)
    fun _ _ hw => hw.2.loose

theorem mapping_replayRecordedStream (fuel : Nat) :
    Meets (mapping d function) (Settled d) (replayRecordedStream d fuel) (fun _ => Settled d)
      fun _ => Settled d := by
  refine .ite (fun _ => ?_) fun _ => .return fun _ hw => hw
  have hreplaying : Meets (mapping d function) (Settled d)
      (Script.ask (Op.setState .REPLAYING) : Code Unit) (fun _ => Loose d .REPLAYING)
      fun _ => Settled d :=
    mapping_answered nofun (fun _ _ => rfl) fun _ _ hw => ⟨hw.1, rfl⟩
  have hids : Meets (mapping d function) (Loose d .REPLAYING) (getFileIdsList d)
      (fun _ => Loose d .REPLAYING) fun _ => Settled d :=
    mapping_getFileIdsList.weaken (fun _ hw => hw) (fun _ _ hw => hw) fun _ _ hw => Loose.settled hw
  have hdumping : Meets (mapping d function) (Held d .REPLAYING)
      (Script.ask (Op.setState .DUMPING) : Code Unit) (fun _ => Settled d) fun _ => Settled d :=
    mapping_answered nofun (fun _ _ => rfl) fun _ _ hw => ⟨fun _ => hw.1, fun _ => hw.1⟩
  refine hreplaying.bind fun _ => hids.bind fun ids_list => ?_
  cases hfirst : ids_list.head? with
  | none =>
    have hnone : Meets (mapping d function) (Loose d .REPLAYING) (undefined : Code Unit)
        (fun _ => Held d .REPLAYING) fun _ => Settled d := mapping_undefined
    exact hnone.bind fun _ => hdumping
  | some first =>
    have hopen : Meets (mapping d function) (Loose d .REPLAYING) (openFileAndGetPos d first 0)
        (fun _ => Held d .REPLAYING) fun _ => Settled d :=
      mapping_openFileAndGetPos.weaken (fun _ hw => hw.2) (fun _ _ hw => hw)
        fun _ _ hw => (Closed.loose hw).settled
    have hloop : ∀ pos, Meets (mapping d function) (Held d .REPLAYING) (replayLoop d fuel pos)
        (fun _ => Held d .REPLAYING) fun _ => Settled d := fun pos =>
      (mapping_reading.replayLoop fuel pos).weaken (fun _ hw => hw) (fun _ _ hw => hw)
        fun _ _ hw => Loose.settled hw
    exact hopen.bind fun pos => (hloop pos).bind fun _ => hdumping

theorem mapping_onCallback (call : HandlerCall) :
    Meets (mapping d (.callback call)) (Settled d) (onCallback d call) (fun _ => Settled d)
      fun e w => Settled d w ∧ (e ≠ .handler → Named d w) := by
  have hstate : Meets (mapping d (.callback call)) (Settled d) (Script.ask Op.state : Code Mode)
      (fun mode w => Settled d w ∧ w.state_ = mode)
      fun e w => Settled d w ∧ (e ≠ .handler → Named d w) :=
    mapping_answered nofun (fun _ _ => rfl) fun _ _ hw => ⟨hw, rfl⟩
  have htime : Meets (mapping d (.callback call)) (Held d .DUMPING)
      (Script.ask Op.getTime : Code UInt64) (fun _ => Held d .DUMPING)
      fun e w => Settled d w ∧ (e ≠ .handler → Named d w) :=
    mapping_answered nofun (fun _ _ => rfl) fun _ _ hw => hw
  have hwrite : ∀ time, Meets (mapping d (.callback call)) (Held d .DUMPING)
      (writeNext d (recordOf call time)) (fun _ => Held d .DUMPING)
      fun e w => Settled d w ∧ (e ≠ .handler → Named d w) := fun time =>
    (mapping_writeNext (recordOf call time)).weaken (fun _ hw => hw) (fun _ _ hw => hw)
      fun _ _ hw => absurd rfl (hw.2.2 call)
  have hcall : Meets (mapping d (.callback call)) (Held d .DUMPING) (callHandler call)
      (fun _ => Settled d) fun e w => Settled d w ∧ (e ≠ .handler → Named d w) :=
    (mapping_callHandler call).weaken (fun _ hw => hw) (fun _ _ hw => hw.settled)
      fun _ _ hw => ⟨hw.2.settled, fun hne => absurd hw.1 hne⟩
  refine hstate.bind fun mode => ?_
  cases mode with
  | REPLAYING => exact .return fun _ hw => hw.1
  | DUMPING =>
    refine (htime.bind fun time => (hwrite time).bind fun _ => .ite (fun _ => hcall) fun _ => ?_).pre
      fun w hw => ⟨hw.1.2 hw.2, hw.2⟩
    exact .return fun _ hw => hw.settled

theorem mapping_construct :
    Meets (mapping d .construct) (fun _ => True) (construct d) (fun _ => Settled d)
      fun _ _ => True := by
  have hdumping : Meets (mapping d .construct) (fun _ => True)
      (Script.ask (Op.setState .DUMPING) : Code Unit) (fun _ w => w.state_ = .DUMPING)
      fun _ _ => True :=
    mapping_answered nofun (fun _ _ => rfl) fun _ _ _ => rfl
  have hids : Meets (mapping d .construct) (fun w => w.state_ = .DUMPING) (getFileIdsList d)
      (fun _ w => w.state_ = .DUMPING) fun _ _ => True :=
    mapping_getFileIdsList.weaken (fun _ hw => hw) (fun _ _ hw => hw) fun _ _ _ => trivial
  have hcurrent : ∀ id, Meets (mapping d .construct) (fun w => w.state_ = .DUMPING)
      (Script.ask (Op.setCurrentId id) : Code Unit)
      (fun _ w => w.state_ = .DUMPING ∧ w.current_id_ = id) fun _ _ => True :=
    fun id => mapping_answered nofun (fun _ _ => rfl) fun _ _ hw => ⟨hw, rfl⟩
  have hsize : ∀ ids_list id, Meets (mapping d .construct)
      (fun w => w.state_ = .DUMPING ∧ w.current_id_ = id) (newFileSize d ids_list)
      (fun _ w => w.state_ = .DUMPING ∧ w.current_id_ = id) fun _ _ => True := by
    intro ids_list id
    refine .ite (fun _ => .return fun _ hw => hw) fun _ => ?_
    have hfile : Meets (mapping d .construct) (fun w => w.state_ = .DUMPING ∧ w.current_id_ = id)
        (Script.ask (Op.fileSize (composeFilePath d (ids_list.getLast?.getD 0))) : Code (Option Nat))
        (fun _ w => w.state_ = .DUMPING ∧ w.current_id_ = id) fun _ _ => True :=
      mapping_answered nofun (fun _ _ => rfl) fun _ _ hw => hw
    refine hfile.bind fun size => ?_
    rcases size with _ | fs_file_size
    · exact .raise fun _ _ => trivial
    · exact .ite (fun _ => .raise fun _ _ => trivial) fun _ => .return fun _ hw => hw
  have hvolume : ∀ id size, Meets (mapping d .construct)
      (fun w => w.state_ = .DUMPING ∧ w.current_id_ = id) (openVolume d id size)
      (fun _ => Held d .DUMPING) fun _ _ => True := by
    intro id size
    refine .start fun w hw => ?_
    exact (mapping_openVolume hw.2).weaken (fun _ ht => ht) (fun _ _ ht => hw.1 ▸ ht)
      fun _ _ _ => trivial
  have hmark : Meets (mapping d .construct) (Held d .DUMPING) (writeMark d .DUMPER_OPEN)
      (fun _ => Settled d) fun _ _ => True :=
    (mapping_writeMark _).weaken (fun _ hw => hw) (fun _ _ hw => hw.settled) fun _ _ _ => trivial
  refine hdumping.bind fun _ => hids.bind fun ids_list => (hcurrent _).bind fun _ => ?_
  exact (hsize ids_list _).bind fun size => (hvolume _ size).bind fun _ =>
    mapping_initialisePos.bind fun _ => hmark

theorem mapping_destruct :
    Meets (mapping d .destruct) (Settled d) (destruct d) (fun _ _ => True) fun _ _ => True := by
  have hisOpen : Meets (mapping d .destruct) (Settled d) (Script.ask Op.isOpen : Code Bool)
      (fun is_open w => is_open = true → Named d w) fun _ _ => True :=
    mapping_answered nofun (fun _ _ => rfl) fun _ _ hw =>
      fun hopen => hw.1 (Option.isSome_iff_ne_none.mp hopen)
  refine hisOpen.bind fun is_open => ?_
  cases is_open with
  | false => exact .return fun _ _ => trivial
  | true =>
    have hmark : Meets (mapping d .destruct) (fun w => true = true → Named d w)
        (writeMark d .DUMPER_CLOSE) (fun _ _ => True) fun _ _ => True := by
      refine .start fun w hw => ?_
      have hheld : Meets (mapping d .destruct) (Held d w.state_) (writeMark d .DUMPER_CLOSE)
          (fun _ => Held d w.state_) fun _ => Closed .destruct w.state_ := mapping_writeMark _
      refine hheld.weaken (fun t ht => ?_) (fun _ _ _ => trivial) fun _ _ _ => trivial
      subst ht
      exact ⟨hw rfl, rfl⟩
    have hclose : Meets (mapping d .destruct) (fun _ => True) (Script.ask Op.close : Code Unit)
        (fun _ _ => True) fun _ _ => True :=
      .ask (fun _ _ hacc => nomatch hacc) fun _ _ _ _ _ => trivial
    exact hmark.bind fun _ => hclose

/-! ## Runs -/

variable (d) in
/-- What holds when a function has ended. -/
def Ended : Function → Except Exception Unit → World → Prop
  | .construct, .ok _, w => Settled d w
  | .callback _, .ok _, w => Settled d w
  | .callback _, .error e, w => Settled d w ∧ (e ≠ .handler → Named d w)
  | .replay, _, w => Settled d w
  | _, _, _ => True

variable (d) in
/-- What holds in every state of a run. -/
def MappingInv (s : State) : Prop :=
  match s.process with
  | .absent => True
  | .idle => Settled d s.world
  | .running function rest => Safe (mapping d function) (Ended d function) rest s.world

theorem MappingInv.finish {function : Function} {r : Except Exception Unit}
    (h : Ended d function r w) : MappingInv d (finish function r w) := by
  cases function with
  | construct => cases r <;> exact h
  | callback call =>
    cases r with
    | ok _ => exact h
    | error e => exact h.1
  | replay => exact h
  | destruct => trivial

/-- One step, in which no opening fails inside of a callback. -/
theorem mappingInv_step {s s' : State} {act : Act} (h : MappingInv d s)
    (hstep : next d s act = some s') (hopens : OpensInCallbacks s act) : MappingInv d s' := by
  obtain ⟨w, process⟩ := s
  cases act with
  | construct =>
    cases process with
    | absent =>
      cases hstep
      refine (mapping_construct w trivial).mono fun r w' hr => ?_
      cases r <;> exact hr
    | idle => cases hstep
    | running function rest => cases hstep
  | callback call =>
    cases process with
    | absent => cases hstep
    | idle =>
      cases hstep
      refine (mapping_onCallback call w h).mono fun r w' hr => ?_
      cases r <;> exact hr
    | running function rest => cases hstep
  | replay fuel =>
    cases process with
    | absent => cases hstep
    | idle =>
      cases hstep
      refine (mapping_replayRecordedStream fuel w h).mono fun r w' hr => ?_
      cases r <;> exact hr
    | running function rest => cases hstep
  | destruct =>
    cases process with
    | absent => cases hstep
    | idle =>
      cases hstep
      refine (mapping_destruct w h).mono fun r w' hr => ?_
      cases r <;> trivial
    | running function rest => cases hstep
  | step choice =>
    cases process with
    | absent => cases hstep
    | idle => cases hstep
    | running function rest =>
      cases rest with
      | ret r =>
        cases hstep
        exact .finish h
      | call op k =>
        obtain ⟨⟨a, w'⟩, ha, rfl⟩ := Option.map_eq_some_iff.mp hstep
        refine h.2 a w' ⟨choice, ha, fun call path size hfunction hop => ?_⟩
        subst hfunction hop
        exact hopens _ rfl
  | crash =>
    cases hstep
    trivial

/-- In every run in whose callbacks no opening fails, the `Dumper` accesses the file that is mapped
only. -/
theorem uses_open_mapping {s : State}
    (h : Reachable ((system d w).restrict OpensInCallbacks) s) : UsesOpenMapping d s := by
  have hinv : MappingInv d s := by
    refine h.invariant (fun s hs => ?_) fun s act s' hs hstep => ?_
    · rw [show s = _ from hs]
      trivial
    · exact mappingInv_step hs hstep.1 hstep.2
  obtain ⟨w', process⟩ := s
  constructor
  · rintro function op k hprocess hacc
    obtain rfl : process = .running function (.call op k) := hprocess
    exact hinv.1 hacc
  · rintro call e hprocess hne
    obtain rfl : process = .running (.callback call) (.ret (.error e)) := hprocess
    exact hinv.2 hne

section Examples

/-- A `Dumper` whose volumes have room for one record without a message. -/
def oneRecordVolumes : Config where
  paths := plainPaths
  proto := plainProtobuf
  file_path_ := "var/log".toList
  file_size_ := 14
  wrapped_handler_ := true

/-- An operation at time `1`, with this result if it opens a file. -/
def atOne (opening : Opening) : Act := .step { time := 1, throws := false, opening := opening }

/-- A `Dumper` is constructed, which records `DUMPER_OPEN`. -/
def constructed : List Act := .construct :: .replicate 16 (atOne .opened)

/-- A callback comes to the opening of the next volume, where `rest` follows. -/
def rotating (rest : List Act) : List Act :=
  constructed ++ .callback .onListenerOpen :: .replicate 7 (atOne .opened) ++ rest

/-- The callback whose next volume was opened. -/
theorem uses_open_mapping_rotated :
    ∃ s, run (next oneRecordVolumes) { world := plainWorld "var".toList [], process := .absent }
      (rotating [atOne .opened]) = some s ∧ UsesOpenMapping oneRecordVolumes s := by
  have hrun : (run (next oneRecordVolumes)
      { world := plainWorld "var".toList [], process := .absent }
        (rotating [atOne .opened])).isSome := by
    decide +kernel
  obtain ⟨s, hs⟩ := Option.isSome_iff_exists.mp hrun
  have hmeets : RunMeets (next oneRecordVolumes) OpensInCallbacks
      { world := plainWorld "var".toList [], process := .absent } (rotating [atOne .opened]) := by
    decide +kernel
  exact ⟨s, hs, uses_open_mapping (reachable_restrict_run _ (.init rfl) hmeets hs)⟩

/-- A callback ends with an exception that is not the handler's, and no file is mapped. -/
def State.failsUnmapped (s : State) : Bool :=
  match s.process with
  | .running (.callback _) (.ret (.error e)) => e ≠ .handler && s.world.mapped_file_.isNone
  | _ => false

theorem not_usesOpenMapping {d : Config} {s : State} (h : s.failsUnmapped) :
    ¬UsesOpenMapping d s := by
  intro huses
  obtain ⟨w, process⟩ := s
  unfold State.failsUnmapped at h
  split at h
  · next call e hprocess =>
    obtain ⟨hne, hnone⟩ := Bool.and_eq_true_iff.mp h
    have hnamed := huses.named call e hprocess (of_decide_eq_true hne)
    rw [hnamed.1] at hnone
    cases hnone
  · cases h

/-- The callback whose next volume could not be opened leaves no file mapped. -/
theorem failed_rotation_unmaps : ¬∀ (d : Config) (w : World) (s : State),
    Reachable (system d w) s → UsesOpenMapping d s := by
  intro h
  have hrun : (run (next oneRecordVolumes)
      { world := plainWorld "var".toList [], process := .absent }
        (rotating [atOne .notOpen])).any State.failsUnmapped = true := by
    decide +kernel
  obtain ⟨s, hs, hfails⟩ := (Option.any_eq_true _ _).mp hrun
  exact not_usesOpenMapping hfails (h _ _ s (reachable_of_run _ hs))

end Examples

end Dumper

end Cgatepp

import ItexDemo.Cgatepp.RoundTrip
import ItexDemo.Cgatepp.Proofs.ReplayProofs

/-!
# Proofs: sessions of recording

The constructor finds a log, whatever the session before it has left, and goes to its end (`AtEnd`),
from where the callbacks and the destructor append. The operations are called while the volumes form
a log, so that the process may end at any of them.
-/

namespace Cgatepp

namespace Dumper

open Script Transition

variable {d : Config} {S : Setting} {vols : List Volume} {w w' : World}

variable (d) in
/-- The last volume is mapped, and the `Dumper` records. -/
structure AtEnd (kept : Prop) (vols : List Volume) (i : Nat) (v : Volume) (w : World) : Prop
    extends Mapped d kept vols i v w where
  initialised : v.initialised = true
  last : i + 1 = vols.length
  filled : ∀ u ∈ vols, u.records ≠ []
  dumping : w.state_ = .DUMPING

variable (d) in
/-- The end of the log, behind `record`. -/
structure Appended (kept : Prop) (w : World) (record : Record) (w' : World) : Prop where
  atEnd : ∃ vols i v, AtEnd d kept vols i v w'
  written : w'.written = w.written ++ [record]
  returned : w'.returned = w.returned

/-! ## The functions -/

section Functions

variable {i : Nat} {v : Volume} {E : Exception → World → Prop}

/-- The record is made at a time at which it can be written. -/
theorem meets_getTime (hlog : Log d S.kept vols w) :
    Meets (machine d S) (fun t => t = w) (Script.ask Op.getTime : Code UInt64)
      (fun time t => t = w ∧ ∀ record, S.function.record time = some record → Recordable d w record)
      E := by
  refine .ask (fun t ht => ?_) fun t time t' ht ha => ?_
  · rw [ht]
    exact ⟨⟨vols, hlog⟩, fun _ => nofun, fun _ _ => rfl⟩
  · obtain ⟨choice, -, -, hadmits, ha⟩ := ha
    obtain ⟨rfl, rfl⟩ := Prod.mk.inj (Option.some.inj ha)
    exact ⟨ht, fun record hrecord => ht ▸ hadmits rfl record hrecord⟩

theorem meets_writeNext {record : Record} (hsize : GoodSize d) (h : Mapped d S.kept vols i v w)
    (hinit : v.initialised = true) (hlast : i + 1 = vols.length) (hdumping : w.state_ = .DUMPING) :
    Meets (machine d S) (fun t => t = w ∧ Recordable d w record) (writeNext d record)
      (fun _ => Appended d S.kept w record) E := by
  refine .start fun t ht => ?_
  obtain ⟨rfl, hrecord⟩ := ht
  obtain ⟨w', vols', i', v', hdoes, hmapped, hinit', hlast', hfilled, hwritten, hstate, hreturned⟩ :=
    does_writeNext hsize h hinit hlast hrecord
  exact hdoes.meets ⟨⟨vols', i', v', hmapped, hinit', hlast', hfilled, hstate.trans hdumping⟩,
    hwritten, hreturned⟩

theorem meets_writeMark (record_type : RecordType) (hsize : GoodSize d)
    (h : Mapped d S.kept vols i v w) (hinit : v.initialised = true) (hlast : i + 1 = vols.length)
    (hdumping : w.state_ = .DUMPING)
    (hmark : ∀ time, S.function.record time =
      some { record_type := record_type, timestamp := time, message := .notSet }) :
    Meets (machine d S) (fun t => t = w) (writeMark d record_type)
      (fun _ t => ∃ time record, S.function.record time = some record ∧
        Appended d S.kept w record t) E := by
  refine (meets_getTime h.log).bind fun time => ?_
  refine ((meets_writeNext hsize h hinit hlast hdumping).weaken (fun t ht => ?_) (fun _ t ht => ?_)
    fun _ _ he => he)
  · exact ⟨ht.1, ht.2 _ (hmark time)⟩
  · exact ⟨time, _, hmark time, ht⟩

/-- What the constructor does with the volume that it has opened. -/
theorem meets_begin {w₀ : World} (hsize : GoodSize d) (hfunction : S.function = .construct)
    (h : Mapped d S.kept vols i v w) (hlast : i + 1 = vols.length) (hdumping : w.state_ = .DUMPING)
    (hwritten : w.written = w₀.written) (hreturned : w.returned = w₀.returned) :
    Meets (machine d S) (fun t => t = w) (do
        initialisePos
        writeMark d .DUMPER_OPEN)
      (fun _ t => ∃ time record, Function.construct.record time = some record ∧
        Appended d S.kept w₀ record t) E := by
  obtain ⟨w₁, hinitialise, hmapped, hframe⟩ := does_initialisePos hsize h
  have hmark := meets_writeMark (E := E) .DUMPER_OPEN hsize hmapped rfl
    (by rw [List.length_set, hlast]) (hframe.state_.trans hdumping) fun time => by rw [hfunction]; rfl
  refine hinitialise.bind (hmark.weaken (fun _ ht => ht) ?_ fun _ _ he => he)
  rintro _ t ⟨time, record, hrecord, hatEnd, hwritten', hreturned'⟩
  rw [hfunction] at hrecord
  refine ⟨time, record, hrecord, hatEnd, ?_, ?_⟩
  · rw [hwritten', hframe.written, hwritten]
  · rw [hreturned', hframe.returned, hreturned]

/-- The constructor opens the last volume that there is. -/
theorem does_newFileSize {n : Nat} (hlog : Log d S.kept vols w) (hlast : n + 1 = vols.length) :
    Does (machine d S) w (newFileSize d (List.range vols.length)) 0 w := by
  have hn : n < vols.length := by omega
  obtain ⟨content, hfind, hlayout⟩ := hlog.volume n vols[n] (List.getElem?_eq_getElem hn)
  have hgetLast : (List.range vols.length).getLast?.getD 0 = n := by
    rw [← hlast, List.range_succ, List.getLast?_concat]
    rfl
  have hfile : Does (machine d S) w
      (Script.ask (Op.fileSize (composeFilePath d n)) : Code (Option Nat)) (some d.file_size_) w := by
    refine does_ask hlog nofun fun choice => ?_
    show some ((AssocMap.find w.files (composeFilePath d n)).map List.length, w) = _
    rw [hfind, Option.map_some, hlayout.length]
    rfl
  have hne : List.range vols.length ≠ [] := by
    rw [← hlast, List.range_succ]
    simp
  unfold newFileSize
  rw [if_neg hne, hgetLast]
  refine hfile.next ?_
  show Does (machine d S) w (if d.file_size_ ≠ d.file_size_ then _ else _) 0 w
  rw [if_neg fun hsize => hsize rfl]
  exact .return

/-- The constructor goes to the end of the log that it finds. -/
theorem meets_construct (hsize : GoodSize d) (hfunction : S.function = .construct)
    (hlog : Log d S.kept vols w) :
    Meets (machine d S) (fun t => t = w) (construct d)
      (fun _ t => ∃ time record, Function.construct.record time = some record ∧
        Appended d S.kept w record t) E := by
  have hdumping : Does (machine d S) w (Script.ask (Op.setState .DUMPING) : Code Unit) ()
      { w with state_ := .DUMPING } :=
    does_ask hlog nofun fun _ => rfl
  have hlog₁ : Log d S.kept vols { w with state_ := .DUMPING } := hlog.congr rfl rfl rfl
  have hcurrent : ∀ id, Does (machine d S) { w with state_ := .DUMPING }
      (Script.ask (Op.setCurrentId id) : Code Unit) ()
      { w with state_ := .DUMPING, current_id_ := id } :=
    fun id => does_ask hlog₁ nofun fun _ => rfl
  have hlog₂ : ∀ id, Log d S.kept vols { w with state_ := .DUMPING, current_id_ := id } :=
    fun id => hlog.congr rfl rfl rfl
  unfold construct
  refine hdumping.bind ((does_getFileIdsList hlog₁).bind ?_)
  cases hlength : vols.length with
  | zero =>
    -- There is no volume, and the first one is created.
    obtain rfl := List.length_eq_zero_iff.mp hlength
    have hpos : 0 < d.file_size_ := Nat.lt_of_lt_of_le (by decide) hsize.1
    have hmapped : Mapped d S.kept [{ initialised := false, records := [] }] 0
        { initialised := false, records := [] }
        { w with
          files := AssocMap.assign w.files (composeFilePath d 0) (List.replicate d.file_size_ 0)
          mapped_file_ := some (composeFilePath d 0)
          current_id_ := 0
          state_ := .DUMPING } :=
      ⟨((hlog₂ 0).create hsize nofun (by decide)).congr rfl rfl rfl, rfl, rfl, rfl⟩
    exact (hcurrent 0).bind
      ((does_openNew (hlog₂ 0) hpos).bind (meets_begin hsize hfunction hmapped rfl rfl rfl rfl))
  | succ n =>
    have hn : n < vols.length := by omega
    have hgetLast : (List.range (n + 1)).getLast?.getD 0 = n := by
      rw [List.range_succ, List.getLast?_concat]
      rfl
    have hmapped : Mapped d S.kept vols n vols[n]
        { w with
          mapped_file_ := some (composeFilePath d n)
          current_id_ := n
          state_ := .DUMPING } :=
      ⟨hlog.congr rfl rfl rfl, List.getElem?_eq_getElem hn, rfl, rfl⟩
    have hfileSize := does_newFileSize (hlog₂ n) hlength.symm
    rw [hlength] at hfileSize
    rw [hgetLast]
    exact (hcurrent n).bind (hfileSize.bind ((does_openExisting (hlog₂ n) hn).bind
      (meets_begin hsize hfunction hmapped hlength.symm rfl rfl rfl)))

theorem meets_onCallback {call : HandlerCall} (hsize : GoodSize d)
    (hfunction : S.function = .callback call) (h : AtEnd d S.kept vols i v w) :
    Meets (machine d S) (fun t => t = w) (onCallback d call)
      (fun _ t => ∃ vols i v, AtEnd d S.kept vols i v t)
      fun _ t => ∃ vols i v, AtEnd d S.kept vols i v t := by
  have hstate : Does (machine d S) w (Script.ask Op.state : Code Mode) .DUMPING w := by
    refine does_ask h.log nofun fun _ => ?_
    show some (w.state_, w) = _
    rw [h.dumping]
    rfl
  have hrecord : ∀ time, S.function.record time = some (recordOf call time) := by
    intro time
    rw [hfunction]
    rfl
  refine hstate.bind ((meets_getTime h.log).bind fun time => ?_)
  have hwrite : Meets (machine d S)
      (fun t => t = w ∧ ∀ record, S.function.record time = some record → Recordable d w record)
      (writeNext d (recordOf call time)) (fun _ => Appended d S.kept w (recordOf call time))
      fun _ t => ∃ vols i v, AtEnd d S.kept vols i v t :=
    (meets_writeNext hsize h.toMapped h.initialised h.last h.dumping).pre
      fun t ht => ⟨ht.1, ht.2 _ (hrecord time)⟩
  refine hwrite.bind fun _ => .ite (fun _ => .start fun t ht => ?_) fun _ => .return fun t ht => ht.atEnd
  obtain ⟨vols', i', v', hatEnd⟩ := ht.atEnd
  refine (meets_callHandler hatEnd.log call).weaken (fun _ ht => ht) ?_ ?_
  · rintro _ t' rfl
    exact ⟨vols', i', v', hatEnd⟩
  · rintro _ t' ⟨-, rfl⟩
    exact ⟨vols', i', v', hatEnd⟩

theorem meets_destruct (hsize : GoodSize d) (hfunction : S.function = .destruct)
    (h : AtEnd d S.kept vols i v w) :
    Meets (machine d S) (fun t => t = w) (destruct d) (fun _ t => ∃ vols, Log d S.kept vols t)
      E := by
  have hisOpen : Does (machine d S) w (Script.ask Op.isOpen : Code Bool) true w := by
    refine does_ask h.log nofun fun _ => ?_
    show some (w.mapped_file_.isSome, w) = _
    rw [h.mapped]
    rfl
  have hmark := meets_writeMark (E := E) .DUMPER_CLOSE hsize h.toMapped h.initialised
    h.last h.dumping fun time => by rw [hfunction]; rfl
  refine hisOpen.bind (hmark.bind fun _ => .start fun t ht => ?_)
  obtain ⟨time, record, -, ⟨vols', i', v', hatEnd⟩, -, -⟩ := ht
  have hclose : Does (machine d S) t (Script.ask Op.close : Code Unit) ()
      { t with mapped_file_ := none } :=
    does_ask hatEnd.log nofun fun _ => rfl
  exact hclose.meets ⟨vols', hatEnd.log.congr rfl rfl rfl⟩

end Functions

/-! ## Failures -/

/-- Behind a failure the code throws. -/
abbrev Stops {α : Type} (x : Code α) : Prop := Halts (fun op a => op.fails a = true) x.run

theorem stops_ask {op : Op} (h : ∀ a, op.fails a = false) : Stops (Script.ask op : Code (Ans op)) :=
  .ask fun a hfails => by rw [h a] at hfails; cases hfails

theorem stops_getPos : Stops getPos := .next (stops_ask fun _ => rfl) fun _ => trivial

theorem stops_setPos (pos : Nat) (completes : Option Record) : Stops (setPos pos completes) :=
  stops_ask fun _ => rfl

theorem stops_initialisePos : Stops initialisePos :=
  .next stops_getPos fun pos => .ite (stops_setPos (pos + 8) none) trivial

theorem stops_openVolume (id new_file_size : Nat) : Stops (openVolume d id new_file_size) := by
  refine .ask_next (fun opening hfails => ?_) fun opening => ?_
  · cases opening with
    | opened => cases hfails
    | notOpen => exact ⟨_, rfl⟩
    | threw => exact ⟨_, rfl⟩
  · cases opening with
    | opened => trivial
    | notOpen => trivial
    | threw => trivial

theorem stops_openFileAndGetPos (id new_file_size : Nat) :
    Stops (openFileAndGetPos d id new_file_size) := by
  have hopened : Stops (do
      Script.ask (Op.setCurrentId id)
      openVolume d id new_file_size
      let state_ : Mode ← Script.ask Op.state
      if state_ = .REPLAYING then pure (0 + 8)
      else do
        initialisePos
        getPos) := by
    refine .next (stops_ask fun _ => rfl) fun _ => .next (stops_openVolume id new_file_size) fun _ => ?_
    refine .next (stops_ask fun _ => rfl) fun _ => .ite trivial ?_
    exact .next stops_initialisePos fun _ => stops_getPos
  refine .next (stops_ask fun _ => rfl) fun is_open => ?_
  cases is_open with
  | false => exact hopened
  | true => exact .next (stops_ask fun _ => rfl) fun _ => hopened

theorem stops_storeBytes (bytes : List UInt8) (offset : Nat) : Stops (storeBytes offset bytes) := by
  induction bytes generalizing offset with
  | nil => trivial
  | cons byte bytes ih => exact .next (stops_ask fun _ => rfl) fun _ => ih (offset + 1)

theorem stops_writeNext (record : Record) : Stops (writeNext d record) := by
  have hstores : ∀ pos, Stops (do
      Script.ask (Op.store pos (Bytes.encode 2 (recordSize d record)) none)
      serializeToArray d record (pos + 2) (recordSize d record)
      setPos (pos + 2 + recordSize d record) (some record)) := by
    intro pos
    refine .next (stops_ask fun _ => rfl) fun _ => .next (.ite (stops_storeBytes _ _) trivial) fun _ => ?_
    exact stops_setPos _ _
  refine .next stops_getPos fun pos => ?_
  by_cases hfull : (pos + 2 + recordSize d record) % 2 ^ 64 > d.file_size_
  · rw [if_pos hfull]
    exact .next (stops_ask fun _ => rfl) fun _ => .next (stops_openFileAndGetPos _ _) fun _ => hstores _
  · rw [if_neg hfull]
    exact hstores pos

theorem stops_getFileIdsList : Stops (getFileIdsList d) := by
  refine .next (stops_ask fun _ => rfl) fun directory => ?_
  cases directory with
  | false => trivial
  | true =>
    refine .next (stops_ask fun _ => rfl) fun files => ?_
    cases readIds d files with
    | error failure => trivial
    | ok ids_list => trivial

theorem stops_newFileSize (ids_list : List Nat) : Stops (newFileSize d ids_list) := by
  refine .ite trivial (.next (stops_ask fun _ => rfl) fun size => ?_)
  cases size with
  | none => trivial
  | some fs_file_size => exact .ite trivial trivial

theorem stops_writeMark (record_type : RecordType) : Stops (writeMark d record_type) :=
  .next (stops_ask fun _ => rfl) fun _ => stops_writeNext _

theorem stops_construct : Stops (construct d) := by
  refine .next (stops_ask fun _ => rfl) fun _ => .next stops_getFileIdsList fun ids_list => ?_
  refine .next (stops_ask fun _ => rfl) fun _ => .next (stops_newFileSize ids_list) fun size => ?_
  refine .next (stops_openVolume _ size) fun _ => .next stops_initialisePos fun _ => ?_
  exact stops_writeMark .DUMPER_OPEN

theorem stops_callHandler (call : HandlerCall) : Stops (callHandler call) := by
  refine .ask_next (fun throws hfails => ?_) fun throws => ?_
  · obtain rfl : throws = true := hfails
    exact ⟨_, rfl⟩
  · cases throws with
    | false => trivial
    | true => trivial

theorem stops_onCallback (call : HandlerCall) : Stops (onCallback d call) := by
  refine .next (stops_ask fun _ => rfl) fun _ => .ite trivial (.next (stops_ask fun _ => rfl) fun _ => ?_)
  exact .next (stops_writeNext _) fun _ => .ite (stops_callHandler call) trivial

theorem stops_destruct : Stops (destruct d) := by
  refine .next (stops_ask fun _ => rfl) fun is_open => ?_
  cases is_open with
  | false => trivial
  | true => exact .next (stops_writeMark .DUMPER_CLOSE) fun _ => stops_ask fun _ => rfl

/-- An operation is one of the machine, or a failure to open a file. -/
theorem act_or_fails {op : Op} {choice : Choice} {a : Ans op} (hthrow : S.mayThrow)
    (hadmits : op = .getTime → Admits d S choice w)
    (ha : answer d.paths d.proto choice op w = some (a, w')) :
    (machine d S).Act op w a w' ∨ op.fails a = true ∧ (∃ path size, op = .open path size) ∧ w' = w := by
  cases op with
  | «open» path size =>
    have hopen : w.openFile path size choice.opening = (a, w') := Option.some.inj ha
    cases hchoice : choice.opening with
    | opened => exact .inl ⟨choice, hchoice, fun _ => hthrow, hadmits, ha⟩
    | notOpen =>
      rw [hchoice] at hopen
      obtain ⟨rfl, rfl⟩ := Prod.mk.inj hopen
      exact .inr ⟨rfl, ⟨path, size, rfl⟩, rfl⟩
    | threw =>
      rw [hchoice] at hopen
      obtain ⟨rfl, rfl⟩ := Prod.mk.inj hopen
      exact .inr ⟨rfl, ⟨path, size, rfl⟩, rfl⟩
  | _ => exact .inl ⟨{ choice with opening := .opened }, rfl, fun _ => hthrow, hadmits, ha⟩

/-! ## Runs -/

variable (d) in
/-- What a function leaves behind when it has ended. -/
def LeavesLog : Function → Except Exception Unit → World → Prop
  | .construct, .error _, w => ∃ vols, Log d True vols w
  | .destruct, _, w => ∃ vols, Log d True vols w
  | _, _, w => ∃ vols i v, AtEnd d True vols i v w

variable (d) in
/-- What holds in every state of a run of recording. -/
def SessionInv (s : State) : Prop :=
  match s.process with
  | .absent => ∃ vols, Log d True vols s.world
  | .idle => ∃ vols i v, AtEnd d True vols i v s.world
  | .running function rest =>
    Safe (machine d { kept := True, mayThrow := True, function := function }) (LeavesLog d function)
        rest s.world ∧
      Halts (fun op a => op.fails a = true) rest ∧ function ≠ .replay

/-- A path without volumes. -/
theorem log_of_blank (hpaths : Discoverable d w.directories) (hblank : Blank d w) :
    Log d True [] w where
  paths := hpaths
  nodup := hblank.nodup
  volume := nofun
  absent := by
    intro i _
    refine Option.not_isSome_iff_eq_none.mp fun hsome => ?_
    exact hblank.none _ (AssocMap.find_isSome.mp hsome) (hpaths.parent i) (hpaths.volume i)
  listed := fun path hpath hparent hvolume => absurd hvolume (hblank.none path hpath hparent)
  full := nofun
  count := by decide
  written := fun _ => hblank.written.symm

theorem SessionInv.finish {function : Function} {r : Except Exception Unit}
    (h : LeavesLog d function r w) (hne : function ≠ .replay) :
    SessionInv d (finish function r w) := by
  have hrelease : (∃ vols, Log d True vols w) → ∃ vols, Log d True vols w.release := by
    rintro ⟨vols, hlog⟩
    exact ⟨vols, hlog.congr rfl rfl rfl⟩
  cases function with
  | construct =>
    cases r with
    | ok _ => exact h
    | error e => exact hrelease h
  | callback call => exact h
  | replay => exact absurd rfl hne
  | destruct => exact hrelease h

/-- The volumes form a log at any time. -/
theorem SessionInv.log {s : State} (h : SessionInv d s) : ∃ vols, Log d True vols s.world := by
  obtain ⟨w, process⟩ := s
  have hatEnd : (∃ vols i v, AtEnd d True vols i v w) → ∃ vols, Log d True vols w := by
    rintro ⟨vols, i, v, hatEnd⟩
    exact ⟨vols, hatEnd.log⟩
  cases process with
  | absent => exact h
  | idle => exact hatEnd h
  | running function rest =>
    cases rest with
    | call op k => exact h.1.1.1
    | ret r =>
      have hleaves : LeavesLog d function r w := h.1
      cases function with
      | construct =>
        cases r with
        | ok _ => exact hatEnd hleaves
        | error e => exact hleaves
      | callback call => exact hatEnd hleaves
      | replay => exact hatEnd hleaves
      | destruct => exact hleaves

/-- One operation of a function that records. -/
theorem SessionInv.answer {function : Function} {op : Op} {k : Ans op → Rest} {choice : Choice}
    {a : Ans op} (h : SessionInv d { world := w, process := .running function (.call op k) })
    (ha : answer d.paths d.proto choice op w = some (a, w'))
    (hrecording : Recording d { world := w, process := .running function (.call op k) }
      (.step choice)) :
    SessionInv d { world := w', process := .running function (k a) } := by
  have hlog := h.log
  obtain ⟨hsafe, hhalts, hne⟩ := h
  have hadmits : op = .getTime →
      Admits d { kept := True, mayThrow := True, function := function } choice w := by
    rintro rfl record hrecord
    exact hrecording.2 function rfl record hrecord
  rcases act_or_fails trivial hadmits ha with hact | ⟨hfails, ⟨path, size, rfl⟩, rfl⟩
  · exact ⟨hsafe.2 a w' hact, (hhalts a).2, hne⟩
  · -- The function throws; only the constructor and the destructor may do so here.
    obtain ⟨e, hk⟩ := (hhalts a).1 hfails
    refine ⟨?_, (hhalts a).2, hne⟩
    rw [hk]
    cases function with
    | construct => exact hlog
    | callback call =>
      have hopened : (w'.openFile path size choice.opening).1 = .opened :=
        hrecording.1 (path, size) rfl
      have hfile : w'.openFile path size choice.opening = (a, w') := Option.some.inj ha
      rw [hfile] at hopened
      obtain rfl : a = Opening.opened := hopened
      cases hfails
    | replay => exact absurd rfl hne
    | destruct => exact hlog

/-- One step of recording. -/
theorem sessionInv_step (hsize : GoodSize d) {s s' : State} {act : Act} (h : SessionInv d s)
    (hstep : next d s act = some s') (hrecording : Recording d s act) : SessionInv d s' := by
  have hlog := h.log
  obtain ⟨w, process⟩ := s
  cases act with
  | construct =>
    cases process with
    | absent =>
      cases hstep
      obtain ⟨vols, hlog⟩ := hlog
      refine ⟨?_, stops_construct, nofun⟩
      refine (meets_construct hsize rfl hlog (E := fun _ _ => False) w rfl).mono fun r w' hr => ?_
      cases r with
      | ok _ =>
        obtain ⟨time, record, -, hatEnd, -, -⟩ := hr
        exact hatEnd
      | error e => exact hr.elim
    | idle => cases hstep
    | running function rest => cases hstep
  | callback call =>
    cases process with
    | absent => cases hstep
    | idle =>
      cases hstep
      obtain ⟨vols, i, v, hatEnd⟩ := h
      refine ⟨?_, stops_onCallback call, nofun⟩
      refine (meets_onCallback hsize rfl hatEnd w rfl).mono fun r w' hr => ?_
      cases r <;> exact hr
    | running function rest => cases hstep
  | replay fuel => exact hrecording.elim
  | destruct =>
    cases process with
    | absent => cases hstep
    | idle =>
      cases hstep
      obtain ⟨vols, i, v, hatEnd⟩ := h
      refine ⟨?_, stops_destruct, nofun⟩
      refine (meets_destruct hsize rfl hatEnd (E := fun _ _ => False) w rfl).mono fun r w' hr => ?_
      cases r with
      | ok _ => exact hr
      | error e => exact hr.elim
    | running function rest => cases hstep
  | step choice =>
    cases process with
    | absent => cases hstep
    | idle => cases hstep
    | running function rest =>
      cases rest with
      | ret r =>
        cases hstep
        exact .finish h.1 h.2.2
      | call op k =>
        obtain ⟨⟨a, w'⟩, ha, rfl⟩ := Option.map_eq_some_iff.mp hstep
        exact h.answer ha hrecording
  | crash =>
    cases hstep
    obtain ⟨vols, hlog⟩ := hlog
    exact ⟨vols, hlog.congr rfl rfl rfl⟩

end Dumper

end Cgatepp

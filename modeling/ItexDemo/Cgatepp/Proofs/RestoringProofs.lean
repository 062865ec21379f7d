import ItexDemo.Cgatepp.Proofs.DiscoveryProofs
import ItexDemo.Cgatepp.Proofs.ReplayProofs

/-!
# Proofs: what a replay leaves behind

A replay in which nothing fails goes through the log to its last volume. One in which a call of the
handler or an opening fails ends there, with `state_` still `REPLAYING`.
-/

namespace Cgatepp

namespace Dumper

open Script

variable {d : Config}

/-! ## Until something fails -/

variable (d) in
/-- The operations of a replay, none of which is called behind a failure. -/
def guarding : Semantics Op Ans Watched where
  Pre := fun _ s => s.failed = false
  Act := (watching d).Act

variable (d) in
/-- The operations when they do not fail. -/
def unfailing : Semantics Op Ans World where
  Pre := fun op w => ∀ choice, (answer d.paths d.proto choice op w).isSome
  Act := fun op w a w' =>
    op.fails a = false ∧ ∃ choice, answer d.paths d.proto choice op w = some (a, w')

/-- A run goes on where nothing has failed, and ends with the first failure. -/
theorem safe_watching {α : Type} {Q : α → World → Prop} {R : α → Watched → Prop}
    {p : Script Op Ans α} {w : World} {handled : List HandlerCall} (h : Safe (unfailing d) Q p w)
    (hguard : Safe (guarding d) R p { world := w, failed := false, handled := handled }) :
    Safe (watching d) (fun a s => (s.failed = false → Q a s.world) ∧ R a s) p
      { world := w, failed := false, handled := handled } := by
  induction p generalizing w handled with
  | ret a => exact ⟨fun _ => h, hguard⟩
  | call op k ih =>
    refine ⟨h.1, fun a s ha => ?_⟩
    have hrest := hguard.2 a s ha
    obtain ⟨hanswer, hfailed, -⟩ := ha
    obtain ⟨w', failed, handled'⟩ := s
    cases hfails : op.fails a with
    | false =>
      rw [hfails] at hfailed
      obtain rfl : failed = false := hfailed
      exact ih a (h.2 a w' ⟨hfails, hanswer⟩) hrest
    | true =>
      rw [hfails] at hfailed
      obtain rfl : failed = true := hfailed
      cases hk : k a with
      | ret r =>
        rw [hk] at hrest
        exact ⟨nofun, hrest⟩
      | call op' k' =>
        rw [hk] at hrest
        exact absurd hrest.1 nofun

section Guarding

variable {w : World} {E : Exception → Watched → Prop}

/-- A replay of the files of `w`, in which nothing has failed. -/
def Quiet (w : World) (s : Watched) : Prop :=
  s.failed = false ∧ s.world.files = w.files ∧ s.world.state_ = .REPLAYING

/-- A replay of the files of `w`, which may have failed. -/
def Replaying (w : World) (s : Watched) : Prop :=
  s.world.files = w.files ∧ s.world.state_ = .REPLAYING

/-- An operation that cannot fail, and changes neither the files nor the mode. -/
theorem guard_still {op : Op} (hfails : ∀ a, op.fails a = false)
    (h : ∀ choice w r, answer d.paths d.proto choice op w = some r →
      r.2.files = w.files ∧ r.2.state_ = w.state_) :
    Meets (guarding d) (Quiet w) (Script.ask op : Code (Ans op)) (fun _ => Quiet w) E := by
  refine .ask (fun s hs => hs.1) fun s a s' hs ha => ?_
  obtain ⟨⟨choice, ha⟩, hfailed, -⟩ := ha
  obtain ⟨hfiles, hstate⟩ := h choice _ _ ha
  refine ⟨?_, hfiles.trans hs.2.1, hstate.trans hs.2.2⟩
  rw [hfailed, hs.1, hfails]
  rfl

theorem guard_load {offset size : Nat} :
    Meets (guarding d) (Quiet w) (Script.ask (Op.load offset size) : Code (List UInt8))
      (fun _ => Quiet w) E := by
  refine guard_still (fun _ => rfl) fun choice w r ha => ?_
  obtain ⟨p, -, ha⟩ := Option.bind_eq_some_iff.mp ha
  obtain ⟨bytes, -, rfl⟩ := Option.map_eq_some_iff.mp ha
  exact ⟨rfl, rfl⟩

theorem guard_callHandler (call : HandlerCall) :
    Meets (guarding d) (Quiet w) (callHandler call) (fun _ => Quiet w) fun _ => Replaying w := by
  have hask : Meets (guarding d) (Quiet w) (Script.ask (Op.handle call) : Code Bool)
      (fun throws s => Replaying w s ∧ s.failed = throws) fun _ => Replaying w := by
    refine .ask (fun s hs => hs.1) fun s a s' hs ha => ?_
    obtain ⟨⟨choice, ha⟩, hfailed, -⟩ := ha
    obtain ⟨-, hworld⟩ := Prod.mk.inj (Option.some.inj ha)
    rw [hs.1] at hfailed
    exact ⟨⟨hworld ▸ hs.2.1, hworld ▸ hs.2.2⟩, hfailed⟩
  refine hask.bind fun throws => ?_
  cases throws with
  | true => exact .raise fun s hs => hs.1
  | false => exact .return fun s hs => ⟨hs.2, hs.1⟩

theorem guard_openVolume (id : Nat) :
    Meets (guarding d) (Quiet w) (openVolume d id 0) (fun _ => Quiet w) fun _ => Replaying w := by
  have hask : Meets (guarding d) (Quiet w)
      (Script.ask (Op.open (composeFilePath d id) 0) : Code Opening)
      (fun opening s => Replaying w s ∧ (opening = .opened → s.failed = false))
      fun _ => Replaying w := by
    refine .ask (fun s hs => hs.1) fun s a s' hs ha => ?_
    obtain ⟨⟨choice, ha⟩, hfailed, -⟩ := ha
    have hopen : s.world.openFile (composeFilePath d id) 0 choice.opening = (a, s'.world) :=
      Option.some.inj ha
    have hsame : (s.world.openFile (composeFilePath d id) 0 choice.opening).2.files = s.world.files ∧
        (s.world.openFile (composeFilePath d id) 0 choice.opening).2.state_ = s.world.state_ := by
      cases choice.opening with
      | opened =>
        unfold World.openFile
        rw [if_neg (Nat.lt_irrefl 0)]
        by_cases hfind : (AssocMap.find s.world.files (composeFilePath d id)).isSome
        · rw [if_pos hfind]
          exact ⟨rfl, rfl⟩
        · rw [if_neg hfind]
          exact ⟨rfl, rfl⟩
      | notOpen => exact ⟨rfl, rfl⟩
      | threw => exact ⟨rfl, rfl⟩
    rw [hopen] at hsame
    refine ⟨⟨hsame.1.trans hs.2.1, hsame.2.trans hs.2.2⟩, fun hopened => ?_⟩
    subst hopened
    rw [hfailed, hs.1]
    rfl
  refine hask.bind fun opening => ?_
  cases opening with
  | opened => exact .return fun s hs => ⟨hs.2 rfl, hs.1⟩
  | notOpen => exact .raise fun s hs => hs.1
  | threw => exact .raise fun s hs => hs.1

theorem guard_openFileAndGetPos (id : Nat) :
    Meets (guarding d) (Quiet w) (openFileAndGetPos d id 0) (fun _ => Quiet w)
      fun _ => Replaying w := by
  have hisOpen : Meets (guarding d) (Quiet w) (Script.ask Op.isOpen : Code Bool) (fun _ => Quiet w)
      fun _ => Replaying w :=
    guard_still (fun _ => rfl) fun choice w r hr => Option.some.inj hr ▸ ⟨rfl, rfl⟩
  have hclose : Meets (guarding d) (Quiet w) (Script.ask Op.close : Code Unit) (fun _ => Quiet w)
      fun _ => Replaying w :=
    guard_still (fun _ => rfl) fun choice w r hr => Option.some.inj hr ▸ ⟨rfl, rfl⟩
  have hid : Meets (guarding d) (Quiet w) (Script.ask (Op.setCurrentId id) : Code Unit)
      (fun _ => Quiet w) fun _ => Replaying w :=
    guard_still (fun _ => rfl) fun choice w r hr => Option.some.inj hr ▸ ⟨rfl, rfl⟩
  have hmode : Meets (guarding d) (Quiet w) (Script.ask Op.state : Code Mode)
      (fun mode s => mode = .REPLAYING ∧ Quiet w s) fun _ => Replaying w := by
    refine .ask (fun s hs => hs.1) fun s a s' hs ha => ?_
    obtain ⟨⟨choice, ha⟩, hfailed, -⟩ := ha
    obtain ⟨hmode, hworld⟩ := Prod.mk.inj (Option.some.inj ha)
    refine ⟨hmode.symm.trans hs.2.2, ?_, hworld ▸ hs.2.1, hworld ▸ hs.2.2⟩
    rw [hfailed, hs.1]
    rfl
  have hrest : Meets (guarding d) (Quiet w) (do
      Script.ask (Op.setCurrentId id)
      openVolume d id 0
      let state_ : Mode ← Script.ask Op.state
      if state_ = .REPLAYING then pure (0 + 8)
      else do
        initialisePos
        getPos) (fun _ => Quiet w) fun _ => Replaying w := by
    refine hid.bind fun _ => (guard_openVolume id).bind fun _ => hmode.bind fun (mode : Mode) => ?_
    refine .ite (fun _ => .return fun s hs => hs.2) fun hne => ?_
    intro s hs
    exact absurd hs.1 hne
  refine hisOpen.bind fun is_open => ?_
  cases is_open with
  | true => exact hclose.bind fun _ => hrest
  | false => exact hrest

/-- The steps of a replay. -/
theorem guard_reading : Reading d (guarding d) (Quiet w) fun _ => Replaying w where
  read := fun op hop => by
    cases op with
    | load offset size => exact guard_load
    | undefined => exact guard_still (fun _ => rfl) fun choice w r hr => nomatch hr
    | outOfFuel => exact guard_still (fun _ => rfl) fun choice w r hr => nomatch hr
    | parse bytes =>
      exact guard_still (fun _ => rfl) fun choice w r hr => Option.some.inj hr ▸ ⟨rfl, rfl⟩
    | isDirectory path =>
      exact guard_still (fun _ => rfl) fun choice w r hr => Option.some.inj hr ▸ ⟨rfl, rfl⟩
    | directoryIterator path =>
      exact guard_still (fun _ => rfl) fun choice w r hr => Option.some.inj hr ▸ ⟨rfl, rfl⟩
    | currentId =>
      exact guard_still (fun _ => rfl) fun choice w r hr => Option.some.inj hr ▸ ⟨rfl, rfl⟩
    | _ => exact absurd hop id
  conversion := fun failure s hs => hs.2
  next := guard_openFileAndGetPos
  call := guard_callHandler

/-- A replay that throws is still replaying, and no replay changes a file. -/
theorem guard_replayRecordedStream (hhandler : d.wrapped_handler_) (fuel : Nat) :
    Meets (guarding d) (fun s => s.failed = false ∧ s.world.files = w.files)
      (replayRecordedStream d fuel) (fun _ s => s.failed = false ∧ s.world.files = w.files)
      fun _ => Replaying w := by
  have hreplaying : Meets (guarding d) (fun s => s.failed = false ∧ s.world.files = w.files)
      (Script.ask (Op.setState .REPLAYING) : Code Unit) (fun _ => Quiet w) fun _ => Replaying w := by
    refine .ask (fun s hs => hs.1) fun s a s' hs ha => ?_
    obtain ⟨⟨choice, ha⟩, hfailed, -⟩ := ha
    obtain ⟨-, hworld⟩ := Prod.mk.inj (Option.some.inj ha)
    rw [hs.1] at hfailed
    exact ⟨hfailed, hworld ▸ hs.2, hworld ▸ rfl⟩
  have hdumping : Meets (guarding d) (Quiet w) (Script.ask (Op.setState .DUMPING) : Code Unit)
      (fun _ s => s.failed = false ∧ s.world.files = w.files) fun _ => Replaying w := by
    refine .ask (fun s hs => hs.1) fun s a s' hs ha => ?_
    obtain ⟨⟨choice, ha⟩, hfailed, -⟩ := ha
    obtain ⟨-, hworld⟩ := Prod.mk.inj (Option.some.inj ha)
    rw [hs.1] at hfailed
    exact ⟨hfailed, hworld ▸ hs.2.1⟩
  refine .ite (fun _ => ?_) fun hnot => absurd hhandler hnot
  refine hreplaying.bind fun _ => guard_reading.getFileIdsList.bind fun ids_list => ?_
  cases hfirst : ids_list.head? with
  | none =>
    have hnone : Meets (guarding d) (Quiet w) (undefined : Code Unit) (fun _ => Quiet w)
        fun _ => Replaying w := guard_reading.undefined
    exact hnone.bind fun _ => hdumping
  | some first =>
    refine (guard_openFileAndGetPos first).bind fun pos => ?_
    exact (guard_reading.replayLoop fuel pos).bind fun _ => hdumping

end Guarding

/-! ## When nothing fails -/

/-- An answer that is no failure is one when nothing may fail. -/
theorem answer_unfailing {choice : Choice} {op : Op} {a : Ans op} {w w' : World}
    (ha : answer d.paths d.proto choice op w = some (a, w')) (hfails : op.fails a = false) :
    answer d.paths d.proto { choice with throws := false, opening := .opened } op w =
      some (a, w') := by
  cases op with
  | handle call =>
    rw [← ha]
    obtain ⟨hthrows, -⟩ := Prod.mk.inj (Option.some.inj ha)
    have hfalse : choice.throws = false := hthrows.trans hfails
    show some (false, w) = some (choice.throws, w)
    rw [hfalse]
  | «open» path size =>
    have hopen : w.openFile path size choice.opening = (a, w') := Option.some.inj ha
    cases hchoice : choice.opening with
    | opened =>
      rw [hchoice] at hopen
      exact congrArg some hopen
    | notOpen =>
      rw [hchoice] at hopen
      obtain ⟨rfl, -⟩ := Prod.mk.inj hopen
      cases hfails
    | threw =>
      rw [hchoice] at hopen
      obtain ⟨rfl, -⟩ := Prod.mk.inj hopen
      cases hfails
  | _ => exact ha

/-- The replay of a log in which nothing fails ends at the last volume. -/
theorem safe_unfailing_replay {vols : List Volume} {w : World} {fuel : Nat} (hsize : GoodSize d)
    (hlog : Log d True vols w) (hfilled : ∀ u ∈ vols, u.records ≠ []) (hne : vols ≠ [])
    (hfuel : (vols.flatMap Volume.records).length < fuel) (hhandler : d.wrapped_handler_) :
    Safe (unfailing d)
      (Ends (fun _ t => ∃ j u, Mapped d True vols j u t ∧ j + 1 = vols.length ∧ t.state_ = .DUMPING)
        fun _ _ => False)
      (replayRecordedStream d fuel).run w := by
  have hmeets := meets_replayRecordedStream (S := ⟨True, False, .replay⟩) hsize hlog hfilled hne
    (fun _ => hfuel) hhandler
  have hsafe := hmeets w rfl
  refine (hsafe.weaken (fun op t hpre => ?_) fun op t a t' ha => ?_).mono fun r t hr => ?_
  · exact hpre.2.2 (hpre.2.1 trivial)
  · obtain ⟨hfails, choice, hanswer⟩ := ha
    refine ⟨{ choice with throws := false, opening := .opened }, rfl, nofun, fun _ record hrecord => ?_,
      answer_unfailing hanswer hfails⟩
    exact absurd hrecord nofun
  · cases r with
    | ok _ =>
      obtain ⟨j, u, hmapped, hlast, hstate, -⟩ := hr
      exact ⟨j, u, hmapped, hlast, hstate⟩
    | error e => exact hr.1

/-! ## Callbacks -/

/-- Operations that are no calls of the handler. -/
def Op.Silent (op : Op) : Prop := op.calls = []

theorem silent_ask {α : Type} {op : Op} {f : Ans op → Code α} (h : op.calls = [])
    (hf : ∀ a, Only Op.Silent (f a).run) : Only Op.Silent (Script.ask op >>= f).run := by
  have hsilent : op.Silent := h
  have hask : Only Op.Silent (Script.ask op : Code (Ans op)).run := .ask hsilent
  exact hask.next hf

theorem only_storeBytes (offset : Nat) (bytes : List UInt8) :
    Only Op.Silent (storeBytes offset bytes).run := by
  induction bytes generalizing offset with
  | nil => trivial
  | cons byte bytes ih => exact silent_ask rfl fun _ => ih _

theorem only_serializeToArray (record : Record) (offset size : Nat) :
    Only Op.Silent (serializeToArray d record offset size).run := by
  unfold serializeToArray
  split
  · exact only_storeBytes _ _
  · trivial

theorem only_getPos : Only Op.Silent getPos.run := silent_ask rfl fun _ => trivial

theorem only_setPos (pos : Nat) (completes : Option Record) :
    Only Op.Silent (setPos pos completes).run :=
  Only.ask rfl

theorem only_initialisePos : Only Op.Silent initialisePos.run := by
  refine only_getPos.next fun pos => ?_
  split
  · exact only_setPos _ _
  · trivial

theorem only_openVolume (id size : Nat) : Only Op.Silent (openVolume d id size).run := by
  refine silent_ask rfl fun opening => ?_
  cases opening <;> trivial

theorem only_openFileAndGetPos (id size : Nat) :
    Only Op.Silent (openFileAndGetPos d id size).run := by
  have hrest : Only Op.Silent (do
      Script.ask (Op.setCurrentId id)
      openVolume d id size
      let state_ : Mode ← Script.ask Op.state
      if state_ = .REPLAYING then pure (0 + 8)
      else do
        initialisePos
        getPos : Code Nat).run := by
    refine silent_ask rfl fun _ => (only_openVolume id size).next fun _ =>
      silent_ask rfl fun (mode : Mode) => ?_
    split
    · trivial
    · exact only_initialisePos.next fun _ => only_getPos
  refine silent_ask rfl fun (is_open : Bool) => ?_
  cases is_open with
  | true => exact silent_ask rfl fun _ => hrest
  | false => exact hrest

/-- `write_next` does not call the handler. -/
theorem only_writeNext (record : Record) : Only Op.Silent (writeNext d record).run := by
  have hstores : ∀ pos, Only Op.Silent (stores d record pos).run := fun pos =>
    silent_ask rfl fun _ => (only_serializeToArray record _ _).next fun _ => only_setPos _ _
  rw [writeNext_eq]
  refine only_getPos.next fun pos => ?_
  split
  · exact silent_ask rfl fun id => (only_openFileAndGetPos _ _).next fun pos => hstores pos
  · exact hstores pos

/-- What holds of a function that does not call the handler, when its calls are watched. -/
theorem safe_silent {α : Type} {Q : α → World → Prop} {p : Script Op Ans α} {s : Watched}
    (h : Safe (anyAnswer d) Q p s.world) (honly : Only Op.Silent p) :
    Safe (watching d) (fun a t => Q a t.world ∧ t.handled = s.handled) p s := by
  induction p generalizing s with
  | ret a => exact ⟨h, rfl⟩
  | call op k ih =>
    refine ⟨h.1, fun a t ha => ?_⟩
    obtain ⟨hanswer, -, hhandled⟩ := ha
    rw [show op.calls = [] from honly.1, List.append_nil] at hhandled
    have hrest := ih a (h.2 a t.world hanswer) (honly.2 a)
    rw [hhandled] at hrest
    exact hrest

section Live

variable {vols : List Volume} {i : Nat} {v : Volume} {w : World}

/-- A record that fits can be stored in a volume of a log. -/
theorem Mapped.storable {kept : Prop} {record : Record} (hsize : GoodSize d)
    (h : Mapped d kept vols i v w) (hinit : v.initialised = true) (hfits : Fits d record) :
    ∃ path content, w.mapped = some (path, content) ∧ Storable d record content := by
  obtain ⟨content, hmapped, hlayout, -⟩ := h.log.mapped h.volume h.mapped
  have hlength := hlayout.length
  have hposition := hlayout.headerPosition hsize
  rw [Volume.position, if_pos hinit] at hposition
  have hle := hlayout.length_le
  have hshort := hfits.1
  have hroom := hfits.2
  rw [recordSize_of_short hshort] at hroom
  obtain ⟨hmin, hmax⟩ := hsize
  refine ⟨_, content, hmapped, hshort, hroom, by omega, fun htest => ?_⟩
  rw [hposition] at htest ⊢
  rw [Nat.mod_eq_of_lt (by omega)] at htest
  omega

/-- A `Dumper` with the last volume of a log mapped records callbacks and forwards them. -/
theorem Mapped.live {kept : Prop} (hsize : GoodSize d) (h : Mapped d kept vols i v w)
    (hinit : v.initialised = true) (hmode : w.state_ = .DUMPING) : Live d w := by
  intro call hfits
  have hforward : ∀ time s, Written d w (recordOf call time) (.ok ()) s.world → s.handled = [] →
      Safe (watching d) (RecordedAndForwarded d w call)
        (if d.wrapped_handler_ then callHandler call else pure () : Code Unit).run s := by
    intro time s hwritten hhandled
    by_cases hhandler : d.wrapped_handler_
    · rw [if_pos hhandler]
      refine ⟨fun _ => rfl, fun throws s' ha => ?_⟩
      obtain ⟨⟨choice, ha⟩, -, hcalls⟩ := ha
      obtain ⟨-, hworld⟩ := Prod.mk.inj (Option.some.inj ha)
      have hboth : RecordedAndHanded d w call s' := by
        refine ⟨⟨time, hworld ▸ hwritten⟩, ?_⟩
        rw [hcalls, hhandled, if_pos hhandler]
        rfl
      cases throws with
      | true => exact .inl hboth
      | false => exact hboth
    · rw [if_neg hhandler]
      refine ⟨⟨time, hwritten⟩, ?_⟩
      rw [hhandled, if_neg hhandler]
  have hwrite : ∀ time s, s.world = w → s.handled = [] →
      Safe (watching d) (RecordedAndForwarded d w call) (writeNext d (recordOf call time) >>= fun _ =>
        if d.wrapped_handler_ then callHandler call else pure ()).run s := by
    intro time s hworld hhandled
    have hwrites : Safe (anyAnswer d) (Written d w (recordOf call time))
        (writeNext d (recordOf call time)).run s.world := by
      rw [hworld]
      obtain ⟨path, content, hmapped, hstorable⟩ := h.storable hsize hinit (hfits time)
      exact (safe_writeNext hmode).mpr ⟨path, content, hmapped, .inl hstorable⟩
    refine Safe.bind ((safe_silent hwrites (only_writeNext _)).mono fun r t ht => ?_)
    cases r with
    | ok _ => exact hforward time t ht.1 (ht.2.trans hhandled)
    | error e => exact .inr ⟨ht.1, ht.2.trans hhandled⟩
  refine ⟨fun _ => rfl, fun mode s ha => ?_⟩
  obtain ⟨⟨choice, ha⟩, -, hhandled⟩ := ha
  obtain ⟨hstate, hworld⟩ := Prod.mk.inj (Option.some.inj ha)
  obtain rfl : mode = .DUMPING := hstate.symm.trans hmode
  refine ⟨fun _ => rfl, fun time t ht => ?_⟩
  obtain ⟨⟨choice', ht⟩, -, hhandled'⟩ := ht
  obtain ⟨-, hworld'⟩ := Prod.mk.inj (Option.some.inj ht)
  refine hwrite time t (hworld'.symm.trans hworld.symm) ?_
  rw [hhandled', hhandled]
  rfl

/-- A `Dumper` with the last volume of a log mapped. -/
theorem Mapped.recorder {kept : Prop} (h : Mapped d kept vols i v w) (hlast : i + 1 = vols.length)
    (hmode : w.state_ = .DUMPING) : Recorder d w := by
  refine ⟨hmode, ⟨?_, ?_⟩, fun id hid => ?_⟩
  · rw [h.current]
    exact h.mapped
  · obtain ⟨content, hmapped, -⟩ := h.log.mapped h.volume h.mapped
    rw [hmapped]
    rfl
  · have hlt : id < vols.length := (h.log.mem_files id).mp (AssocMap.find_isSome.mp hid)
    rw [h.current]
    omega

end Live

/-! ## The replay -/

variable {vols : List Volume} {w : World} {fuel : Nat}

/-- A volume that holds records has a position. -/
theorem initialised_of_records {kept : Prop} {i : Nat} {v : Volume} (h : Mapped d kept vols i v w)
    (hrecords : v.records ≠ []) : v.initialised = true := by
  obtain ⟨content, -, hlayout⟩ := h.log.volume i v h.volume
  by_contra hinit
  exact hrecords (hlayout.empty (Bool.eq_false_iff.mpr hinit))

variable (d) in
/-- The volumes that were recorded, in whatever directory. -/
structure RecordedLog (vols : List Volume) (w : World) : Prop where
  log : Log d True vols { w with directories := d.paths.parent_path d.file_path_ :: w.directories }
  filled : ∀ u ∈ vols, u.records ≠ []
  some : vols ≠ []

/-- The directory of the log is found. -/
theorem RecordedLog.found (h : RecordedLog d vols w) (hdir : HasDirectory d w) : Log d True vols w where
  paths := ⟨hdir, h.log.paths.parent, h.log.paths.volume, h.log.paths.id⟩
  nodup := h.log.nodup
  volume := h.log.volume
  absent := h.log.absent
  listed := h.log.listed
  full := h.log.full
  count := h.log.count
  written := h.log.written

/-- A replay in a directory that is found. -/
theorem safe_replay (hsize : GoodSize d) (hlog : RecordedLog d vols w) (hhandler : d.wrapped_handler_)
    (hfuel : w.written.length < fuel) (hdir : HasDirectory d w) :
    Safe (watching d) (fun _ s => Restored d w s.world ↔ s.failed = false)
      (replayRecordedStream d fuel).run { world := w, failed := false, handled := [] } := by
  have hlength : (vols.flatMap Volume.records).length < fuel := by
    rw [hlog.log.written trivial]
    exact hfuel
  have hgood := safe_unfailing_replay hsize (hlog.found hdir) hlog.filled hlog.some hlength hhandler
  have hguard := guard_replayRecordedStream (w := w) hhandler fuel
    { world := w, failed := false, handled := [] } ⟨rfl, rfl⟩
  refine (safe_watching hgood hguard).mono fun r s hr => ?_
  obtain ⟨hquiet, hend⟩ := hr
  constructor
  · intro hrestored
    cases r with
    | ok _ => exact hend.1
    | error e =>
      have hmode := hrestored.recorder.dumping
      rw [hend.2] at hmode
      cases hmode
  · intro hfailed
    have hended := hquiet hfailed
    cases r with
    | error e => exact hended.elim
    | ok _ =>
      obtain ⟨j, u, hmapped, hlast, hmode⟩ := hended
      have hinit := initialised_of_records hmapped
        (hlog.filled u (List.mem_of_getElem? hmapped.volume))
      exact ⟨hmapped.recorder hlast hmode, hend.2, hmapped.live hsize hinit hmode⟩

/-- Without the directory `front` is called for an empty list. -/
theorem not_safe_replay {R : Except Exception Unit → Watched → Prop} {s : Watched}
    (hhandler : d.wrapped_handler_) (hdir : ¬HasDirectory d s.world) :
    ¬Safe (watching d) R (replayRecordedStream d fuel).run s := by
  unfold replayRecordedStream
  rw [if_pos hhandler]
  intro h
  have hlist := h.2 () { s with world := { s.world with state_ := .REPLAYING } }
    ⟨⟨⟨0, false, .opened⟩, rfl⟩, (Bool.or_false _).symm, (List.append_nil _).symm⟩
  have hanswer : answer d.paths d.proto ⟨0, false, .opened⟩
      (.isDirectory (d.paths.parent_path d.file_path_)) { s.world with state_ := .REPLAYING } =
        some (false, { s.world with state_ := .REPLAYING }) :=
    congrArg (fun b => some (b, _)) (decide_eq_false hdir)
  have hfront := hlist.2 false { s with world := { s.world with state_ := .REPLAYING } }
    ⟨⟨_, hanswer⟩, (Bool.or_false _).symm, (List.append_nil _).symm⟩
  exact absurd (hfront.1 ⟨0, false, .opened⟩) nofun

/-- For a log with a directory that is found, a replay leaves the `Dumper` as it was, and ready to
record, if and only if no call of the handler and no opening failed. -/
theorem restored_iff_not_failed (hsize : GoodSize d) (hlog : RecordedLog d vols w)
    (hhandler : d.wrapped_handler_) (hfuel : w.written.length < fuel) :
    Safe (watching d) (fun _ s => Restored d w s.world ↔ s.failed = false)
        (replayRecordedStream d fuel).run { world := w, failed := false, handled := [] } ↔
      HasDirectory d w := by
  constructor
  · intro h
    by_contra hdir
    exact not_safe_replay hhandler hdir h
  · exact safe_replay hsize hlog hhandler hfuel

section Examples

/-- The record of the construction at time `1`. -/
def openRecord : Record := { record_type := .DUMPER_OPEN, timestamp := 1, message := .notSet }

/-- A volume that holds only this record. -/
def openVolumeOf : Volume := { initialised := true, records := [openRecord] }

/-- A `Dumper` with this volume. -/
def openedWorld : World :=
  { plainWorld "var".toList [("var/log.vol-0".toList, openVolumeOf.front oneRecordVolumes)] with
    mapped_file_ := some "var/log.vol-0".toList
    written := [openRecord] }

theorem recordedLog_opened : RecordedLog oneRecordVolumes [openVolumeOf] openedWorld := by
  have hnames : NamesAlike oneRecordVolumes := namesAlike_plain rfl
  have hzero : isVolume oneRecordVolumes (composeFilePath oneRecordVolumes 0) := by decide
  refine ⟨⟨?_, by decide, fun i v hv => ?_, fun i hi => ?_, fun path hpath _ _ => ?_, ?_, by decide,
    fun _ => rfl⟩, by decide, by decide⟩
  · exact ⟨List.mem_cons_self, hnames.parent hzero, hnames.volume hzero, hnames.id hzero⟩
  · obtain ⟨hlt, hget⟩ := List.getElem?_eq_some_iff.mp hv
    obtain rfl : i = 0 := Nat.lt_one_iff.mp hlt
    obtain rfl : openVolumeOf = v := hget
    refine ⟨openVolumeOf.front oneRecordVolumes, rfl, by decide, ⟨[], ?_⟩, by decide, nofun⟩
    rw [List.append_nil, List.append_nil]
  · refine AssocMap.find_eq_none fun p hp heq => ?_
    obtain rfl := List.mem_singleton.mp hp
    have hzero' : composeFilePath oneRecordVolumes 0 = composeFilePath oneRecordVolumes i := heq
    have hinj := composeFilePath_injective hzero'
    exact absurd hi (by rw [← hinj]; decide)
  · exact ⟨0, (List.mem_singleton.mp hpath).symm⟩
  · intro i v _ hlt
    exact absurd hlt (by rw [List.length_singleton]; omega)

theorem restored_iff_not_failed_opened :
    Safe (watching oneRecordVolumes)
        (fun _ s => Restored oneRecordVolumes openedWorld s.world ↔ s.failed = false)
        (replayRecordedStream oneRecordVolumes 2).run
        { world := openedWorld, failed := false, handled := [] } ↔
      HasDirectory oneRecordVolumes openedWorld :=
  restored_iff_not_failed ⟨by decide, by decide⟩ recordedLog_opened rfl (by decide)

/-- An operation whose opening throws, as it is watched. -/
def watchThrowing (op : Op) (s : Watched) : Option (Ans op × Watched) :=
  (answer plainPaths plainProtobuf ⟨1, false, .threw⟩ op s.world).map fun r =>
    (r.1, ⟨r.2, s.failed || op.fails r.1, s.handled ++ op.calls⟩)

/-- A replay whose first volume cannot be opened ends in the wrong mode. -/
theorem failed_replay_keeps_replaying : ¬∀ (d : Config) (vols : List Volume) (w : World) (fuel : Nat),
    GoodSize d → RecordedLog d vols w → d.wrapped_handler_ → HasDirectory d w →
      w.written.length < fuel →
        Safe (watching d) (fun _ s => Restored d w s.world)
          (replayRecordedStream d fuel).run { world := w, failed := false, handled := [] } := by
  intro h
  have hsafe := h oneRecordVolumes _ _ 2 ⟨by decide, by decide⟩ recordedLog_opened rfl (by decide)
    (by decide)
  have hhandler : Safe (.ofHandler watchThrowing)
      (fun _ s => Restored oneRecordVolumes openedWorld s.world)
      (replayRecordedStream oneRecordVolumes 2).run
      { world := openedWorld, failed := false, handled := [] } := by
    refine hsafe.weaken (fun op s hpre => ?_) fun op s a s' ha => ?_
    · obtain ⟨r, hr⟩ := Option.isSome_iff_exists.mp (hpre ⟨1, false, .threw⟩)
      exact Option.isSome_iff_exists.mpr ⟨_, congrArg (Option.map _) hr⟩
    · obtain ⟨r, hr, heq⟩ := Option.map_eq_some_iff.mp ha
      obtain ⟨rfl, rfl⟩ := Prod.mk.inj heq
      exact ⟨⟨_, hr⟩, rfl, rfl⟩
  obtain ⟨r, s, hrun, hrestored⟩ := hhandler.run
  have hmode : ((replayRecordedStream oneRecordVolumes 2).run.run watchThrowing
      { world := openedWorld, failed := false, handled := [] }).all
        (fun r => r.2.world.state_ = .REPLAYING) = true := by
    decide +kernel
  rw [hrun] at hmode
  have hdumping := hrestored.recorder.dumping
  rw [of_decide_eq_true hmode] at hdumping
  cases hdumping

end Examples

end Dumper

end Cgatepp

import ItexDemo.Cgatepp.Proofs.DiscoveryProofs
import ItexDemo.Cgatepp.Proofs.WalkProofs

/-!
# Proofs: a replay is a walk

What has to hold for a replay is computed backwards through the text of its functions, which leaves
the walk through the volumes.
-/

namespace Cgatepp

namespace Dumper

open Script

variable {d : Config} {w : World} {s : Traced} {α β : Type}

variable (d) in
/-- The calls from here on are allowed. -/
def Fine (x : Code β) (s : Traced) : Prop := Safe (bounding d) (fun _ _ => True) x.run s

/-- What comes behind can be left out if it is allowed after any result. -/
theorem fine_bind_of_fine {x : Code α} {f : α → Code β} (hf : ∀ a s, Fine d (f a) s) :
    Fine d (x >>= f) s ↔ Fine d x s := by
  constructor
  · exact fun h => (Safe.of_bind h).mono fun _ _ _ => trivial
  · intro h
    refine Safe.bind (h.mono fun r t _ => ?_)
    cases r with
    | ok a => exact hf a t
    | error e => exact trivial

/-! ## Operations -/

/-- An operation with one answer. -/
theorem fine_ask {op : Op} {a : Ans op} {t : World} {f : Ans op → Code β}
    (ha : ∀ choice, answer d.paths d.proto choice op s.world = some (a, t))
    (hop : ∀ call, op ≠ .handle call) :
    Fine d (Script.ask op >>= f) s ↔ Fine d (f a) { world := t, loaded := op.loads s.loaded } := by
  constructor
  · rintro ⟨-, h⟩
    exact h a _ ⟨⟨⟨0, false, .opened⟩, ha _⟩, rfl⟩
  · intro h
    refine ⟨⟨fun choice => ?_, fun call hcall => absurd hcall (hop call)⟩, ?_⟩
    · rw [ha choice]
      rfl
    · rintro b ⟨t', loaded⟩ ⟨⟨choice, hb⟩, hloaded⟩
      obtain ⟨rfl, rfl⟩ := Prod.mk.inj (Option.some.inj ((ha choice).symm.trans hb))
      obtain rfl : loaded = op.loads s.loaded := hloaded
      exact h

/-- An operation that may not be called. -/
theorem not_fine_ask {op : Op} {f : Ans op → Code β}
    (ha : ∀ choice, answer d.paths d.proto choice op s.world = none) :
    ¬Fine d (Script.ask op >>= f) s := by
  rintro ⟨⟨h, -⟩, -⟩
  have hsome := h ⟨0, false, .opened⟩
  rw [ha] at hsome
  cases hsome

section Mapped

variable {path : Text} {content : List UInt8}

theorem fine_load {offset size : Nat} {f : List UInt8 → Code β}
    (hmapped : s.world.mapped = some (path, content)) :
    Fine d (Script.ask (Op.load offset size) >>= f) s ↔ offset + size ≤ content.length ∧
      Fine d (f ((content.drop offset).take size))
        { world := s.world, loaded := (offset, size) } := by
  have hload : ∀ choice, answer d.paths d.proto choice (.load offset size) s.world =
      (Bytes.slice content offset size).map fun bytes => (bytes, s.world) := by
    intro choice
    show (s.world.mapped.bind fun p =>
      (Bytes.slice p.2 offset size).map fun bytes => (bytes, s.world)) = _
    rw [hmapped, Option.bind_some]
  by_cases hle : offset + size ≤ content.length
  · rw [and_iff_right hle]
    refine fine_ask (fun choice => ?_) nofun
    rw [hload, Bytes.slice, if_pos hle]
    rfl
  · refine iff_of_false (not_fine_ask fun choice => ?_) fun h => hle h.1
    rw [hload, Bytes.slice, if_neg hle]
    rfl

theorem fine_getPos {f : Nat → Code β} (hmapped : s.world.mapped = some (path, content)) :
    Fine d (getPos >>= f) s ↔ 8 ≤ content.length ∧
      Fine d (f (headerPosition content)) { world := s.world, loaded := (0, 8) } := by
  have hload : Fine d (getPos >>= f) s ↔ 0 + 8 ≤ content.length ∧
      Fine d (f (headerPosition content)) { world := s.world, loaded := (0, 8) } :=
    fine_load hmapped
  rwa [Nat.zero_add] at hload

theorem fine_loadSize {p : Nat} {f : Nat → Code β}
    (hmapped : s.world.mapped = some (path, content)) :
    Fine d (loadSize p >>= f) s ↔ p + 2 ≤ content.length ∧
      Fine d (f (sizeAt content p)) { world := s.world, loaded := (p, 2) } :=
  fine_load hmapped

/-- The handler is called, and may throw. -/
theorem fine_callHandler {call : HandlerCall} {f : Unit → Code β}
    (hmapped : s.world.mapped = some (path, content)) :
    Fine d (callHandler call >>= f) s ↔
      (8 ≤ s.loaded.1 ∧ s.loaded.1 + s.loaded.2 ≤ headerPosition content) ∧ Fine d (f ()) s := by
  constructor
  · rintro ⟨⟨-, hplace⟩, h⟩
    obtain ⟨path', content', hmapped', hinside⟩ := hplace call rfl
    obtain ⟨-, rfl⟩ := Prod.mk.inj (Option.some.inj (hmapped.symm.trans hmapped'))
    exact ⟨hinside, h false s ⟨⟨⟨0, false, .opened⟩, rfl⟩, rfl⟩⟩
  · rintro ⟨hinside, h⟩
    refine ⟨⟨fun choice => rfl, fun _ _ => ⟨path, content, hmapped, hinside⟩⟩, ?_⟩
    rintro throws ⟨t, loaded⟩ ⟨⟨choice, ha⟩, hloaded⟩
    obtain ⟨-, rfl⟩ := Prod.mk.inj (Option.some.inj ha)
    obtain rfl : loaded = s.loaded := hloaded
    cases throws with
    | true => exact trivial
    | false => exact h

end Mapped

theorem not_fine_undefined {f : α → Code β} : ¬Fine d (undefined >>= f) s := by
  rintro ⟨⟨h, -⟩, -⟩
  cases h ⟨0, false, .opened⟩

/-! ## Volumes -/

variable (d w) in
/-- The files of a replay are those of `w`. -/
structure Replays (t : World) : Prop where
  directories : t.directories = w.directories
  files : t.files = w.files
  state_ : t.state_ = .REPLAYING

variable (d w) in
/-- Also the volume `id` is mapped. -/
structure Standing (id : Nat) (t : World) : Prop extends Replays w t where
  mapped_file_ : t.mapped_file_ = some (composeFilePath d id)
  current_id_ : t.current_id_ = id

variable (d) in
/-- The volume `id` is mapped. -/
def World.enter (t : World) (id : Nat) : World :=
  { t with mapped_file_ := some (composeFilePath d id), current_id_ := id }

theorem Standing.mapped {id : Nat} {t : World} {content : List UInt8} (h : Standing d w id t)
    (hcontent : volume d w id = some content) :
    t.mapped = some (composeFilePath d id, content) := by
  unfold volume at hcontent
  unfold World.mapped
  rw [h.mapped_file_, h.files, Option.bind_some, hcontent]
  rfl

theorem Replays.enter {t : World} (h : Replays w t) (id : Nat) : Standing d w id (t.enter d id) :=
  ⟨⟨h.directories, h.files, h.state_⟩, rfl, rfl⟩

/-- The end of `get_file_ids_list`, on the files of the directory. -/
def sortedIds (d : Config) (files : List Text) : Code (List Nat) :=
  match readIds d files with
  | .ok ids_list => pure (ids_list.insertionSort (· ≤ ·))
  | .error failure => throw (.conversion failure)

theorem fine_getFileIdsList {f : List Nat → Code β} (h : Replays w s.world) :
    Fine d (getFileIdsList d >>= f) s ↔
      ∀ ids_list, listedIds d w = .ok ids_list → Fine d (f ids_list) s := by
  have hdirectory : ∀ choice, answer d.paths d.proto choice
      (.isDirectory (d.paths.parent_path d.file_path_)) s.world =
        some (decide (HasDirectory d w), s.world) := by
    intro choice
    show some (decide (d.paths.parent_path d.file_path_ ∈ s.world.directories), s.world) = _
    rw [h.directories]
    rfl
  by_cases hdir : HasDirectory d w
  · have hfiles : ∀ choice, answer d.paths d.proto choice
        (.directoryIterator (d.paths.parent_path d.file_path_)) s.world =
          some ((w.files.map Prod.fst).filter fun file =>
            d.paths.parent_path file = d.paths.parent_path d.file_path_, s.world) := by
      intro choice
      rw [← h.files]
      rfl
    rw [decide_eq_true hdir] at hdirectory
    refine (fine_ask hdirectory (by simp)).trans ?_
    show Fine d (Script.ask (Op.directoryIterator (d.paths.parent_path d.file_path_)) >>=
      fun (files : List Text) => sortedIds d files >>= f) s ↔ _
    refine (fine_ask hfiles (by simp)).trans ?_
    have hread : readIds d ((w.files.map Prod.fst).filter fun file =>
        d.paths.parent_path file = d.paths.parent_path d.file_path_) =
          (taken d w).mapM (readId d) := rfl
    unfold listedIds sortedIds
    rw [if_pos hdir, hread]
    cases (taken d w).mapM (readId d) with
    | ok ids =>
      constructor
      · intro hfine ids_list hids
        rw [← Except.ok.inj hids]
        exact hfine
      · exact fun hfine => hfine _ rfl
    | error failure => exact iff_of_true trivial fun _ hids => by cases hids
  · rw [decide_eq_false hdir] at hdirectory
    refine (fine_ask hdirectory (by simp)).trans ?_
    unfold listedIds
    rw [if_neg hdir]
    constructor
    · intro hfine ids_list hids
      rw [← Except.ok.inj hids]
      exact hfine
    · exact fun hfine => hfine _ rfl

/-- A volume is opened if there is one; otherwise an exception ends the replay. -/
theorem fine_openVolume {id : Nat} {f : Unit → Code β} (hfiles : s.world.files = w.files) :
    Fine d (openVolume d id 0 >>= f) s ↔ ∀ content, volume d w id = some content →
      Fine d (f ()) { world := { s.world with mapped_file_ := some (composeFilePath d id) },
                      loaded := s.loaded } := by
  have hopen : s.world.openFile (composeFilePath d id) 0 .opened =
      if (volume d w id).isSome then
        (.opened, { s.world with mapped_file_ := some (composeFilePath d id) })
      else (.threw, s.world) := by
    unfold World.openFile volume
    rw [← hfiles]
    exact if_neg (Nat.lt_irrefl 0)
  constructor
  · rintro ⟨-, h⟩ content hcontent
    rw [hcontent] at hopen
    exact h .opened _ ⟨⟨⟨0, false, .opened⟩, congrArg some hopen⟩, rfl⟩
  · intro h
    refine ⟨⟨fun choice => rfl, nofun⟩, ?_⟩
    rintro opening ⟨t, loaded⟩ ⟨⟨choice, ha⟩, hloaded⟩
    obtain rfl : loaded = s.loaded := hloaded
    have ha' : s.world.openFile (composeFilePath d id) 0 choice.opening = (opening, t) :=
      Option.some.inj ha
    cases opening with
    | notOpen => exact trivial
    | threw => exact trivial
    | opened =>
      cases hchoice : choice.opening with
      | notOpen =>
        rw [hchoice] at ha'
        cases ha'
      | threw =>
        rw [hchoice] at ha'
        cases ha'
      | opened =>
        rw [hchoice, hopen] at ha'
        cases hcontent : volume d w id with
        | none =>
          rw [hcontent] at ha'
          cases ha'
        | some content =>
          rw [hcontent] at ha'
          rw [← (Prod.mk.inj ha').2]
          exact h content hcontent

/-- A replay begins behind the header. -/
theorem fine_initialPos {f : Nat → Code β} (hstate : s.world.state_ = .REPLAYING) :
    Fine d (initialPos >>= f) s ↔ Fine d (f 8) s := by
  have hask : ∀ choice, answer d.paths d.proto choice .state s.world =
      some (.REPLAYING, s.world) := by
    intro choice
    rw [← hstate]
    rfl
  exact fine_ask hask nofun

theorem fine_openFileAndGetPos {id : Nat} {f : Nat → Code β} (h : Replays w s.world) :
    Fine d (openFileAndGetPos d id 0 >>= f) s ↔ ∀ content, volume d w id = some content →
      Fine d (f 8) { world := s.world.enter d id, loaded := s.loaded } := by
  have hopen : ∀ {t : World}, t.files = w.files → t.state_ = .REPLAYING →
      (Fine d ((openVolume d id 0 >>= fun _ => initialPos) >>= f) ⟨t, s.loaded⟩ ↔
        ∀ content, volume d w id = some content →
          Fine d (f 8) ⟨{ t with mapped_file_ := some (composeFilePath d id) }, s.loaded⟩) := by
    intro t hfiles hstate
    rw [bind_assoc]
    refine (fine_openVolume (s := ⟨t, _⟩) hfiles).trans (forall₂_congr fun content hcontent => ?_)
    exact fine_initialPos hstate
  have hisOpen : ∀ choice, answer d.paths d.proto choice .isOpen s.world =
      some (s.world.mapped_file_.isSome, s.world) := fun _ => rfl
  have hclose : ∀ choice, answer d.paths d.proto choice .close s.world =
      some ((), { s.world with mapped_file_ := none }) := fun _ => rfl
  have hcurrent : ∀ t choice, answer d.paths d.proto choice (.setCurrentId id) t =
      some ((), { t with current_id_ := id }) := fun _ _ => rfl
  refine (fine_ask hisOpen nofun).trans ?_
  cases hmapped : s.world.mapped_file_ with
  | none =>
    show Fine d (Script.ask (Op.setCurrentId id) >>= fun _ =>
      (openVolume d id 0 >>= fun _ => initialPos) >>= f) s ↔ _
    refine (fine_ask (hcurrent _) nofun).trans ?_
    exact hopen (t := { s.world with current_id_ := id }) h.files h.state_
  | some path =>
    show Fine d (Script.ask Op.close >>= fun _ => Script.ask (Op.setCurrentId id) >>= fun _ =>
      (openVolume d id 0 >>= fun _ => initialPos) >>= f) s ↔ _
    refine (fine_ask hclose nofun).trans ((fine_ask (hcurrent _) nofun).trans ?_)
    exact hopen (t := { s.world with mapped_file_ := none, current_id_ := id }) h.files h.state_

/-- The next volume is entered if there is one; otherwise an exception or the last id ends the
replay. -/
theorem fine_nextVolume {id : Nat} {f : Option Nat → Code β} (h : Standing d w id s.world)
    {ids_list : List Nat} {last : Nat} (hids : listedIds d w = .ok ids_list)
    (hlast : ids_list.getLast? = some last) (hnone : ∀ s, Fine d (f none) s) :
    Fine d (nextVolume d >>= f) s ↔ ∀ next content, Follows d w last id next →
      volume d w next = some content →
        Fine d (f (some 8)) { world := s.world.enter d next, loaded := s.loaded } := by
  unfold nextVolume
  rw [bind_assoc, fine_getFileIdsList h.toReplays]
  have hask : ∀ choice, answer d.paths d.proto choice .currentId s.world = some (id, s.world) := by
    intro choice
    rw [← h.current_id_]
    rfl
  have hcurrent : Fine d ((do
      let current_id : Nat ← Script.ask Op.currentId
      if (current_id + 1) % 2 ^ 64 > last then pure none
      else do
        let pos ← openFileAndGetPos d ((current_id + 1) % 2 ^ 64) 0
        pure (some pos)) >>= f) s ↔ ∀ next content, Follows d w last id next →
      volume d w next = some content →
        Fine d (f (some 8)) { world := s.world.enter d next, loaded := s.loaded } := by
    refine (fine_ask hask nofun).trans ?_
    show Fine d ((if (id + 1) % 2 ^ 64 > last then pure none
      else openFileAndGetPos d ((id + 1) % 2 ^ 64) 0 >>= fun pos => pure (some pos)) >>= f) s ↔ _
    by_cases hle : (id + 1) % 2 ^ 64 > last
    · rw [if_pos hle]
      refine iff_of_true (hnone s) fun next content hfollows => ?_
      have hid := hfollows.id
      have hle' := hfollows.last
      omega
    · rw [if_neg hle, bind_assoc, fine_openFileAndGetPos h.toReplays]
      constructor
      · rintro hfine next content ⟨rfl, -, -⟩ hcontent
        exact hfine content hcontent
      · intro hfine content hcontent
        refine hfine _ content ⟨rfl, Nat.not_lt.mp hle, ?_⟩ hcontent
        rw [hcontent]
        rfl
  constructor
  · intro hfine
    have hread := hfine ids_list hids
    rw [hlast] at hread
    exact hcurrent.mp hread
  · intro hfine ids hids'
    obtain rfl : ids_list = ids := Except.ok.inj (hids.symm.trans hids')
    rw [hlast]
    exact hcurrent.mpr hfine

/-! ## Rounds -/

variable (d) in
/-- What the loop does with the result of `read_next`. -/
def goOn (fuel : Nat) : Option (Record × Nat) → Code Unit
  | none => pure ()
  | some (record, pos) =>
    match dispatch record with
    | some method => callHandler method >>= fun _ => replayLoop d fuel pos
    | none => replayLoop d fuel pos

theorem replayLoop_succ (fuel pos : Nat) :
    replayLoop d (fuel + 1) pos = readNext d pos >>= goOn d fuel := by
  rfl

/-- The record is handed to the handler, if it is one for it. -/
theorem fine_goOn {fuel pos : Nat} {record : Record} {path : Text} {content : List UInt8}
    (hmapped : s.world.mapped = some (path, content)) (hbegin : 8 ≤ s.loaded.1) :
    Fine d (goOn d fuel (some (record, pos))) s ↔
      (dispatch record ≠ none → s.loaded.1 + s.loaded.2 ≤ headerPosition content) ∧
        Fine d (replayLoop d fuel pos) s := by
  unfold goOn
  dsimp only
  cases dispatch record with
  | none => exact (and_iff_right fun hne => absurd rfl hne).symm
  | some method =>
    refine (fine_callHandler hmapped).trans (and_congr_left fun _ => ?_)
    exact ⟨fun h _ => h.2, fun h => ⟨hbegin, h nofun⟩⟩

section Rounds

variable {ids_list : List Nat} {last fuel id p : Nat} {content : List UInt8}

variable (d w last fuel) in
/-- The loop is a walk, for this number of rounds. -/
def LoopWalks : Prop :=
  ∀ {id p : Nat} {content : List UInt8} {s : Traced}, Standing d w id s.world →
    volume d w id = some content → 8 ≤ p →
      (Fine d (replayLoop d fuel p) s ↔ Goes d w last fuel id p)

theorem fine_readRecord (hloop : LoopWalks d w last fuel) (h : Standing d w id s.world)
    (hcontent : volume d w id = some content) (hp : 8 ≤ p) :
    Fine d (readRecord (p + 2) (sizeAt content p) >>= goOn d fuel) s ↔
      TakesRecord d (Goes d w last fuel) id content p := by
  have hparse : ∀ {t : World} {loaded : Nat × Nat} bytes, Standing d w id t →
      loaded = (p + 2, sizeAt content p) →
      (Fine d ((do
        let record : Record ← Script.ask (Op.parse bytes)
        pure (some (record, p + 2 + sizeAt content p))) >>= goOn d fuel) ⟨t, loaded⟩ ↔
        (dispatch (d.proto.parse bytes) ≠ none → recordEnd content p ≤ headerPosition content) ∧
          Goes d w last fuel id (recordEnd content p)) := by
    rintro t loaded bytes ht rfl
    have hask : ∀ choice, answer d.paths d.proto choice (.parse bytes) t =
        some (d.proto.parse bytes, { t with returned := t.returned ++ [d.proto.parse bytes] }) :=
      fun _ => rfl
    have ht' : Standing d w id { t with returned := t.returned ++ [d.proto.parse bytes] } :=
      ⟨⟨ht.directories, ht.files, ht.state_⟩, ht.mapped_file_, ht.current_id_⟩
    have hbegin : 8 ≤ p + 2 := by omega
    have hend : 8 ≤ p + 2 + sizeAt content p := by omega
    refine (fine_ask (s := ⟨t, _⟩) hask nofun).trans ?_
    refine (fine_goOn (s := ⟨_, _⟩) (ht'.mapped hcontent) hbegin).trans ?_
    exact and_congr_right fun _ => hloop (s := ⟨_, _⟩) ht' hcontent hend
  have hload : Fine d (readRecord (p + 2) (sizeAt content p) >>= goOn d fuel) s ↔ _ :=
    fine_load (f := fun bytes => (do
      let record : Record ← Script.ask (Op.parse bytes)
      pure (some (record, p + 2 + sizeAt content p))) >>= goOn d fuel) (h.mapped hcontent)
  refine hload.trans ((and_congr_right fun _ => hparse _ h rfl).trans ?_)
  exact ⟨fun hfine => ⟨hfine.1, hfine.2.1, hfine.2.2⟩,
    fun htakes => ⟨htakes.inside, htakes.handed, htakes.loop⟩⟩

variable (hids : listedIds d w = .ok ids_list) (hlast : ids_list.getLast? = some last)

include hids hlast

theorem fine_readFrom (hloop : LoopWalks d w last fuel) (h : Standing d w id s.world)
    (hcontent : volume d w id = some content) (hp : 8 ≤ p) :
    Fine d (readFrom d p >>= goOn d fuel) s ↔
      ReadsFrom d w last (Goes d w last fuel) id content p := by
  have hnext : ∀ {t : World} {loaded : Nat × Nat} {k : Option Nat → Code (Option (Record × Nat))},
      k none = pure none →
      (k (some 8) = loadSize 8 >>= fun record_size => readRecord (8 + 2) record_size) →
      Standing d w id t → (Fine d ((nextVolume d >>= k) >>= goOn d fuel) ⟨t, loaded⟩ ↔
        ∀ next content', Follows d w last id next → volume d w next = some content' →
          TakesRecord d (Goes d w last fuel) next content' 8) := by
    intro t loaded k hnone hsome ht
    rw [bind_assoc]
    refine (fine_nextVolume (s := ⟨t, loaded⟩) ht hids hlast fun _ => ?_).trans ?_
    · rw [hnone]
      exact trivial
    refine forall₄_congr fun next content' hfollows hcontent' => ?_
    have henter : Standing d w next (t.enter d next) := ht.toReplays.enter next
    rw [hsome, bind_assoc]
    refine (fine_loadSize (s := ⟨t.enter d next, loaded⟩) (henter.mapped hcontent')).trans ?_
    rw [fine_readRecord (s := ⟨t.enter d next, (8, 2)⟩) hloop henter hcontent' (Nat.le_refl 8)]
    refine and_iff_right_of_imp fun htakes => ?_
    have hinside := htakes.inside
    unfold recordEnd at hinside
    omega
  have hmapped := h.mapped hcontent
  unfold readFrom
  rw [bind_assoc]
  refine (fine_loadSize hmapped).trans ?_
  rw [bind_assoc]
  refine (and_congr_right fun _ => fine_getPos (s := ⟨s.world, (p, 2)⟩) hmapped).trans ?_
  by_cases hcov : Covered content (recordEnd content p)
  · have hle : ¬(p + 2 + sizeAt content p) % 2 ^ 64 > headerPosition content := Nat.not_lt.mpr hcov
    rw [if_neg hle, fine_readRecord (s := ⟨s.world, (0, 8)⟩) hloop h hcontent hp]
    exact ⟨fun hfine => ⟨hfine.1, hfine.2.1, fun _ => hfine.2.2, fun hcut => absurd hcov hcut⟩,
      fun hfrom => ⟨hfrom.size, hfrom.header, hfrom.covered hcov⟩⟩
  · have hgt : (p + 2 + sizeAt content p) % 2 ^ 64 > headerPosition content := Nat.not_le.mp hcov
    rw [if_pos hgt]
    refine (and_congr_right fun _ => and_congr_right fun _ => hnext rfl rfl h).trans ?_
    exact ⟨fun hfine => ⟨hfine.1, hfine.2.1, fun hcov' => absurd hcov' hcov, fun _ => hfine.2.2⟩,
      fun hfrom => ⟨hfrom.size, hfrom.header, hfrom.cut hcov⟩⟩

theorem fine_readNext (hloop : LoopWalks d w last fuel) (h : Standing d w id s.world)
    (hcontent : volume d w id = some content) (hp : 8 ≤ p) :
    Fine d (readNext d p >>= goOn d fuel) s ↔
      ReadsNext d w last (Goes d w last fuel) id content p := by
  have hmapped := h.mapped hcontent
  unfold readNext
  rw [bind_assoc]
  refine (fine_getPos hmapped).trans ?_
  by_cases hcov : Covered content (p + 2)
  · have hle : ¬(p + 2) % 2 ^ 64 > headerPosition content := Nat.not_lt.mpr hcov
    rw [if_neg hle, fine_readFrom (s := ⟨s.world, (0, 8)⟩) hids hlast hloop h hcontent hp]
    exact ⟨fun hfine => ⟨hfine.1, fun _ => hfine.2, fun hwhole => absurd hcov hwhole⟩,
      fun hnext => ⟨hnext.header, hnext.covered hcov⟩⟩
  · have hgt : (p + 2) % 2 ^ 64 > headerPosition content := Nat.not_le.mp hcov
    have hnext : ∀ {k : Option Nat → Code (Option (Record × Nat))}, k none = pure none →
        k (some 8) = readFrom d 8 → (Fine d ((nextVolume d >>= k) >>= goOn d fuel)
          ⟨s.world, (0, 8)⟩ ↔
        ∀ next content', Follows d w last id next → volume d w next = some content' →
          ReadsFrom d w last (Goes d w last fuel) next content' 8) := by
      intro k hnone hsome
      rw [bind_assoc]
      refine (fine_nextVolume (s := ⟨s.world, (0, 8)⟩) h hids hlast fun _ => ?_).trans ?_
      · rw [hnone]
        exact trivial
      refine forall₄_congr fun next content' hfollows hcontent' => ?_
      rw [hsome]
      have henter : Standing d w next (s.world.enter d next) := h.toReplays.enter next
      exact fine_readFrom (s := ⟨s.world.enter d next, (0, 8)⟩) hids hlast hloop henter hcontent'
        (Nat.le_refl 8)
    rw [if_pos hgt]
    refine (and_congr_right fun _ => hnext rfl rfl).trans ?_
    exact ⟨fun hfine => ⟨hfine.1, fun hcov' => absurd hcov' hcov, fun _ => hfine.2⟩,
      fun hnext => ⟨hnext.header, hnext.whole hcov⟩⟩

/-- **Run.** The loop is a walk. -/
theorem loopWalks (fuel : Nat) : LoopWalks d w last fuel := by
  induction fuel with
  | zero =>
    intro id p content s _ _ _
    refine iff_of_false ?_ not_false
    rintro ⟨⟨h, -⟩, -⟩
    cases h ⟨0, false, .opened⟩
  | succ fuel ih =>
    intro id p content s h hcontent hp
    rw [goes_succ hcontent, replayLoop_succ]
    exact fine_readNext hids hlast ih h hcontent hp

/-- The replay of the volumes from the first one on. -/
theorem fine_replayVolumes {first : Nat} (hreplays : Replays w s.world) :
    Fine d (openFileAndGetPos d first 0 >>= fun pos => replayLoop d fuel pos >>= fun _ =>
      Script.ask (Op.setState .DUMPING)) s ↔
      ∀ content, volume d w first = some content → Goes d w last fuel first 8 := by
  refine (fine_openFileAndGetPos hreplays).trans (forall₂_congr fun content hcontent => ?_)
  have henter : Standing d w first (s.world.enter d first) := hreplays.enter first
  have hloop := loopWalks hids hlast fuel (s := ⟨_, s.loaded⟩) henter hcontent (Nat.le_refl 8)
  have hdumping : ∀ (u : Unit) t, Fine d (Script.ask (Op.setState .DUMPING)) t := fun _ _ =>
    ⟨⟨fun _ => rfl, nofun⟩, fun _ _ _ => trivial⟩
  exact (fine_bind_of_fine hdumping).trans hloop

end Rounds

/-- **Theorem for a number of rounds.** A replay is the walk from the first volume on. -/
theorem fine_replayRecordedStream (hhandler : d.wrapped_handler_ = true) (fuel : Nat)
    (loaded : Nat × Nat) :
    Fine d (replayRecordedStream d fuel) { world := w, loaded := loaded } ↔
      ∀ ids_list, listedIds d w = .ok ids_list → ∃ first last, ids_list.head? = some first ∧
        ids_list.getLast? = some last ∧
          ∀ content, volume d w first = some content → Goes d w last fuel first 8 := by
  have hreplaying : ∀ choice, answer d.paths d.proto choice (.setState .REPLAYING) w =
      some ((), { w with state_ := .REPLAYING }) := fun _ => rfl
  have hreplays : Replays w { w with state_ := .REPLAYING } := ⟨rfl, rfl, rfl⟩
  unfold replayRecordedStream
  rw [if_pos hhandler]
  refine (fine_ask (s := ⟨w, loaded⟩) hreplaying nofun).trans ?_
  refine (fine_getFileIdsList (s := ⟨_, loaded⟩) hreplays).trans ?_
  refine forall₂_congr fun ids_list hids => ?_
  cases ids_list with
  | nil =>
    refine iff_of_false not_fine_undefined ?_
    rintro ⟨first, last, hfirst, -⟩
    cases hfirst
  | cons first ids =>
    have hsome : (first :: ids).getLast?.isSome := List.getLast?_isSome.mpr (List.cons_ne_nil first ids)
    obtain ⟨last, hlast⟩ := Option.isSome_iff_exists.mp hsome
    refine (fine_replayVolumes (s := ⟨_, loaded⟩) hids hlast hreplays).trans ?_
    constructor
    · exact fun h => ⟨first, last, rfl, hlast, h⟩
    · rintro ⟨first', last', hfirst, hlast', h⟩
      obtain rfl : first = first' := Option.some.inj hfirst
      obtain rfl : last = last' := Option.some.inj (hlast.symm.trans hlast')
      exact h

/-- The ids have 64 bits. -/
theorem lt_of_listedIds {ids_list : List Nat} (hids : listedIds d w = .ok ids_list) {id : Nat}
    (hid : id ∈ ids_list) : id < 2 ^ 64 := by
  unfold listedIds at hids
  split_ifs at hids
  · cases hread : (taken d w).mapM (readId d) with
    | error failure =>
      rw [hread] at hids
      cases hids
    | ok ids =>
      rw [hread] at hids
      rw [← Except.ok.inj hids, List.mem_insertionSort] at hid
      obtain ⟨file, -, hfile⟩ := (mem_of_map_ok (mapM_eq_ok.mp hread) id).mp hid
      exact Decimal.stoull_lt hfile
  · rw [← Except.ok.inj hids] at hid
    cases hid

/-- If the walk ends from the first volume on, then so does it when there is none. -/
theorem eventually_goes {first last : Nat} :
    (∃ rounds, ∀ fuel, rounds ≤ fuel → ∀ content, volume d w first = some content →
      Goes d w last fuel first 8) ↔ Walks d w last first 8 := by
  unfold Walks
  rw [Filter.eventually_atTop]
  constructor
  · rintro ⟨rounds, h⟩
    refine ⟨rounds + 1, fun fuel hfuel => ?_⟩
    cases fuel with
    | zero => exact absurd hfuel (Nat.not_succ_le_zero rounds)
    | succ fuel =>
      intro content hcontent
      exact h (fuel + 1) (by omega) content hcontent content hcontent
  · rintro ⟨rounds, h⟩
    exact ⟨rounds, fun fuel hfuel _ _ => h fuel hfuel⟩

theorem bounded_volumes (hsizes : OfSize d w) (hhandler : d.wrapped_handler_ = true)
    {ids_list : List Nat} (hids : listedIds d w = .ok ids_list) {first last : Nat}
    (hfirst : ids_list.head? = some first) (hlast : ids_list.getLast? = some last) :
    Bounded d w ↔ SoundVolumes d w first last := by
  have hlt := lt_of_listedIds hids (List.mem_of_head? hfirst)
  rw [← walks_iff_soundVolumes hsizes hlt, ← eventually_goes]
  refine exists_congr fun rounds => forall₂_congr fun fuel _ => ?_
  refine (fine_replayRecordedStream hhandler fuel (0, 0)).trans ?_
  constructor
  · intro h
    obtain ⟨first', last', hfirst', hlast', hgoes⟩ := h ids_list hids
    obtain rfl : first = first' := Option.some.inj (hfirst.symm.trans hfirst')
    obtain rfl : last = last' := Option.some.inj (hlast.symm.trans hlast')
    exact hgoes
  · intro hgoes ids hok
    obtain rfl : ids_list = ids := Except.ok.inj (hids.symm.trans hok)
    exact ⟨first, last, hfirst, hlast, hgoes⟩

/-- A replay is bounded, if and only if there is a volume and the volumes are sound. -/
theorem bounded_iff (hsizes : OfSize d w) :
    Bounded d w ↔ (d.wrapped_handler_ = true → SoundLog d w) := by
  by_cases hhandler : d.wrapped_handler_ = true
  · rw [imp_iff_right hhandler]
    cases hids : listedIds d w with
    | error failure =>
      have hnone : ∀ ids_list, listedIds d w ≠ .ok ids_list := by
        rw [hids]
        exact nofun
      refine iff_of_true ⟨0, fun fuel _ => ?_⟩ fun ids_list hok => absurd hok (hnone ids_list)
      exact (fine_replayRecordedStream hhandler fuel (0, 0)).mpr fun ids_list hok =>
        absurd hok (hnone ids_list)
    | ok ids_list =>
      constructor
      · rintro h ids hok
        obtain ⟨rounds, hrounds⟩ := h
        obtain ⟨first, last, hfirst, hlast, -⟩ :=
          (fine_replayRecordedStream hhandler rounds (0, 0)).mp (hrounds rounds (Nat.le_refl _)) ids hok
        exact ⟨first, last, hfirst, hlast,
          (bounded_volumes hsizes hhandler hok hfirst hlast).mp ⟨rounds, hrounds⟩⟩
      · intro h
        obtain ⟨first, last, hfirst, hlast, hsound⟩ := h ids_list hids
        exact (bounded_volumes hsizes hhandler hids hfirst hlast).mpr hsound
  · refine iff_of_true ⟨0, fun fuel _ => ?_⟩ fun h => absurd h hhandler
    unfold replayRecordedStream
    rw [if_neg hhandler]
    exact trivial

section Examples

/-- The directory with one volume of 14 bytes. -/
def oneVolume (content : List UInt8) : World :=
  plainWorld "var".toList [("var/log.vol-0".toList, content)]

theorem ofSize_oneVolume {content : List UInt8} (hlen : content.length = 14) :
    OfSize oneRecordVolumes (oneVolume content) where
  length := fun id content' hfind => by
    have hmem := AssocMap.mem_of_find hfind
    obtain ⟨-, rfl⟩ := Prod.mk.inj (List.mem_singleton.mp hmem)
    exact hlen
  bound := by decide

theorem listedIds_oneVolume (content : List UInt8) :
    listedIds oneRecordVolumes (oneVolume content) = .ok [0] := by
  rfl

/-- A volume with one `DUMPER_OPEN` record. -/
def openedVolume : List UInt8 := Bytes.encode 8 14 ++ [0, 4, 8, 12, 16, 1]

theorem recordsInside_openedVolume : RecordsInside openedVolume := by
  have hboundary : ∀ p, Boundary openedVolume p → p = 8 ∨ p = 14 := by
    intro p hp
    induction hp with
    | first => exact .inl rfl
    | next _ hsize _ ih =>
      rcases ih with rfl | rfl
      · exact .inr (by decide)
      · exact absurd hsize (by decide)
  refine ⟨by decide, fun p hp hsize => ?_, fun p hp hsize _ => ?_⟩
  · rcases hboundary p hp with rfl | rfl
    · decide
    · exact absurd hsize (by decide)
  · rcases hboundary p hp with rfl | rfl
    · decide
    · exact absurd hsize (by decide)

theorem bounded_openedVolume : Bounded oneRecordVolumes (oneVolume openedVolume) := by
  refine (bounded_iff (ofSize_oneVolume (by decide))).mpr fun _ ids_list hids => ?_
  obtain rfl : [0] = ids_list := Except.ok.inj ((listedIds_oneVolume _).symm.trans hids)
  have hvisited : ∀ entry id, Visited oneRecordVolumes (oneVolume openedVolume) 0 0 entry id →
      entry = .first ∧ id = 0 := by
    intro entry id h
    have hnone : ∀ {id next}, id = 0 →
        ¬Follows oneRecordVolumes (oneVolume openedVolume) 0 id next := by
      rintro id next rfl ⟨rfl, hle, -⟩
      exact absurd hle (by decide)
    induction h with
    | first => exact ⟨rfl, rfl⟩
    | whole _ _ _ hfollows ih => exact absurd hfollows (hnone ih.2)
    | cut _ _ _ hfollows ih => exact absurd hfollows (hnone ih.2)
  refine ⟨0, 0, rfl, rfl, fun entry id content h hcontent => ?_, 1, by decide, .inl (by decide)⟩
  obtain ⟨rfl, rfl⟩ := hvisited entry id h
  obtain rfl : openedVolume = content := Option.some.inj hcontent
  exact recordsInside_openedVolume

/-- The size of the first record reaches behind the end of the file, and so does the position. -/
def corruptVolume : List UInt8 := Bytes.encode 8 (2 ^ 32) ++ [255, 255, 0, 0, 0, 0]

/-- A corrupt position lets a record be read behind the end of the file. -/
theorem corrupt_position_overread : ¬∀ (d : Config) (w : World), OfSize d w → Bounded d w := by
  intro h
  have hsizes : OfSize oneRecordVolumes (oneVolume corruptVolume) := ofSize_oneVolume (by decide)
  have hsound := (bounded_volumes hsizes rfl (listedIds_oneVolume _) rfl rfl).mp (h _ _ hsizes)
  have hinside : RecordsInside corruptVolume := hsound.sound .first 0 corruptVolume .first rfl
  have hend : ¬recordEnd corruptVolume 8 ≤ corruptVolume.length := by decide
  exact hend (hinside.record 8 .first (by decide) (by decide))

end Examples

end Dumper

end Cgatepp

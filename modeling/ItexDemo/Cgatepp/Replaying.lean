import ItexDemo.Cgatepp.Mapping

/-!
# Finding and replaying the volumes

What `get_file_ids_list` and `replay_recorded_stream` have to do with whatever is in the directory.
-/

namespace Cgatepp

namespace Dumper

variable (d : Config)

/-! ## The ids of the volumes -/

/-- There is a volume with this id. -/
def HasVolume (w : World) (id : Nat) : Prop :=
  (AssocMap.find w.files (composeFilePath d id)).isSome

instance (w : World) (id : Nat) : Decidable (HasVolume d w id) :=
  inferInstanceAs (Decidable (_ = true))

/-- `get_file_ids_list` returns the ids of the volumes in their order. -/
def ListsVolumes (w : World) : Prop :=
  Script.Safe (anyAnswer d)
    (Script.Ends
      (fun ids w' => w' = w ∧ ids.Pairwise (· < ·) ∧
        ∀ id, id ∈ ids ↔ id < 2 ^ 64 ∧ HasVolume d w id)
      fun _ _ => False)
    (getFileIdsList d).run w

/-- The directory of the volumes exists. -/
def HasDirectory (w : World) : Prop := d.paths.parent_path d.file_path_ ∈ w.directories

instance (w : World) : Decidable (HasDirectory d w) := inferInstanceAs (Decidable (_ ∈ _))

/-- The files whose names `get_file_ids_list` reads. -/
def taken (w : World) : List Text :=
  ((w.files.map Prod.fst).filter fun file =>
    d.paths.parent_path file = d.paths.parent_path d.file_path_).filter fun file => isVolume d file

/-- The id that `get_file_ids_list` reads. -/
def readId (file : Text) : Except Decimal.Failure Nat :=
  Decimal.stoull ((d.paths.extension file).drop 5)

/-- Names that are composed are all taken apart alike: the directory is the one of `file_path_`, and
the id is behind the start of the extension. -/
structure NamesAlike : Prop where
  parent : isVolume d (composeFilePath d 0) →
    ∀ id, d.paths.parent_path (composeFilePath d id) = d.paths.parent_path d.file_path_
  volume : isVolume d (composeFilePath d 0) → ∀ id, isVolume d (composeFilePath d id)
  id : isVolume d (composeFilePath d 0) →
    ∀ id, (d.paths.extension (composeFilePath d id)).drop 5 = Decimal.digits id

/-- The files that are taken stand for the volumes, one for each. -/
structure StandFor (w : World) : Prop where
  id : ∀ file ∈ taken d w, ∃ id, id < 2 ^ 64 ∧ readId d file = .ok id ∧ HasVolume d w id
  file : ∀ id, id < 2 ^ 64 → HasVolume d w id → ∃ file ∈ taken d w, readId d file = .ok id
  inj : ∀ file ∈ taken d w, ∀ file' ∈ taken d w, readId d file = readId d file' → file = file'

/-- Only volumes are taken; or no volume is, when `file_path_` ends with a slash, and others stand for
all of them. -/
def TakesVolumes (w : World) : Prop :=
  if isVolume d (composeFilePath d 0) then
    ∀ file ∈ taken d w, ∃ id, id < 2 ^ 64 ∧ file = composeFilePath d id
  else StandFor d w

/-! ## What a replay leaves behind -/

/-- A run of a function: whether something has failed, and the calls of the wrapped handler. -/
structure Watched where
  world : World
  failed : Bool
  handled : List HandlerCall

/-- A call of the handler that throws, and an opening that does not succeed. -/
def Op.fails : (op : Op) → Ans op → Bool
  | .handle _, throws => throws
  | .open _ _, .opened => false
  | .open _ _, _ => true
  | _, _ => false

/-- The call of the handler. -/
def Op.calls : Op → List HandlerCall
  | .handle call => [call]
  | _ => []

/-- All operations, with a record of what fails and of the calls. -/
def watching : Script.Semantics Op Ans Watched where
  Pre := fun op s => ∀ choice, (answer d.paths d.proto choice op s.world).isSome
  Act := fun op s a s' =>
    (∃ choice, answer d.paths d.proto choice op s.world = some (a, s'.world)) ∧
      s'.failed = (s.failed || op.fails a) ∧ s'.handled = s.handled ++ op.calls

/-- The `Dumper` records, and its last volume is mapped. -/
structure Recorder (w : World) : Prop where
  dumping : w.state_ = .DUMPING
  named : Named d w
  last : ∀ id, HasVolume d w id → id ≤ w.current_id_

/-- The record of the callback was stored and handed to the handler. -/
def RecordedAndHanded (w : World) (call : HandlerCall) (s : Watched) : Prop :=
  (∃ time, Written d w (recordOf call time) (.ok ()) s.world) ∧
    s.handled = if d.wrapped_handler_ then [call] else []

/-- A callback that returns has done both; one that throws has done both or nothing. -/
def RecordedAndForwarded (w : World) (call : HandlerCall) (r : Except Exception Unit) (s : Watched) :
    Prop :=
  match r with
  | .ok _ => RecordedAndHanded d w call s
  | .error _ => RecordedAndHanded d w call s ∨ s.world.files = w.files ∧ s.handled = []

/-- A callback whose record fits is recorded and forwarded. -/
def Live (w : World) : Prop :=
  ∀ call, (∀ time, Fits d (recordOf call time)) →
    Script.Safe (watching d) (RecordedAndForwarded d w call) (onCallback d call).run
      { world := w, failed := false, handled := [] }

/-- The `Dumper` is as it was before the replay, and records again. -/
structure Restored (w w' : World) : Prop where
  recorder : Recorder d w'
  files : w'.files = w.files
  live : Live d w'

end Dumper

end Cgatepp

import ItexDemo.Cgatepp.Dumper
import ItexDemo.Lib.TransitionSystem

/-!
# Recording over the life of many `Dumper` objects

One `Dumper` at a time works on the volumes of a path. Its functions run one operation at a time, and
the process can end between any two of them.
-/

namespace Cgatepp

namespace Dumper

/-- The function of a `Dumper` that is running. -/
inductive Function where
  | construct
  | callback (call : HandlerCall)
  | replay
  | destruct

/-- The record that the function writes. -/
def Function.record : Function → UInt64 → Option Record
  | .construct, time => some { record_type := .DUMPER_OPEN, timestamp := time, message := .notSet }
  | .callback call, time => some (recordOf call time)
  | .replay, _ => none
  | .destruct, time => some { record_type := .DUMPER_CLOSE, timestamp := time, message := .notSet }

/-- What is left of the run of a function. -/
abbrev Rest : Type := Script Op Ans (Except Exception Unit)

/-- Whether there is a `Dumper`, and what it does. -/
inductive Process where
  | absent
  | idle
  | running (function : Function) (rest : Rest)

structure State where
  world : World
  process : Process

/-- The steps: a function is called, an operation is carried out, and the process ends. -/
inductive Act where
  | construct
  | callback (call : HandlerCall)
  | replay (fuel : Nat)
  | destruct
  | step (choice : Choice)
  | crash

/-- The mapping of a `Dumper` that is no more. -/
def World.release (w : World) : World := { w with mapped_file_ := none }

/-- A function has ended. A constructor that throws leaves no object, and an exception of the
destructor ends the process. -/
def finish : Function → Except Exception Unit → World → State
  | .construct, .ok _, w => { world := w, process := .idle }
  | .construct, .error _, w => { world := w.release, process := .absent }
  | .callback _, _, w => { world := w, process := .idle }
  | .replay, _, w => { world := w, process := .idle }
  | .destruct, _, w => { world := w.release, process := .absent }

variable (d : Config)

/-- One step, when it is enabled. -/
def next (s : State) : Act → Option State
  | .construct =>
    match s.process with
    | .absent => some { s with process := .running .construct (construct d).run }
    | _ => none
  | .callback call =>
    match s.process with
    | .idle => some { s with process := .running (.callback call) (onCallback d call).run }
    | _ => none
  | .replay fuel =>
    match s.process with
    | .idle => some { s with process := .running .replay (replayRecordedStream d fuel).run }
    | _ => none
  | .destruct =>
    match s.process with
    | .idle => some { s with process := .running .destruct (destruct d).run }
    | _ => none
  | .step choice =>
    match s.process with
    | .running function (.call op k) =>
      (answer d.paths d.proto choice op s.world).map fun r =>
        { world := r.2, process := .running function (k r.1) }
    | .running function (.ret r) => some (finish function r s.world)
    | _ => none
  | .crash => some { world := s.world.release, process := .absent }

/-- All histories that begin without a `Dumper`. -/
def system (w : World) : Transition.System State Act :=
  Transition.System.ofStep { world := w, process := .absent } (next d)

/-- The function that is about to get the time of the record that it writes. -/
def State.timing (s : State) : Option Function :=
  match s.process with
  | .running function (.call .getTime _) => some function
  | _ => none

/-! ## Conditions -/

/-- The names of the volumes lead back to their ids, and the directory exists. -/
structure Discoverable (directories : List Text) : Prop where
  directory : d.paths.parent_path d.file_path_ ∈ directories
  parent : ∀ id, d.paths.parent_path (composeFilePath d id) = d.paths.parent_path d.file_path_
  volume : ∀ id, isVolume d (composeFilePath d id)
  id : ∀ id, (d.paths.extension (composeFilePath d id)).drop 5 = Decimal.digits id

/-- The file system has every file once, and no volume of the path. -/
structure Blank (w : World) : Prop where
  nodup : (w.files.map Prod.fst).Nodup
  none : ∀ path ∈ w.files.map Prod.fst,
    d.paths.parent_path path = d.paths.parent_path d.file_path_ → ¬isVolume d path
  written : w.written = []

/-- The size of a file that has room for the position and the smallest record. -/
def GoodSize : Prop := 10 ≤ d.file_size_ ∧ d.file_size_ < 2 ^ 63

/-- The record can be stored in a volume of its own. -/
def Fits (record : Record) : Prop :=
  (d.proto.serialize record).length < 2 ^ 16 ∧ 10 + recordSize d record ≤ d.file_size_

instance (record : Record) : Decidable (Fits d record) := inferInstanceAs (Decidable (_ ∧ _))

/-- The record has room behind the position of the mapped volume. -/
def Room (w : World) (record : Record) : Prop :=
  ∃ path content, w.mapped = some (path, content) ∧
    Bytes.decode (content.take 8) + 2 + recordSize d record ≤ d.file_size_

instance (w : World) (record : Record) : Decidable (Room d w record) :=
  decidable_of_iff (∃ file ∈ w.mapped,
      Bytes.decode (file.2.take 8) + 2 + recordSize d record ≤ d.file_size_)
    ⟨fun ⟨file, hfile, hle⟩ => ⟨file.1, file.2, hfile, hle⟩,
      fun ⟨path, content, hfile, hle⟩ => ⟨(path, content), hfile, hle⟩⟩

/-- The record fits, and is not the one that needs the last of the `2 ^ 64` ids. -/
def Recordable (w : World) (record : Record) : Prop :=
  Fits d record ∧ (Room d w record ∨ w.current_id_ + 2 < 2 ^ 64)

instance (w : World) (record : Record) : Decidable (Recordable d w record) :=
  inferInstanceAs (Decidable (_ ∧ _))

/-- The position in the header of a volume. -/
def headerPosition (content : List UInt8) : Nat := Bytes.decode (content.take 8)

end Dumper

end Cgatepp

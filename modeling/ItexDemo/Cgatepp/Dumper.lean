import Mathlib.Data.List.Sort
import ItexDemo.Cgatepp.World

/-!
# `cgatepp::Dumper`

The functions of the `Dumper`, in the order of `dumper.cpp`. Positions, ids and sizes are numbers
modulo the width of their type. The waits of a replay are left out.
-/

namespace Cgatepp

namespace Dumper

/-- How its functions end when they throw. -/
inductive Exception where
  /-- `DumperException`. -/
  | dumper (errorText : String)
  /-- Boost throws. -/
  | boost
  /-- `std::stoull` throws. -/
  | conversion (failure : Decimal.Failure)
  /-- The wrapped handler throws. -/
  | handler
  deriving DecidableEq, Repr

/-- Programs of a `Dumper`. -/
abbrev Code (α : Type) : Type := Script.Code Op Ans Exception α

/-- The members that do not change, and the libraries. -/
structure Config where
  paths : PathLibrary
  proto : Protobuf
  file_path_ : Text
  file_size_ : Nat
  /-- `wrapped_handler_ != nullptr`. -/
  wrapped_handler_ : Bool

variable (d : Config)

/-! ## Volumes -/

/-- The extension of a volume, in front of its id. -/
def volumePrefix : Text := ".vol-".toList

/-- `compose_file_path`. -/
def composeFilePath (id : Nat) : Text := d.file_path_ ++ volumePrefix ++ Decimal.digits id

/-- A path that `get_file_ids_list` does not skip. -/
def isVolume (path : Text) : Prop :=
  d.paths.stem path = d.paths.filename d.file_path_ ∧
    (volumePrefix.isPrefixOf (d.paths.extension path)) = true

instance (path : Text) : Decidable (isVolume d path) := inferInstanceAs (Decidable (_ ∧ _))

/-- The ids in the names of the volumes, each of which is read with `std::stoull`. -/
def readIds (files : List Text) : Except Decimal.Failure (List Nat) :=
  (files.filter fun path => isVolume d path).mapM fun path =>
    Decimal.stoull ((d.paths.extension path).drop 5)

/-- `get_file_ids_list`. -/
def getFileIdsList : Code (List Nat) := do
  let dir_path := d.paths.parent_path d.file_path_
  let directory : Bool ← Script.ask (Op.isDirectory dir_path)
  if directory then
    let files : List Text ← Script.ask (Op.directoryIterator dir_path)
    match readIds d files with
    | .ok ids_list => pure (ids_list.insertionSort (· ≤ ·))
    | .error failure => throw (.conversion failure)
  else pure []

/-- What the code does not define. -/
def undefined {α : Type} : Code α := do
  let impossible : Empty ← Script.ask Op.undefined
  nomatch impossible

/-- `get_pos`. -/
def getPos : Code Nat := do
  let bytes : List UInt8 ← Script.ask (Op.load 0 8)
  pure (Bytes.decode bytes)

/-- `set_pos`, with the record that it completes. -/
def setPos (pos : Nat) (completes : Option Record) : Code Unit :=
  Script.ask (Op.store 0 (Bytes.encode 8 pos) completes)

/-- The part of the constructor and of `open_file_and_get_pos` that gives a new volume its
position. -/
def initialisePos : Code Unit := do
  let pos ← getPos
  if pos = 0 then setPos (pos + 8) none

/-- `mapped_file_.open`, and the check of `is_open` behind it. -/
def openVolume (id new_file_size : Nat) : Code Unit := do
  let opening : Opening ← Script.ask (Op.open (composeFilePath d id) new_file_size)
  match opening with
  | .opened => pure ()
  | .notOpen => throw (.dumper "Can not open memory mapped file")
  | .threw => throw .boost

/-- `open_file_and_get_pos`. -/
def openFileAndGetPos (id new_file_size : Nat) : Code Nat := do
  let is_open : Bool ← Script.ask Op.isOpen
  if is_open then Script.ask Op.close
  Script.ask (Op.setCurrentId id)
  openVolume d id new_file_size
  let state_ : Mode ← Script.ask Op.state
  if state_ = .REPLAYING then pure (0 + 8)
  else do
    initialisePos
    getPos

/-! ## Records -/

/-- The single stores of `SerializeToArray`. -/
def storeBytes : Nat → List UInt8 → Code Unit
  | _, [] => pure ()
  | offset, byte :: bytes => do
    Script.ask (Op.store offset [byte] none)
    storeBytes (offset + 1) bytes

/-- `SerializeToArray`, which stores nothing when the array is too small. -/
def serializeToArray (record : Record) (offset size : Nat) : Code Unit :=
  if (d.proto.serialize record).length ≤ size then storeBytes offset (d.proto.serialize record)
  else pure ()

/-- `ByteSize` as the 16 bits in which it is kept. -/
def recordSize (record : Record) : Nat := (d.proto.serialize record).length % 2 ^ 16

/-- `write_next`. -/
def writeNext (record : Record) : Code Unit := do
  let pos ← getPos
  let pos ←
    if (pos + 2 + recordSize d record) % 2 ^ 64 > d.file_size_ then do
      let current_id : Nat ← Script.ask Op.currentId
      openFileAndGetPos d ((current_id + 1) % 2 ^ 64) d.file_size_
    else pure pos
  Script.ask (Op.store pos (Bytes.encode 2 (recordSize d record)) none)
  serializeToArray d record (pos + 2) (recordSize d record)
  setPos (pos + 2 + recordSize d record) (some record)

/-- The way of `read_next` to the next volume, if there is one. -/
def nextVolume : Code (Option Nat) := do
  let ids_list ← getFileIdsList d
  match ids_list.getLast? with
  | none => undefined
  | some last_available_id => do
    let current_id : Nat ← Script.ask Op.currentId
    if (current_id + 1) % 2 ^ 64 > last_available_id then pure none
    else do
      let pos ← openFileAndGetPos d ((current_id + 1) % 2 ^ 64) 0
      pure (some pos)

/-- The size in front of a record. -/
def loadSize (pos : Nat) : Code Nat := do
  let bytes : List UInt8 ← Script.ask (Op.load pos 2)
  pure (Bytes.decode bytes)

/-- The end of `read_next`: the record of this size. -/
def readRecord (pos record_size : Nat) : Code (Option (Record × Nat)) := do
  let bytes : List UInt8 ← Script.ask (Op.load pos record_size)
  let record : Record ← Script.ask (Op.parse bytes)
  pure (some (record, pos + record_size))

/-- `read_next` behind its first volume switch. -/
def readFrom (pos : Nat) : Code (Option (Record × Nat)) := do
  let record_size ← loadSize pos
  let available ← getPos
  if (pos + 2 + record_size) % 2 ^ 64 > available then do
    let next ← nextVolume d
    match next with
    | none => pure none
    | some pos => do
      let record_size ← loadSize pos
      readRecord (pos + 2) record_size
  else readRecord (pos + 2) record_size

/-- `read_next`, which returns a record with the position behind it. -/
def readNext (pos : Nat) : Code (Option (Record × Nat)) := do
  let available ← getPos
  if (pos + 2) % 2 ^ 64 > available then do
    let next ← nextVolume d
    match next with
    | none => pure none
    | some pos => readFrom d pos
  else readFrom d pos

/-! ## The interface -/

/-- A call of the wrapped handler. -/
def callHandler (call : HandlerCall) : Code Unit := do
  let throws : Bool ← Script.ask (Op.handle call)
  if throws then throw .handler

/-- The recording of `DUMPER_OPEN` and `DUMPER_CLOSE`. -/
def writeMark (record_type : RecordType) : Code Unit := do
  let time : UInt64 ← Script.ask Op.getTime
  writeNext d { record_type := record_type, timestamp := time, message := .notSet }

/-- The text of the exception for a volume of another size. -/
def sizeMismatch (fs_file_size : Nat) : String :=
  "Memory-mapped file size mismatch! On filesystem: " ++ toString fs_file_size ++
    " bytes; Requested: " ++ toString d.file_size_

/-- The size with which the constructor opens its volume: zero for one that there is. -/
def newFileSize (ids_list : List Nat) : Code Nat := do
  if ids_list = [] then pure d.file_size_
  else do
    let size : Option Nat ← Script.ask (Op.fileSize (composeFilePath d (ids_list.getLast?.getD 0)))
    match size with
    | none => throw .boost
    | some fs_file_size =>
      if fs_file_size ≠ d.file_size_ then throw (.dumper (sizeMismatch d fs_file_size))
      else pure 0

/-- `Dumper::Dumper`. -/
def construct : Code Unit := do
  Script.ask (Op.setState .DUMPING)
  let ids_list ← getFileIdsList d
  let current_id := ids_list.getLast?.getD 0
  Script.ask (Op.setCurrentId current_id)
  let new_file_size ← newFileSize d ids_list
  openVolume d current_id new_file_size
  initialisePos
  writeMark d .DUMPER_OPEN

/-- `Dumper::~Dumper`. -/
def destruct : Code Unit := do
  let is_open : Bool ← Script.ask Op.isOpen
  if is_open then do
    writeMark d .DUMPER_CLOSE
    Script.ask Op.close

/-- The loop of `replay_recorded_stream`, with fuel for its rounds. -/
def replayLoop : Nat → Nat → Code Unit
  | 0, _ => do
    let impossible : Empty ← Script.ask Op.outOfFuel
    nomatch impossible
  | fuel + 1, pos => do
    let next ← readNext d pos
    match next with
    | none => pure ()
    | some (record, pos) => do
      match dispatch record with
      | some call => callHandler call
      | none => pure ()
      replayLoop fuel pos

/-- `replay_recorded_stream`. -/
def replayRecordedStream (fuel : Nat) : Code Unit := do
  if d.wrapped_handler_ then do
    Script.ask (Op.setState .REPLAYING)
    let ids_list ← getFileIdsList d
    match ids_list.head? with
    | none => undefined
    | some first => do
      let pos ← openFileAndGetPos d first 0
      replayLoop d fuel pos
    Script.ask (Op.setState .DUMPING)

/-- The callbacks `on_listener_open` to `on_unknown_msg_type`. Nothing is recorded during a replay. -/
def onCallback (call : HandlerCall) : Code Unit := do
  let state_ : Mode ← Script.ask Op.state
  if state_ = .REPLAYING then pure ()
  else do
    let time : UInt64 ← Script.ask Op.getTime
    writeNext d (recordOf call time)
    if d.wrapped_handler_ then callHandler call

end Dumper

end Cgatepp

import ItexDemo.Cgatepp.Record
import ItexDemo.Lib.AssocMap
import ItexDemo.Lib.Bytes
import ItexDemo.Lib.Decimal
import ItexDemo.Lib.Script

/-!
# What a `cgatepp::Dumper` works on

The volumes are files that are mapped into memory one at a time, so that a store through `data_` is
at once a store into the file. The operations of the file system, of `mapped_file_`, of the clock and
of the wrapped handler are the operations of the scripts that model the functions of the `Dumper`;
its members that change are part of the state.
-/

namespace Cgatepp

namespace Dumper

/-- Paths and file names. -/
abbrev Text : Type := List Char

/-- How `boost::filesystem::path` takes paths apart. -/
structure PathLibrary where
  filename : Text → Text
  parent_path : Text → Text
  stem : Text → Text
  extension : Text → Text

/-- `SerializeToArray` and `ParseFromArray` of a `Record`. -/
structure Protobuf where
  serialize : Record → List UInt8
  parse : List UInt8 → Record

/-- `Dumper::State`. -/
inductive Mode where
  | DUMPING
  | REPLAYING
  deriving DecidableEq, Repr

/-- The files, and the members of the `Dumper` that change. -/
structure World where
  directories : List Text
  files : List (Text × List UInt8)
  /-- The file that `mapped_file_` has open. -/
  mapped_file_ : Option Text
  current_id_ : Nat
  state_ : Mode
  /-- The records whose `write_next` has reached its final `set_pos`. -/
  written : List Record
  /-- The records that `read_next` has returned. -/
  returned : List Record

/-- The result of `mapped_file_.open` followed by `is_open`. -/
inductive Opening where
  | opened
  | notOpen
  | threw
  deriving DecidableEq, Repr

/-- The operations. -/
inductive Op where
  | isDirectory (path : Text)
  | directoryIterator (path : Text)
  | fileSize (path : Text)
  | isOpen
  | close
  | open (path : Text) (new_file_size : Nat)
  | load (offset size : Nat)
  /-- A store, with the record that it completes. -/
  | store (offset : Nat) (bytes : List UInt8) (completes : Option Record)
  | parse (bytes : List UInt8)
  | currentId
  | setCurrentId (id : Nat)
  | state
  | setState (mode : Mode)
  | getTime
  /-- A method of `wrapped_handler_` is called, and may throw. -/
  | handle (call : HandlerCall)
  /-- The behaviour of the program is not defined. -/
  | undefined
  /-- The model does not follow a loop any longer. -/
  | outOfFuel

/-- Their results. -/
def Ans : Op → Type
  | .isDirectory _ => Bool
  | .directoryIterator _ => List Text
  | .fileSize _ => Option Nat
  | .isOpen => Bool
  | .close => Unit
  | .open _ _ => Opening
  | .load _ _ => List UInt8
  | .store _ _ _ => Unit
  | .parse _ => Record
  | .currentId => Nat
  | .setCurrentId _ => Unit
  | .state => Mode
  | .setState _ => Unit
  | .getTime => UInt64
  | .handle _ => Bool
  | .undefined => Empty
  | .outOfFuel => Empty

/-- What is not determined by the files: the time, whether a call of the wrapped handler throws, and
whether a file that can be opened is opened. -/
structure Choice where
  time : UInt64
  throws : Bool
  opening : Opening

namespace World

/-- The bytes of the mapped file. -/
def mapped (w : World) : Option (Text × List UInt8) :=
  w.mapped_file_.bind fun path => (AssocMap.find w.files path).map fun bytes => (path, bytes)

/-- A store into the mapped file. -/
def store (w : World) (offset : Nat) (bytes : List UInt8) (completes : Option Record) :
    Option World :=
  w.mapped.bind fun (path, content) =>
    if offset + bytes.length ≤ content.length then
      some { w with
        files := AssocMap.assign w.files path (Bytes.overwrite content offset bytes)
        written := w.written ++ completes.toList }
    else none

/-- `mapped_file_.open`: a new file is created, or replaces the one that there is, and is filled with
zeros. -/
def openFile (w : World) (path : Text) (new_file_size : Nat) : Opening → Opening × World
  | .opened =>
    if 0 < new_file_size then
      (.opened, { w with
        files := AssocMap.assign w.files path (List.replicate new_file_size 0)
        mapped_file_ := some path })
    else if (AssocMap.find w.files path).isSome then
      (.opened, { w with mapped_file_ := some path })
    else (.threw, w)
  | failure => (failure, w)

end World

/-- The result of an operation. An access outside of the mapped file has none. -/
def answer (paths : PathLibrary) (proto : Protobuf) (choice : Choice) :
    (op : Op) → World → Option (Ans op × World)
  | .isDirectory path, w => some (decide (path ∈ w.directories), w)
  | .directoryIterator path, w =>
    some ((w.files.map Prod.fst).filter fun file => paths.parent_path file = path, w)
  | .fileSize path, w => some ((AssocMap.find w.files path).map List.length, w)
  | .isOpen, w => some (w.mapped_file_.isSome, w)
  | .close, w => some ((), { w with mapped_file_ := none })
  | .open path new_file_size, w => some (w.openFile path new_file_size choice.opening)
  | .load offset size, w =>
    w.mapped.bind fun (_, content) => (Bytes.slice content offset size).map fun bytes => (bytes, w)
  | .store offset bytes completes, w => (w.store offset bytes completes).map fun w' => ((), w')
  | .parse bytes, w =>
    some (proto.parse bytes, { w with returned := w.returned ++ [proto.parse bytes] })
  | .currentId, w => some (w.current_id_, w)
  | .setCurrentId id, w => some ((), { w with current_id_ := id })
  | .state, w => some (w.state_, w)
  | .setState mode, w => some ((), { w with state_ := mode })
  | .getTime, w => some (choice.time, w)
  | .handle _, w => some (choice.throws, w)
  | .undefined, _ => none
  | .outOfFuel, _ => none

end Dumper

end Cgatepp

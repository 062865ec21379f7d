import ItexDemo.Cgatepp.World

/-!
# Small versions of the libraries of a `Dumper`

The wire format of protobuf for records without a message or with a `repl_replstate`, and paths
outside of the root directory.
-/

namespace Cgatepp

namespace Dumper

/-- A number in groups of seven bits, the lowest ones first. -/
def varint : Nat → Nat → List UInt8
  | 0, _ => []
  | groups + 1, n =>
    if n < 128 then [UInt8.ofNat n] else UInt8.ofNat (n % 128 + 128) :: varint groups (n / 128)

/-- The number in front of the bytes, with what is behind it. -/
def readVarint : List UInt8 → Option (Nat × List UInt8)
  | [] => none
  | byte :: bytes =>
    if byte.toNat < 128 then some (byte.toNat, bytes)
    else (readVarint bytes).map fun r => (byte.toNat - 128 + 128 * r.1, r.2)

namespace RecordType

/-- The types in the order of their numbers. -/
def all : List RecordType :=
  [.LISTENER_OPEN, .LISTENER_CLOSE, .TRANSACTION_BEGIN, .TRANSACTION_COMMIT, .STREAM_DATA,
    .REPL_ONLINE, .REPL_LIFENUM, .REPL_CLEARDELETED, .REPL_REPLSTATE, .MQ_REPLY, .MQ_TIMEOUT,
    .UNKNOWN_MSG_TYPE, .DUMPER_OPEN, .DUMPER_CLOSE]

end RecordType

/-- The fields `record_type`, `timestamp` and `repl_replstate` with their tags. -/
def serializePlain (record : Record) : List UInt8 :=
  8 :: varint 10 (RecordType.all.idxOf record.record_type) ++
    16 :: varint 10 record.timestamp.toNat ++
      match record.message with
      | .replReplstate replstate => 50 :: varint 10 replstate.length ++ replstate
      | _ => []

/-- A record from these fields. -/
def parsePlain (bytes : List UInt8) : Option Record := do
  let (type, rest) ← readVarint (bytes.drop 1)
  let (time, rest) ← readVarint (rest.drop 1)
  let record_type ← RecordType.all[type]?
  match rest with
  | [] => pure { record_type := record_type, timestamp := time.toUInt64, message := .notSet }
  | _ :: rest => do
    let (length, rest) ← readVarint rest
    pure { record_type := record_type, timestamp := time.toUInt64,
           message := .replReplstate (rest.take length) }

/-- `SerializeToArray` and `ParseFromArray` for such records. -/
def plainProtobuf : Protobuf where
  serialize := serializePlain
  parse := fun bytes =>
    (parsePlain bytes).getD { record_type := .LISTENER_OPEN, timestamp := 0, message := .notSet }

/-- What is behind the last slash. -/
def lastSegment (path : Text) : Text := (path.reverse.takeWhile (· ≠ '/')).reverse

/-- A file name without its extension, and the extension with its dot. -/
def splitExtension (name : Text) : Text × Text :=
  if '.' ∈ name ∧ name ≠ ['.'] ∧ name ≠ ['.', '.'] then
    (((name.reverse.dropWhile (· ≠ '.')).drop 1).reverse,
      '.' :: (name.reverse.takeWhile (· ≠ '.')).reverse)
  else (name, [])

/-- The name of the file, `"."` behind a slash at the end. -/
def plainFilename (path : Text) : Text :=
  if path.getLast? = some '/' then ['.'] else lastSegment path

/-- `boost::filesystem::path`, for paths outside of the root directory. -/
def plainPaths : PathLibrary where
  filename := plainFilename
  parent_path := fun path => ((path.reverse.dropWhile (· ≠ '/')).drop 1).reverse
  stem := fun path => (splitExtension (plainFilename path)).1
  extension := fun path => (splitExtension (plainFilename path)).2

/-- A file system with one directory and these files. -/
def plainWorld (directory : Text) (files : List (Text × List UInt8)) : World where
  directories := [directory]
  files := files
  mapped_file_ := none
  current_id_ := 0
  state_ := .DUMPING
  written := []
  returned := []

end Dumper

end Cgatepp

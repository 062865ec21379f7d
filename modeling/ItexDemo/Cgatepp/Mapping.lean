import ItexDemo.Cgatepp.Recording

/-!
# What a `Dumper` does through its mapping

`data_` and `current_position_ptr_` point into the mapped file; nothing may be read or stored through
them when no file is mapped.
-/

namespace Cgatepp

namespace Dumper

variable (d : Config)

/-- The operations that go through `data_` or `current_position_ptr_`. -/
def Op.Accesses : Op → Prop
  | .load _ _ => True
  | .store _ _ _ => True
  | _ => False

/-- The mapped file is the one that `current_id_` names. -/
def Named (w : World) : Prop :=
  w.mapped_file_ = some (composeFilePath d w.current_id_) ∧ w.mapped.isSome

/-- Only a file that is mapped is accessed, and a callback that could not write its record leaves
`current_id_` naming the file that is mapped. -/
structure UsesOpenMapping (s : State) : Prop where
  accesses : ∀ function op k, s.process = .running function (.call op k) → op.Accesses →
    s.world.mapped.isSome
  named : ∀ call e, s.process = .running (.callback call) (.ret (.error e)) → e ≠ .handler →
    Named d s.world

/-- The file that a callback is about to open, with its size if it is new. -/
def State.opensInCallback (s : State) : Option (Text × Nat) :=
  match s.process with
  | .running (.callback _) (.call (.open path size) _) => some (path, size)
  | _ => none

/-- No opening of a file fails inside of a callback. -/
def OpensInCallbacks (s : State) : Act → Prop
  | .step choice => ∀ file ∈ s.opensInCallback,
    (s.world.openFile file.1 file.2 choice.opening).1 = .opened
  | _ => True

instance (s : State) : (act : Act) → Decidable (OpensInCallbacks s act)
  | .step choice => inferInstanceAs (Decidable (∀ file ∈ s.opensInCallback,
    (s.world.openFile file.1 file.2 choice.opening).1 = .opened))
  | .construct => .isTrue trivial
  | .callback _ => .isTrue trivial
  | .replay _ => .isTrue trivial
  | .destruct => .isTrue trivial
  | .crash => .isTrue trivial

/-! ## What `write_next` stores -/

/-- All operations, with all the answers that they can have. -/
def anyAnswer : Script.Semantics Op Ans World where
  Pre := fun op w => ∀ choice, (answer d.paths d.proto choice op w).isSome
  Act := fun op w a w' => ∃ choice, answer d.paths d.proto choice op w = some (a, w')

/-- A volume that was created, with its position. -/
def newVolume : List UInt8 := Bytes.overwrite (.replicate d.file_size_ 0) 0 (Bytes.encode 8 8)

/-- The record is stored at the position of the volume `content`, behind its size, which makes
`content'` of it. -/
structure StoredExactly (record : Record) (content content' : List UInt8) : Prop where
  inside : 8 ≤ headerPosition content ∧
    headerPosition content + 2 + (d.proto.serialize record).length ≤ d.file_size_
  size : ∃ bytes, Bytes.slice content' (headerPosition content) 2 = some bytes ∧
    Bytes.decode bytes = (d.proto.serialize record).length
  bytes : Bytes.slice content' (headerPosition content + 2) (d.proto.serialize record).length =
    some (d.proto.serialize record)
  position : headerPosition content' =
    headerPosition content + 2 + (d.proto.serialize record).length
  length : content'.length = content.length
  others : ∀ i, 8 ≤ i → i < headerPosition content ∨
    headerPosition content + 2 + (d.proto.serialize record).length ≤ i → content'[i]? = content[i]?

/-- The record is stored in the volume that is mapped, or in a new one; or an exception leaves the
volumes as they were. -/
def Written (w : World) (record : Record) : Except Exception Unit → World → Prop :=
  Script.Ends
    (fun _ w' => ∃ path content content', w'.mapped = some (path, content') ∧
      (w.mapped = some (path, content) ∨
        content = newVolume d ∧ path = composeFilePath d ((w.current_id_ + 1) % 2 ^ 64)) ∧
      StoredExactly d record content content' ∧
      ∀ other, other ≠ path → AssocMap.find w'.files other = AssocMap.find w.files other)
    fun _ w' => w'.files = w.files

/-- `write_next` does so. -/
def WritesExactly (w : World) (record : Record) : Prop :=
  Script.Safe (anyAnswer d) (Written d w record) (writeNext d record).run w

/-- The record has room in a volume of its own; and behind the position of the mapped one, which is
behind the header, when the sum that `write_next` compares with the size is taken for fitting. -/
structure Storable (record : Record) (content : List UInt8) : Prop where
  short : (d.proto.serialize record).length < 2 ^ 16
  fits : 10 + (d.proto.serialize record).length ≤ d.file_size_
  header : 8 ≤ content.length
  room : (headerPosition content + 2 + (d.proto.serialize record).length) % 2 ^ 64 ≤ d.file_size_ →
    8 ≤ headerPosition content ∧
      headerPosition content + 2 + (d.proto.serialize record).length < 2 ^ 64 ∧
      headerPosition content + 2 + (d.proto.serialize record).length ≤ content.length

/-- No volume can be created, there is no next one, and `write_next` wants to open it. -/
structure Refused (w : World) (record : Record) (content : List UInt8) : Prop where
  size : d.file_size_ = 0
  next : AssocMap.find w.files (composeFilePath d ((w.current_id_ + 1) % 2 ^ 64)) = none
  header : 8 ≤ content.length
  full : (headerPosition content + 2 + recordSize d record) % 2 ^ 64 ≠ 0

end Dumper

end Cgatepp

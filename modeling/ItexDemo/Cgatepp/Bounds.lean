import ItexDemo.Cgatepp.Replaying

/-!
# How far a replay reads

The volumes hold any bytes here. A replay trusts the position in the header of a volume and the size
in front of a record; which of both it checks depends on how it has come into the volume.
-/

namespace Cgatepp

namespace Dumper

variable (d : Config)

/-! ## What has to hold -/

/-- A run of a function, with the offset and the number of the bytes that were loaded last. -/
structure Traced where
  world : World
  loaded : Nat × Nat

/-- The bytes that were loaded last. -/
def Op.loads : Op → Nat × Nat → Nat × Nat
  | .load offset size, _ => (offset, size)
  | _, loaded => loaded

/-- All operations. When the handler is called, the bytes of the record, which were loaded last, lie
between the header of the mapped volume and its stored position. -/
def bounding : Script.Semantics Op Ans Traced where
  Pre := fun op s => (∀ choice, (answer d.paths d.proto choice op s.world).isSome) ∧
    ∀ call, op = .handle call → ∃ path content, s.world.mapped = some (path, content) ∧
      8 ≤ s.loaded.1 ∧ s.loaded.1 + s.loaded.2 ≤ headerPosition content
  Act := fun op s a s' =>
    (∃ choice, answer d.paths d.proto choice op s.world = some (a, s'.world)) ∧
      s'.loaded = op.loads s.loaded

/-- `replay_recorded_stream` returns or throws after a number of rounds, reads only in the mapped
volumes, and hands only records to the handler that lie in front of the stored position. -/
def Bounded (w : World) : Prop :=
  ∃ rounds, ∀ fuel, rounds ≤ fuel → Script.Safe (bounding d) (fun _ _ => True)
    (replayRecordedStream d fuel).run { world := w, loaded := (0, 0) }

/-- All volumes have the size of the `Dumper`. -/
structure OfSize (w : World) : Prop where
  length : ∀ id content, AssocMap.find w.files (composeFilePath d id) = some content →
    content.length = d.file_size_
  bound : d.file_size_ < 2 ^ 64

/-! ## The records in a volume -/

section Records

variable (content : List UInt8)

/-- The size in front of the record at `p`. -/
def sizeAt (p : Nat) : Nat := Bytes.decode ((content.drop p).take 2)

/-- The end of the record at `p`. -/
def recordEnd (p : Nat) : Nat := p + 2 + sizeAt content p

/-- The bytes of the record at `p`. -/
def recordBytes (p : Nat) : List UInt8 := (content.drop (p + 2)).take (sizeAt content p)

/-- The stored position is not in front of `n`, which has 64 bits. -/
def Covered (n : Nat) : Prop := n % 2 ^ 64 ≤ headerPosition content

instance (n : Nat) : Decidable (Covered content n) := inferInstanceAs (Decidable (_ ≤ _))

/-- The ends of the covered records. -/
inductive Boundary : Nat → Prop where
  | first : Boundary 8
  | next {p : Nat} : Boundary p → Covered content (p + 2) →
    Covered content (recordEnd content p) → Boundary (recordEnd content p)

/-- The covered records do not reach behind the end of the file. -/
structure RecordsInside : Prop where
  header : 8 ≤ content.length
  size : ∀ p, Boundary content p → Covered content (p + 2) → p + 2 ≤ content.length
  record : ∀ p, Boundary content p → Covered content (p + 2) →
    Covered content (recordEnd content p) → recordEnd content p ≤ content.length

/-- The stored position is at the end of a record. -/
def EndsWhole : Prop := ∃ p, Boundary content p ∧ ¬Covered content (p + 2)

/-- The stored position is inside of a record. -/
def EndsCut : Prop :=
  ∃ p, Boundary content p ∧ Covered content (p + 2) ∧ ¬Covered content (recordEnd content p)

/-- The stored position covers the first record. -/
def FirstCovered : Prop := Covered content (recordEnd content 8)

end Records

/-! ## From volume to volume -/

/-- How a replay comes into a volume: as the first one, or from one that ends whole or cut. -/
inductive Entry where
  | first
  | behindWhole
  | behindCut
  deriving DecidableEq, Repr

/-- A record that `replay_recorded_stream` hands to the handler. -/
def Handed (content : List UInt8) (p : Nat) : Prop :=
  dispatch (d.proto.parse (recordBytes content p)) ≠ none

/-- Nothing is read behind the end of the file, and the first record is covered if it is handed to
the handler without a check. -/
def Entry.Sound : Entry → List UInt8 → Prop
  | .first, content => RecordsInside content
  | .behindWhole, content => RecordsInside content ∧ 10 ≤ content.length
  | .behindCut, content => RecordsInside content ∧ recordEnd content 8 ≤ content.length ∧
    (Handed d content 8 → recordEnd content 8 ≤ headerPosition content)

/-- The volume behind is entered with a check of its first record. A first record that was read
without a check may be behind the stored position. -/
def Entry.LeavesWhole : Entry → List UInt8 → Prop
  | .first, content => EndsWhole content
  | .behindWhole, content => FirstCovered content ∧ EndsWhole content
  | .behindCut, content => ¬FirstCovered content ∨ EndsWhole content

/-- The volume behind is entered without any check. -/
def Entry.LeavesCut : Entry → List UInt8 → Prop
  | .first, content => EndsCut content
  | .behindWhole, content => ¬FirstCovered content ∨ EndsCut content
  | .behindCut, content => FirstCovered content ∧ EndsCut content

/-- The content of a volume. -/
def volume (w : World) (id : Nat) : Option (List UInt8) :=
  AssocMap.find w.files (composeFilePath d id)

/-- The volume `next` is there, and its id is not behind the last one. -/
structure Follows (w : World) (last id next : Nat) : Prop where
  id : next = (id + 1) % 2 ^ 64
  last : next ≤ last
  volume : (volume d w next).isSome

/-- The volumes that follow one another from the first one on. -/
inductive Visited (w : World) (first last : Nat) : Entry → Nat → Prop where
  | first : Visited w first last .first first
  | whole {entry : Entry} {id next : Nat} {content : List UInt8} :
    Visited w first last entry id → volume d w id = some content → entry.LeavesWhole content →
      Follows d w last id next → Visited w first last .behindWhole next
  | cut {entry : Entry} {id next : Nat} {content : List UInt8} :
    Visited w first last entry id → volume d w id = some content → entry.LeavesCut content →
      Follows d w last id next → Visited w first last .behindCut next

/-- The ids that `get_file_ids_list` reads. -/
def listedIds (w : World) : Except Decimal.Failure (List Nat) :=
  if HasDirectory d w then
    ((taken d w).mapM (readId d)).map fun ids_list => ids_list.insertionSort (· ≤ ·)
  else .ok []

/-- The volumes from the first one on are sound, and not all of the ids have a volume. -/
structure SoundVolumes (w : World) (first last : Nat) : Prop where
  sound : ∀ entry id content, Visited d w first last entry id → volume d w id = some content →
    entry.Sound d content
  stops : ∃ id < 2 ^ 64, last < id ∨ volume d w id = none

/-- There is a volume, and the volumes are sound. -/
def SoundLog (w : World) : Prop :=
  ∀ ids_list, listedIds d w = .ok ids_list → ∃ first last, ids_list.head? = some first ∧
    ids_list.getLast? = some last ∧ SoundVolumes d w first last

end Dumper

end Cgatepp

import ItexDemo.Cgatepp.Recording

/-!
# Proofs: the bytes of a volume

A volume holds the position in its first eight bytes and then the records, each with its size in
front. What is behind the position is not read; a record is stored there before the position covers
it.
-/

namespace Cgatepp

namespace Dumper

variable {d : Config}

variable (d) in
/-- A record with its size in front. -/
def frame (record : Record) : List UInt8 :=
  Bytes.encode 2 (recordSize d record) ++ d.proto.serialize record

variable (d) in
/-- The records of a volume, one behind the other. -/
def frames (records : List Record) : List UInt8 := records.flatMap (frame d)

@[simp] theorem frames_nil : frames d [] = [] := rfl

@[simp] theorem frames_append (xs ys : List Record) :
    frames d (xs ++ ys) = frames d xs ++ frames d ys := by
  simp [frames]

@[simp] theorem frames_singleton (record : Record) : frames d [record] = frame d record := by
  simp [frames]

theorem recordSize_of_short {record : Record} (h : (d.proto.serialize record).length < 2 ^ 16) :
    recordSize d record = (d.proto.serialize record).length :=
  Nat.mod_eq_of_lt h

theorem recordSize_lt (record : Record) : recordSize d record < 2 ^ 16 :=
  Nat.mod_lt _ (by decide)

theorem length_frame {record : Record} (h : (d.proto.serialize record).length < 2 ^ 16) :
    (frame d record).length = 2 + recordSize d record := by
  rw [frame, List.length_append, Bytes.length_encode, recordSize_of_short h]

/-- What a volume holds. A new one has no position yet. -/
structure Volume where
  initialised : Bool
  records : List Record

namespace Volume

variable (d) in
/-- The position in its header. -/
def position (v : Volume) : Nat := if v.initialised then 8 + (frames d v.records).length else 0

variable (d) in
/-- The bytes in front of what has not been written. -/
def front (v : Volume) : List UInt8 := Bytes.encode 8 (v.position d) ++ frames d v.records

theorem length_front (v : Volume) : (v.front d).length = 8 + (frames d v.records).length := by
  rw [front, List.length_append, Bytes.length_encode]

variable (d) in
/-- The file of the volume, with `behind` stored behind its records. -/
structure Layout (v : Volume) (behind content : List UInt8) : Prop where
  length : content.length = d.file_size_
  bytes : ∃ slack, content = v.front d ++ behind ++ slack
  short : ∀ record ∈ v.records, (d.proto.serialize record).length < 2 ^ 16
  empty : v.initialised = false → v.records = []

section Layout

variable {v : Volume} {behind content : List UInt8}

theorem Layout.weaken (h : v.Layout d behind content) : v.Layout d [] content where
  length := h.length
  bytes := by
    obtain ⟨slack, hslack⟩ := h.bytes
    exact ⟨behind ++ slack, by rw [hslack, List.append_nil, List.append_assoc]⟩
  short := h.short
  empty := h.empty

theorem Layout.length_le (h : v.Layout d behind content) :
    8 + (frames d v.records).length + behind.length ≤ d.file_size_ := by
  obtain ⟨slack, hslack⟩ := h.bytes
  have hlen := h.length
  rw [hslack, List.length_append, List.length_append, length_front] at hlen
  omega

theorem Layout.position_lt (h : v.Layout d behind content) (hsize : GoodSize d) :
    v.position d < 2 ^ 63 := by
  have hle := h.length_le
  have hlt := hsize.2
  unfold position
  split <;> omega

/-- The position is read back. -/
theorem Layout.header (h : v.Layout d behind content) (hsize : GoodSize d) :
    Bytes.slice content 0 8 = some (Bytes.encode 8 (v.position d)) ∧
      Bytes.decode (Bytes.encode 8 (v.position d)) = v.position d := by
  obtain ⟨slack, hslack⟩ := h.bytes
  constructor
  · have hslice := Bytes.slice_append [] (Bytes.encode 8 (v.position d))
      (frames d v.records ++ behind ++ slack)
    rw [Bytes.length_encode] at hslice
    rw [hslack, front]
    simpa using hslice
  · have hlt := h.position_lt hsize
    exact Bytes.decode_encode (by omega)

theorem Layout.headerPosition (h : v.Layout d behind content) (hsize : GoodSize d) :
    headerPosition content = v.position d := by
  obtain ⟨slack, hslack⟩ := h.bytes
  have htake : content.take 8 = Bytes.encode 8 (v.position d) := by
    rw [hslack, front, List.append_assoc, List.append_assoc]
    exact List.take_left' (Bytes.length_encode 8 _)
  rw [Dumper.headerPosition, htake, (h.header hsize).2]

/-- A store behind what is behind the records. -/
theorem Layout.store {offset : Nat} {new : List UInt8} (h : v.Layout d behind content)
    (hoffset : offset = 8 + (frames d v.records).length + behind.length)
    (hroom : offset + new.length ≤ content.length) :
    v.Layout d (behind ++ new) (Bytes.overwrite content offset new) := by
  obtain ⟨slack, hslack⟩ := h.bytes
  have hlen : (v.front d ++ behind).length = offset := by
    rw [List.length_append, length_front, hoffset]
  refine ⟨(Bytes.length_overwrite hroom).trans h.length, ⟨slack.drop new.length, ?_⟩, h.short, h.empty⟩
  rw [hslack, ← Nat.add_zero offset, ← hlen, Bytes.overwrite_behind]
  simp [Bytes.overwrite]

/-- The position covers what has been stored behind the records. -/
theorem Layout.setPos {record : Record} (h : v.Layout d (frame d record) content)
    (hshort : (d.proto.serialize record).length < 2 ^ 16) :
    Layout d { initialised := true, records := v.records ++ [record] } []
      (Bytes.overwrite content 0
        (Bytes.encode 8 (8 + (frames d v.records).length + 2 + recordSize d record))) := by
  obtain ⟨slack, hslack⟩ := h.bytes
  have hpos : Volume.position d { initialised := true, records := v.records ++ [record] } =
      8 + (frames d v.records).length + 2 + recordSize d record := by
    simp only [position, if_true, frames_append, frames_singleton, List.length_append,
      length_frame hshort]
    omega
  rw [← hpos]
  have hroom : 0 + (Bytes.encode 8 (Volume.position d
      { initialised := true, records := v.records ++ [record] })).length ≤ content.length := by
    have hle := h.length_le
    rw [Bytes.length_encode, h.length]
    omega
  refine ⟨(Bytes.length_overwrite hroom).trans h.length, ⟨slack, ?_⟩, ?_, nofun⟩
  · have hlen : (Bytes.encode 8 (Volume.position d
        { initialised := true, records := v.records ++ [record] })).length =
        (Bytes.encode 8 (v.position d)).length := by
      rw [Bytes.length_encode, Bytes.length_encode]
    rw [hslack, front, front, frames_append, frames_singleton, List.append_assoc, List.append_assoc,
      Bytes.overwrite_front _ hlen]
    simp
  · intro r hr
    rcases List.mem_append.mp hr with hr | hr
    · exact h.short r hr
    · rw [List.mem_singleton.mp hr]
      exact hshort

/-- A new volume gets its position. -/
theorem Layout.initialise (h : v.Layout d behind content) (hnew : v.initialised = false) :
    Layout d { initialised := true, records := [] } [] (Bytes.overwrite content 0 (Bytes.encode 8 8)) := by
  obtain ⟨slack, hslack⟩ := h.bytes
  have hrecords := h.empty hnew
  have hroom : 0 + (Bytes.encode 8 8).length ≤ content.length := by
    have hle := h.length_le
    rw [Bytes.length_encode, h.length]
    omega
  refine ⟨(Bytes.length_overwrite hroom).trans h.length, ⟨behind ++ slack, ?_⟩, nofun, nofun⟩
  have hlen : (Bytes.encode 8 8).length = (Bytes.encode 8 (v.position d)).length := by
    rw [Bytes.length_encode, Bytes.length_encode]
  rw [hslack, front, front, hrecords, List.append_assoc, List.append_assoc,
    Bytes.overwrite_front _ hlen]
  simp [position]

/-- A file of zeros is a new volume. -/
theorem layout_zeros (hsize : GoodSize d) :
    Layout d { initialised := false, records := [] } [] (List.replicate d.file_size_ 0) where
  length := List.length_replicate
  bytes := by
    obtain ⟨rest, hrest⟩ := Nat.exists_eq_add_of_le (Nat.le_of_succ_le (Nat.le_of_succ_le hsize.1))
    have hzero : Bytes.encode 8 0 = List.replicate 8 0 := by decide
    refine ⟨List.replicate rest 0, ?_⟩
    rw [hrest, List.replicate_add, ← hzero]
    simp [front, position]
  short := nofun
  empty := fun _ => rfl

/-- A record is read where it was written. -/
theorem Layout.read {before after : List Record} {record : Record} (h : v.Layout d behind content)
    (hrecords : v.records = before ++ record :: after) :
    Bytes.slice content (8 + (frames d before).length) 2 =
        some (Bytes.encode 2 (recordSize d record)) ∧
      Bytes.slice content (8 + (frames d before).length + 2) (recordSize d record) =
        some (d.proto.serialize record) := by
  obtain ⟨slack, hslack⟩ := h.bytes
  have hshort : (d.proto.serialize record).length < 2 ^ 16 :=
    h.short record (by rw [hrecords]; simp)
  have hcontent : content = Bytes.encode 8 (v.position d) ++ frames d before ++
      Bytes.encode 2 (recordSize d record) ++ d.proto.serialize record ++
        (frames d after ++ behind ++ slack) := by
    rw [hslack, front, hrecords]
    simp [frames, frame]
  constructor
  · have hslice := Bytes.slice_append (Bytes.encode 8 (v.position d) ++ frames d before)
      (Bytes.encode 2 (recordSize d record))
      (d.proto.serialize record ++ (frames d after ++ behind ++ slack))
    rw [List.length_append, Bytes.length_encode, Bytes.length_encode] at hslice
    rw [hcontent, ← hslice]
    simp
  · have hslice := Bytes.slice_append
      (Bytes.encode 8 (v.position d) ++ frames d before ++ Bytes.encode 2 (recordSize d record))
      (d.proto.serialize record) (frames d after ++ behind ++ slack)
    rw [List.length_append, List.length_append, Bytes.length_encode, Bytes.length_encode,
      ← recordSize_of_short hshort] at hslice
    rw [hcontent]
    exact hslice

theorem decode_recordSize (record : Record) :
    Bytes.decode (Bytes.encode 2 (recordSize d record)) = recordSize d record :=
  Bytes.decode_encode (recordSize_lt record)

end Layout

end Volume

end Dumper

end Cgatepp

import ItexDemo.Cgatepp.Replaying

/-!
# The volumes as logs that are only appended to

What is recorded stays as it is, and no file that exists is created again. Both can go wrong: the
constructor creates the first volume when no volume is listed, and `write_next` the next one when the
mapped volume is full, without looking whether there is such a file.
-/

namespace Cgatepp

namespace Dumper

variable (d : Config)

/-- Every file is still there with its size and the bytes between its header and its position. -/
def Keeps (w w' : World) : Prop :=
  ∀ path content, AssocMap.find w.files path = some content →
    ∃ content', AssocMap.find w'.files path = some content' ∧ content'.length = content.length ∧
      ∀ i, 8 ≤ i → i < headerPosition content → content'[i]? = content[i]?

/-- A step appends only: it keeps what is recorded, and creates no file that exists. -/
structure AppendsOnly (s : State) (act : Act) : Prop where
  keeps : ∀ s', next d s act = some s' → Keeps s.world s'.world
  creates : ∀ choice function path size k, act = .step choice →
    s.process = .running function (.call (.open path size) k) → 0 < size →
    AssocMap.find s.world.files path = none

/-- The position behind the header of a volume, far from the largest number. -/
def GoodPosition (content : List UInt8) : Prop :=
  8 ≤ headerPosition content ∧ headerPosition content < 2 ^ 63

/-- Every volume has a position. A path without volumes is the usual start. -/
def Positioned (w : World) : Prop :=
  ∀ id content, AssocMap.find w.files (composeFilePath d id) = some content → GoodPosition content

/-- The record has room in the mapped volume, or there is no next one. -/
def Appendable (w : World) (record : Record) : Prop :=
  Room d w record ∨ ¬HasVolume d w ((w.current_id_ + 1) % 2 ^ 64)

instance (w : World) (record : Record) : Decidable (Appendable d w record) :=
  inferInstanceAs (Decidable (_ ∨ _))

/-- `get_file_ids_list` takes a file for a volume if the first volume exists. -/
def FindsFirst (w : World) : Prop := HasVolume d w 0 → HasDirectory d w ∧ taken d w ≠ []

instance (w : World) : Decidable (FindsFirst d w) := inferInstanceAs (Decidable (_ → _))

/-- The steps that append only. The process is not ended by anything else than the program. -/
def Careful (s : State) : Act → Prop
  | .construct => FindsFirst d s.world
  | .step choice => ∀ function ∈ s.timing, ∀ record ∈ function.record choice.time,
    Appendable d s.world record
  | .crash => False
  | _ => True

instance (s : State) : (act : Act) → Decidable (Careful d s act)
  | .construct => inferInstanceAs (Decidable (FindsFirst d s.world))
  | .callback _ => .isTrue trivial
  | .replay _ => .isTrue trivial
  | .destruct => .isTrue trivial
  | .step choice => inferInstanceAs (Decidable (∀ function ∈ s.timing,
    ∀ record ∈ function.record choice.time, Appendable d s.world record))
  | .crash => .isFalse id

end Dumper

end Cgatepp

import ItexDemo.Cgatepp.Recording

/-!
# Proofs: what a replay keeps

A property that the reading operations, the openings and the calls of the handler keep is kept by the
whole loop of a replay.
-/

namespace Cgatepp

namespace Dumper

open Script

variable {d : Config}

/-- The operations with which a `Dumper` reads. -/
def Op.Reads : Op → Prop
  | .isDirectory _ => True
  | .directoryIterator _ => True
  | .load _ _ => True
  | .parse _ => True
  | .currentId => True
  | .undefined => True
  | .outOfFuel => True
  | _ => False

variable (d) in
/-- `P` is kept by the steps of a replay, which throw only with `E`. -/
structure Reading {σ : Type} (M : Semantics Op Ans σ) (P : σ → Prop) (E : Exception → σ → Prop) :
    Prop where
  read : ∀ op, op.Reads → Meets M P (Script.ask op : Code (Ans op)) (fun _ => P) E
  conversion : ∀ failure s, P s → E (.conversion failure) s
  next : ∀ id, Meets M P (openFileAndGetPos d id 0) (fun _ => P) E
  call : ∀ call, Meets M P (callHandler call) (fun _ => P) E

section Reading

variable {σ : Type} {M : Semantics Op Ans σ} {P : σ → Prop} {E : Exception → σ → Prop}

theorem meets_getFileIdsList
    (hdirectory : ∀ path, Meets M P (Script.ask (Op.isDirectory path) : Code Bool) (fun _ => P) E)
    (hfiles : ∀ path,
      Meets M P (Script.ask (Op.directoryIterator path) : Code (List Text)) (fun _ => P) E)
    (hconversion : ∀ failure s, P s → E (.conversion failure) s) :
    Meets M P (getFileIdsList d) (fun _ => P) E := by
  refine (hdirectory _).bind fun directory => ?_
  cases directory with
  | false => exact .return fun _ hs => hs
  | true =>
    refine (hfiles _).bind fun files => ?_
    cases hids : readIds d files with
    | ok ids_list =>
      exact .return fun _ hs => hs
    | error failure =>
      exact .raise fun s hs => hconversion failure s hs

theorem Reading.undefined {α : Type} {Q : α → σ → Prop} (h : Reading d M P E) :
    Meets M P Dumper.undefined Q E := by
  have hask : Meets M P (Script.ask Op.undefined : Code Empty) (fun _ => P) E := h.read _ trivial
  exact hask.bind fun impossible => nomatch impossible

theorem Reading.getFileIdsList (h : Reading d M P E) :
    Meets M P (Dumper.getFileIdsList d) (fun _ => P) E :=
  meets_getFileIdsList (fun path => h.read (.isDirectory path) trivial)
    (fun path => h.read (.directoryIterator path) trivial) h.conversion

theorem Reading.nextVolume (h : Reading d M P E) :
    Meets M P (Dumper.nextVolume d) (fun _ => P) E := by
  have hcurrent : Meets M P (Script.ask Op.currentId : Code Nat) (fun _ => P) E := h.read _ trivial
  refine h.getFileIdsList.bind fun ids_list => ?_
  cases hlast : ids_list.getLast? with
  | none => exact h.undefined
  | some last_available_id =>
    refine hcurrent.bind fun id => .ite (fun _ => .return fun _ hs => hs) fun _ => ?_
    exact (h.next _).bind fun pos => .return fun _ hs => hs

theorem Reading.getPos (h : Reading d M P E) : Meets M P Dumper.getPos (fun _ => P) E := by
  have hload : Meets M P (Script.ask (Op.load 0 8) : Code (List UInt8)) (fun _ => P) E :=
    h.read _ trivial
  exact hload.bind fun _ => .return fun _ hs => hs

theorem Reading.loadSize (h : Reading d M P E) (pos : Nat) :
    Meets M P (Dumper.loadSize pos) (fun _ => P) E := by
  have hload : Meets M P (Script.ask (Op.load pos 2) : Code (List UInt8)) (fun _ => P) E :=
    h.read _ trivial
  exact hload.bind fun _ => .return fun _ hs => hs

theorem Reading.readRecord (h : Reading d M P E) (pos record_size : Nat) :
    Meets M P (Dumper.readRecord pos record_size) (fun _ => P) E := by
  have hload : Meets M P (Script.ask (Op.load pos record_size) : Code (List UInt8)) (fun _ => P) E :=
    h.read _ trivial
  have hparse : ∀ bytes, Meets M P (Script.ask (Op.parse bytes) : Code Record) (fun _ => P) E :=
    fun bytes => h.read _ trivial
  exact hload.bind fun bytes => (hparse bytes).bind fun record => .return fun _ hs => hs

theorem Reading.readFrom (h : Reading d M P E) (pos : Nat) :
    Meets M P (Dumper.readFrom d pos) (fun _ => P) E := by
  refine (h.loadSize pos).bind fun record_size => h.getPos.bind fun available => ?_
  refine .ite (fun _ => h.nextVolume.bind fun next => ?_) fun _ => h.readRecord _ _
  cases next with
  | none => exact .return fun _ hs => hs
  | some pos => exact (h.loadSize pos).bind fun record_size => h.readRecord _ _

theorem Reading.readNext (h : Reading d M P E) (pos : Nat) :
    Meets M P (Dumper.readNext d pos) (fun _ => P) E := by
  refine h.getPos.bind fun available => .ite (fun _ => ?_) fun _ => h.readFrom pos
  refine h.nextVolume.bind fun next => ?_
  cases next with
  | none => exact .return fun _ hs => hs
  | some pos => exact h.readFrom pos

/-- The loop keeps what its steps keep. -/
theorem Reading.replayLoop (h : Reading d M P E) (fuel pos : Nat) :
    Meets M P (Dumper.replayLoop d fuel pos) (fun _ => P) E := by
  induction fuel generalizing pos with
  | zero =>
    have hask : Meets M P (Script.ask Op.outOfFuel : Code Empty) (fun _ => P) E := h.read _ trivial
    exact hask.bind fun impossible => nomatch impossible
  | succ fuel ih =>
    refine (h.readNext pos).bind fun next => ?_
    rcases next with _ | ⟨record, pos⟩
    · exact .return fun _ hs => hs
    · cases hdispatch : dispatch record with
      | none =>
        simp only [hdispatch]
        exact ih pos
      | some call =>
        simp only [hdispatch]
        exact (h.call call).bind fun _ => ih pos

end Reading

end Dumper

end Cgatepp

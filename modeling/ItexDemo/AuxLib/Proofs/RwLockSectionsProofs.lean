import ItexDemo.AuxLib.Proofs.RwLockProofs
import ItexDemo.Lib.Sections

/-!
# `aux::rw_lock` as the lock of sections
-/

namespace RwLock

open Transition Sections

/-! ## The functions of a section -/

/-- The function that a call of a section stands for. -/
def opOf : LockCall → Option Op
  | .acquire .read => some .readerLock
  | .acquire .write => some .writerLock
  | .tryAcquire .read => some .readerTryLock
  | .release .read => some .readerUnlock
  | .release .write => some .writerUnlock
  | _ => none

/-- A thread at this point is in this function. -/
def In (pc : Pc) : LockCall → Prop
  | .acquire .read => pc = .readerLockLoad ∨ ∃ val, pc = .readerLockCas val
  | .acquire .write => pc = .writerLockCas
  | .tryAcquire .read => pc = .readerTryLockLoad ∨ ∃ val i, pc = .readerTryLockCas val i
  | .release .read => pc = .readerUnlockSub
  | .release .write => pc = .writerUnlockStore
  | _ => False

/-- The holds of a thread of this kind. -/
def Thread.holds (th : Thread) : Mode → Nat
  | .read => th.readHolds
  | .write => th.writeHolds

/-- Whether the function of a thread has returned with an access, and whether the holds of the thread
are others then. -/
def outcome (th th' : Thread) : Option Bool :=
  if th'.pc = .idle then
    some (decide (th'.readHolds ≠ th.readHolds ∨ th'.writeHolds ≠ th.writeHolds))
  else none

section Calls

variable {T : Type*} [DecidableEq T]

/-- The call that a section makes. -/
def sectionCall (c : Config T) (t : T) (k : LockCall) : Option (Config T) :=
  (opOf k).bind fun op => next c (.call t op)

/-- The next access of thread `t`. -/
def sectionStep (c : Config T) (t : T) : Option (Config T × Option Bool) :=
  (next c (.step t)).map fun c' => (c', outcome (c.threads t) (c'.threads t))

/-! ## What calls and accesses do -/

theorem call_in {th th' : Thread} {k : LockCall} {op : Op} (hop : opOf k = some op)
    (h : call th op = some th') : In th'.pc k := by
  obtain ⟨pc, rh, wh⟩ := th
  cases k with
  | acquire m =>
    cases m <;> cases hop <;> cases pc <;> cases h
    · exact .inl rfl
    · rfl
  | tryAcquire m =>
    cases m <;> cases hop
    cases pc <;> cases h
    exact .inl rfl
  | release m =>
    have hidle : pc = .idle := by
      cases pc <;> first | rfl | (cases m <;> cases hop <;> cases h)
    subst hidle
    cases m <;> cases hop
    · simp only [call] at h
      split_ifs at h
      cases h
      rfl
    · simp only [call] at h
      split_ifs at h
      cases h
      rfl
  | probe => cases hop

theorem set_threads_of_ne {c : Config T} {t u : T} {w : Int} {th : Thread} (hu : u ≠ t) :
    (c.set t w th).threads u = c.threads u := Function.update_of_ne hu ..

theorem sectionCall_some {c c' : Config T} {t : T} {k : LockCall} (h : sectionCall c t k = some c') :
    ∃ op th, opOf k = some op ∧ call (c.threads t) op = some th ∧ c' = c.set t c.lock_ th := by
  obtain ⟨op, hop, h⟩ := Option.bind_eq_some_iff.mp h
  obtain ⟨th, hth, rfl⟩ := Option.map_eq_some_iff.mp h
  exact ⟨op, th, hop, hth, rfl⟩

theorem sectionStep_some {c c' : Config T} {t : T} {b : Option Bool}
    (h : sectionStep c t = some (c', b)) :
    ∃ w th, atomicStep c.lock_ (c.threads t) = some (w, th) ∧ c' = c.set t w th ∧
      b = outcome (c.threads t) th := by
  obtain ⟨c'', hnext, heq⟩ := Option.map_eq_some_iff.mp h
  obtain ⟨⟨w, th⟩, hstep, rfl⟩ := Option.map_eq_some_iff.mp hnext
  obtain ⟨rfl, rfl⟩ := Prod.mk.inj heq
  exact ⟨w, th, hstep, rfl, by simp [Config.set]⟩

/-- A thread in a function is still in it after an access, or has returned. -/
theorem in_of_atomicStep {lock_ w : Int} {th th' : Thread} {k : LockCall} (hin : In th.pc k)
    (h : atomicStep lock_ th = some (w, th')) : In th'.pc k ∨ th'.pc = .idle := by
  obtain ⟨pc, rh, wh⟩ := th
  cases k with
  | acquire m =>
    cases m with
    | read =>
      rcases hin with hpc | ⟨val, hpc⟩ <;> simp only at hpc <;> subst hpc
      · cases h
        exact .inl (.inr ⟨_, rfl⟩)
      · simp only [atomicStep, compareExchangeStrong_eq] at h
        split_ifs at h <;> cases h
        · exact .inr rfl
        · exact .inl (.inr ⟨_, rfl⟩)
    | write =>
      simp only [In] at hin
      subst hin
      simp only [atomicStep, compareExchangeStrong_eq] at h
      split_ifs at h <;> cases h
      · exact .inr rfl
      · exact .inl rfl
  | tryAcquire m =>
    cases m with
    | read =>
      rcases hin with hpc | ⟨val, i, hpc⟩ <;> simp only at hpc <;> subst hpc
      · cases h
        exact .inl (.inr ⟨_, _, rfl⟩)
      · simp only [atomicStep, compareExchangeStrong_eq] at h
        by_cases hlock : lock_ = readerExpected val
        · rw [if_pos hlock] at h
          cases h
          exact .inr rfl
        · rw [if_neg hlock] at h
          cases h
          by_cases hlast : i + 1 < numAttempts
          · exact .inl (.inr ⟨val, i + 1, if_pos hlast⟩)
          · exact .inr (if_neg hlast)
    | write => exact hin.elim
  | release m =>
    cases m <;> simp only [In] at hin <;> subst hin <;> cases h <;> exact .inr rfl
  | probe => exact hin.elim

/-- A function that takes the lock and returns with other holds than before has taken it. -/
theorem holds_of_atomicStep {lock_ w : Int} {th th' : Thread} {m : Mode}
    (hin : In th.pc (.acquire m) ∨ In th.pc (.tryAcquire m))
    (h : atomicStep lock_ th = some (w, th'))
    (hchanged : th'.readHolds ≠ th.readHolds ∨ th'.writeHolds ≠ th.writeHolds) : 0 < th'.holds m := by
  obtain ⟨pc, rh, wh⟩ := th
  cases m with
  | read =>
    rcases hin with (hpc | ⟨val, hpc⟩) | (hpc | ⟨val, i, hpc⟩) <;> simp only at hpc <;> subst hpc
    · cases h
      simp at hchanged
    · simp only [atomicStep, compareExchangeStrong_eq] at h
      split_ifs at h <;> cases h
      · simp [Thread.holds]
      · simp at hchanged
    · cases h
      simp at hchanged
    · simp only [atomicStep, compareExchangeStrong_eq] at h
      by_cases hlock : lock_ = readerExpected val
      · rw [if_pos hlock] at h
        cases h
        simp [Thread.holds]
      · rw [if_neg hlock] at h
        cases h
        simp at hchanged
  | write =>
    rcases hin with hpc | hpc
    · simp only [In] at hpc
      subst hpc
      simp only [atomicStep, compareExchangeStrong_eq] at h
      split_ifs at h <;> cases h
      · simp [Thread.holds]
      · simp at hchanged
    · exact hpc.elim

/-- `reader_lock` and `writer_lock` return with other holds than before. -/
theorem changed_of_acquire {lock_ w : Int} {th th' : Thread} {m : Mode}
    (hin : In th.pc (.acquire m)) (h : atomicStep lock_ th = some (w, th')) (hidle : th'.pc = .idle) :
    th'.readHolds ≠ th.readHolds ∨ th'.writeHolds ≠ th.writeHolds := by
  obtain ⟨pc, rh, wh⟩ := th
  cases m with
  | read =>
    rcases hin with hpc | ⟨val, hpc⟩ <;> simp only at hpc <;> subst hpc
    · cases h
      cases hidle
    · simp only [atomicStep, compareExchangeStrong_eq] at h
      split_ifs at h <;> cases h
      · simp
      · cases hidle
  | write =>
    simp only [In] at hin
    subst hin
    simp only [atomicStep, compareExchangeStrong_eq] at h
    split_ifs at h <;> cases h
    · simp
    · cases hidle

end Calls

section SectionLock

variable {T : Type*} [DecidableEq T] [Fintype T]

/-- The write holds of two threads are counted apart. -/
theorem writeHolds_add_le (c : Config T) {t u : T} (hu : u ≠ t) :
    (c.threads t).writeHolds + (c.threads u).writeHolds ≤ c.writers := by
  have hset := writers_set c t c.lock_ Thread.new
  have hle := writeHolds_le (c.set t c.lock_ Thread.new) u
  rw [set_threads_of_ne hu] at hle
  simp only [Thread.new] at hset hle
  omega

theorem Inv.exclusive {c : Config T} (hI : Inv c) {t u : T} {m : Mode}
    (ht : 0 < (c.threads t).holds .write) (hu : 0 < (c.threads u).holds m) : u = t ∧ m = .write := by
  have hle := writeHolds_le c t
  have hword := hI.word
  simp only [Thread.holds] at ht
  cases m with
  | read =>
    have := readHolds_le c u
    simp only [Thread.holds] at hu
    omega
  | write =>
    refine ⟨?_, rfl⟩
    by_contra hne
    have := writeHolds_add_le c hne
    simp only [Thread.holds] at hu
    omega

/-- The lock as a lock of sections. -/
def sectionLock (T : Type*) [DecidableEq T] [Fintype T] : Lock T (Config T) where
  init := .new
  call := sectionCall
  step := sectionStep
  Holds c t m := 0 < (c.threads t).holds m
  Calling c t k := In (c.threads t).pc k
  Good := Inv
  good_init := inv_new
  good_call := by
    intro c t k c' hI h
    obtain ⟨op, -, h⟩ := Option.bind_eq_some_iff.mp h
    exact inv_next hI h
  good_step := by
    intro c t c' b hI h
    obtain ⟨c'', hnext, heq⟩ := Option.map_eq_some_iff.mp h
    obtain ⟨rfl, -⟩ := Prod.mk.inj heq
    exact inv_next hI hnext
  exclusive := fun hI ht hu => hI.exclusive ht hu
  call_self := by
    intro c t k c' h
    obtain ⟨op, th, hop, hth, rfl⟩ := sectionCall_some h
    simpa [Config.set] using call_in hop hth
  call_other := by
    intro c t k c' u h hu
    obtain ⟨op, th, -, -, rfl⟩ := sectionCall_some h
    simp [set_threads_of_ne hu]
  step_other := by
    intro c t c' b u h hu
    obtain ⟨w, th, -, rfl, -⟩ := sectionStep_some h
    simp [set_threads_of_ne hu]
  step_calling := by
    intro c t c' k hin h
    obtain ⟨w, th, hstep, rfl, hb⟩ := sectionStep_some h
    simp only [Config.set, Function.update_self]
    rcases in_of_atomicStep hin hstep with hin | hidle
    · exact hin
    · simp [outcome, hidle] at hb
  step_acquire := by
    intro c t c' b m hin h
    obtain ⟨w, th, hstep, rfl, hb⟩ := sectionStep_some h
    simp only [Config.set, Function.update_self]
    have hidle : th.pc = .idle := by
      by_contra hne
      simp [outcome, hne] at hb
    exact holds_of_atomicStep (.inl hin) hstep (changed_of_acquire hin hstep hidle)
  step_tryAcquire := by
    intro c t c' m hin h
    obtain ⟨w, th, hstep, rfl, hb⟩ := sectionStep_some h
    simp only [Config.set, Function.update_self]
    refine holds_of_atomicStep (.inr hin) hstep ?_
    unfold outcome at hb
    split_ifs at hb
    simpa using (Option.some.inj hb).symm

end SectionLock

end RwLock

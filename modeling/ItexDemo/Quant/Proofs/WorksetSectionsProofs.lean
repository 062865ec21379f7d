import ItexDemo.Quant.WorksetSections

/-!
# Proofs: the sections under `workset_lock_` are steps of the workset

What an operation under a read lock sees are the ring and the index of its own subscriber, and it
writes nothing but that index. A push shifts one index after the other; `shifted` is how far it is.
-/

namespace Workset

open Transition Sections

variable {Entry : Type*}

/-! ## Operations under a read lock -/

/-- What an operation under a read lock sees. -/
def View (op : ReadOp) (ws ws' : Workset Entry) : Prop :=
  ws.workset_ = ws'.workset_ ∧ ws.subscribers_ op.subscriber = ws'.subscribers_ op.subscriber

/-- An access that finds the subscriber in use. -/
theorem readAccess_some {op : ReadOp} {l : ReadLocal Entry} {ws : Workset Entry}
    {x : ReadLocal Entry ⊕ (Workset Entry × Result Entry)} (h : readAccess op l ws = some x) :
    ∃ i, ws.subscribers_ op.subscriber = some i := by
  obtain ⟨i, hi, -⟩ := Option.bind_eq_some_iff.mp h
  exact ⟨i, hi⟩

theorem readAccess_stable {op : ReadOp} {ws ws' : Workset Entry} {l l' : ReadLocal Entry}
    (hview : View op ws ws') (h : sections.ReadAccess op ws l l') : sections.ReadAccess op ws' l l' := by
  obtain ⟨hring, hindex⟩ := hview
  have hsize : ws.size = ws'.size := by rw [size, size, hring]
  have h : readAccess op l ws = some (.inl l') := h
  obtain ⟨i, hi⟩ := readAccess_some h
  show readAccess op l ws' = some (.inl l')
  rw [readAccess, ← hindex, hi, Option.bind_some]
  rw [readAccess, hi, Option.bind_some] at h
  cases op with
  | tryPop s =>
    cases l with
    | empty =>
      by_cases hempty : ws.workset_.empty = true
      · simp [hempty] at h
      · simpa [hempty, ← hring] using h
    | compare =>
      by_cases hlt : i < ws.size
      · simpa [hlt, ← hsize] using h
      · simp [hlt] at h
    | copy => simpa [← hring] using h
    | increment entry => simp at h
    | subtract => cases h
  | numAvailable s => cases l <;> simp at h

theorem readAccess_frame {op op' : ReadOp} {ws ws' : Workset Entry} {l : ReadLocal Entry}
    {r : Result Entry} (hapart : Apart op op') (h : readAccess op l ws = some (.inr (ws', r))) :
    View op' ws ws' := by
  obtain ⟨i, hi⟩ := readAccess_some h
  rw [readAccess, hi, Option.bind_some] at h
  cases op with
  | tryPop s =>
    cases l with
    | empty =>
      by_cases hempty : ws.workset_.empty = true
      · simp only [hempty, if_true, Option.some.injEq, Sum.inr.injEq, Prod.mk.injEq] at h
        rw [← h.1]
        exact ⟨rfl, rfl⟩
      · simp [hempty] at h
    | compare =>
      by_cases hlt : i < ws.size
      · simp [hlt] at h
      · simp only [hlt, if_false, Option.some.injEq, Sum.inr.injEq, Prod.mk.injEq] at h
        rw [← h.1]
        exact ⟨rfl, rfl⟩
    | copy =>
      obtain ⟨entry, -, heq⟩ := Option.map_eq_some_iff.mp h
      cases heq
    | increment entry =>
      simp only [Option.some.injEq, Sum.inr.injEq, Prod.mk.injEq] at h
      rw [← h.1]
      exact ⟨rfl, (Function.update_of_ne (Ne.symm hapart) ..).symm⟩
    | subtract => cases h
  | numAvailable s =>
    cases l with
    | subtract =>
      simp only [Option.some.injEq, Sum.inr.injEq, Prod.mk.injEq] at h
      rw [← h.1]
      exact ⟨rfl, rfl⟩
    | empty => cases h
    | compare => cases h
    | copy => cases h
    | increment entry => cases h

theorem sections_independent :
    (sections : Object ReadOp (WriteOp Entry) _ _ _ _).Independent View Apart where
  stable := readAccess_stable
  frame := readAccess_frame

/-- What a `try_pop` of a subscriber with index `i` knows before its next access. -/
def Popping (ws : Workset Entry) (i : UInt64) : ReadLocal Entry → Prop
  | .empty => True
  | .compare => ws.workset_.empty = false
  | .copy => ws.workset_.empty = false ∧ i < ws.size
  | .increment entry => ws.workset_.empty = false ∧ i < ws.size ∧
      ws.workset_.items[i.toNat]? = some entry
  | .subtract => False

theorem popping_access {s : Nat} {ws : Workset Entry} {i : UInt64} {l l' : ReadLocal Entry}
    (hi : ws.subscribers_ s = some i) (hl : Popping ws i l)
    (h : sections.ReadAccess (.tryPop s) ws l l') : Popping ws i l' := by
  have h : readAccess (.tryPop s) l ws = some (.inl l') := h
  rw [readAccess, show ws.subscribers_ (ReadOp.tryPop s).subscriber = some i from hi,
    Option.bind_some] at h
  cases l with
  | empty =>
    by_cases hempty : ws.workset_.empty = true
    · simp [hempty] at h
    · simp only [hempty, Bool.false_eq_true, if_false, Option.some.injEq, Sum.inl.injEq] at h
      subst h
      simpa [Popping] using hempty
  | compare =>
    by_cases hlt : i < ws.size
    · simp only [hlt, if_true, Option.some.injEq, Sum.inl.injEq] at h
      subst h
      exact ⟨hl, hlt⟩
    · simp [hlt] at h
  | copy =>
    obtain ⟨entry, hentry, heq⟩ := Option.map_eq_some_iff.mp h
    cases heq
    exact ⟨hl.1, hl.2, hentry⟩
  | increment entry => simp at h
  | subtract => cases h

theorem step_of_runs_tryPop {s : Nat} {ws ws' : Workset Entry} {r : Result Entry}
    (h : sections.Runs (.inl (.tryPop s)) ws ws' r) :
    step ws (.tryPop s true) = some (ws', r) := by
  have hinuse : ∃ i, ws.subscribers_ s = some i := by
    cases h with
    | read _ hlast => exact readAccess_some hlast
  obtain ⟨i, hi⟩ := hinuse
  obtain ⟨l, hl, hlast⟩ := h.before_last_read (P := Popping ws i) trivial
    fun _ _ => popping_access hi
  have hlast : readAccess (.tryPop s) l ws = some (.inr (ws', r)) := hlast
  rw [readAccess, show ws.subscribers_ (ReadOp.tryPop s).subscriber = some i from hi,
    Option.bind_some] at hlast
  rw [step, hi, Option.map_some]
  simp only [tryPop, Bool.not_true, Bool.false_eq_true, if_false]
  cases l with
  | empty =>
    by_cases hempty : ws.workset_.empty = true
    · simp only [hempty, if_true, Option.some.injEq, Sum.inr.injEq, Prod.mk.injEq] at hlast
      obtain ⟨rfl, rfl⟩ := hlast
      simp [hempty]
    · simp [hempty] at hlast
  | compare =>
    by_cases hlt : i < ws.size
    · simp [hlt] at hlast
    · simp only [hlt, if_false, Option.some.injEq, Sum.inr.injEq, Prod.mk.injEq] at hlast
      obtain ⟨rfl, rfl⟩ := hlast
      simp [hlt]
  | copy =>
    obtain ⟨entry, -, heq⟩ := Option.map_eq_some_iff.mp hlast
    cases heq
  | increment entry =>
    obtain ⟨hempty, hlt, hentry⟩ := hl
    simp only [Option.some.injEq, Sum.inr.injEq, Prod.mk.injEq] at hlast
    obtain ⟨rfl, rfl⟩ := hlast
    simp [hempty, hlt, hentry]
  | subtract => exact hl.elim

theorem step_of_runs_numAvailable {s : Nat} {ws ws' : Workset Entry} {r : Result Entry}
    (h : sections.Runs (.inl (.numAvailable s)) ws ws' r) :
    step ws (.numAvailable s) = some (ws', r) := by
  obtain ⟨l, rfl, hlast⟩ := h.before_last_read (P := fun l => l = .subtract) rfl
    fun l l' hl hll' => by
      subst hl
      obtain ⟨i, -, heq⟩ := Option.bind_eq_some_iff.mp
        (show readAccess (.numAvailable s) .subtract ws = some (.inl l') from hll')
      cases heq
  obtain ⟨i, hi, heq⟩ := Option.bind_eq_some_iff.mp
    (show readAccess (.numAvailable s) .subtract ws = some (.inr (ws', r)) from hlast)
  cases heq
  rw [step, show ws.subscribers_ s = some i from hi]
  rfl

/-! ## Operations under the write lock -/

/-- Handles that were not given out are not in use. -/
def Fresh (ws : Workset Entry) : Prop := ∀ h, ws.nextHandle ≤ h → ws.subscribers_ h = none

/-- The workset after the loop of a push has shifted the indices below `n`. -/
def shifted (ws : Workset Entry) (n : Nat) : Workset Entry :=
  { ws with subscribers_ := fun h => if h < n then (ws.subscribers_ h).map shiftIndex
      else ws.subscribers_ h }

theorem shifted_zero (ws : Workset Entry) : ws.shifted 0 = ws := by
  simp [shifted]

/-- One more turn of the loop. -/
theorem shifted_succ (ws : Workset Entry) (n : Nat) :
    { ws.shifted n with
      subscribers_ := Function.update (ws.shifted n).subscribers_ n
        (((ws.shifted n).subscribers_ n).map shiftIndex) } = ws.shifted (n + 1) := by
  simp only [shifted, mk.injEq, true_and, and_true]
  funext h
  by_cases hn : h = n
  · subst hn
    simp
  · rw [Function.update_of_ne hn]
    by_cases hlt : h < n
    · rw [if_pos hlt, if_pos (by omega)]
    · rw [if_neg hlt, if_neg (by omega)]

/-- Past the handles that were given out all indices are shifted. -/
theorem shifted_all {ws : Workset Entry} (hfresh : Fresh ws) {n : Nat} (hn : ws.nextHandle ≤ n) :
    (ws.shifted n).subscribers_ = fun h => (ws.subscribers_ h).map shiftIndex := by
  funext h
  simp only [shifted]
  by_cases hlt : h < n
  · rw [if_pos hlt]
  · rw [if_neg hlt, hfresh h (by omega)]
    rfl

/-- Where a push of publisher `p` on `ws` may be. -/
inductive Pushing (p : Nat) (ws : Workset Entry) : Workset Entry × WriteLocal → Prop where
  | full : Pushing p ws (ws, .full)
  | shift (n : Nat) (hp : ws.publishers_ p = true) (hfull : ws.workset_.full = true) :
      Pushing p ws (ws.shifted n, .shift n)
  | room (hp : ws.publishers_ p = true) (hroom : ws.workset_.full = false) :
      Pushing p ws (ws, .pushBack)
  | pushBack (n : Nat) (hp : ws.publishers_ p = true) (hfull : ws.workset_.full = true)
      (hn : ws.nextHandle ≤ n) : Pushing p ws (ws.shifted n, .pushBack)

theorem pushing_access {p : Nat} {entry : Entry} {ws : Workset Entry}
    {x y : Workset Entry × WriteLocal} (hx : Pushing p ws x)
    (h : sections.WriteAccess (.push p entry) x y) : Pushing p ws y := by
  have h : writeAccess (.push p entry) x.2 x.1 = some (y.1, .inl y.2) := h
  obtain ⟨ws', l'⟩ := y
  cases hx with
  | full =>
    rw [writeAccess] at h
    by_cases hp : ws.publishers_ p = true
    · rw [if_pos hp] at h
      simp only [Option.some.injEq, Prod.mk.injEq, Sum.inl.injEq] at h
      obtain ⟨rfl, rfl⟩ := h
      by_cases hfull : ws.workset_.full = true
      · rw [if_pos hfull]
        have hshift := Pushing.shift 0 hp hfull
        rwa [shifted_zero] at hshift
      · rw [if_neg hfull]
        exact .room hp (by simpa using hfull)
    · rw [if_neg hp] at h
      cases h
  | shift n hp hfull =>
    rw [writeAccess] at h
    by_cases hn : n < (ws.shifted n).nextHandle
    · rw [if_pos hn, shifted_succ] at h
      simp only [Option.some.injEq, Prod.mk.injEq, Sum.inl.injEq] at h
      obtain ⟨rfl, rfl⟩ := h
      exact .shift (n + 1) hp hfull
    · rw [if_neg hn] at h
      simp only [Option.some.injEq, Prod.mk.injEq, Sum.inl.injEq] at h
      obtain ⟨rfl, rfl⟩ := h
      exact .pushBack n hp hfull (Nat.le_of_not_lt hn)
  | room hp hroom => simp [writeAccess] at h
  | pushBack n hp hfull hn => simp [writeAccess] at h

theorem step_of_runs_push {p : Nat} {entry : Entry} {ws ws' : Workset Entry} {r : Result Entry}
    (hfresh : Fresh ws) (h : sections.Runs (.inr (.push p entry)) ws ws' r) :
    step ws (.push p entry) = some (ws', r) := by
  obtain ⟨x, hx, hlast⟩ := h.before_last_write (P := Pushing p ws) .full
    fun _ _ => pushing_access
  have hlast : writeAccess (.push p entry) x.2 x.1 = some (ws', .inr r) := hlast
  cases hx with
  | full =>
    rw [writeAccess] at hlast
    by_cases hp : ws.publishers_ p = true <;> simp [hp] at hlast
  | shift n hp hfull =>
    rw [writeAccess] at hlast
    by_cases hn : n < (ws.shifted n).nextHandle <;> simp [hn] at hlast
  | room hp hroom =>
    simp only [writeAccess, Option.some.injEq, Prod.mk.injEq, Sum.inr.injEq] at hlast
    obtain ⟨rfl, rfl⟩ := hlast
    simp [step, push, hp, hroom]
  | pushBack n hp hfull hn =>
    simp only [writeAccess, Option.some.injEq, Prod.mk.injEq, Sum.inr.injEq] at hlast
    obtain ⟨rfl, rfl⟩ := hlast
    simp only [step, push, hp, hfull, if_true, shifted_all hfresh hn]
    rfl

/-- The operations with a single access. -/
theorem step_of_runs_once {op : WriteOp Entry} {ws ws' : Workset Entry} {r : Result Entry}
    (hstart : op.start = .once) (h : sections.Runs (.inr op) ws ws' r) :
    writeAccess op .once ws = some (ws', .inr r) := by
  obtain ⟨x, rfl, hlast⟩ := h.before_last_write (P := fun x => x = (ws, .once))
    (Prod.ext rfl hstart) fun x y hx hxy => by
      subst hx
      have hxy : writeAccess op .once ws = some (y.1, .inl y.2) := hxy
      cases op <;> simp [writeAccess] at hxy
  exact hlast

theorem step_of_runs_write {op : WriteOp Entry} {ws ws' : Workset Entry} {r : Result Entry}
    (hfresh : Fresh ws) (h : sections.Runs (.inr op) ws ws' r) :
    step ws (opOf (.inr op)) = some (ws', r) := by
  cases op with
  | push p entry => exact step_of_runs_push hfresh h
  | getPublisher =>
    have hlast := step_of_runs_once rfl h
    cases hlast
    rfl
  | getSubscriber =>
    have hlast := step_of_runs_once rfl h
    cases hlast
    rfl
  | releasePublisher p =>
    have hlast := step_of_runs_once rfl h
    rw [writeAccess] at hlast
    by_cases hp : ws.publishers_ p = true
    · rw [if_pos hp] at hlast
      cases hlast
      exact if_pos hp
    · rw [if_neg hp] at hlast
      cases hlast
  | releaseSubscriber s =>
    obtain ⟨i, hi, heq⟩ := Option.map_eq_some_iff.mp (step_of_runs_once rfl h)
    cases heq
    rw [opOf, step, hi]
    rfl

/-! ## All operations -/

theorem fresh_new (capacity : UInt64) : Fresh (new capacity : Workset Entry) := fun _ _ => rfl

/-- A subscriber in use has a handle that was given out. -/
theorem Fresh.update {ws : Workset Entry} (hfresh : Fresh ws) {s k : Nat} {i : UInt64}
    {x : Option UInt64} (hi : ws.subscribers_ s = some i) (hk : ws.nextHandle ≤ k) :
    Function.update ws.subscribers_ s x k = none := by
  have hks : k ≠ s := by
    rintro rfl
    rw [hfresh k hk] at hi
    cases hi
  rw [Function.update_of_ne hks, hfresh k hk]

/-- Only a new subscriber gets a handle that was not in use. -/
theorem fresh_step {ws ws' : Workset Entry} {op : Op Entry} {r : Result Entry} (hfresh : Fresh ws)
    (h : step ws op = some (ws', r)) : Fresh ws' := by
  intro k hk
  cases op with
  | getPublisher =>
    cases h
    exact hfresh k (Nat.le_of_succ_le hk)
  | getSubscriber =>
    cases h
    have hlt : ws.nextHandle < k := hk
    exact (Function.update_of_ne (Nat.ne_of_gt hlt) ..).trans (hfresh k (Nat.le_of_lt hlt))
  | push p entry =>
    rw [step] at h
    by_cases hp : ws.publishers_ p = true
    · rw [if_pos hp] at h
      cases h
      have hnone := hfresh k hk
      by_cases hfull : ws.workset_.full = true <;> simp [push, hfull, hnone]
    · rw [if_neg hp] at h
      cases h
  | tryPop s locked =>
    obtain ⟨i, hi, heq⟩ := Option.map_eq_some_iff.mp h
    have heq : ((ws.tryPop s i locked).1, Result.popped (ws.tryPop s i locked).2) = (ws', r) := heq
    obtain rfl : (ws.tryPop s i locked).1 = ws' := congrArg Prod.fst heq
    rw [tryPop] at hk ⊢
    by_cases hlocked : (!locked) = true
    · rw [if_pos hlocked] at hk ⊢
      exact hfresh k hk
    · rw [if_neg hlocked] at hk ⊢
      by_cases hhit : (!ws.workset_.empty && decide (i < ws.size)) = true
      · rw [if_pos hhit] at hk ⊢
        exact hfresh.update hi hk
      · rw [if_neg hhit] at hk ⊢
        exact hfresh k hk
  | numAvailable s =>
    obtain ⟨i, hi, heq⟩ := Option.map_eq_some_iff.mp h
    cases heq
    exact hfresh k hk
  | clone s =>
    obtain ⟨i, hi, heq⟩ := Option.map_eq_some_iff.mp h
    cases heq
    have hlt : ws.nextHandle < k := hk
    refine (Function.update_of_ne (Nat.ne_of_gt hlt) ..).trans ?_
    exact (Function.update_of_ne (Nat.ne_of_gt hlt) ..).trans (hfresh k (Nat.le_of_lt hlt))
  | releasePublisher p =>
    rw [step] at h
    by_cases hp : ws.publishers_ p = true
    · rw [if_pos hp] at h
      cases h
      exact hfresh k hk
    · rw [if_neg hp] at h
      cases h
  | releaseSubscriber s =>
    obtain ⟨i, hi, heq⟩ := Option.map_eq_some_iff.mp h
    cases heq
    exact hfresh.update hi hk

theorem step_of_runs {op : ReadOp ⊕ WriteOp Entry} {ws ws' : Workset Entry} {r : Result Entry}
    (hfresh : Fresh ws) (h : sections.Runs op ws ws' r) :
    Fresh ws' ∧ step ws (opOf op) = some (ws', r) := by
  have hstep : step ws (opOf op) = some (ws', r) := by
    rcases op with (s | s) | op
    · exact step_of_runs_tryPop h
    · exact step_of_runs_numAvailable h
    · exact step_of_runs_write hfresh h
  exact ⟨fresh_step hfresh hstep, hstep⟩

/-- **The sections are steps.** Whatever the interleaving, the operations that were granted the lock
are a run of the workset with the results that their threads saw, and unless a thread is inside a
write operation the workset is the one at the end of that run. Only a `try_pop` is refused the lock,
and it pops nothing. -/
theorem operations_are_steps {T : Type*} [DecidableEq T] [Fintype T] {capacity : UInt64}
    {s : SectionState T Entry} (h : Reachable (threads T Entry capacity) s) :
    (∃ ws, Transition.runOut step (new capacity) (operations s.log) =
        some (ws, (granted s.log).map Sections.Entry.result) ∧
      ((∀ t op l, s.phases t ≠ .writing op l) → s.object = ws)) ∧
    ∀ e ∈ s.log, e.granted = false →
      (∃ subscriber, e.op = .inl (.tryPop subscriber)) ∧ e.result = .popped none := by
  obtain ⟨ws, hseq, hobject⟩ := sequential_of_reachable sections_independent h
  obtain ⟨-, hrun⟩ := hseq.runOut_granted (fresh_new capacity) step_of_runs
  refine ⟨⟨ws, hrun, hobject⟩, ?_⟩
  intro e he hno
  obtain ⟨op, hop, htries, hresult⟩ := hseq.refused he hno
  cases op with
  | tryPop subscriber => exact ⟨⟨subscriber, hop⟩, hresult⟩
  | numAvailable subscriber => cases htries

/-- A subscriber looks for an entry while a publisher waits for the lock to push one. -/
def popBeforePush : List (Act Bool ReadOp (WriteOp Nat)) :=
  [.begin true (.inr .getSubscriber), .lock true, .access true, .release true, .lock true,
    .begin true (.inr .getPublisher), .lock true, .access true, .release true, .lock true,
    .begin false (.inl (.tryPop 0)), .lock false, .lock false,
    .begin true (.inr (.push 1 7)), .lock true, .access false, .release false, .lock false,
    .lock true, .access true, .access true, .release true, .lock true]

theorem operations_are_steps_contended :
    ∃ s : SectionState Bool Nat,
      run (Sections.step (RwLock.sectionLock Bool) sections)
        (.init (RwLock.sectionLock Bool) (new 1)) popBeforePush = some s ∧
      (∃ ws, Transition.runOut step (new 1) (operations s.log) =
          some (ws, (granted s.log).map Sections.Entry.result) ∧
        ((∀ t op l, s.phases t ≠ .writing op l) → s.object = ws)) ∧
      ∀ e ∈ s.log, e.granted = false →
        (∃ subscriber, e.op = .inl (.tryPop subscriber)) ∧ e.result = .popped none := by
  have hreach {s : SectionState Bool Nat} (hrun : run (Sections.step (RwLock.sectionLock Bool) sections)
      (.init (RwLock.sectionLock Bool) (new 1)) popBeforePush = some s) :
      Reachable (threads Bool Nat 1) s := by
    refine reachable_restrict_run popBeforePush (.init rfl) ?_ hrun
    refine ⟨trivial, trivial, trivial, trivial, trivial, trivial, trivial, trivial, trivial, trivial,
      ?_, trivial, trivial, trivial, trivial, trivial, trivial, trivial, trivial, trivial, trivial,
      trivial, trivial, trivial⟩
    -- the other thread has just got its publisher
    intro u op' hu hactive
    have hout : Phase.Active (.out : Phase ReadOp (WriteOp Nat) (ReadLocal Nat) WriteLocal) op' := by
      cases u with
      | false => exact absurd rfl hu
      | true => exact hactive
    rcases hout with hout | ⟨l, hout⟩ <;> cases hout
  exact ⟨_, rfl, operations_are_steps (hreach rfl)⟩

end Workset

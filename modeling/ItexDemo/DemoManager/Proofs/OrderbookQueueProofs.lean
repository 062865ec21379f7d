import ItexDemo.DemoManager.OrderbookQueue

/-!
# Proofs: the queue of `OrderbookQueueWriter` loses nothing

A section that is not interrupted is a `push` or a `pop` of a queue; the sections make this so for
threads that interleave, and the entries that were taken and the queue make up what was pushed.
-/

namespace DemoManager.OrderbookQueue

open Transition Sections

variable {D T : Type*}

/-! ## One section -/

theorem access_push {entry : QueueEntry D} {l : Local D} {queue_ : List (QueueEntry D)}
    {x : List (QueueEntry D) × (Local D ⊕ Result D)} (h : access (.push entry) l queue_ = some x) :
    l = .push ∧ x = (queue_ ++ [entry], .inr .pushed) := by
  cases l <;> cases h
  exact ⟨rfl, rfl⟩

theorem runs_push {entry : QueueEntry D} {queue₁ queue₂ : List (QueueEntry D)} {r : Result D}
    (h : queue.Runs (.inr (.push entry)) queue₁ queue₂ r) :
    queue₂ = queue₁ ++ [entry] ∧ r = .pushed := by
  obtain ⟨⟨q, l⟩, rfl, hlast⟩ := h.before_last_write (P := fun x => x.1 = queue₁) rfl
    fun x y _ hxy => by
      obtain ⟨-, heq⟩ := access_push (show access (.push entry) x.2 x.1 = some (y.1, .inl y.2) from hxy)
      simp at heq
  obtain ⟨-, heq⟩ := access_push (show access (.push entry) l q = some (queue₂, .inr r) from hlast)
  cases heq
  exact ⟨rfl, rfl⟩

/-- What a `take` knows before its next access: the queue is the one it began with. -/
def Taking (queue_ : List (QueueEntry D)) (x : List (QueueEntry D) × Local D) : Prop :=
  x.1 = queue_ ∧ (x.2 = .empty ∨ x.2 = .front ∧ queue_ ≠ [] ∨ ∃ entry, x.2 = .pop entry ∧
    queue_.head? = some entry)

theorem taking_access {queue_ : List (QueueEntry D)} {x y : List (QueueEntry D) × Local D}
    (hx : Taking queue_ x) (h : queue.WriteAccess .take x y) : Taking queue_ y := by
  obtain ⟨q, l⟩ := x
  obtain ⟨rfl, hl⟩ := hx
  have h : access .take l q = some (y.1, .inl y.2) := h
  rcases hl with rfl | ⟨rfl, -⟩ | ⟨entry, rfl, -⟩
  · by_cases hq : q.isEmpty = true
    · simp [access, hq] at h
    · simp only [access, hq, Bool.false_eq_true, if_false, Option.some.injEq, Prod.mk.injEq,
        Sum.inl.injEq] at h
      exact ⟨h.1.symm, .inr (.inl ⟨h.2.symm, by simpa using hq⟩)⟩
  · obtain ⟨entry, hentry, heq⟩ := Option.map_eq_some_iff.mp h
    simp only [Prod.mk.injEq, Sum.inl.injEq] at heq
    exact ⟨heq.1.symm, .inr (.inr ⟨entry, heq.2.symm, hentry⟩)⟩
  · by_cases hq : q.isEmpty = true
    · simp [access, hq] at h
    · simp [access, hq] at h

theorem runs_take {queue₁ queue₂ : List (QueueEntry D)} {r : Result D}
    (h : queue.Runs (.inr .take) queue₁ queue₂ r) :
    queue₂ = queue₁.tail ∧ r = .taken queue₁.head? := by
  obtain ⟨⟨q, l⟩, ⟨rfl, hl⟩, hlast⟩ := h.before_last_write (P := Taking queue₁) ⟨rfl, .inl rfl⟩
    fun _ _ => taking_access
  have hlast : access .take l q = some (queue₂, .inr r) := hlast
  rcases hl with rfl | ⟨rfl, -⟩ | ⟨entry, rfl, hentry⟩
  · by_cases hq : q.isEmpty = true
    · rw [List.isEmpty_iff] at hq
      subst hq
      cases hlast
      exact ⟨rfl, rfl⟩
    · simp [access, hq] at hlast
  · obtain ⟨entry, -, heq⟩ := Option.map_eq_some_iff.mp hlast
    cases heq
  · rw [access] at hlast
    split_ifs at hlast
    cases hlast
    exact ⟨rfl, by rw [hentry]⟩

/-! ## All sections -/

theorem pushed_concat (log : Log T D) (t : T) (entry : QueueEntry D) (b : Bool) (r : Result D) :
    Log.pushed (log ++ [⟨t, .inr (.push entry), b, r⟩]) = Log.pushed log ++ [entry] := by
  simp [Log.pushed]

theorem pushed_concat_take (log : Log T D) (t : T) (b : Bool) (r : Result D) :
    Log.pushed (log ++ [⟨t, .inr .take, b, r⟩]) = Log.pushed log := by
  simp [Log.pushed]

theorem taken_concat (log : Log T D) (t : T) (op : Empty ⊕ Op D) (b : Bool)
    (entry : Option (QueueEntry D)) :
    Log.taken (log ++ [⟨t, op, b, .taken entry⟩]) = Log.taken log ++ entry.toList := by
  cases entry <;> simp [Log.taken]

theorem taken_concat_pushed (log : Log T D) (t : T) (op : Empty ⊕ Op D) (b : Bool) :
    Log.taken (log ++ [⟨t, op, b, .pushed⟩]) = Log.taken log := by
  simp [Log.taken]

/-- A section of the log that took nothing found everything taken that was pushed before it. -/
def EmptyOnlyAtEnd (log : Log T D) : Prop :=
  ∀ before e after, log = before ++ e :: after → e.op = .inr .take →
    (e.result = .taken none ↔ Log.taken before = Log.pushed before)

theorem EmptyOnlyAtEnd.concat {log : Log T D} (hlog : EmptyOnlyAtEnd log)
    {e : Entry T Empty (Op D) (Result D)}
    (he : e.op = .inr .take → (e.result = .taken none ↔ Log.taken log = Log.pushed log)) :
    EmptyOnlyAtEnd (log ++ [e]) := by
  intro before e' after heq hop
  rcases List.eq_nil_or_concat after with rfl | ⟨after, e'', rfl⟩
  · obtain ⟨hlog', heq⟩ := List.append_inj' heq rfl
    obtain rfl := List.singleton_inj.mp heq
    rw [← hlog']
    exact he hop
  · rw [List.concat_eq_append, ← List.cons_append, ← List.append_assoc] at heq
    obtain ⟨hlog', -⟩ := List.append_inj' heq rfl
    exact hlog before e' after hlog' hop

theorem sequential_fifo {log : Log T D} {queue_ : List (QueueEntry D)}
    (h : Sequential queue [] log queue_) :
    Log.taken log ++ queue_ = Log.pushed log ∧ EmptyOnlyAtEnd log := by
  induction h with
  | nil => exact ⟨rfl, fun before e after heq => by simp at heq⟩
  | @snoc log e q q' _ he ih =>
    obtain ⟨hfifo, hempty⟩ := ih
    cases he with
    | @granted t op _ _ _ hruns =>
      rcases op with op | op
      · exact isEmptyElim op
      · cases op with
        | push entry =>
          obtain ⟨rfl, rfl⟩ := runs_push hruns
          refine ⟨?_, hempty.concat (by simp)⟩
          rw [taken_concat_pushed, pushed_concat, ← hfifo, List.append_assoc]
        | take =>
          obtain ⟨rfl, rfl⟩ := runs_take hruns
          have hnone : q.head? = none ↔ Log.taken log = Log.pushed log := by
            rw [List.head?_eq_none_iff, ← hfifo, List.self_eq_append_right]
          refine ⟨?_, hempty.concat fun _ => by simpa using hnone⟩
          rw [taken_concat, pushed_concat_take, ← hfifo, List.append_assoc]
          cases q <;> rfl
    | @refused _ op => exact isEmptyElim op

/-- **Nothing is lost.** Whatever order any number of threads push and take in and make their
accesses, the entries that were taken, in their order, and the queue make up the entries that were
pushed, in theirs; and a round finds the queue empty exactly when all that was pushed before it has
been taken. -/
theorem taken_then_queue_eq_pushed [DecidableEq T] {s : State T (Spinlock.Config T) Empty (Op D) Empty
    (Local D) (List (QueueEntry D)) (Result D)} (h : Reachable (threads T D) s) :
    EmptyOnlyAtEnd s.log ∧ ∃ queue_, Log.taken s.log ++ queue_ = Log.pushed s.log ∧
      ((∀ t op l, s.phases t ≠ .writing op l) → s.object = queue_) := by
  obtain ⟨queue_, hseq, hobject⟩ := sequential_of_isEmpty h
  obtain ⟨hfifo, hempty⟩ := sequential_fifo hseq
  exact ⟨hempty, queue_, hfifo, hobject⟩

/-- An entry without levels. -/
def noLevels : QueueEntry Nat := { security_id := 7, timestamp := 1, prices := [], volumes := [], size_eq := rfl }

/-- A push is called while a round looks at the queue. -/
def pushDuringTake : List (Act Bool Empty (Op Nat)) :=
  [.begin true (.inr .take), .lock true, .begin false (.inr (.push noLevels)), .lock false,
    .access true, .release true, .lock true, .lock false, .access false, .release false,
    .begin true (.inr .take), .lock false, .lock true, .access true, .access true, .access true]

theorem taken_then_queue_eq_pushed_contended :
    ∃ s, run (step (Spinlock.sectionLock Bool) queue) (.init (Spinlock.sectionLock Bool) [])
        pushDuringTake = some s ∧ EmptyOnlyAtEnd s.log ∧
      ∃ queue_, Log.taken s.log ++ queue_ = Log.pushed s.log ∧
        ((∀ t op l, s.phases t ≠ .writing op l) → s.object = queue_) :=
  ⟨_, rfl, taken_then_queue_eq_pushed (reachable_of_run pushDuringTake rfl)⟩

end DemoManager.OrderbookQueue

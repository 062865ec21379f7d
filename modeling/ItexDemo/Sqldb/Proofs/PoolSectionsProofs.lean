import ItexDemo.Sqldb.PoolSections

/-!
# Proofs: the sections under `pool_lock_` are steps of the pool

`finish` is what is left of a section from an access on, without interruption. Every access keeps
it, and at the first access it is the step of `Database`.
-/

namespace Sqldb.Pool

open Transition Sections

variable {α : Type}

/-- A connection that was popped and counted. -/
def checked (bad : Nat → Bool) (connection : Nat) (d : Database α) : Option Nat × Database α :=
  let d := { d with heap := d.heap.use connection }
  if (d.heap.link connection).bad || bad connection then
    let d := { d with heap := d.heap.delete connection }
    d.popLoop bad d.pool_queue_
  else (some connection, d)

/-- The loop of `pool_shrink_timer_handler` and what follows it. -/
def shrunk (rounds : Nat) (d : Database α) : Option Nat × Database α :=
  (none, { d.shrinkLoop rounds with
    pool_stats_per_period_ := { cumulative_size := 0, counter := 0 } })

/-- What is left of a section. -/
def finish (op : Op) : Local → Database α → Option Nat × Database α
  | .loop, d => d.popLoop op.isBad d.pool_queue_
  | .front, d => d.popLoop op.isBad d.pool_queue_
  | .popFront _, d => d.popLoop op.isBad d.pool_queue_
  | .update connection, d => checked op.isBad connection { d with
      pool_stats_per_period_ := d.pool_stats_per_period_.update d.pool_queue_.length }
  | .status connection, d => checked op.isBad connection d
  | .delete connection, d =>
    let d := { d with heap := d.heap.delete connection }
    d.popLoop op.isBad d.pool_queue_
  | .pushBack connection, d => (none, d.returnConnection connection)
  | .updatePushed, d => (none, { d with
      pool_stats_per_period_ := d.pool_stats_per_period_.update d.pool_queue_.length })
  | .aborted aborted, d => (none, d.poolShrinkTimerHandler aborted)
  | .average _, d => (none, d.poolShrinkTimerHandler false)
  | .deleteFront rounds, d => shrunk (rounds + 1) d
  | .popDeleted rounds, d => shrunk rounds { d with pool_queue_ := d.pool_queue_.tail }
  | .restart, d => shrunk 0 d

/-- What the locals say about the pool. -/
def Fits : Local → Database α → Prop
  | .front, d => d.pool_queue_ ≠ []
  | .popFront connection, d => d.pool_queue_.head? = some connection
  | .average current_size, d => current_size = UInt64.ofNat d.pool_queue_.length
  | _, _ => True

/-- The loop of `async_get_connection` reads the queue from its argument. -/
theorem popLoop_queue (bad : Nat → Bool) (queue queue₁ queue₂ : List Nat) (d : Database α) :
    Database.popLoop bad queue { d with pool_queue_ := queue₁ } =
      Database.popLoop bad queue { d with pool_queue_ := queue₂ } := by
  induction queue generalizing d with
  | nil => rfl
  | cons connection queue ih =>
    simp only [Database.popLoop]
    split_ifs
    · exact ih { d with
        heap := (d.heap.use connection).delete connection
        pool_stats_per_period_ := d.pool_stats_per_period_.update queue.length }
    · rfl

theorem popLoop_cons {bad : Nat → Bool} {connection : Nat} {queue : List Nat} {d : Database α}
    (hd : d.pool_queue_ = connection :: queue) :
    d.popLoop bad d.pool_queue_ = checked bad connection { d with
      pool_queue_ := queue
      pool_stats_per_period_ := d.pool_stats_per_period_.update queue.length } := by
  rw [hd, Database.popLoop, checked]
  split_ifs
  · exact popLoop_queue bad queue d.pool_queue_ queue { d with
      heap := (d.heap.use connection).delete connection
      pool_stats_per_period_ := d.pool_stats_per_period_.update queue.length }
  · rfl

theorem shrunk_cons {connection rounds : Nat} {queue : List Nat} {d : Database α}
    (hd : d.pool_queue_ = connection :: queue) :
    shrunk (rounds + 1) d =
      shrunk rounds { d with heap := d.heap.delete connection, pool_queue_ := queue } := by
  rw [shrunk, Database.shrinkLoop, hd]
  rfl

theorem finish_shrinkNext (op : Op) (rounds : Nat) (d : Database α) :
    finish op (shrinkNext rounds) d = shrunk rounds d := by
  cases rounds <;> rfl

theorem fits_shrinkNext (rounds : Nat) (d : Database α) : Fits (shrinkNext rounds) d := by
  cases rounds <;> trivial

/-- An access that is not the last one keeps what is left. -/
theorem access_finish {op : Op} {l l' : Local} {d d' : Database α} (hl : Fits l d)
    (h : access op l d = some (d', .inl l')) : Fits l' d' ∧ finish op l' d' = finish op l d := by
  cases l with
  | loop =>
    simp only [access, Option.some.injEq, Prod.mk.injEq] at h
    obtain ⟨rfl, h⟩ := h
    by_cases hq : d.pool_queue_ = []
    · simp [hq] at h
    · rw [if_neg hq] at h
      cases h
      exact ⟨hq, rfl⟩
  | front =>
    obtain ⟨connection, hconnection, heq⟩ := Option.map_eq_some_iff.mp h
    cases heq
    exact ⟨hconnection, rfl⟩
  | popFront connection =>
    rw [access] at h
    split_ifs at h with hq
    cases h
    refine ⟨trivial, ?_⟩
    obtain ⟨queue, hqueue⟩ := List.head?_eq_some_iff.mp hl
    rw [finish, finish, popLoop_cons hqueue, hqueue]
    rfl
  | update connection =>
    cases h
    exact ⟨trivial, rfl⟩
  | status connection =>
    simp only [access] at h
    split_ifs at h with hbad
    · cases h
      refine ⟨trivial, ?_⟩
      simp only [finish, checked]
      rw [if_pos hbad]
    · simp at h
  | delete connection =>
    cases h
    exact ⟨trivial, rfl⟩
  | pushBack connection =>
    cases h
    exact ⟨trivial, rfl⟩
  | updatePushed => simp [access] at h
  | aborted aborted =>
    cases aborted with
    | true => simp [access] at h
    | false =>
      cases h
      exact ⟨rfl, rfl⟩
  | average current_size =>
    obtain rfl := hl
    cases h
    exact ⟨fits_shrinkNext .., finish_shrinkNext ..⟩
  | deleteFront rounds =>
    cases hq : d.pool_queue_ with
    | nil =>
      simp only [access, hq] at h
      cases h
      refine ⟨fits_shrinkNext .., ?_⟩
      rw [finish_shrinkNext, finish, shrunk, shrunk, Database.shrinkLoop, hq]
    | cons connection queue =>
      simp only [access, hq] at h
      cases h
      refine ⟨trivial, ?_⟩
      simp only [finish]
      rw [shrunk_cons hq, List.tail_cons]
  | popDeleted rounds =>
    cases h
    exact ⟨fits_shrinkNext .., finish_shrinkNext ..⟩
  | restart => simp [access] at h

/-- The last access does what is left. -/
theorem access_last {op : Op} {l : Local} {d d' : Database α} {r : Option Nat} (hl : Fits l d)
    (h : access op l d = some (d', .inr r)) : finish op l d = (r, d') := by
  cases l with
  | loop =>
    simp only [access, Option.some.injEq, Prod.mk.injEq] at h
    obtain ⟨rfl, h⟩ := h
    by_cases hq : d.pool_queue_ = []
    · rw [if_pos hq] at h
      cases h
      rw [finish, hq, Database.popLoop, ← hq]
    · simp [hq] at h
  | front =>
    obtain ⟨connection, hconnection, heq⟩ := Option.map_eq_some_iff.mp h
    cases heq
  | popFront connection =>
    rw [access] at h
    split_ifs at h
    simp at h
  | update connection => simp [access] at h
  | status connection =>
    simp only [access] at h
    split_ifs at h with hbad
    · simp at h
    · cases h
      simp only [finish, checked]
      rw [if_neg hbad]
  | delete connection => simp [access] at h
  | pushBack connection => simp [access] at h
  | updatePushed =>
    cases h
    rfl
  | aborted aborted =>
    cases aborted with
    | true =>
      cases h
      rfl
    | false => simp [access] at h
  | average current_size => simp [access] at h
  | deleteFront rounds =>
    simp only [access] at h
    split at h <;> simp at h
  | popDeleted rounds => simp [access] at h
  | restart =>
    cases h
    rfl

theorem finish_start (op : Op) (d : Database α) :
    step d op = some ((finish op op.start d).2, (finish op op.start d).1) := by
  cases op <;> rfl

/-- A section that is not interrupted is a step. -/
theorem step_of_runs {op : Op} {d d' : Database α} {r : Option Nat}
    (h : pool.Runs (.inr op) d d' r) : step d op = some (d', r) := by
  obtain ⟨⟨d₁, l⟩, ⟨hfits, hfinish⟩, hlast⟩ := h.before_last_write
    (P := fun x => Fits x.2 x.1 ∧ finish op x.2 x.1 = finish op op.start d)
    ⟨by cases op <;> trivial, rfl⟩ fun x y hx hxy => by
      obtain ⟨hfits, hfinish⟩ := access_finish hx.1 hxy
      exact ⟨hfits, hfinish.trans hx.2⟩
  have hlast : finish op l d₁ = (r, d') := access_last hfits hlast
  rw [finish_start, ← hfinish, hlast]

/-- The section of an entry. -/
def sectionOf {T : Type*} (e : Entry T Empty Op (Option Nat)) : Op := e.op.elim Empty.elim id

/-- **The pool is used atomically.** Whatever order any number of threads and the timer enter the
sections under `pool_lock_` in and make their accesses, the results and the pool are those of the
steps of `Database`, taken in the order of the log. -/
theorem sections_are_steps {T : Type*} [DecidableEq T] {d₀ : Database α}
    {s : State T (Spinlock.Config T) Empty Op Empty Local (Database α) (Option Nat)}
    (h : Reachable (threads T d₀) s) :
    ∃ d, runOut step d₀ (s.log.map sectionOf) = some (d, s.log.map Entry.result) ∧
      ((∀ t op l, s.phases t ≠ .writing op l) → s.object = d) := by
  obtain ⟨d, hseq, hobject⟩ := sequential_of_isEmpty h
  refine ⟨d, hseq.runOut ?_, hobject⟩
  intro e d₁ d₂ he
  cases he with
  | @granted _ op _ _ _ hruns =>
    rcases op with op | op
    · exact isEmptyElim op
    · exact step_of_runs hruns
  | @refused _ op => exact isEmptyElim op

/-- A connection is given back while another thread looks for one. -/
def putDuringGet : List (Act Bool Empty Op) :=
  [.begin true (.inr (.get fun _ => false)), .lock true, .begin false (.inr (.put 3)), .lock false,
    .access true, .release true, .lock true, .lock false, .access false, .access false,
    .release false, .begin true (.inr (.get fun _ => false)), .lock false, .lock true, .access true,
    .access true, .access true, .access true, .access true]

theorem sections_are_steps_contended :
    ∃ s, run (Sections.step (Spinlock.sectionLock Bool) pool)
        (.init (Spinlock.sectionLock Bool) (Database.new : Database Nat)) putDuringGet = some s ∧
      ∃ d, runOut step Database.new (s.log.map sectionOf) = some (d, s.log.map Entry.result) ∧
        ((∀ t op l, s.phases t ≠ .writing op l) → s.object = d) :=
  ⟨_, rfl, sections_are_steps (reachable_of_run putDuringGet rfl)⟩

end Sqldb.Pool

import Mathlib.Algebra.BigOperators.Group.Finset.Basic
import Mathlib.Algebra.Order.BigOperators.Group.Finset
import Mathlib.Data.Fintype.BigOperators
import ItexDemo.AuxLib.SpinlockTest

/-!
# Proofs: what the threads of `TEST(SpinlockTest, AuxTest)` leave

One uninterrupted iteration moves the last value to the front; the sections make this so for threads
that interleave.
-/

namespace SpinlockTest

open Transition Sections

/-! ## One iteration -/

/-- What an iteration knows before its next access. -/
def Iterating (queue : List UInt64) (x : List UInt64 × Local) : Prop :=
  (x.2 = .back ∧ x.1 = queue) ∨
  (∃ val, x.2 = .popBack val ∧ x.1 = queue ∧ queue.getLast? = some val) ∨
  ∃ val, x.2 = .pushFront val ∧ x.1 = queue.dropLast ∧ queue.getLast? = some val

theorem iterating_access {queue : List UInt64} {x y : List UInt64 × Local} (hx : Iterating queue x)
    (h : iteration.WriteAccess () x y) : Iterating queue y := by
  obtain ⟨q, l⟩ := x
  have h : access l q = some (y.1, .inl y.2) := h
  rcases hx with ⟨rfl, rfl⟩ | ⟨val, rfl, rfl, hval⟩ | ⟨val, rfl, rfl, hval⟩
  · obtain ⟨val, hval, heq⟩ := Option.map_eq_some_iff.mp h
    simp only [Prod.mk.injEq, Sum.inl.injEq] at heq
    exact .inr (.inl ⟨val, heq.2.symm, heq.1.symm, hval⟩)
  · rw [access] at h
    split_ifs at h
    simp only [Option.some.injEq, Prod.mk.injEq, Sum.inl.injEq] at h
    exact .inr (.inr ⟨val, h.2.symm, h.1.symm, hval⟩)
  · simp [access] at h

/-- An iteration that is not interrupted. -/
theorem runs_iteration {queue queue' : List UInt64} {r : Unit}
    (h : iteration.Runs (.inr ()) queue queue' r) :
    ∃ val, queue.getLast? = some val ∧ queue' = (val + 1) :: queue.dropLast := by
  obtain ⟨⟨q, l⟩, hx, hlast⟩ := h.before_last_write (P := Iterating queue) (.inl ⟨rfl, rfl⟩)
    fun _ _ => iterating_access
  have hlast : access l q = some (queue', .inr r) := hlast
  rcases hx with ⟨rfl, -⟩ | ⟨val, rfl, -, -⟩ | ⟨val, rfl, rfl, hval⟩
  · obtain ⟨val, -, heq⟩ := Option.map_eq_some_iff.mp hlast
    cases heq
  · rw [access] at hlast
    split_ifs at hlast
    cases hlast
  · cases hlast
    exact ⟨val, hval, rfl⟩

theorem rotated_zero (QUEUE_SIZE : Nat) : rotated QUEUE_SIZE 0 = List.replicate QUEUE_SIZE 0 := by
  simp [rotated]

/-- The last value of a rotated queue, and the queue after an iteration. -/
theorem rotated_succ {QUEUE_SIZE : Nat} (hQ : 0 < QUEUE_SIZE) (n : Nat) :
    (rotated QUEUE_SIZE n).getLast? = some (UInt64.ofNat (n / QUEUE_SIZE)) ∧
      (UInt64.ofNat (n / QUEUE_SIZE) + 1) :: (rotated QUEUE_SIZE n).dropLast =
        rotated QUEUE_SIZE (n + 1) := by
  have hlt := Nat.mod_lt n hQ
  have hdiv := Nat.div_add_mod n QUEUE_SIZE
  obtain ⟨k, hk⟩ : ∃ k, QUEUE_SIZE - n % QUEUE_SIZE = k + 1 := ⟨QUEUE_SIZE - n % QUEUE_SIZE - 1, by omega⟩
  have hone : UInt64.ofNat (n / QUEUE_SIZE) + 1 = UInt64.ofNat (n / QUEUE_SIZE + 1) := by
    rw [UInt64.ofNat_add]
    rfl
  have hsplit : rotated QUEUE_SIZE n =
      List.replicate (n % QUEUE_SIZE) (UInt64.ofNat (n / QUEUE_SIZE + 1)) ++
        (List.replicate k (UInt64.ofNat (n / QUEUE_SIZE)) ++ [UInt64.ofNat (n / QUEUE_SIZE)]) := by
    rw [rotated, hk, List.replicate_succ']
  refine ⟨by rw [hsplit]; simp, ?_⟩
  rw [hsplit, ← List.append_assoc, List.dropLast_concat, hone, ← List.cons_append,
    ← List.replicate_succ]
  by_cases hfull : n % QUEUE_SIZE + 1 = QUEUE_SIZE
  · -- the round is complete
    obtain ⟨hd, hm⟩ := (Nat.div_mod_unique (a := n + 1) (d := n / QUEUE_SIZE + 1) (c := 0) hQ).mpr
      ⟨by rw [Nat.mul_add, Nat.mul_one]; omega, hQ⟩
    obtain rfl : k = 0 := by omega
    rw [rotated, hd, hm, hfull]
    simp
  · obtain ⟨hd, hm⟩ := (Nat.div_mod_unique (a := n + 1) (d := n / QUEUE_SIZE)
      (c := n % QUEUE_SIZE + 1) hQ).mpr ⟨by omega, by omega⟩
    rw [rotated, hd, hm, show QUEUE_SIZE - (n % QUEUE_SIZE + 1) = k by omega]

theorem sequential_rotated {T : Type*} {QUEUE_SIZE : Nat} (hQ : 0 < QUEUE_SIZE)
    {log : List (Entry T Empty Unit Unit)} {queue : List UInt64}
    (h : Sequential iteration (List.replicate QUEUE_SIZE 0) log queue) :
    queue = rotated QUEUE_SIZE log.length := by
  induction h with
  | nil => exact (rotated_zero QUEUE_SIZE).symm
  | snoc _ he ih =>
    subst ih
    rw [List.length_append, List.length_singleton]
    cases he with
    | @granted _ op _ _ _ hruns =>
      rcases op with op | op
      · exact isEmptyElim op
      · obtain ⟨val, hval, rfl⟩ := runs_iteration hruns
        obtain ⟨hlast, hnext⟩ := rotated_succ hQ _
        rw [hlast] at hval
        cases hval
        exact hnext
    | @refused _ op => exact isEmptyElim op

/-! ## All threads -/

/-- Every entry of a log belongs to one thread. -/
theorem sum_countP_thread {T : Type*} [DecidableEq T] [Fintype T]
    (log : List (Entry T Empty Unit Unit)) :
    ∑ t : T, log.countP (fun e => e.thread = t) = log.length := by
  induction log with
  | nil => simp
  | cons e log ih =>
    simp only [List.countP_cons, Finset.sum_add_distrib, ih, List.length_cons]
    simp

/-- **The test passes.** When any number of threads have made `NUM_ITERATIONS` iterations each and
`QUEUE_SIZE` divides their number, every value of the queue is the expected one, whatever the order
in which the threads took their steps. -/
theorem every_value_expected {T : Type*} [DecidableEq T] [Fintype T] {QUEUE_SIZE NUM_ITERATIONS : Nat}
    {s : State T} (h : Reachable (threads T QUEUE_SIZE) s) (hsize : 0 < QUEUE_SIZE)
    (hdvd : QUEUE_SIZE ∣ NUM_ITERATIONS * Fintype.card T) (hjoined : ∀ t, s.phases t = .out)
    (hdone : ∀ t, iterations s t = NUM_ITERATIONS) :
    s.object = List.replicate QUEUE_SIZE
      (UInt64.ofNat (NUM_ITERATIONS * Fintype.card T / QUEUE_SIZE)) := by
  obtain ⟨queue, hseq, hqueue⟩ := sequential_of_isEmpty h
  have hobject : s.object = queue := hqueue fun t op l ht => by simp [hjoined t] at ht
  have hlength : s.log.length = NUM_ITERATIONS * Fintype.card T := by
    rw [← sum_countP_thread s.log]
    calc ∑ t, s.log.countP (fun e => e.thread = t) = ∑ _t : T, NUM_ITERATIONS :=
          Finset.sum_congr rfl fun t _ => hdone t
      _ = NUM_ITERATIONS * Fintype.card T := by
          simp [Nat.mul_comm]
  have hrounds : s.log.length % QUEUE_SIZE = 0 := by
    rw [hlength]
    exact Nat.mod_eq_zero_of_dvd hdvd
  rw [hobject, sequential_rotated hsize hseq, rotated, hrounds, hlength]
  simp

/-- Two threads, one of which finds the lock taken twice. -/
def twoThreads : List (Act Bool Empty Unit) :=
  [.begin false (.inr ()), .begin true (.inr ()), .lock true, .lock false, .access true,
    .access true, .lock false, .access true, .release true, .lock true, .lock false,
    .access false, .access false, .access false, .release false, .lock false]

theorem every_value_expected_two_threads :
    ∃ s, run (step (Spinlock.sectionLock Bool) iteration)
        (.init (Spinlock.sectionLock Bool) (List.replicate 2 0)) twoThreads = some s ∧
      s.object = List.replicate 2 (UInt64.ofNat (1 * Fintype.card Bool / 2)) :=
  ⟨_, rfl, every_value_expected (reachable_of_run twoThreads rfl) (by decide) (by decide)
    (fun t => by cases t <;> rfl) fun t => by cases t <;> rfl⟩

end SpinlockTest

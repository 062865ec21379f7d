import ItexDemo.AuxLib.Proofs.SpinlockProofs

/-!
# `TEST(SpinlockTest, AuxTest)`

Threads that take the last value of a queue, add one to it and put it in front, each time under the
lock. `T` stands for `num_threads` threads.
-/

namespace SpinlockTest

/-- The locals of an iteration: the next access to the queue, and `val`. -/
inductive Local where
  | back
  | popBack (val : UInt64)
  | pushFront (val : UInt64)
  deriving DecidableEq, Repr

/-- An access of an iteration. There is no last element of an empty queue. -/
def access : Local → List UInt64 → Option (List UInt64 × (Local ⊕ Unit))
  | .back, queue => queue.getLast?.map fun val => (queue, .inl (.popBack val))
  | .popBack val, queue => if queue = [] then none else some (queue.dropLast, .inl (.pushFront val))
  | .pushFront val, queue => some ((val + 1) :: queue, .inr ())

/-- The body of the loop after `lock_guard`. -/
def iteration : Sections.Object Empty Unit Empty Local (List UInt64) Unit where
  tries := Empty.elim
  refused := Empty.elim
  readStart := Empty.elim
  readStep := Empty.elim
  writeStart _ := .back
  writeStep _ := access

/-- A state of the test. -/
abbrev State (T : Type*) := Sections.State T (Spinlock.Config T) Empty Unit Empty Local (List UInt64) Unit

variable {T : Type*} [DecidableEq T]

/-- The threads of the test on `std::deque<size_t> queue(QUEUE_SIZE, 0)`. -/
def threads (T : Type*) [DecidableEq T] (QUEUE_SIZE : Nat) :
    Transition.System (State T) (Sections.Act T Empty Unit) :=
  Sections.system (Spinlock.sectionLock T) iteration (List.replicate QUEUE_SIZE 0)

/-- The iterations that thread `t` has made. -/
def iterations (s : State T) (t : T) : Nat := s.log.countP fun e => e.thread = t

/-- A queue of this size after `n` iterations. -/
def rotated (QUEUE_SIZE n : Nat) : List UInt64 :=
  List.replicate (n % QUEUE_SIZE) (UInt64.ofNat (n / QUEUE_SIZE + 1)) ++
    List.replicate (QUEUE_SIZE - n % QUEUE_SIZE) (UInt64.ofNat (n / QUEUE_SIZE))

end SpinlockTest

import Mathlib.Logic.Function.Basic
import Mathlib.Logic.Relation
import ItexDemo.Lib.TransitionSystem

/-!
# Sections under a readers–writer lock

Threads run operations on a shared object. An operation takes the lock, makes its accesses one after
the other and gives the lock back, and between two accesses of a thread the others take their steps.
A lock that only has writers is a plain mutual exclusion lock.

The log lists the operations in the order of their last accesses. The main result
(`sequential_of_reachable`) is that running the operations of the log one after the other, each without
interruption, gives the same results and the same object.
-/

namespace Sections

open Transition

/-- How an operation uses the object. -/
inductive Mode where
  | read
  | write
  deriving DecidableEq

/-- The functions of a lock. -/
inductive LockCall where
  | acquire (m : Mode)
  | tryAcquire (m : Mode)
  | release (m : Mode)
  /-- A function that leaves the holders alone. -/
  | probe
  deriving DecidableEq

/-- A lock: `call` begins a function, `step` makes the next access of the function that the thread is
in, and says whether it succeeded when it returns. `Holds` and `Calling` are only talked about. -/
structure Lock (T ℓ : Type*) where
  init : ℓ
  call : ℓ → T → LockCall → Option ℓ
  step : ℓ → T → Option (ℓ × Option Bool)
  Holds : ℓ → T → Mode → Prop
  Calling : ℓ → T → LockCall → Prop
  /-- The invariant of the lock. -/
  Good : ℓ → Prop
  good_init : Good init
  good_call : ∀ {l t k l'}, Good l → call l t k = some l' → Good l'
  good_step : ∀ {l t l' b}, Good l → step l t = some (l', b) → Good l'
  /-- A thread that holds the lock for writing is the only one that holds it. -/
  exclusive : ∀ {l t u m}, Good l → Holds l t .write → Holds l u m → u = t ∧ m = .write
  call_self : ∀ {l t k l'}, call l t k = some l' → Calling l' t k
  call_other : ∀ {l t k l' u}, call l t k = some l' → u ≠ t →
    (∀ m, Holds l u m → Holds l' u m) ∧ ∀ k', Calling l u k' → Calling l' u k'
  step_other : ∀ {l t l' b u}, step l t = some (l', b) → u ≠ t →
    (∀ m, Holds l u m → Holds l' u m) ∧ ∀ k', Calling l u k' → Calling l' u k'
  step_calling : ∀ {l t l' k}, Calling l t k → step l t = some (l', none) → Calling l' t k
  /-- `acquire` returns with the lock. -/
  step_acquire : ∀ {l t l' b m}, Calling l t (.acquire m) → step l t = some (l', some b) →
    Holds l' t m
  step_tryAcquire : ∀ {l t l' m}, Calling l t (.tryAcquire m) → step l t = some (l', some true) →
    Holds l' t m

/-- The operations of an object: `R` under a read lock, `W` under the write lock. The locals of a
running operation are `LR` and `LW`. An access of a read operation leaves the object alone, except
for the last one. Where the code has no defined behaviour there is no access. -/
structure Object (R W LR LW σ ρ : Type*) where
  /-- The operation tries to take the lock. -/
  tries : R → Bool
  /-- Its result when it does not get the lock. -/
  refused : R → ρ
  readStart : R → LR
  readStep : R → LR → σ → Option (LR ⊕ (σ × ρ))
  writeStart : W → LW
  writeStep : W → LW → σ → Option (σ × (LW ⊕ ρ))

variable {T ℓ R W LR LW σ ρ : Type*}

/-! ## One operation at a time -/

namespace Object

variable (O : Object R W LR LW σ ρ)

/-- An access of a read operation that is not its last one, with the object fixed. -/
def ReadAccess (op : R) (o : σ) (l l' : LR) : Prop := O.readStep op l o = some (.inl l')

/-- An access of a write operation that is not its last one. -/
def WriteAccess (op : W) (x y : σ × LW) : Prop := O.writeStep op x.2 x.1 = some (y.1, .inl y.2)

/-- The operation runs from its first to its last access without interruption. -/
inductive Runs : R ⊕ W → σ → σ → ρ → Prop where
  | read {op : R} {o o' : σ} {l : LR} {r : ρ}
      (h : Relation.ReflTransGen (O.ReadAccess op o) (O.readStart op) l)
      (hlast : O.readStep op l o = some (.inr (o', r))) : Runs (.inl op) o o' r
  | write {op : W} {o o₁ o' : σ} {l : LW} {r : ρ}
      (h : Relation.ReflTransGen (O.WriteAccess op) (o, O.writeStart op) (o₁, l))
      (hlast : O.writeStep op l o₁ = some (o', .inr r)) : Runs (.inr op) o o' r

variable {O}

/-- What holds before the first access of a read operation, and is kept by every access but the last
one, holds before the last one. -/
theorem Runs.before_last_read {op : R} {o o' : σ} {r : ρ} (h : O.Runs (.inl op) o o' r) {P : LR → Prop}
    (hstart : P (O.readStart op)) (hstep : ∀ l l', P l → O.ReadAccess op o l l' → P l') :
    ∃ l, P l ∧ O.readStep op l o = some (.inr (o', r)) := by
  cases h with
  | @read _ _ _ l _ hsteps hlast =>
    refine ⟨l, ?_, hlast⟩
    clear hlast
    induction hsteps with
    | refl => exact hstart
    | tail _ hl ih => exact hstep _ _ ih hl

/-- The same for a write operation. -/
theorem Runs.before_last_write {op : W} {o o' : σ} {r : ρ} (h : O.Runs (.inr op) o o' r)
    {P : σ × LW → Prop} (hstart : P (o, O.writeStart op))
    (hstep : ∀ x y, P x → O.WriteAccess op x y → P y) :
    ∃ x, P x ∧ O.writeStep op x.2 x.1 = some (o', .inr r) := by
  cases h with
  | @write _ _ o₁ _ l _ hsteps hlast =>
    refine ⟨(o₁, l), ?_, hlast⟩
    clear hlast
    generalize (o₁, l) = x at hsteps
    induction hsteps with
    | refl => exact hstart
    | tail _ hx ih => exact hstep _ _ ih hx

variable (O)

/-- The read operations of different threads do not disturb each other: what an operation sees of
the object is its `View`, and the last access of an operation `Apart` from it keeps that. -/
structure Independent (View : R → σ → σ → Prop) (Apart : R → R → Prop) : Prop where
  stable : ∀ {op o o' l l'}, View op o o' → O.ReadAccess op o l l' → O.ReadAccess op o' l l'
  frame : ∀ {op op' o o' l r}, Apart op op' → O.readStep op l o = some (.inr (o', r)) →
    View op' o o'

end Object

/-- An entry of the log. An operation that was not granted the lock did nothing. -/
structure Entry (T R W ρ : Type*) where
  thread : T
  op : R ⊕ W
  granted : Bool
  result : ρ

/-- What an entry does to the object. -/
inductive Entry.Does (O : Object R W LR LW σ ρ) : Entry T R W ρ → σ → σ → Prop where
  | granted {t : T} {op : R ⊕ W} {o o' : σ} {r : ρ} (h : O.Runs op o o' r) :
      Does O ⟨t, op, true, r⟩ o o'
  | refused {t : T} {op : R} {o : σ} (h : O.tries op = true) :
      Does O ⟨t, .inl op, false, O.refused op⟩ o o

/-- The entries are done one after the other. -/
inductive Sequential (O : Object R W LR LW σ ρ) (o₀ : σ) : List (Entry T R W ρ) → σ → Prop where
  | nil : Sequential O o₀ [] o₀
  | snoc {log : List (Entry T R W ρ)} {e : Entry T R W ρ} {o o' : σ} (h : Sequential O o₀ log o)
      (he : e.Does O o o') : Sequential O o₀ (log ++ [e]) o'

/-- The object as a step function says it: when every entry is a step with its result, a log is a
run. -/
theorem Sequential.runOut {O : Object R W LR LW σ ρ} {α : Type*} {next : σ → α → Option (σ × ρ)}
    {label : Entry T R W ρ → α} (hnext : ∀ (e : Entry T R W ρ) o o', e.Does O o o' →
      next o (label e) = some (o', e.result)) {o₀ o : σ} {log : List (Entry T R W ρ)}
    (h : Sequential O o₀ log o) :
    Transition.runOut next o₀ (log.map label) = some (o, log.map Entry.result) := by
  induction h with
  | nil => rfl
  | snoc _ he ih =>
    rw [List.map_append, List.map_append]
    exact runOut_snoc ih (hnext _ _ _ he)

/-- The entries that were granted the lock. -/
def granted (log : List (Entry T R W ρ)) : List (Entry T R W ρ) := log.filter Entry.granted

/-- The same for an object with an invariant, whose refused operations are left out. -/
theorem Sequential.runOut_granted {O : Object R W LR LW σ ρ} {α : Type*}
    {next : σ → α → Option (σ × ρ)} {label : R ⊕ W → α} {I : σ → Prop} {o₀ o : σ} (h0 : I o₀)
    (hnext : ∀ {op o o' r}, I o → O.Runs op o o' r → I o' ∧ next o (label op) = some (o', r))
    {log : List (Entry T R W ρ)} (h : Sequential O o₀ log o) :
    I o ∧ Transition.runOut next o₀ ((granted log).map fun e => label e.op) =
      some (o, (granted log).map Entry.result) := by
  induction h with
  | nil => exact ⟨h0, rfl⟩
  | snoc _ he ih =>
    obtain ⟨hI, hrun⟩ := ih
    cases he with
    | granted hruns =>
      obtain ⟨hI', hstep⟩ := hnext hI hruns
      refine ⟨hI', ?_⟩
      simp only [granted, List.filter_append, List.map_append] at hrun ⊢
      exact runOut_snoc hrun hstep
    | refused _ =>
      refine ⟨hI, ?_⟩
      simpa [granted, List.filter_append] using hrun

/-- A refused operation only tried to take the lock, and has the result that says so. -/
theorem Sequential.refused {O : Object R W LR LW σ ρ} {o₀ o : σ} {log : List (Entry T R W ρ)}
    (h : Sequential O o₀ log o) {e : Entry T R W ρ} (he : e ∈ log) (hno : e.granted = false) :
    ∃ op, e.op = .inl op ∧ O.tries op = true ∧ e.result = O.refused op := by
  induction h with
  | nil => cases he
  | snoc _ hdoes ih =>
    rcases List.mem_append.mp he with he | he
    · exact ih he
    · obtain rfl := List.mem_singleton.mp he
      cases hdoes with
      | granted _ => cases hno
      | refused htries => exact ⟨_, rfl, htries, rfl⟩

/-! ## All threads together -/

/-- Where a thread stands. -/
inductive Phase (R W LR LW : Type*) where
  | out
  | probing
  | entering (op : R ⊕ W)
  | reading (op : R) (l : LR)
  | writing (op : W) (l : LW)
  /-- After the last access, before the call that gives the lock back. -/
  | leaving (m : Mode)
  | unlocking

/-- The thread is in a function of the lock. -/
def Phase.inLock : Phase R W LR LW → Bool
  | .probing | .entering _ | .unlocking => true
  | _ => false

/-- The steps of thread `t`. -/
inductive Act (T R W : Type*) where
  | probe (t : T)
  | begin (t : T) (op : R ⊕ W)
  /-- An access of the lock. -/
  | lock (t : T)
  /-- An access of the object. -/
  | access (t : T)
  | release (t : T)

/-- The lock, the object, the threads, and the log. -/
structure State (T ℓ R W LR LW σ ρ : Type*) where
  lock : ℓ
  object : σ
  phases : T → Phase R W LR LW
  log : List (Entry T R W ρ)

variable [DecidableEq T]

/-- Thread `t` goes on to phase `p`. -/
def State.setPhase (s : State T ℓ R W LR LW σ ρ) (t : T) (p : Phase R W LR LW) :
    State T ℓ R W LR LW σ ρ :=
  { s with phases := Function.update s.phases t p }

/-- Before any operation. -/
def State.init (L : Lock T ℓ) (o₀ : σ) : State T ℓ R W LR LW σ ρ where
  lock := L.init
  object := o₀
  phases := fun _ => .out
  log := []

variable (L : Lock T ℓ) (O : Object R W LR LW σ ρ)

/-- The function of the lock that an operation begins with. -/
def lockCall : R ⊕ W → LockCall
  | .inl op => if O.tries op then .tryAcquire .read else .acquire .read
  | .inr _ => .acquire .write

/-- A function of the lock that thread `t` is in has returned. -/
def returned (s : State T ℓ R W LR LW σ ρ) (t : T) (succeeded : Bool) :
    Option (State T ℓ R W LR LW σ ρ) :=
  match s.phases t with
  | .probing => some (s.setPhase t .out)
  | .entering (.inl op) =>
    if O.tries op && !succeeded then
      some { s.setPhase t .out with log := s.log ++ [⟨t, .inl op, false, O.refused op⟩] }
    else some (s.setPhase t (.reading op (O.readStart op)))
  | .entering (.inr op) => some (s.setPhase t (.writing op (O.writeStart op)))
  | .unlocking => some (s.setPhase t .out)
  | _ => none

/-- The next access of thread `t` to the object. -/
def access (s : State T ℓ R W LR LW σ ρ) (t : T) : Option (State T ℓ R W LR LW σ ρ) :=
  match s.phases t with
  | .reading op l => (O.readStep op l s.object).map fun
    | .inl l' => s.setPhase t (.reading op l')
    | .inr (o, r) => { s.setPhase t (.leaving .read) with
        object := o, log := s.log ++ [⟨t, .inl op, true, r⟩] }
  | .writing op l => (O.writeStep op l s.object).map fun
    | (o, .inl l') => { s.setPhase t (.writing op l') with object := o }
    | (o, .inr r) => { s.setPhase t (.leaving .write) with
        object := o, log := s.log ++ [⟨t, .inr op, true, r⟩] }
  | _ => none

/-- One step. -/
def step (s : State T ℓ R W LR LW σ ρ) : Act T R W → Option (State T ℓ R W LR LW σ ρ)
  | .probe t =>
    match s.phases t with
    | .out => (L.call s.lock t .probe).map fun l => { s.setPhase t .probing with lock := l }
    | _ => none
  | .begin t op =>
    match s.phases t with
    | .out => (L.call s.lock t (lockCall O op)).map fun l =>
        { s.setPhase t (.entering op) with lock := l }
    | _ => none
  | .lock t =>
    if (s.phases t).inLock then (L.step s.lock t).bind fun
      | (l, none) => some { s with lock := l }
      | (l, some succeeded) => returned O { s with lock := l } t succeeded
    else none
  | .access t => access O s t
  | .release t =>
    match s.phases t with
    | .leaving m => (L.call s.lock t (.release m)).map fun l =>
        { s.setPhase t .unlocking with lock := l }
    | _ => none

/-- The threads in any order. -/
def system (o₀ : σ) : System (State T ℓ R W LR LW σ ρ) (Act T R W) := .ofStep (.init L o₀) (step L O)

/-- The thread has begun the read operation and has not made its last access. -/
def Phase.Active (p : Phase R W LR LW) (op : R) : Prop :=
  p = .entering (.inl op) ∨ ∃ l, p = .reading op l

/-- A read operation is begun only while the other threads run read operations apart from it. -/
def Separate (Apart : R → R → Prop) (s : State T ℓ R W LR LW σ ρ) : Act T R W → Prop
  | .begin t (.inl op) => ∀ u op', u ≠ t → (s.phases u).Active op' → Apart op op' ∧ Apart op' op
  | _ => True

/-! ## What holds in every state -/

/-- The threads other than `t` keep what they have of the lock. -/
def Lock.Keeps (t : T) (l l' : ℓ) : Prop :=
  ∀ u, u ≠ t → (∀ m, L.Holds l u m → L.Holds l' u m) ∧ ∀ k, L.Calling l u k → L.Calling l' u k

/-- The invariant: a thread has of the lock what its phase says; a read operation has seen the object
as it is now; and the log accounts for the object, up to the write operation that is running. -/
structure Inv (Apart : R → R → Prop) (o₀ : σ) (s : State T ℓ R W LR LW σ ρ) : Prop where
  good : L.Good s.lock
  entering : ∀ t op, s.phases t = .entering op → L.Calling s.lock t (lockCall O op)
  reading : ∀ t op l, s.phases t = .reading op l → L.Holds s.lock t .read ∧
    Relation.ReflTransGen (O.ReadAccess op s.object) (O.readStart op) l
  writing : ∀ t op l, s.phases t = .writing op l → L.Holds s.lock t .write
  apart : ∀ t u op op', t ≠ u → (s.phases t).Active op → (s.phases u).Active op' → Apart op op'
  sequential : ∃ o, Sequential O o₀ s.log o ∧
    (∀ t op l, s.phases t = .writing op l →
      Relation.ReflTransGen (O.WriteAccess op) (o, O.writeStart op) (s.object, l)) ∧
    ((∀ t op l, s.phases t ≠ .writing op l) → s.object = o)

variable {L O} {View : R → σ → σ → Prop} {Apart : R → R → Prop} {o₀ : σ}
  {s s' : State T ℓ R W LR LW σ ρ} {t : T}

omit [DecidableEq T] in
theorem inv_init : Inv L O Apart o₀ (State.init L o₀ : State T ℓ R W LR LW σ ρ) where
  good := L.good_init
  entering := by simp [State.init]
  reading := by simp [State.init]
  writing := by simp [State.init]
  apart := by simp [State.init, Phase.Active]
  sequential := ⟨o₀, .nil, by simp [State.init], fun _ => rfl⟩

omit [DecidableEq T] in
/-- While a thread writes, no other one is in its operation. -/
theorem Inv.alone (hI : Inv L O Apart o₀ s) {op : W} {l : LW} (ht : s.phases t = .writing op l)
    {u : T} (hu : u ≠ t) : (∀ op l, s.phases u ≠ .writing op l) ∧
      ∀ op l, s.phases u ≠ .reading op l := by
  have hw := hI.writing t op l ht
  constructor
  · intro op' l' h
    exact hu (L.exclusive hI.good hw (hI.writing u op' l' h)).1
  · intro op' l' h
    exact hu (L.exclusive hI.good hw (hI.reading u op' l' h).1).1

omit [DecidableEq T] in
/-- While a thread reads, no thread writes. -/
theorem Inv.no_writer (hI : Inv L O Apart o₀ s) {op : R} {l : LR} (ht : s.phases t = .reading op l) :
    ∀ u op l, s.phases u ≠ .writing op l := by
  intro u op' l' hu
  by_cases hut : t = u
  · subst hut
    rw [ht] at hu
    cases hu
  · exact (hI.alone hu hut).2 op l ht

omit [DecidableEq T] in
/-- The log may grow by what has no effect. -/
theorem Inv.extend_log (hI : Inv L O Apart o₀ s) {log : List (Entry T R W ρ)}
    (hlog : ∀ o, Sequential O o₀ s.log o → Sequential O o₀ log o) :
    Inv L O Apart o₀ { s with log := log } := by
  obtain ⟨o, hseq, hw, ho⟩ := hI.sequential
  exact ⟨hI.good, hI.entering, hI.reading, hI.writing, hI.apart, o, hlog o hseq, hw, ho⟩

/-- A step of thread `t`, which is not writing, that leaves the object and the log alone. -/
theorem Inv.move (hI : Inv L O Apart o₀ s) {l' : ℓ} {p : Phase R W LR LW} (hgood : L.Good l')
    (hkeep : L.Keeps t s.lock l') (hnot : ∀ op l, s.phases t ≠ .writing op l)
    (hent : ∀ op, p = .entering op → L.Calling l' t (lockCall O op))
    (hread : ∀ op l, p = .reading op l → L.Holds l' t .read ∧
      Relation.ReflTransGen (O.ReadAccess op s.object) (O.readStart op) l)
    (hwrite : ∀ op l, p = .writing op l → L.Holds l' t .write ∧ l = O.writeStart op)
    (hact : ∀ op, p.Active op → ∀ u op', u ≠ t → (s.phases u).Active op' →
      Apart op op' ∧ Apart op' op) :
    Inv L O Apart o₀ { s.setPhase t p with lock := l' } := by
  have hself : ({ s.setPhase t p with lock := l' } : State T ℓ R W LR LW σ ρ).phases t = p :=
    Function.update_self ..
  have hother : ∀ u, u ≠ t → ({ s.setPhase t p with lock := l' } :
      State T ℓ R W LR LW σ ρ).phases u = s.phases u := fun u hu => Function.update_of_ne hu ..
  have hwriting : ∀ u op l, u ≠ t → s.phases u = .writing op l → L.Holds l' u .write :=
    fun u op l hu h => (hkeep u hu).1 _ (hI.writing u op l h)
  refine ⟨hgood, ?_, ?_, ?_, ?_, ?_⟩
  · intro u op h
    by_cases hu : u = t
    · subst hu
      exact hent op (hself.symm.trans h)
    · rw [hother u hu] at h
      exact (hkeep u hu).2 _ (hI.entering u op h)
  · intro u op l h
    by_cases hu : u = t
    · subst hu
      exact hread op l (hself.symm.trans h)
    · rw [hother u hu] at h
      exact ⟨(hkeep u hu).1 _ (hI.reading u op l h).1, (hI.reading u op l h).2⟩
  · intro u op l h
    by_cases hu : u = t
    · subst hu
      exact (hwrite op l (hself.symm.trans h)).1
    · rw [hother u hu] at h
      exact hwriting u op l hu h
  · intro u v op op' huv hu hv
    by_cases hut : u = t
    · subst hut
      rw [hself] at hu
      rw [hother v (Ne.symm huv)] at hv
      exact (hact op hu v op' (Ne.symm huv) hv).1
    · rw [hother u hut] at hu
      by_cases hvt : v = t
      · subst hvt
        rw [hself] at hv
        exact (hact op' hv u op hut hu).2
      · rw [hother v hvt] at hv
        exact hI.apart u v op op' huv hu hv
  · obtain ⟨o, hseq, hw, ho⟩ := hI.sequential
    refine ⟨o, hseq, ?_, ?_⟩
    · intro u op l h
      by_cases hu : u = t
      · subst hu
        obtain ⟨hholds, rfl⟩ := hwrite op l (hself.symm.trans h)
        -- the object is what the log accounts for, as no other thread can be writing
        have hobject : s.object = o := ho fun v op' l' hv => by
          by_cases hvu : v = u
          · subst hvu
            exact hnot op' l' hv
          · exact hvu (L.exclusive hgood hholds (hwriting v op' l' hvu hv)).1
        subst hobject
        exact .refl
      · rw [hother u hu] at h
        exact hw u op l h
    · intro hnone
      refine ho fun u op l h => ?_
      by_cases hu : u = t
      · subst hu
        exact hnot op l h
      · exact hnone u op l ((hother u hu).trans h)

/-- Thread `t` ends its operation with the last access, which leaves the object `o'`. -/
theorem Inv.finish (hI : Inv L O Apart o₀ s) {m : Mode} {o o' : σ} {e : Entry T R W ρ}
    (hseq : Sequential O o₀ s.log o) (he : e.Does O o o')
    (hnone : ∀ u op l, u ≠ t → s.phases u ≠ .writing op l)
    (hread : ∀ u op l, u ≠ t → s.phases u = .reading op l →
      Relation.ReflTransGen (O.ReadAccess op o') (O.readStart op) l) :
    Inv L O Apart o₀ { s.setPhase t (.leaving m) with object := o', log := s.log ++ [e] } := by
  have hother : ∀ u, u ≠ t → (s.setPhase t (.leaving m)).phases u = s.phases u :=
    fun u hu => Function.update_of_ne hu ..
  have hself : (s.setPhase t (.leaving m)).phases t = .leaving m := Function.update_self ..
  have hne : ∀ (u : T) (p : Phase R W LR LW), (s.setPhase t (.leaving m)).phases u = p →
      p ≠ .leaving m → u ≠ t := by
    rintro u p h hp rfl
    exact hp (h.symm.trans hself)
  have hactive : ∀ u op, ((s.setPhase t (.leaving m)).phases u).Active op →
      u ≠ t ∧ (s.phases u).Active op := by
    intro u op h
    by_cases hu : u = t
    · subst hu
      rw [hself] at h
      rcases h with h | ⟨_, h⟩ <;> cases h
    · exact ⟨hu, by rwa [hother u hu] at h⟩
  refine ⟨hI.good, ?_, ?_, ?_, ?_, ?_⟩
  · intro u op h
    have hu := hne u _ h (by simp)
    exact hI.entering u op ((hother u hu).symm.trans h)
  · intro u op l h
    have hu := hne u _ h (by simp)
    have hold := (hother u hu).symm.trans h
    exact ⟨(hI.reading u op l hold).1, hread u op l hu hold⟩
  · intro u op l h
    have hu := hne u _ h (by simp)
    exact hI.writing u op l ((hother u hu).symm.trans h)
  · intro u v op op' huv hu hv
    exact hI.apart u v op op' huv (hactive u op hu).2 (hactive v op' hv).2
  · refine ⟨o', .snoc hseq he, ?_, fun _ => rfl⟩
    intro u op l h
    have hu := hne u _ h (by simp)
    exact absurd ((hother u hu).symm.trans h) (hnone u op l hu)

/-- The next access of a write operation, which is not its last one. -/
theorem Inv.write (hI : Inv L O Apart o₀ s) {op : W} {l l' : LW} {o' : σ}
    (ht : s.phases t = .writing op l)
    (haccess : O.WriteAccess op (s.object, l) (o', l')) :
    Inv L O Apart o₀ { s.setPhase t (.writing op l') with object := o' } := by
  have hother : ∀ u, u ≠ t → (s.setPhase t (.writing op l')).phases u = s.phases u :=
    fun u hu => Function.update_of_ne hu ..
  have hself : (s.setPhase t (.writing op l')).phases t = .writing op l' := Function.update_self ..
  have hactive : ∀ u op', ((s.setPhase t (.writing op l')).phases u).Active op' →
      (s.phases u).Active op' := by
    intro u op' h
    by_cases hu : u = t
    · subst hu
      rw [hself] at h
      rcases h with h | ⟨_, h⟩ <;> cases h
    · rwa [hother u hu] at h
  refine ⟨hI.good, ?_, ?_, ?_, ?_, ?_⟩
  · intro u op' h
    by_cases hu : u = t
    · subst hu
      rw [hself] at h
      cases h
    · exact hI.entering u op' ((hother u hu).symm.trans h)
  · intro u op' k h
    by_cases hu : u = t
    · subst hu
      rw [hself] at h
      cases h
    · exact absurd ((hother u hu).symm.trans h) ((hI.alone ht hu).2 op' k)
  · intro u op' k h
    by_cases hu : u = t
    · subst hu
      exact hI.writing u op l ht
    · exact hI.writing u op' k ((hother u hu).symm.trans h)
  · intro u v op₁ op₂ huv hu hv
    exact hI.apart u v op₁ op₂ huv (hactive u op₁ hu) (hactive v op₂ hv)
  · obtain ⟨o, hseq, hw, -⟩ := hI.sequential
    refine ⟨o, hseq, ?_, fun hnone => absurd hself (hnone t op l')⟩
    intro u op' k h
    by_cases hu : u = t
    · subst hu
      rw [hself] at h
      cases h
      exact .tail (hw u op l ht) haccess
    · exact absurd ((hother u hu).symm.trans h) ((hI.alone ht hu).1 op' k)

theorem Inv.access (hO : O.Independent View Apart) (hI : Inv L O Apart o₀ s)
    (h : access O s t = some s') : Inv L O Apart o₀ s' := by
  unfold Sections.access at h
  split at h
  · next op l ht =>
    obtain ⟨x, hx, rfl⟩ := Option.map_eq_some_iff.mp h
    obtain ⟨hholds, hsteps⟩ := hI.reading t op l ht
    rcases x with l' | ⟨o', r⟩
    · refine Inv.move hI hI.good (fun u _ => ⟨fun _ h => h, fun _ h => h⟩)
        (by simp [ht]) (by simp) ?_ (by simp) ?_
      · rintro op' k hk
        cases hk
        exact ⟨hholds, .tail hsteps hx⟩
      · intro op' hop u op'' hu hact
        have hop' : (s.phases t).Active op' := by
          rcases hop with hop | ⟨k, hop⟩
          · cases hop
          · cases hop
            exact .inr ⟨l, ht⟩
        exact ⟨hI.apart t u op' op'' (Ne.symm hu) hop' hact, hI.apart u t op'' op' hu hact hop'⟩
    · have hnone := hI.no_writer ht
      obtain ⟨o, hseq, -, ho⟩ := hI.sequential
      obtain rfl := ho hnone
      refine hI.finish hseq (.granted (.read hsteps hx)) (fun u op' l' _ => hnone u op' l') ?_
      intro u op' k hu hreading
      have hapart := hI.apart t u op op' (Ne.symm hu) (.inr ⟨l, ht⟩) (.inr ⟨k, hreading⟩)
      exact Relation.ReflTransGen.mono (fun a b hab => hO.stable (hO.frame hapart hx) hab) _ _
        (hI.reading u op' k hreading).2
  · next op l ht =>
    obtain ⟨⟨o', x⟩, hx, rfl⟩ := Option.map_eq_some_iff.mp h
    rcases x with l' | r
    · exact hI.write ht hx
    · obtain ⟨o, hseq, hw, -⟩ := hI.sequential
      refine hI.finish hseq (.granted (.write (hw t op l ht) hx))
        (fun u op' l' hu => (hI.alone ht hu).1 op' l') ?_
      intro u op' k hu hreading
      exact absurd hreading ((hI.alone ht hu).2 op' k)
  · cases h

theorem Inv.returned (hI : Inv L O Apart o₀ s) {l' : ℓ} {b : Bool}
    (hstep : L.step s.lock t = some (l', some b))
    (h : returned O { s with lock := l' } t b = some s') : Inv L O Apart o₀ s' := by
  have hgood := L.good_step hI.good hstep
  have hkeep : L.Keeps t s.lock l' := fun u hu => L.step_other hstep hu
  have hactive : ∀ op op', s.phases t = .entering (.inl op) →
      (Phase.reading op (O.readStart op) : Phase R W LR LW).Active op' →
      (s.phases t).Active op' := by
    rintro op op' ht (hp | ⟨k, hp⟩)
    · cases hp
    · cases hp
      exact .inl ht
  unfold Sections.returned at h
  split at h
  · next ht =>
    cases h
    exact hI.move hgood hkeep (by simp_all) (by simp) (by simp) (by simp) (by simp [Phase.Active])
  · next op ht =>
    have hcall := hI.entering t _ ht
    by_cases hrefused : (O.tries op && !b) = true
    · rw [if_pos hrefused] at h
      cases h
      obtain ⟨htries, -⟩ := Bool.and_eq_true_iff.mp hrefused
      refine Inv.extend_log (hI.move (p := .out) hgood hkeep (by simp_all) (by simp) (by simp)
        (by simp) (by simp [Phase.Active])) fun o hseq => .snoc hseq (.refused htries)
    · rw [if_neg hrefused] at h
      cases h
      have hholds : L.Holds l' t .read := by
        unfold lockCall at hcall
        by_cases htries : O.tries op = true
        · simp only [htries, if_true] at hcall
          simp only [htries, Bool.true_and, Bool.not_eq_true', Bool.not_eq_false] at hrefused
          subst hrefused
          exact L.step_tryAcquire hcall hstep
        · simp only [htries] at hcall
          exact L.step_acquire hcall hstep
      refine hI.move hgood hkeep (by simp_all) (by simp) ?_ (by simp) ?_
      · rintro op' k hk
        cases hk
        exact ⟨hholds, .refl⟩
      · intro op' hop u op'' hu hact
        have hop' := hactive op op' ht hop
        exact ⟨hI.apart t u op' op'' (Ne.symm hu) hop' hact, hI.apart u t op'' op' hu hact hop'⟩
  · next op ht =>
    cases h
    refine hI.move hgood hkeep (by simp_all) (by simp) (by simp) ?_ (by simp [Phase.Active])
    rintro op' k hk
    cases hk
    exact ⟨L.step_acquire (hI.entering t _ ht) hstep, rfl⟩
  · next ht =>
    cases h
    exact hI.move hgood hkeep (by simp_all) (by simp) (by simp) (by simp) (by simp [Phase.Active])
  · cases h

/-- An access of the lock after which its function goes on. -/
theorem Inv.goOn (hI : Inv L O Apart o₀ s) {l' : ℓ} (hstep : L.step s.lock t = some (l', none))
    (hlock : (s.phases t).inLock = true) : Inv L O Apart o₀ { s with lock := l' } := by
  have hmove : Inv L O Apart o₀ { s.setPhase t (s.phases t) with lock := l' } := by
    refine hI.move (L.good_step hI.good hstep) (fun u hu => L.step_other hstep hu) ?_ ?_ ?_ ?_ ?_
    · intro op l ht
      rw [ht] at hlock
      cases hlock
    · intro op ht
      exact L.step_calling (hI.entering t op ht) hstep
    · intro op l ht
      rw [ht] at hlock
      cases hlock
    · intro op l ht
      rw [ht] at hlock
      cases hlock
    · intro op hop u op' hu hact
      exact ⟨hI.apart t u op op' (Ne.symm hu) hop hact, hI.apart u t op' op hu hact hop⟩
  rwa [State.setPhase, Function.update_eq_self] at hmove

theorem inv_step (hO : O.Independent View Apart) (hI : Inv L O Apart o₀ s) {a : Act T R W}
    (h : step L O s a = some s') (hsep : Separate Apart s a) : Inv L O Apart o₀ s' := by
  cases a with
  | probe t =>
    simp only [step] at h
    split at h
    · next ht =>
      obtain ⟨l, hl, rfl⟩ := Option.map_eq_some_iff.mp h
      exact hI.move (L.good_call hI.good hl) (fun u hu => L.call_other hl hu) (by simp [ht])
        (by simp) (by simp) (by simp) (by simp [Phase.Active])
    · cases h
  | begin t op =>
    simp only [step] at h
    split at h
    · next ht =>
      obtain ⟨l, hl, rfl⟩ := Option.map_eq_some_iff.mp h
      refine hI.move (L.good_call hI.good hl) (fun u hu => L.call_other hl hu) (by simp [ht]) ?_
        (by simp) (by simp) ?_
      · rintro op' hop
        cases hop
        exact L.call_self hl
      · rintro op' (hop | ⟨k, hop⟩) u op'' hu hact
        · cases hop
          exact hsep u op'' hu hact
        · cases hop
    · cases h
  | lock t =>
    by_cases hlock : (s.phases t).inLock = true
    · rw [step, if_pos hlock] at h
      obtain ⟨⟨l', b⟩, hstep, hret⟩ := Option.bind_eq_some_iff.mp h
      cases b with
      | none =>
        cases hret
        exact hI.goOn hstep hlock
      | some b => exact hI.returned hstep hret
    · rw [step, if_neg hlock] at h
      cases h
  | access t => exact hI.access hO h
  | release t =>
    simp only [step] at h
    split at h
    · next m ht =>
      obtain ⟨l, hl, rfl⟩ := Option.map_eq_some_iff.mp h
      exact hI.move (L.good_call hI.good hl) (fun u hu => L.call_other hl hu) (by simp [ht])
        (by simp) (by simp) (by simp) (by simp [Phase.Active])
    · cases h

omit [DecidableEq T] in
/-- Read operations that do not exist do not disturb each other. -/
theorem independent_of_isEmpty [IsEmpty R] :
    O.Independent (fun _ _ _ => True) (fun _ _ => True) where
  stable := fun {op} => isEmptyElim op
  frame := fun {op} => isEmptyElim op

/-- **Sections are sequential.** In every state that is reached, the operations of the log, run one
after the other without interruption, give the results in the log; and unless a thread is in a write
operation they leave the object as it is. -/
theorem sequential_of_reachable (hO : O.Independent View Apart)
    (h : Reachable ((system L O o₀).restrict (Separate Apart)) s) :
    ∃ o, Sequential O o₀ s.log o ∧ ((∀ t op l, s.phases t ≠ .writing op l) → s.object = o) := by
  have hI : Inv L O Apart o₀ s := by
    refine h.invariant (I := Inv L O Apart o₀) ?_ ?_
    · rintro _ rfl
      exact inv_init
    · rintro s a s' hI ⟨ht, hsep⟩
      exact inv_step hO hI ht hsep
  obtain ⟨o, hseq, -, ho⟩ := hI.sequential
  exact ⟨o, hseq, ho⟩

/-- The same for an object without read operations, whose threads need no discipline. -/
theorem sequential_of_isEmpty [IsEmpty R] (h : Reachable (system L O o₀) s) :
    ∃ o, Sequential O o₀ s.log o ∧ ((∀ t op l, s.phases t ≠ .writing op l) → s.object = o) := by
  refine sequential_of_reachable (independent_of_isEmpty (O := O)) (h.restrict_of_forall ?_)
  intro s a
  cases a with
  | begin t op =>
    cases op with
    | inl op => exact isEmptyElim op
    | inr op => trivial
  | probe t => trivial
  | lock t => trivial
  | access t => trivial
  | release t => trivial

end Sections

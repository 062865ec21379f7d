import Mathlib.Data.List.Nodup
import ItexDemo.Http.Server

/-!
# Proofs: connection bookkeeping

While no accepted socket has the id of another object in use, every live object is referred to from
exactly one place, and the objects in use have distinct ids (`Inv`). A step either leaves the
references alone (`Inv.frame`), hands one object over to another place (`Inv.relocate`), or deletes
what is queued.
-/

namespace Http.Server

variable {A E : Type*}

/-- The object that an acceptor has to itself: from the time it is popped or created until it is
inserted in the pool. -/
def AcceptorPc.holds : AcceptorPc E → Option Nat
  | .reusing _ conn => some conn
  | .inserting conn => some conn
  | _ => none

/-- The place has the object. An acceptor gives it away with the insertion. -/
def Owns (s : State A E) : Place A → Nat → Prop
  | .pool id, o => AssocMap.find s.connection_pool_ id = some o
  | .queue, o => o ∈ s.connections_to_delete_
  | .acceptor a, o => (s.acceptors a).holds = some o

/-- What the bookkeeping keeps in every state of a run whose accepted sockets are fresh. -/
structure Inv (s : State A E) : Prop where
  exclusive : Ownership.Exclusive (Owns s)
  nodup : s.connections_to_delete_.Nodup
  referred : ∀ p o, Owns s p o → Live s o
  covers : Ownership.Covers (Owns s) (Live s)
  keyed : ∀ id o c, Owns s (.pool id) o → s.heap o = some c → c.id_ = id
  allocated : ∀ o, InUse s o → ∃ c, s.heap o = some c
  distinct : ∀ x y cx cy, InUse s x → InUse s y → s.heap x = some cx → s.heap y = some cy →
    cx.id_ = cy.id_ → x = y
  moving : ∀ o, s.stopper = .moving o → ∃ id, Owns s (.pool id) o

/-! ## Steps and what they touch -/

/-- An acceptor goes on while the server runs. -/
theorem next_check [DecidableEq A] {idGen : E → Nat} {s s' : State A E} {a : A}
    (h : next idGen s (.check a) = some s') :
    s.acceptors a = .loop ∧
      s' = s.setAcceptor a (if s.running_ then .accepting else .finished) := by
  simp only [next] at h
  split at h
  · next hpc => exact ⟨hpc, (Option.some.inj h).symm⟩
  · cases h

/-- The part of an object that the bookkeeping depends on. -/
def tag (s : State A E) (o : Nat) : Option (Bool × Nat) :=
  (s.heap o).map fun c => (c.live, c.id_)

theorem exists_of_tag_eq {s s' : State A E} {o : Nat} (h : tag s' o = tag s o) {c' : Connection E}
    (hc : s'.heap o = some c') :
    ∃ c, s.heap o = some c ∧ c.live = c'.live ∧ c.id_ = c'.id_ := by
  unfold tag at h
  rw [hc, Option.map_some] at h
  obtain ⟨c, hc, heq⟩ := Option.map_eq_some_iff.mp h.symm
  rw [Prod.mk.injEq] at heq
  exact ⟨c, hc, heq.1, heq.2⟩

theorem live_of_tag_eq {s s' : State A E} {o : Nat} (h : tag s' o = tag s o) (hl : Live s' o) :
    Live s o := by
  obtain ⟨c', hc', hl⟩ := hl
  obtain ⟨c, hc, hlive, -⟩ := exists_of_tag_eq h hc'
  exact ⟨c, hc, hlive.trans hl⟩

theorem tag_modify (s : State A E) (o x : Nat) {f : Connection E → Connection E}
    (hf : ∀ c, (f c).live = c.live ∧ (f c).id_ = c.id_) : tag (s.modify o f) x = tag s x := by
  unfold tag State.modify
  by_cases hx : x = o
  · subst hx
    simp [Function.comp_def, hf]
  · simp [hx]

theorem owns_modify (s : State A E) (o : Nat) (f : Connection E → Connection E) (p : Place A)
    (x : Nat) : Owns (s.modify o f) p x ↔ Owns s p x := by
  cases p <;> rfl

theorem owns_setCoroutine (s : State A E) (k : Nat) (co : Coroutine) (p : Place A) (x : Nat) :
    Owns (s.setCoroutine k co) p x ↔ Owns s p x := by
  cases p <;> rfl

theorem inUse_setCoroutine {s : State A E} {k : Nat} {co : Coroutine} {x : Nat}
    (h : InUse (s.setCoroutine k co) x) : InUse s x ∨ (co.conn = x ∧ co.pc.ScheduleAhead) := by
  rcases h with h | h | ⟨j, co', hj, hx, hpc⟩
  · exact Or.inl (Or.inl h)
  · exact Or.inl (Or.inr (Or.inl h))
  · unfold State.setCoroutine at hj
    by_cases hjk : j = k
    · subst hjk
      simp only [Function.update_self, Option.some.injEq] at hj
      subst hj
      exact Or.inr ⟨hx, hpc⟩
    · simp only [Function.update_of_ne hjk] at hj
      exact Or.inl (Or.inr (Or.inr ⟨j, co', hj, hx, hpc⟩))

/-! ## The two ways in which a step keeps the invariant -/

/-- A step that leaves the references, the ids and the liveness alone. -/
theorem Inv.frame {s s' : State A E} (hI : Inv s)
    (hrefs : ∀ p o, Owns s' p o ↔ Owns s p o)
    (hqueue : s'.connections_to_delete_ = s.connections_to_delete_)
    (htag : ∀ o, tag s' o = tag s o) (huse : ∀ o, InUse s' o → InUse s o)
    (hstop : ∀ o, s'.stopper = .moving o → ∃ id, Owns s (.pool id) o) : Inv s' where
  exclusive := hI.exclusive.mono fun p o h => (hrefs p o).mp h
  nodup := hqueue ▸ hI.nodup
  referred := fun p o h => live_of_tag_eq (htag o).symm (hI.referred p o ((hrefs p o).mp h))
  covers := by
    intro o ho
    obtain ⟨p, hp⟩ := hI.covers o (live_of_tag_eq (htag o) ho)
    exact ⟨p, (hrefs p o).mpr hp⟩
  keyed := by
    intro id o c' h hc'
    obtain ⟨c, hc, -, hid⟩ := exists_of_tag_eq (htag o) hc'
    exact hid ▸ hI.keyed id o c ((hrefs _ o).mp h) hc
  allocated := by
    intro o ho
    obtain ⟨c, hc⟩ := hI.allocated o (huse o ho)
    obtain ⟨c', hc', -⟩ := exists_of_tag_eq (htag o).symm hc
    exact ⟨c', hc'⟩
  distinct := by
    intro x y cx' cy' hx hy hcx' hcy' heq
    obtain ⟨cx, hcx, -, hidx⟩ := exists_of_tag_eq (htag x) hcx'
    obtain ⟨cy, hcy, -, hidy⟩ := exists_of_tag_eq (htag y) hcy'
    exact hI.distinct x y cx cy (huse x hx) (huse y hy) hcx hcy (by rw [hidx, hidy, heq])
  moving := by
    intro o ho
    obtain ⟨id, h⟩ := hstop o ho
    exact ⟨id, (hrefs _ o).mpr h⟩

/-- A step that leaves one live object `o` at place `p`, with an id that no other object in use has,
and does not touch the others. -/
theorem Inv.relocate {s s' : State A E} (hI : Inv s) {o : Nat} {p : Place A}
    (hmove : Ownership.Relocates (Owns s) (Owns s') o p)
    (hnodup : s'.connections_to_delete_.Nodup)
    (htag : ∀ x, x ≠ o → tag s' x = tag s x) (hlive : Live s' o)
    (hpool : ∀ id c, p = .pool id → s'.heap o = some c → c.id_ = id)
    (huse : ∀ x, x ≠ o → InUse s' x → InUse s x)
    (hfresh : ∀ c, InUse s' o → s'.heap o = some c →
      ∀ x cx, x ≠ o → InUse s x → s.heap x = some cx → cx.id_ ≠ c.id_)
    (hstop : ∀ x, s'.stopper = .moving x → ∃ id, Owns s' (.pool id) x) : Inv s' where
  exclusive := hI.exclusive.relocate hmove
  nodup := hnodup
  referred := by
    intro q x h
    rcases (hmove q x).mp h with ⟨h, hx⟩ | ⟨-, rfl⟩
    · exact live_of_tag_eq (htag x hx).symm (hI.referred q x h)
    · exact hlive
  covers := by
    refine hI.covers.relocate hmove fun x hx => ?_
    by_cases hxo : x = o
    · exact Or.inl hxo
    · exact Or.inr (live_of_tag_eq (htag x hxo) hx)
  keyed := by
    intro id x c' h hc'
    rcases (hmove _ x).mp h with ⟨h, hx⟩ | ⟨hp, rfl⟩
    · obtain ⟨c, hc, -, hid⟩ := exists_of_tag_eq (htag x hx) hc'
      exact hid ▸ hI.keyed id x c h hc
    · exact hpool id c' hp.symm hc'
  allocated := by
    intro x hx
    by_cases hxo : x = o
    · obtain ⟨c, hc, -⟩ := hlive
      exact ⟨c, hxo ▸ hc⟩
    · obtain ⟨c, hc⟩ := hI.allocated x (huse x hxo hx)
      obtain ⟨c', hc', -⟩ := exists_of_tag_eq (htag x hxo).symm hc
      exact ⟨c', hc'⟩
  distinct := by
    -- an object other than `o` has the id it had, so it differs from that of `o`
    have hother : ∀ x cx' c, x ≠ o → InUse s' x → s'.heap x = some cx' → InUse s' o →
        s'.heap o = some c → cx'.id_ ≠ c.id_ := by
      intro x cx' c hxo hx hcx' ho hc
      obtain ⟨cx, hcx, -, hid⟩ := exists_of_tag_eq (htag x hxo) hcx'
      exact hid ▸ hfresh c ho hc x cx hxo (huse x hxo hx) hcx
    intro x y cx' cy' hx hy hcx' hcy' heq
    by_cases hxo : x = o
    · by_cases hyo : y = o
      · rw [hxo, hyo]
      · subst hxo
        exact absurd heq.symm (hother y cy' cx' hyo hy hcy' hx hcx')
    · by_cases hyo : y = o
      · subst hyo
        exact absurd heq (hother x cx' cy' hxo hx hcx' hy hcy')
      · obtain ⟨cx, hcx, -, hidx⟩ := exists_of_tag_eq (htag x hxo) hcx'
        obtain ⟨cy, hcy, -, hidy⟩ := exists_of_tag_eq (htag y hyo) hcy'
        exact hI.distinct x y cx cy (huse x hxo hx) (huse y hyo hy) hcx hcy (by rw [hidx, hidy, heq])
  moving := hstop

/-! ## Coroutines, the queue and `Server::stop` -/

/-- An access to an object that the bookkeeping does not depend on. -/
theorem Inv.modify {s : State A E} (hI : Inv s) (o : Nat) {f : Connection E → Connection E}
    (hf : ∀ c, (f c).live = c.live ∧ (f c).id_ = c.id_) : Inv (s.modify o f) :=
  hI.frame (owns_modify s o f) rfl (fun x => tag_modify s o x hf) (fun _ hx => hx) hI.moving

/-- A coroutine goes on, and has the schedule step ahead only if it had. -/
theorem Inv.setCoroutine {s : State A E} (hI : Inv s) {k : Nat} {co : Coroutine} {pc : Pc}
    (hco : s.coroutines k = some co) (hahead : pc.ScheduleAhead → co.pc.ScheduleAhead) :
    Inv (s.setCoroutine k { co with pc := pc }) := by
  refine hI.frame (owns_setCoroutine s k _) rfl (fun _ => rfl) (fun o ho => ?_) hI.moving
  rcases inUse_setCoroutine ho with ho | ⟨rfl, hpc⟩
  · exact ho
  · exact Or.inr (Or.inr ⟨k, co, hco, rfl, hahead hpc⟩)

/-- What the pool has under the id of an object in use is this object. -/
theorem Inv.find_id {s : State A E} (hI : Inv s) {o : Nat} {c : Connection E} (ho : InUse s o)
    (hc : s.heap o = some c) {x : Nat} (h : AssocMap.find s.connection_pool_ c.id_ = some x) :
    x = o := by
  obtain ⟨cx, hcx, -⟩ := hI.referred (.pool c.id_) x h
  exact hI.distinct x o cx c (Or.inl ⟨_, h⟩) ho hcx hc (hI.keyed _ x cx h hcx)

section Move

variable (s : State A E) (id : Nat)

@[simp] theorem move_heap : (s.moveConnectionToDeleteQueueNolock id).heap = s.heap := by
  unfold State.moveConnectionToDeleteQueueNolock
  split <;> rfl

@[simp] theorem move_acceptors :
    (s.moveConnectionToDeleteQueueNolock id).acceptors = s.acceptors := by
  unfold State.moveConnectionToDeleteQueueNolock
  split <;> rfl

@[simp] theorem move_coroutines :
    (s.moveConnectionToDeleteQueueNolock id).coroutines = s.coroutines := by
  unfold State.moveConnectionToDeleteQueueNolock
  split <;> rfl

@[simp] theorem move_stopper : (s.moveConnectionToDeleteQueueNolock id).stopper = s.stopper := by
  unfold State.moveConnectionToDeleteQueueNolock
  split <;> rfl

end Move

theorem move_of_find_none {s : State A E} {id : Nat}
    (h : AssocMap.find s.connection_pool_ id = none) :
    s.moveConnectionToDeleteQueueNolock id = s := by
  unfold State.moveConnectionToDeleteQueueNolock
  rw [h]

theorem owns_move {s : State A E} {id x : Nat}
    (h : AssocMap.find s.connection_pool_ id = some x) (p : Place A) (y : Nat) :
    Owns (s.moveConnectionToDeleteQueueNolock id) p y ↔
      (Owns s p y ∧ p ≠ .pool id) ∨ (p = .queue ∧ y = x) := by
  unfold State.moveConnectionToDeleteQueueNolock
  rw [h]
  rcases p with id' | _ | b
  · simp only [Owns, AssocMap.find_erase]
    by_cases hid : id' = id
    · simp [hid]
    · simp [hid]
  · simp [Owns]
  · simp [Owns]

/-- Moving the pool's entry under the id of an object in use. -/
theorem Inv.move {s : State A E} (hI : Inv s) {o : Nat} {c : Connection E} (ho : InUse s o)
    (hc : s.heap o = some c) (hst : ∀ x, s.stopper ≠ .moving x) :
    Inv (s.moveConnectionToDeleteQueueNolock c.id_) := by
  cases hfind : AssocMap.find s.connection_pool_ c.id_ with
  | none =>
    rw [move_of_find_none hfind]
    exact hI
  | some x =>
    obtain rfl := hI.find_id ho hc hfind
    have hpool : Owns s (.pool c.id_) x := hfind
    have hrefs := fun p y => owns_move (s := s) hfind p y
    have huse : ∀ y, InUse (s.moveConnectionToDeleteQueueNolock c.id_) y → InUse s y := by
      rintro y (⟨id, hy⟩ | hy | hy)
      · rcases (hrefs (.pool id) y).mp hy with ⟨hy, -⟩ | ⟨hp, -⟩
        · exact Or.inl ⟨id, hy⟩
        · cases hp
      · exact Or.inr (Or.inl (by simpa using hy))
      · exact Or.inr (Or.inr (by simpa using hy))
    have hmove : Ownership.Relocates (Owns s)
        (Owns (s.moveConnectionToDeleteQueueNolock c.id_)) x .queue := by
      refine .of_others (fun q y hy => ?_) (fun q => ?_)
      · rw [hrefs]
        constructor
        · rintro (⟨h, -⟩ | ⟨-, h⟩)
          · exact h
          · exact absurd h hy
        · intro h
          refine Or.inl ⟨h, ?_⟩
          rintro rfl
          rw [Owns, hfind, Option.some.injEq] at h
          exact hy h.symm
      · rw [hrefs]
        constructor
        · rintro (⟨h, hne⟩ | ⟨h, -⟩)
          · exact absurd (hI.exclusive x q _ h hpool) hne
          · exact h
        · intro h
          exact Or.inr ⟨h, rfl⟩
    have hnodup : (s.moveConnectionToDeleteQueueNolock c.id_).connections_to_delete_.Nodup := by
      unfold State.moveConnectionToDeleteQueueNolock
      rw [hfind, List.nodup_append]
      refine ⟨hI.nodup, by simp, fun y hy z hz => ?_⟩
      rw [List.mem_singleton] at hz
      rintro rfl
      subst hz
      exact absurd (hI.exclusive _ .queue _ hy hpool) (by simp)
    refine hI.relocate hmove hnodup (fun y _ => by simp [tag]) ?_ (by simp) (fun y _ => huse y) ?_ ?_
    · obtain ⟨cx, hcx, hlive⟩ := hI.referred _ _ hpool
      exact ⟨cx, by rw [move_heap, hcx], hlive⟩
    · intro c' _ hc' y cy hy huy hcy heq
      rw [move_heap] at hc'
      exact hy (hI.distinct y x cy c' huy ho hcy hc' heq)
    · intro y hy
      rw [move_stopper] at hy
      exact absurd hy (hst y)

/-- `Server::stop` goes on, without an object in its hands. -/
theorem Inv.setStopper {s : State A E} (hI : Inv s) {r : Bool} {st : StopPc}
    (hst : ∀ x, st ≠ .moving x) : Inv { s with running_ := r, stopper := st } := by
  refine hI.frame (fun p o => ?_) rfl (fun _ => rfl) (fun _ hx => hx) (fun x hx => ?_)
  · cases p <;> rfl
  · exact absurd hx (hst x)

/-- Only queued objects are deleted, and the queue is the only place that refers to them. -/
theorem inv_sweep {s : State A E} (hI : Inv s) : Inv s.processSheduledConnectionDelete := by
  have hrefs : ∀ p o, Owns s.processSheduledConnectionDelete p o ↔
      Owns s p o ∧ p ≠ .queue := by
    rintro (id | _ | a) o
    · simp [Owns, State.processSheduledConnectionDelete]
    · simp [Owns, State.processSheduledConnectionDelete]
    · simp [Owns, State.processSheduledConnectionDelete]
  have hunqueued : ∀ p o, Owns s p o → p ≠ .queue → o ∉ s.connections_to_delete_ := by
    intro p o h hp ho
    exact hp (hI.exclusive o p .queue h ho)
  have hheap : ∀ o c', s.processSheduledConnectionDelete.heap o = some c' →
      ∃ c, s.heap o = some c ∧ c'.id_ = c.id_ ∧
        c'.live = if o ∈ s.connections_to_delete_ then false else c.live := by
    intro o c' hc'
    simp only [State.processSheduledConnectionDelete] at hc'
    split_ifs at hc' with ho
    · obtain ⟨c, hc, rfl⟩ := Option.map_eq_some_iff.mp hc'
      exact ⟨c, hc, rfl, by simp [ho, Connection.delete]⟩
    · exact ⟨c', hc', rfl, by simp [ho]⟩
  have hkept : ∀ o, o ∉ s.connections_to_delete_ →
      s.processSheduledConnectionDelete.heap o = s.heap o := by
    intro o ho
    simp [State.processSheduledConnectionDelete, ho]
  have huse : ∀ o, InUse s.processSheduledConnectionDelete o → InUse s o := fun o ho => ho
  constructor
  case exclusive => exact hI.exclusive.mono fun p o h => ((hrefs p o).mp h).1
  case nodup => exact List.nodup_nil
  case referred =>
    intro p o h
    obtain ⟨h, hp⟩ := (hrefs p o).mp h
    obtain ⟨c, hc, hlive⟩ := hI.referred p o h
    exact ⟨c, by rw [hkept o (hunqueued p o h hp), hc], hlive⟩
  case covers =>
    rintro o ⟨c', hc', hlive⟩
    obtain ⟨c, hc, -, hl⟩ := hheap o c' hc'
    rw [hlive] at hl
    split_ifs at hl with ho
    obtain ⟨p, hp⟩ := hI.covers o ⟨c, hc, hl.symm⟩
    refine ⟨p, (hrefs p o).mpr ⟨hp, ?_⟩⟩
    rintro rfl
    exact ho hp
  case keyed =>
    intro id o c' h hc'
    obtain ⟨c, hc, hid, -⟩ := hheap o c' hc'
    exact hid ▸ hI.keyed id o c ((hrefs _ o).mp h).1 hc
  case allocated =>
    intro o ho
    obtain ⟨c, hc⟩ := hI.allocated o (huse o ho)
    by_cases hq : o ∈ s.connections_to_delete_
    · exact ⟨c.delete, by simp [State.processSheduledConnectionDelete, hq, hc]⟩
    · exact ⟨c, by rw [hkept o hq, hc]⟩
  case distinct =>
    intro x y cx' cy' hx hy hcx' hcy' heq
    obtain ⟨cx, hcx, hidx, -⟩ := hheap x cx' hcx'
    obtain ⟨cy, hcy, hidy, -⟩ := hheap y cy' hcy'
    exact hI.distinct x y cx cy (huse x hx) (huse y hy) hcx hcy (by rw [← hidx, ← hidy, heq])
  case moving => exact hI.moving

theorem inv_new : Inv (State.new : State A E) := by
  have hnone : ∀ p o, ¬Owns (State.new : State A E) p o := by
    rintro (id | _ | a) o h
    · simp [Owns, State.new] at h
    · simp [Owns, State.new] at h
    · simp [Owns, State.new, AcceptorPc.holds] at h
  have huse : ∀ o, ¬InUse (State.new : State A E) o := by
    rintro o (⟨id, h⟩ | ⟨a, h | h⟩ | ⟨k, co, h, -⟩)
    · exact hnone (.pool id) o h
    · cases h
    · cases h
    · cases h
  constructor
  case exclusive => exact fun o p q hp _ => absurd hp (hnone p o)
  case nodup => exact List.nodup_nil
  case referred => exact fun p o hp => absurd hp (hnone p o)
  case covers =>
    rintro o ⟨c, hc, -⟩
    cases hc
  case keyed => exact fun id o c h => absurd h (hnone _ o)
  case allocated => exact fun o ho => absurd ho (huse o)
  case distinct => exact fun x y cx cy hx => absurd hx (huse x)
  case moving =>
    intro o h
    cases h

/-! ## Acceptors -/

variable [DecidableEq A] {idGen : E → Nat}

theorem owns_setAcceptor (s : State A E) {a : A} {pc : AcceptorPc E}
    (h : pc.holds = (s.acceptors a).holds) (p : Place A) (x : Nat) :
    Owns (s.setAcceptor a pc) p x ↔ Owns s p x := by
  cases p with
  | pool id => rfl
  | queue => rfl
  | acceptor b =>
    unfold Owns State.setAcceptor
    by_cases hb : b = a
    · subst hb
      simp [h]
    · simp [hb]

theorem inUse_setAcceptor {s : State A E} {a : A} {pc : AcceptorPc E} {x : Nat}
    (h : InUse (s.setAcceptor a pc) x) : InUse s x ∨ pc = .inserting x ∨ pc = .starting x := by
  rcases h with h | ⟨b, hb⟩ | h
  · exact Or.inl (Or.inl h)
  · unfold State.setAcceptor at hb
    by_cases hba : b = a
    · subst hba
      simp only [Function.update_self] at hb
      exact Or.inr hb
    · simp only [Function.update_of_ne hba] at hb
      exact Or.inl (Or.inr (Or.inl ⟨b, hb⟩))
  · exact Or.inl (Or.inr (Or.inr h))

/-- An acceptor goes on without taking or giving away an object. -/
theorem Inv.setAcceptor {s : State A E} (hI : Inv s) {a : A} {pc : AcceptorPc E}
    (hholds : pc.holds = (s.acceptors a).holds)
    (huse : ∀ x, pc = .inserting x ∨ pc = .starting x → InUse s x) :
    Inv (s.setAcceptor a pc) := by
  refine hI.frame (owns_setAcceptor s hholds) rfl (fun _ => rfl) (fun o ho => ?_) hI.moving
  rcases inUse_setAcceptor ho with h | h
  · exact h
  · exact huse o h

theorem inv_check {s s' : State A E} {a : A} (hI : Inv s)
    (h : next idGen s (.check a) = some s') : Inv s' := by
  obtain ⟨hpc, rfl⟩ := next_check h
  refine hI.setAcceptor ?_ ?_
  · rw [hpc]
    split_ifs <;> rfl
  · intro x hx
    split_ifs at hx <;> simp at hx

theorem inv_acceptFails {s s' : State A E} {a : A} (hI : Inv s)
    (h : next idGen s (.acceptFails a) = some s') : Inv s' := by
  simp only [next] at h
  split at h
  · next hpc =>
    cases h
    exact hI.setAcceptor (by rw [hpc]; rfl) (by simp)
  · cases h

/-- Popping an object hands it over from the queue to the acceptor. -/
theorem inv_accept {s s' : State A E} {a : A} {socket : E} (hI : Inv s)
    (h : next idGen s (.accept a socket) = some s') : Inv s' := by
  simp only [next] at h
  split at h
  swap
  · cases h
  next hpc =>
  split at h
  · next conn rest hq =>
    cases h
    have hnd : conn ∉ rest ∧ rest.Nodup := by
      have h := hI.nodup
      rwa [hq, List.nodup_cons] at h
    have hconn : Owns s .queue conn := by
      show conn ∈ s.connections_to_delete_
      rw [hq]
      exact List.mem_cons_self
    refine hI.relocate (p := .acceptor a) (.of_others ?_ ?_) hnd.2 (fun _ _ => rfl)
      (hI.referred _ _ hconn) (by simp) ?_ ?_ hI.moving
    · rintro (id | _ | b) x hx
      · rfl
      · simp [Owns, State.setAcceptor, hq, hx]
      · by_cases hb : b = a
        · subst hb
          simp [Owns, State.setAcceptor, hpc, AcceptorPc.holds, Ne.symm hx]
        · simp [Owns, State.setAcceptor, hb]
    · rintro (id | _ | b)
      · simp only [reduceCtorEq, iff_false]
        intro h
        exact absurd (hI.exclusive conn (.pool id) .queue h hconn) (by simp)
      · simp [Owns, State.setAcceptor, hnd.1]
      · by_cases hb : b = a
        · subst hb
          simp [Owns, State.setAcceptor, AcceptorPc.holds]
        · simp only [Place.acceptor.injEq, hb, iff_false]
          intro h
          have h' : Owns s (.acceptor b) conn := by
            simpa [Owns, State.setAcceptor, hb] using h
          exact absurd (hI.exclusive conn (.acceptor b) .queue h' hconn) (by simp)
    · intro x _ hx
      rcases inUse_setAcceptor hx with h | h
      · exact h
      · simp at h
    · intro c hu hc x cx hx hux hcx heq
      rcases inUse_setAcceptor hu with h | h
      · exact hx (hI.distinct x conn cx c hux h hcx hc heq)
      · simp at h
  · cases h
    exact hI.setAcceptor (by rw [hpc]; rfl) (by simp)

/-- `reinit` leaves the object with the acceptor; its new id is that of the socket. -/
theorem inv_reinit {s s' : State A E} {a : A} (hI : Inv s) (hok : AcceptsFresh idGen s (.reinit a))
    (h : next idGen s (.reinit a) = some s') : Inv s' := by
  simp only [next] at h
  split at h
  swap
  · cases h
  next socket conn hpc =>
  cases h
  have hconn : Owns s (.acceptor a) conn := by
    show (s.acceptors a).holds = some conn
    rw [hpc]
    rfl
  obtain ⟨c, hc, hlive⟩ := hI.referred _ _ hconn
  have hheap : ((s.modify conn fun c => c.reinit idGen socket).setAcceptor a
      (.inserting conn)).heap conn = some (c.reinit idGen socket) := by
    simp [State.setAcceptor, State.modify, hc]
  refine hI.relocate (p := .acceptor a) (.of_others ?_ ?_) hI.nodup ?_ ⟨_, hheap, hlive⟩ (by simp)
    ?_ ?_ ?_
  · intro q x hx
    rw [owns_setAcceptor _ (by simp [State.modify, hpc, AcceptorPc.holds]), owns_modify]
  · intro q
    rw [owns_setAcceptor _ (by simp [State.modify, hpc, AcceptorPc.holds]), owns_modify]
    constructor
    · intro h
      exact hI.exclusive conn q _ h hconn
    · rintro rfl
      exact hconn
  · intro x hx
    simp [tag, State.setAcceptor, State.modify, hx]
  · intro x hx hux
    rcases inUse_setAcceptor hux with h | h
    · exact h
    · simp [Ne.symm hx] at h
  · intro c' _ hc' x cx hx hux hcx
    rw [hheap, Option.some.injEq] at hc'
    subst hc'
    exact hok socket conn hpc x cx hx hux hcx
  · intro x hx
    obtain ⟨id, h⟩ := hI.moving x hx
    exact ⟨id, h⟩

/-- A new object belongs to the acceptor that created it. -/
theorem inv_create {s s' : State A E} {a : A} {conn : Nat} (hI : Inv s)
    (hok : AcceptsFresh idGen s (.create a conn))
    (h : next idGen s (.create a conn) = some s') : Inv s' := by
  simp only [next] at h
  split at h
  swap
  · cases h
  next socket hpc hnone =>
  cases h
  have hnew : ∀ p, ¬Owns s p conn := by
    intro p hp
    obtain ⟨c, hc, -⟩ := hI.referred p conn hp
    rw [hnone] at hc
    cases hc
  have hlive : Live ({ s with heap := Function.update s.heap conn (some (.new idGen socket))
      }.setAcceptor a (.inserting conn)) conn :=
    ⟨.new idGen socket, by simp [State.setAcceptor], rfl⟩
  refine hI.relocate (p := .acceptor a) (.of_others ?_ ?_) hI.nodup ?_ hlive (by simp) ?_ ?_ ?_
  · rintro (id | _ | b) x hx
    · rfl
    · rfl
    · by_cases hb : b = a
      · subst hb
        simp [Owns, State.setAcceptor, hpc, AcceptorPc.holds, Ne.symm hx]
      · simp [Owns, State.setAcceptor, hb]
  · rintro (id | _ | b)
    · exact iff_of_false (hnew (.pool id)) (by simp)
    · exact iff_of_false (hnew .queue) (by simp)
    · by_cases hb : b = a
      · subst hb
        simp [Owns, State.setAcceptor, AcceptorPc.holds]
      · have := hnew (.acceptor b)
        simp only [Owns] at this
        simp [Owns, State.setAcceptor, hb, this]
  · intro x hx
    simp [tag, State.setAcceptor, hx]
  · intro x hx hux
    rcases inUse_setAcceptor hux with h | h
    · exact h
    · simp [Ne.symm hx] at h
  · intro c' _ hc' x cx hx hux hcx
    simp only [State.setAcceptor, Function.update_self, Option.some.injEq] at hc'
    subst hc'
    exact hok socket hpc x cx hx hux hcx
  · intro x hx
    obtain ⟨id, h⟩ := hI.moving x hx
    exact ⟨id, h⟩

/-- Insertion hands the object over to the pool. No other object is there under its id. -/
theorem inv_insert {s s' : State A E} {a : A} (hI : Inv s)
    (h : next idGen s (.insert a) = some s') : Inv s' := by
  simp only [next] at h
  split at h
  swap
  · cases h
  next conn hpc =>
  split at h
  swap
  · cases h
  next c hc =>
  split_ifs at h with hlock
  cases h
  have hconn : Owns s (.acceptor a) conn := by
    show (s.acceptors a).holds = some conn
    rw [hpc]
    rfl
  have huseconn : InUse s conn := Or.inr (Or.inl ⟨a, Or.inl hpc⟩)
  have hempty : ∀ x, x ≠ conn → AssocMap.find s.connection_pool_ c.id_ ≠ some x := by
    intro x hx h
    obtain ⟨cx, hcx, -⟩ := hI.referred (.pool c.id_) x h
    exact hx (hI.distinct x conn cx c (Or.inl ⟨_, h⟩) huseconn hcx hc (hI.keyed _ x cx h hcx))
  have hout : ∀ id, AssocMap.find s.connection_pool_ id ≠ some conn := by
    intro id h
    exact absurd (hI.exclusive conn (.pool id) _ h hconn) (by simp)
  have huse : ∀ x, InUse ({ s with connection_pool_ := AssocMap.assign s.connection_pool_ c.id_ conn
      }.setAcceptor a (.starting conn)) x → InUse s x := by
    intro x hux
    rcases inUse_setAcceptor hux with (⟨id, h⟩ | h) | h
    · simp only [AssocMap.find_assign] at h
      split_ifs at h
      · cases h
        exact huseconn
      · exact Or.inl ⟨id, h⟩
    · exact Or.inr h
    · simp only [reduceCtorEq, AcceptorPc.starting.injEq, false_or] at h
      exact h ▸ huseconn
  refine hI.relocate (p := .pool c.id_) (.of_others ?_ ?_) hI.nodup (fun _ _ => rfl)
    (hI.referred _ _ hconn) ?_ (fun x _ => huse x) ?_ ?_
  · rintro (id | _ | b) x hx
    · simp only [Owns, State.setAcceptor, AssocMap.find_assign]
      by_cases hid : id = c.id_
      · subst hid
        simp [Ne.symm hx, hempty x hx]
      · simp [hid]
    · rfl
    · by_cases hb : b = a
      · subst hb
        simp [Owns, State.setAcceptor, hpc, AcceptorPc.holds, Ne.symm hx]
      · simp [Owns, State.setAcceptor, hb]
  · rintro (id | _ | b)
    · simp only [Owns, State.setAcceptor, AssocMap.find_assign, Place.pool.injEq]
      by_cases hid : id = c.id_
      · simp [hid]
      · simp [hid, hout id]
    · simp only [reduceCtorEq, iff_false]
      intro h
      exact absurd (hI.exclusive conn .queue _ h hconn) (by simp)
    · simp only [reduceCtorEq, iff_false]
      by_cases hb : b = a
      · subst hb
        simp [Owns, State.setAcceptor, AcceptorPc.holds]
      · intro h
        have h' : Owns s (.acceptor b) conn := by
          simpa [Owns, State.setAcceptor, hb] using h
        have := hI.exclusive conn _ _ h' hconn
        rw [Place.acceptor.injEq] at this
        exact hb this
  · intro id c' hp hc'
    rw [Place.pool.injEq] at hp
    rw [show s.heap conn = some c' from hc', Option.some.injEq] at hc
    rw [hc, hp]
  · intro c' hu hc' x cx hx hux hcx heq
    exact hx (hI.distinct x conn cx c' hux (huse conn hu) hcx hc' heq)
  · intro x hx
    -- the pool is not locked, so `Server::stop` is not moving anything
    rw [show s.stopper = .moving x from hx] at hlock
    exact absurd rfl hlock

theorem inv_start {s s' : State A E} {a : A} {k : Nat} (hI : Inv s)
    (h : next idGen s (.start a k) = some s') : Inv s' := by
  simp only [next] at h
  split at h
  swap
  · cases h
  next conn hpc hnone =>
  cases h
  refine hI.frame ?_ rfl ?_ ?_ hI.moving
  · intro p o
    rw [owns_setAcceptor, owns_setCoroutine, owns_modify]
    simp [State.setCoroutine, State.modify, hpc, AcceptorPc.holds]
  · intro o
    exact tag_modify s conn o (fun c => ⟨rfl, rfl⟩)
  · intro o ho
    rcases inUse_setAcceptor ho with ho | ho
    · rcases inUse_setCoroutine ho with ho | ⟨rfl, -⟩
      · exact ho
      · exact Or.inr (Or.inl ⟨a, Or.inr hpc⟩)
    · simp at ho

/-! ## Coroutines -/

theorem inv_serve {s s' : State A E} {k : Nat} (hI : Inv s)
    (h : next idGen s (.serve k) = some s') : Inv s' := by
  simp only [next] at h
  split at h
  swap
  · cases h
  split at h
  swap
  · cases h
  split_ifs at h
  cases h
  exact hI.modify _ fun c => ⟨rfl, rfl⟩

theorem inv_leave {s s' : State A E} {k : Nat} (hI : Inv s)
    (h : next idGen s (.leave k) = some s') : Inv s' := by
  simp only [next] at h
  split at h
  swap
  · cases h
  next co hco =>
  split_ifs at h with hpc
  cases h
  exact hI.setCoroutine hco fun _ => Or.inl hpc

theorem inv_kill {s s' : State A E} {k : Nat} (hI : Inv s)
    (h : next idGen s (.kill k) = some s') : Inv s' := by
  simp only [next] at h
  split at h
  swap
  · cases h
  next co hco =>
  obtain ⟨c, hc, h⟩ := Option.bind_eq_some_iff.mp h
  unfold killStep at h
  split at h
  · next hpc =>
    cases h
    exact hI.setCoroutine hco fun _ => Or.inr (Or.inl hpc)
  · next hpc =>
    cases h
    exact (hI.modify co.conn (f := .stop) fun c => ⟨rfl, rfl⟩).setCoroutine hco
      fun _ => Or.inr (Or.inr (Or.inl hpc))
  · next hpc =>
    split_ifs at h with hlock
    cases h
    have huse : InUse s co.conn :=
      Or.inr (Or.inr ⟨k, co, hco, rfl, Or.inr (Or.inr (Or.inr hpc))⟩)
    have hst : ∀ x, s.stopper ≠ .moving x := by
      intro x hx
      rw [hx] at hlock
      exact hlock rfl
    refine (hI.move huse hc hst).setCoroutine (by simpa using hco) ?_
    rintro (h | h | h | h) <;> cases h
  · next hpc =>
    cases h
    refine (hI.modify co.conn (f := fun c => { c with deletion_sheduled_ := true })
      fun c => ⟨rfl, rfl⟩).setCoroutine hco ?_
    rintro (h | h | h | h) <;> cases h
  · cases h

theorem inv_stopNext {s s' : State A E} {id : Nat} (hI : Inv s)
    (h : next idGen s (.stopNext id) = some s') : Inv s' := by
  simp only [next] at h
  split at h
  swap
  · cases h
  next conn hst hfind =>
  cases h
  refine (hI.modify conn (f := .stop) fun c => ⟨rfl, rfl⟩).frame (fun p o => ?_) rfl (fun _ => rfl)
    (fun _ hx => hx) (fun x hx => ?_)
  · cases p <;> rfl
  · cases hx
    exact ⟨id, hfind⟩

theorem inv_stopMove {s s' : State A E} (hI : Inv s)
    (h : next idGen s .stopMove = some s') : Inv s' := by
  simp only [next] at h
  split at h
  swap
  · cases h
  next conn hst =>
  obtain ⟨c, hc, rfl⟩ := Option.map_eq_some_iff.mp h
  have huse : InUse s conn := Or.inl (hI.moving conn hst)
  -- `stop` lets go of the object first; the move then is that of any object in use
  have hI' : Inv { s with running_ := s.running_, stopper := .draining } :=
    hI.setStopper (by simp)
  have hmoved := hI'.move (o := conn) huse hc (by simp)
  unfold State.moveConnectionToDeleteQueueNolock at hmoved ⊢
  revert hmoved
  cases AssocMap.find s.connection_pool_ c.id_ <;> exact id

/-- Every step keeps the invariant, when the accepted sockets are fresh. -/
theorem inv_step {s s' : State A E} {act : Act A E} (hI : Inv s) (h : next idGen s act = some s')
    (hok : AcceptsFresh idGen s act) : Inv s' := by
  cases act with
  | check a => exact inv_check hI h
  | acceptFails a => exact inv_acceptFails hI h
  | accept a socket => exact inv_accept hI h
  | reinit a => exact inv_reinit hI hok h
  | create a conn => exact inv_create hI hok h
  | insert a => exact inv_insert hI h
  | start a k => exact inv_start hI h
  | serve k => exact inv_serve hI h
  | leave k => exact inv_leave hI h
  | kill k => exact inv_kill hI h
  | sweep =>
    simp only [next, Option.some.injEq] at h
    exact h ▸ inv_sweep hI
  | stopCall =>
    simp only [next] at h
    split_ifs at h
    cases h
    exact hI.setStopper (by simp)
  | stopLock =>
    simp only [next] at h
    split_ifs at h
    cases h
    exact hI.setStopper (r := s.running_) (by simp)
  | stopNext id => exact inv_stopNext hI h
  | stopMove => exact inv_stopMove hI h
  | stopUnlock =>
    simp only [next] at h
    split_ifs at h
    cases h
    exact hI.setStopper (r := s.running_) (by simp)

/-! ## Objects that an acceptor is about to start -/

/-- An object that an acceptor is about to start is in the pool, where nobody else takes it. -/
structure Handed (s : State A E) : Prop where
  pooled : ∀ a o, s.acceptors a = .starting o → Pooled s o
  once : ∀ a b o, s.acceptors a = .starting o → s.acceptors b = .starting o → a = b
  moving : ∀ o, s.stopper = .moving o → ∀ a, s.acceptors a ≠ .starting o

omit [DecidableEq A] in
/-- A step after which the acceptors start no other objects than before, and the pool has these. -/
theorem Handed.frame {s s' : State A E} (hH : Handed s)
    (hstart : ∀ a o, s'.acceptors a = .starting o →
      s.acceptors a = .starting o ∧ (Pooled s o → Pooled s' o))
    (hstop : ∀ o, s'.stopper = .moving o → ∀ a, s'.acceptors a ≠ .starting o) : Handed s' where
  pooled := by
    intro a o ha
    obtain ⟨ha, hpool⟩ := hstart a o ha
    exact hpool (hH.pooled a o ha)
  once := fun a b o ha hb => hH.once a b o (hstart a o ha).1 (hstart b o hb).1
  moving := hstop

omit [DecidableEq A] in
/-- A step that leaves the acceptors and the pool alone. -/
theorem Handed.congr {s s' : State A E} (hH : Handed s) (hacc : s'.acceptors = s.acceptors)
    (hpool : s'.connection_pool_ = s.connection_pool_)
    (hstop : ∀ o, s'.stopper = .moving o → s.stopper = .moving o) : Handed s' := by
  refine hH.frame ?_ ?_
  · intro a o ha
    rw [hacc] at ha
    refine ⟨ha, fun ho => ?_⟩
    unfold Pooled at ho ⊢
    rwa [hpool]
  · intro o ho a
    rw [hacc]
    exact hH.moving o (hstop o ho) a

/-- An acceptor goes on, not to a start. -/
theorem Handed.setAcceptor {s s' : State A E} {a : A} {pc : AcceptorPc E} (hH : Handed s)
    (hacc : s'.acceptors = Function.update s.acceptors a pc) (hpc : ∀ o, pc ≠ .starting o)
    (hpool : s'.connection_pool_ = s.connection_pool_) (hstop : s'.stopper = s.stopper) :
    Handed s' := by
  have hkeep : ∀ b o, s'.acceptors b = .starting o → s.acceptors b = .starting o := by
    intro b o hb
    rw [hacc] at hb
    by_cases hba : b = a
    · subst hba
      rw [Function.update_self] at hb
      exact absurd hb (hpc o)
    · rwa [Function.update_of_ne hba] at hb
  refine hH.frame ?_ ?_
  · intro b o hb
    refine ⟨hkeep b o hb, fun ho => ?_⟩
    unfold Pooled at ho ⊢
    rwa [hpool]
  · intro o ho b hb
    rw [hstop] at ho
    exact hH.moving o ho b (hkeep b o hb)

omit [DecidableEq A] in
/-- Moving the pool's entry of an object that no acceptor is about to start. -/
theorem Handed.move {s : State A E} (hH : Handed s) (hI : Inv s) {o : Nat} {c : Connection E}
    (ho : InUse s o) (hc : s.heap o = some c) (hstart : ∀ a, s.acceptors a ≠ .starting o)
    (hst : ∀ x, s.stopper ≠ .moving x) : Handed (s.moveConnectionToDeleteQueueNolock c.id_) := by
  refine hH.frame ?_ ?_
  · intro a x ha
    rw [move_acceptors] at ha
    refine ⟨ha, ?_⟩
    rintro ⟨id, hid⟩
    cases hfind : AssocMap.find s.connection_pool_ c.id_ with
    | none => exact (move_of_find_none hfind).symm ▸ ⟨id, hid⟩
    | some y =>
      obtain rfl := hI.find_id ho hc hfind
      refine ⟨id, (owns_move hfind (.pool id) x).mpr (Or.inl ⟨hid, ?_⟩)⟩
      rintro heq
      obtain rfl := Place.pool.inj heq
      rw [hfind, Option.some.injEq] at hid
      subst hid
      exact hstart a ha
  · intro x hx
    rw [move_stopper] at hx
    exact absurd hx (hst x)

/-- The object that an acceptor inserts was its own, so no other acceptor is about to start it, and
the pool has none under its id. -/
theorem handed_insert {s s' : State A E} {a : A} (hI : Inv s) (hH : Handed s)
    (h : next idGen s (.insert a) = some s') : Handed s' := by
  simp only [next] at h
  split at h
  swap
  · cases h
  next conn hpc =>
  split at h
  swap
  · cases h
  next c hc =>
  split_ifs at h with hlock
  cases h
  have hconn : Owns s (.acceptor a) conn := by
    show (s.acceptors a).holds = some conn
    rw [hpc]
    rfl
  have hunpooled : ¬Pooled s conn := by
    rintro ⟨id, hid⟩
    exact absurd (hI.exclusive conn (.pool id) _ hid hconn) (by simp)
  have huse : InUse s conn := Or.inr (Or.inl ⟨a, Or.inl hpc⟩)
  have hcases : ∀ b o, Function.update s.acceptors a (.starting conn) b = .starting o →
      (b = a ∧ o = conn) ∨ (b ≠ a ∧ s.acceptors b = .starting o ∧ o ≠ conn) := by
    intro b o hb
    by_cases hba : b = a
    · subst hba
      rw [Function.update_self] at hb
      exact Or.inl ⟨rfl, (AcceptorPc.starting.inj hb).symm⟩
    · rw [Function.update_of_ne hba] at hb
      refine Or.inr ⟨hba, hb, ?_⟩
      rintro rfl
      exact hunpooled (hH.pooled b o hb)
  constructor
  case pooled =>
    intro b o hb
    rcases hcases b o hb with ⟨-, rfl⟩ | ⟨-, hb, hne⟩
    · exact ⟨c.id_, by simp [State.setAcceptor, AssocMap.find_assign]⟩
    · obtain ⟨id, hid⟩ := hH.pooled b o hb
      refine ⟨id, ?_⟩
      have hne' : id ≠ c.id_ := by
        rintro rfl
        exact hne (hI.find_id huse hc hid)
      simpa [State.setAcceptor, AssocMap.find_assign, hne'] using hid
  case once =>
    intro b b' o hb hb'
    rcases hcases b o hb with ⟨rfl, rfl⟩ | ⟨-, hb, hne⟩
    · rcases hcases b' o hb' with ⟨rfl, -⟩ | ⟨-, -, hne⟩
      · rfl
      · exact absurd rfl hne
    · rcases hcases b' o hb' with ⟨-, rfl⟩ | ⟨-, hb', -⟩
      · exact absurd rfl hne
      · exact hH.once b b' o hb hb'
  case moving =>
    intro o ho
    -- the pool is not locked, so `Server::stop` is not moving anything
    rw [show s.stopper = .moving o from ho] at hlock
    exact absurd rfl hlock

theorem handed_kill {s s' : State A E} {k : Nat} (hI : Inv s) (hH : Handed s)
    (hok : QueuesStarted s (.kill k)) (h : next idGen s (.kill k) = some s') : Handed s' := by
  simp only [next] at h
  split at h
  swap
  · cases h
  next co hco =>
  obtain ⟨c, hc, h⟩ := Option.bind_eq_some_iff.mp h
  unfold killStep at h
  split at h
  · cases h
    exact hH.congr rfl rfl fun _ ho => ho
  · cases h
    exact hH.congr rfl rfl fun _ ho => ho
  · next hpc =>
    split_ifs at h with hlock
    cases h
    have huse : InUse s co.conn :=
      Or.inr (Or.inr ⟨k, co, hco, rfl, Or.inr (Or.inr (Or.inr hpc))⟩)
    have hst : ∀ x, s.stopper ≠ .moving x := by
      intro x hx
      rw [hx] at hlock
      exact hlock rfl
    exact (hH.move hI huse hc (hok co hco hpc) hst).congr rfl rfl fun _ ho => ho
  · cases h
    exact hH.congr rfl rfl fun _ ho => ho
  · cases h

theorem handed_stopNext {s s' : State A E} {id : Nat} (hH : Handed s)
    (hok : QueuesStarted s (.stopNext id : Act A E))
    (h : next idGen s (.stopNext id) = some s') : Handed s' := by
  simp only [next] at h
  split at h
  swap
  · cases h
  next conn _ hfind =>
  cases h
  refine hH.frame (fun a o ha => ⟨ha, fun ho => ho⟩) ?_
  intro o ho
  obtain rfl := StopPc.moving.inj ho
  exact hok conn hfind

theorem handed_stopMove {s s' : State A E} (hI : Inv s) (hH : Handed s)
    (h : next idGen s .stopMove = some s') : Handed s' := by
  simp only [next] at h
  split at h
  swap
  · cases h
  next conn hst =>
  obtain ⟨c, hc, rfl⟩ := Option.map_eq_some_iff.mp h
  have huse : InUse s conn := Or.inl (hI.moving conn hst)
  -- as in `inv_stopMove`, `stop` lets go of the object first
  have hI' : Inv { s with running_ := s.running_, stopper := .draining } :=
    hI.setStopper (by simp)
  have hH' : Handed { s with running_ := s.running_, stopper := .draining } :=
    hH.congr rfl rfl (by simp)
  have hmoved := hH'.move hI' (o := conn) huse hc (hH.moving conn hst) (by simp)
  unfold State.moveConnectionToDeleteQueueNolock at hmoved ⊢
  revert hmoved
  cases AssocMap.find s.connection_pool_ c.id_ <;> exact id

omit [DecidableEq A] in
theorem handed_new : Handed (State.new : State A E) where
  pooled := by
    intro a o h
    cases h
  once := by
    intro a b o h
    cases h
  moving := by
    intro o h
    cases h

/-- No step that keeps the identities apart takes an object away from an acceptor that is about to
start it. -/
theorem handed_step {s s' : State A E} {act : Act A E} (hI : Inv s) (hH : Handed s)
    (h : next idGen s act = some s') (hok : QueuesStarted s act) : Handed s' := by
  cases act with
  | insert a => exact handed_insert hI hH h
  | kill k => exact handed_kill hI hH hok h
  | stopNext id => exact handed_stopNext hH hok h
  | stopMove => exact handed_stopMove hI hH h
  | check a =>
    obtain ⟨-, rfl⟩ := next_check h
    refine hH.setAcceptor rfl ?_ rfl rfl
    intro o
    split_ifs <;> simp
  | acceptFails a =>
    simp only [next] at h
    split at h
    · cases h
      exact hH.setAcceptor rfl (by simp) rfl rfl
    · cases h
  | accept a socket =>
    simp only [next] at h
    split at h
    · split at h
      · cases h
        exact hH.setAcceptor rfl (by simp) rfl rfl
      · cases h
        exact hH.setAcceptor rfl (by simp) rfl rfl
    · cases h
  | reinit a =>
    simp only [next] at h
    split at h
    · cases h
      exact hH.setAcceptor rfl (by simp) rfl rfl
    · cases h
  | create a conn =>
    simp only [next] at h
    split at h
    · cases h
      exact hH.setAcceptor rfl (by simp) rfl rfl
    · cases h
  | start a k =>
    simp only [next] at h
    split at h
    · cases h
      exact hH.setAcceptor rfl (by simp) rfl rfl
    · cases h
  | serve k =>
    simp only [next] at h
    split at h
    · split at h
      · split_ifs at h
        cases h
        exact hH.congr rfl rfl fun _ ho => ho
      · cases h
    · cases h
  | leave k =>
    simp only [next] at h
    split at h
    · split_ifs at h
      cases h
      exact hH.congr rfl rfl fun _ ho => ho
    · cases h
  | sweep =>
    cases h
    exact hH.congr rfl rfl fun _ ho => ho
  | stopCall =>
    simp only [next] at h
    split_ifs at h
    cases h
    exact hH.congr rfl rfl (by simp)
  | stopLock =>
    simp only [next] at h
    split_ifs at h
    cases h
    exact hH.congr rfl rfl (by simp)
  | stopUnlock =>
    simp only [next] at h
    split_ifs at h
    cases h
    exact hH.congr rfl rfl (by simp)

/-! ## The bookkeeping -/

/-- What an acceptor's variable refers to is the acceptor's, unless it is about to start it. -/
theorem AcceptorPc.conn_eq_some {pc : AcceptorPc E} {o : Nat} :
    pc.conn = some o ↔ pc.holds = some o ∨ pc = .starting o := by
  cases pc <;> simp [AcceptorPc.conn, AcceptorPc.holds]

omit [DecidableEq A] in
/-- As long as the pool has what the acceptors start, a place refers to what it has. -/
theorem Handed.refersTo_iff {s : State A E} (hH : Handed s) (p : Place A) (o : Nat) :
    RefersTo s p o ↔ Owns s p o := by
  cases p with
  | pool id => rfl
  | queue => rfl
  | acceptor a =>
    simp only [RefersTo, Owns, AcceptorPc.conn_eq_some]
    constructor
    · rintro ⟨h | h, hpool⟩
      · exact h
      · exact absurd (hH.pooled a o h) (hpool h)
    · intro h
      refine ⟨Or.inl h, fun hstart => ?_⟩
      rw [hstart] at h
      cases h

omit [DecidableEq A] in
theorem variables_apart {s : State A E} (hI : Inv s) (hH : Handed s) {a b : A} {o : Nat}
    (ha : (s.acceptors a).conn = some o) (hb : (s.acceptors b).conn = some o) : a = b := by
  have hmixed : ∀ {a b : A}, (s.acceptors a).holds = some o → s.acceptors b ≠ .starting o := by
    intro a b ha hb
    obtain ⟨id, hid⟩ := hH.pooled b o hb
    exact absurd (hI.exclusive o (.acceptor a) (.pool id) ha hid) (by simp)
  rcases AcceptorPc.conn_eq_some.mp ha with ha | ha
  · rcases AcceptorPc.conn_eq_some.mp hb with hb | hb
    · exact Place.acceptor.inj (hI.exclusive o (.acceptor a) (.acceptor b) ha hb)
    · exact absurd hb (hmixed ha)
  · rcases AcceptorPc.conn_eq_some.mp hb with hb | hb
    · exact absurd ha (hmixed hb)
    · exact hH.once a b o ha hb

/-- A connection's `schedule_connection_delete` moves this connection only. -/
theorem Inv.schedulesItself {s s' : State A E} (hI : Inv s) {k : Nat} {co : Coroutine}
    (hco : s.coroutines k = some co) (hpc : co.pc = .killSchedule)
    (h : next idGen s (.kill k) = some s') :
    (∀ o, MovedFromPool s s' o → o = co.conn) ∧
    (Pooled s co.conn → MovedFromPool s s' co.conn ∧ RefersTo s' .queue co.conn) := by
  simp only [next, hco] at h
  obtain ⟨c, hc, h⟩ := Option.bind_eq_some_iff.mp h
  simp only [killStep, hpc] at h
  split_ifs at h
  cases h
  have huse : InUse s co.conn :=
    Or.inr (Or.inr ⟨k, co, hco, rfl, Or.inr (Or.inr (Or.inr hpc))⟩)
  constructor
  · rintro o ⟨⟨id, ho⟩, hgone⟩
    by_contra hne
    refine hgone ⟨id, ?_⟩
    cases hfind : AssocMap.find s.connection_pool_ c.id_ with
    | none => exact (move_of_find_none hfind).symm ▸ ho
    | some x =>
      obtain rfl := hI.find_id huse hc hfind
      refine (owns_move hfind (.pool id) o).mpr (Or.inl ⟨ho, ?_⟩)
      rintro hid
      rw [Place.pool.inj hid, hfind, Option.some.injEq] at ho
      exact hne ho.symm
  · rintro ⟨id, hid⟩
    have hfind : AssocMap.find s.connection_pool_ c.id_ = some co.conn := by
      rw [hI.keyed id co.conn c hid hc]
      exact hid
    refine ⟨⟨⟨id, hid⟩, ?_⟩, (owns_move hfind .queue co.conn).mpr (Or.inr ⟨rfl, rfl⟩)⟩
    rintro ⟨id', h'⟩
    rcases (owns_move hfind (.pool id') co.conn).mp h' with ⟨h', hne⟩ | ⟨hp, -⟩
    · exact hne (hI.exclusive _ _ _ h' hfind)
    · cases hp

theorem identitiesApart {s : State A E} (hI : Inv s) (hH : Handed s) : IdentitiesApart idGen s where
  once := by
    refine fun o _ => ⟨List.nodup_iff_count_le_one.mp hI.nodup o, fun p q hp hq => ?_⟩
    exact hI.exclusive o p q ((hH.refersTo_iff p o).mp hp) ((hH.refersTo_iff q o).mp hq)
  variablesApart := fun _ _ _ _ ha hb => variables_apart hI hH ha hb
  keyed := fun id o c h hc _ => hI.keyed id o c h hc
  kept := by
    intro o ho _
    obtain ⟨p, hp⟩ := hI.covers o ho
    exact ⟨p, (hH.refersTo_iff p o).mpr hp⟩
  schedulesItself := fun _ _ _ hco hpc h => hI.schedulesItself hco hpc h

/-- In every run in which no accepted socket has the id of another object in use, and no object is
queued for deletion that an acceptor is about to start, the bookkeeping keeps the identities apart in
every state. -/
theorem identities_apart_of_fresh (idGen : E → Nat) {s : State A E}
    (h : Transition.Reachable ((system A idGen).restrict (KeepsApart idGen)) s) :
    IdentitiesApart idGen s := by
  have hinv : Inv s ∧ Handed s := by
    refine h.invariant (I := fun s => Inv s ∧ Handed s) ?_ ?_
    · intro s hs
      rw [show s = State.new from hs]
      exact ⟨inv_new, handed_new⟩
    · rintro s act s' ⟨hI, hH⟩ ht
      exact ⟨inv_step hI ht.1 ht.2.1, handed_step hI hH ht.1 ht.2.2⟩
  exact identitiesApart hinv.1 hinv.2

/-- A first connection is accepted, inserted and started. -/
theorem identities_apart_first_connection :
    ∃ s : State Unit Nat,
      Transition.run (next fun e => e) State.new
        [.check (), .accept () 7, .create () 0, .insert (), .start () 0] = some s ∧
      Started s 0 ∧ IdentitiesApart (fun e => e) s := by
  refine ⟨_, rfl, ⟨0, _, rfl, rfl⟩, identities_apart_of_fresh (fun e => e) ?_⟩
  refine Transition.reachable_restrict_run [.check (), .accept () 7, .create () 0, .insert (),
    .start () 0] (.init rfl) ?_ rfl
  have htrivial : True ∧ True := ⟨trivial, trivial⟩
  refine ⟨htrivial, htrivial, ⟨?_, trivial⟩, htrivial, htrivial, trivial⟩
  intro socket _ o c _ _ hc
  cases hc

/-- Connection `0` has closed its socket and not yet scheduled its deletion. A client connects from
the same endpoint; connection `1` takes the place of `0` in the pool, and the kill of `0` moves it
to the queue. -/
theorem kill_moves_newer_connection :
    ∃ s s' : State Unit Nat,
      Transition.Reachable (system Unit fun e => e) s ∧
      s.coroutines 0 = some { conn := 0, pc := .killSchedule } ∧
      next (fun e => e) s (.kill 0) = some s' ∧ MovedFromPool s s' 1 ∧
      ¬IdentitiesApart (fun e => e) s := by
  refine ⟨_, _, Transition.reachable_of_run
    [.check (), .accept () 7, .create () 0, .insert (), .start () 0, .leave 0, .kill 0, .kill 0,
      .check (), .accept () 7, .create () 1, .insert ()] rfl, rfl, rfl, ?_, ?_⟩
  · exact ⟨⟨7, rfl⟩, fun ⟨id, h⟩ => by cases h⟩
  · intro h
    have hmoved := (h.schedulesItself 0 _ _ rfl rfl rfl).1 1 ⟨⟨7, rfl⟩, fun ⟨id, h⟩ => by cases h⟩
    cases hmoved

end Http.Server

import ItexDemo.Http.Lifetime
import ItexDemo.Http.Proofs.ServerProofs

/-!
# Proofs: the lifetime of connections

On top of the bookkeeping of identities, a second invariant says which objects have no coroutine with
a step left: those that an acceptor has in its hands and those that are deleted. On a queued object a
coroutine has at most its last step left.
-/

namespace Http.Server

variable {A E : Type*}

/-- The object that an acceptor has in its hands, until it has started it. -/
def AcceptorPc.touches : AcceptorPc E → Option Nat
  | .reusing _ conn => some conn
  | .inserting conn => some conn
  | .starting conn => some conn
  | _ => none

theorem AcceptorPc.touches_cases {pc : AcceptorPc E} {o : Nat} (h : pc.touches = some o) :
    pc.holds = some o ∨ pc = .starting o := by
  cases pc with
  | reusing socket conn => exact .inl h
  | inserting conn => exact .inl h
  | starting conn => exact .inr (congrArg _ (Option.some.inj h))
  | _ => cases h

/-- A coroutine of the object has at most its last step left. -/
def AtEnd (s : State A E) (o : Nat) : Prop :=
  ∀ k co, s.coroutines k = some co → co.conn = o → co.pc = .killFlag ∨ co.pc = .done

theorem AtEnd.not_busy {s : State A E} {o : Nat} (h : AtEnd s o) (hflag : ¬Flagging s o) :
    ¬Busy s o := by
  rintro ⟨k, co, hco, ho, hne⟩
  rcases h k co hco ho with hpc | hpc
  · exact hflag ⟨k, co, hco, ho, hpc⟩
  · exact hne hpc

/-- Which objects are at rest. -/
structure Quiet (s : State A E) : Prop where
  queued : ∀ o ∈ s.connections_to_delete_, AtEnd s o
  touched : ∀ a o, (s.acceptors a).touches = some o → ¬Busy s o
  dead : ∀ o c, s.heap o = some c → c.live = false → ¬Busy s o
  single : ∀ k k' co co', s.coroutines k = some co → s.coroutines k' = some co' →
    co.conn = co'.conn → co.pc ≠ .done → co'.pc ≠ .done → k = k'
  allocated : ∀ k co, s.coroutines k = some co → ∃ c, s.heap co.conn = some c
  starting : ∀ a o, s.acceptors a = .starting o → ∃ id, Owns s (.pool id) o
  startingOnce : ∀ a b o, s.acceptors a = .starting o → s.acceptors b = .starting o → a = b
  stopper : ∀ o, s.stopper ≠ .moving o

theorem quiet_new : Quiet (State.new : State A E) := by
  have hbusy : ∀ o, ¬Busy (State.new : State A E) o := by
    rintro o ⟨k, co, hco, -⟩
    cases hco
  constructor
  case queued => exact fun o ho => (nomatch ho)
  case touched => exact fun a o _ => hbusy o
  case dead => exact fun o c _ _ => hbusy o
  case single => exact fun k k' co co' hco => (nomatch hco)
  case allocated => exact fun k co hco => (nomatch hco)
  case starting => exact fun a o h => (nomatch h)
  case startingOnce => exact fun a b o h => (nomatch h)
  case stopper => exact fun o h => (nomatch h)

/-- A step that leaves the coroutines alone. An object that it queues, hands to an acceptor or
deletes has to be at rest. -/
theorem Quiet.frame {s s' : State A E} (hQ : Quiet s) (hco : s'.coroutines = s.coroutines)
    (hqueue : ∀ o ∈ s'.connections_to_delete_, o ∈ s.connections_to_delete_ ∨ AtEnd s o)
    (htouched : ∀ a o, (s'.acceptors a).touches = some o →
      (s.acceptors a).touches = some o ∨ ¬Busy s o)
    (hdead : ∀ o c', s'.heap o = some c' → c'.live = false →
      (∃ c, s.heap o = some c ∧ c.live = false) ∨ ¬Busy s o)
    (halloc : ∀ o c, s.heap o = some c → ∃ c', s'.heap o = some c')
    (hstarting : ∀ a o, s'.acceptors a = .starting o → ∃ id, Owns s' (.pool id) o)
    (honce : ∀ a b o, s'.acceptors a = .starting o → s'.acceptors b = .starting o → a = b)
    (hstopper : ∀ o, s'.stopper ≠ .moving o) : Quiet s' := by
  have hbusy : ∀ o, Busy s' o → Busy s o := by
    rintro o ⟨k, co, hk, ho⟩
    exact ⟨k, co, hco ▸ hk, ho⟩
  constructor
  case queued =>
    intro o ho k co hk
    rcases hqueue o ho with h | h
    · exact hQ.queued o h k co (hco ▸ hk)
    · exact h k co (hco ▸ hk)
  case touched =>
    intro a o ho hb
    rcases htouched a o ho with h | h
    · exact hQ.touched a o h (hbusy o hb)
    · exact h (hbusy o hb)
  case dead =>
    intro o c' hc' hlive hb
    rcases hdead o c' hc' hlive with ⟨c, hc, hlive⟩ | h
    · exact hQ.dead o c hc hlive (hbusy o hb)
    · exact h (hbusy o hb)
  case single =>
    intro k k' co co' hk hk'
    exact hQ.single k k' co co' (hco ▸ hk) (hco ▸ hk')
  case allocated =>
    intro k co hk
    obtain ⟨c, hc⟩ := hQ.allocated k co (hco ▸ hk)
    exact halloc _ c hc
  case starting => exact hstarting
  case startingOnce => exact honce
  case stopper => exact hstopper

/-! ## Coroutines -/

theorem setCoroutine_cases {s : State A E} {k j : Nat} {co co' : Coroutine}
    (h : (s.setCoroutine k co).coroutines j = some co') :
    (j = k ∧ co' = co) ∨ (j ≠ k ∧ s.coroutines j = some co') := by
  have h : Function.update s.coroutines k (some co) j = some co' := h
  by_cases hjk : j = k
  · subst hjk
    rw [Function.update_self] at h
    exact .inl ⟨rfl, (Option.some.inj h).symm⟩
  · rw [Function.update_of_ne hjk] at h
    exact .inr ⟨hjk, h⟩

/-- A coroutine that has a step left goes on. On a queued object that step is its last one. -/
theorem Quiet.setCoroutine {s : State A E} (hQ : Quiet s) {k : Nat} {co : Coroutine} {pc : Pc}
    (hco : s.coroutines k = some co) (hpc : co.pc ≠ .done)
    (hqueue : co.conn ∈ s.connections_to_delete_ → pc = .killFlag ∨ pc = .done) :
    Quiet (s.setCoroutine k { co with pc := pc }) := by
  have hget : ∀ j co', (s.setCoroutine k { co with pc := pc }).coroutines j = some co' →
      ∃ co₀, s.coroutines j = some co₀ ∧ co₀.conn = co'.conn ∧ (co'.pc ≠ .done → co₀.pc ≠ .done) := by
    intro j co' hj
    rcases setCoroutine_cases hj with ⟨rfl, rfl⟩ | ⟨-, hj⟩
    · exact ⟨co, hco, rfl, fun _ => hpc⟩
    · exact ⟨co', hj, rfl, id⟩
  have hbusy : ∀ o, Busy (s.setCoroutine k { co with pc := pc }) o → Busy s o := by
    rintro o ⟨j, co', hj, ho, hne⟩
    obtain ⟨co₀, hj₀, hconn, hne₀⟩ := hget j co' hj
    exact ⟨j, co₀, hj₀, hconn.trans ho, hne₀ hne⟩
  constructor
  case queued =>
    intro o ho j co' hj hconn
    rcases setCoroutine_cases hj with ⟨rfl, rfl⟩ | ⟨-, hj⟩
    · subst hconn
      exact hqueue ho
    · exact hQ.queued o ho j co' hj hconn
  case touched => exact fun a o ho hb => hQ.touched a o ho (hbusy o hb)
  case dead => exact fun o c hc hlive hb => hQ.dead o c hc hlive (hbusy o hb)
  case single =>
    intro j j' co₁ co₂ hj hj' hconn hne₁ hne₂
    obtain ⟨co₁', hj₁, hconn₁, hne₁'⟩ := hget j co₁ hj
    obtain ⟨co₂', hj₂, hconn₂, hne₂'⟩ := hget j' co₂ hj'
    exact hQ.single j j' co₁' co₂' hj₁ hj₂ (by rw [hconn₁, hconn₂, hconn]) (hne₁' hne₁) (hne₂' hne₂)
  case allocated =>
    intro j co' hj
    obtain ⟨co₀, hj₀, hconn, -⟩ := hget j co' hj
    exact hconn ▸ hQ.allocated j co₀ hj₀
  case starting => exact hQ.starting
  case startingOnce => exact hQ.startingOnce
  case stopper => exact hQ.stopper

/-- A coroutine is started on a live object at rest that no one else has in his hands. -/
theorem Quiet.newCoroutine {s : State A E} (hQ : Quiet s) {k conn : Nat} {c : Connection E}
    (hc : s.heap conn = some c) (hlive : c.live = true) (hrest : ¬Busy s conn)
    (hqueue : conn ∉ s.connections_to_delete_)
    (htouched : ∀ a, (s.acceptors a).touches ≠ some conn) :
    Quiet (s.setCoroutine k { conn := conn, pc := .loop }) := by
  have hbusy : ∀ o, o ≠ conn → Busy (s.setCoroutine k { conn := conn, pc := .loop }) o →
      Busy s o := by
    rintro o ho ⟨j, co, hj, hconn, hne⟩
    rcases setCoroutine_cases hj with ⟨-, rfl⟩ | ⟨-, hj⟩
    · exact absurd hconn.symm ho
    · exact ⟨j, co, hj, hconn, hne⟩
  constructor
  case queued =>
    intro o ho j co hj hconn
    rcases setCoroutine_cases hj with ⟨-, rfl⟩ | ⟨-, hj⟩
    · subst hconn
      exact absurd ho hqueue
    · exact hQ.queued o ho j co hj hconn
  case touched =>
    intro a o ho hb
    have hne : o ≠ conn := by
      rintro rfl
      exact htouched a ho
    exact hQ.touched a o ho (hbusy o hne hb)
  case dead =>
    intro o c' hc' hl hb
    have hne : o ≠ conn := by
      rintro rfl
      obtain rfl : c = c' := Option.some.inj (hc.symm.trans hc')
      exact absurd (hlive.symm.trans hl) nofun
    exact hQ.dead o c' hc' hl (hbusy o hne hb)
  case single =>
    intro j j' co co' hj hj' hconn hne hne'
    rcases setCoroutine_cases hj with ⟨rfl, rfl⟩ | ⟨-, hold⟩
    · rcases setCoroutine_cases hj' with ⟨rfl, -⟩ | ⟨-, hold'⟩
      · rfl
      · exact absurd ⟨j', co', hold', hconn.symm, hne'⟩ hrest
    · rcases setCoroutine_cases hj' with ⟨rfl, rfl⟩ | ⟨-, hold'⟩
      · exact absurd ⟨j, co, hold, hconn, hne⟩ hrest
      · exact hQ.single j j' co co' hold hold' hconn hne hne'
  case allocated =>
    intro j co hj
    rcases setCoroutine_cases hj with ⟨-, rfl⟩ | ⟨-, hj⟩
    · exact ⟨c, hc⟩
    · exact hQ.allocated j co hj
  case starting => exact hQ.starting
  case startingOnce => exact hQ.startingOnce
  case stopper => exact hQ.stopper

theorem modify_heap_self (s : State A E) (o : Nat) (f : Connection E → Connection E) :
    (s.modify o f).heap o = (s.heap o).map f :=
  Function.update_self o _ _

theorem modify_heap_of_ne (s : State A E) {o x : Nat} (f : Connection E → Connection E)
    (h : o ≠ x) : (s.modify x f).heap o = s.heap o :=
  Function.update_of_ne h _ _

/-- An access to an object that leaves it alive or deleted. -/
theorem Quiet.modify {s : State A E} (hQ : Quiet s) (x : Nat) {f : Connection E → Connection E}
    (hf : ∀ c, (f c).live = c.live) : Quiet (s.modify x f) := by
  refine hQ.frame rfl (fun _ h => .inl h) (fun _ _ h => .inl h) (fun o c' hc' hlive => ?_)
    (fun o c hc => ?_) hQ.starting hQ.startingOnce hQ.stopper
  · by_cases ho : o = x
    · rw [ho, modify_heap_self] at hc'
      obtain ⟨c, hc, rfl⟩ := Option.map_eq_some_iff.mp hc'
      exact .inl ⟨c, ho ▸ hc, (hf c).symm.trans hlive⟩
    · rw [modify_heap_of_ne s f ho] at hc'
      exact .inl ⟨c', hc', hlive⟩
  · by_cases ho : o = x
    · subst ho
      exact ⟨f c, by rw [modify_heap_self, hc, Option.map_some]⟩
    · exact ⟨c, (modify_heap_of_ne s f ho).trans hc⟩

/-- An object whose coroutines have at most their last step left goes from the pool to the queue. -/
theorem Quiet.move {s : State A E} (hQ : Quiet s) {id : Nat}
    (hlast : ∀ o, AssocMap.find s.connection_pool_ id = some o → AtEnd s o)
    (hstarting : ∀ a o, s.acceptors a = .starting o → AssocMap.find s.connection_pool_ id ≠ some o) :
    Quiet (s.moveConnectionToDeleteQueueNolock id) := by
  cases hfind : AssocMap.find s.connection_pool_ id with
  | none =>
    rw [move_of_find_none hfind]
    exact hQ
  | some x =>
    refine hQ.frame (move_coroutines s id) (fun o ho => ?_) (fun a o ho => ?_)
      (fun o c hc hlive => ?_) (fun o c hc => ?_) (fun a o ho => ?_) ?_ ?_
    · rcases (owns_move hfind .queue o).mp ho with ⟨ho, -⟩ | ⟨-, rfl⟩
      · exact .inl ho
      · exact .inr (hlast o hfind)
    · rw [move_acceptors] at ho
      exact .inl ho
    · rw [move_heap] at hc
      exact .inl ⟨c, hc, hlive⟩
    · exact ⟨c, by rw [move_heap, hc]⟩
    · rw [move_acceptors] at ho
      obtain ⟨id', hpool⟩ := hQ.starting a o ho
      refine ⟨id', (owns_move hfind _ o).mpr (.inl ⟨hpool, fun hid => ?_⟩)⟩
      rw [hid] at hpool
      exact hstarting a o ho hpool
    · simpa using hQ.startingOnce
    · simpa using hQ.stopper

/-- A coroutine goes on with its next step. -/
theorem quiet_kill {s s' : State A E} [DecidableEq A] {idGen : E → Nat} {k : Nat} (hI : Inv s)
    (hQ : Quiet s) (h : next idGen s (.kill k) = some s') : Quiet s' := by
  simp only [next] at h
  split at h
  swap
  · cases h
  next co hco =>
  obtain ⟨c, hc, h⟩ := Option.bind_eq_some_iff.mp h
  have hnotQueued : co.pc ≠ .killFlag → co.pc ≠ .done → co.conn ∉ s.connections_to_delete_ := by
    intro hflag hdone hmem
    rcases hQ.queued co.conn hmem k co hco rfl with hpc | hpc
    · exact hflag hpc
    · exact hdone hpc
  unfold killStep at h
  split at h
  · next hpc =>
    cases h
    refine hQ.setCoroutine hco (by simp [hpc]) fun hmem => ?_
    exact absurd hmem (hnotQueued (by simp [hpc]) (by simp [hpc]))
  · next hpc =>
    cases h
    refine (hQ.modify co.conn (f := .stop) fun c => rfl).setCoroutine hco
      (by simp [hpc]) fun hmem => ?_
    exact absurd hmem (hnotQueued (by simp [hpc]) (by simp [hpc]))
  · next hpc =>
    split_ifs at h with hlock
    cases h
    have hdone : co.pc ≠ .done := by
      simp [hpc]
    have huse : InUse s co.conn :=
      .inr (.inr ⟨k, co, hco, rfl, .inr (.inr (.inr hpc))⟩)
    have hfirst : Quiet (s.setCoroutine k { co with pc := .killFlag }) :=
      hQ.setCoroutine hco hdone fun _ => .inl rfl
    have hcomm : (s.moveConnectionToDeleteQueueNolock c.id_).setCoroutine k
        { co with pc := .killFlag } =
          (s.setCoroutine k { co with pc := .killFlag }).moveConnectionToDeleteQueueNolock c.id_ := by
      have hpool : (s.setCoroutine k { co with pc := .killFlag }).connection_pool_ =
          s.connection_pool_ := rfl
      unfold State.moveConnectionToDeleteQueueNolock
      rw [hpool]
      cases AssocMap.find s.connection_pool_ c.id_ <;> rfl
    rw [hcomm]
    refine hfirst.move (fun o hfind j co' hj hconn => ?_) fun a o ho hfind => ?_
    · obtain rfl : o = co.conn := hI.find_id huse hc hfind
      rcases setCoroutine_cases hj with ⟨rfl, rfl⟩ | ⟨hne, hj⟩
      · exact .inl rfl
      · by_cases hdone' : co'.pc = .done
        · exact .inr hdone'
        · exact absurd (hQ.single j k co' co hj hco hconn hdone' hdone) hne
    · obtain rfl : o = co.conn := hI.find_id huse hc hfind
      refine hQ.touched a co.conn ?_ ⟨k, co, hco, rfl, hdone⟩
      rw [show s.acceptors a = .starting co.conn from ho]
      rfl
  · next hpc =>
    cases h
    exact (hQ.modify co.conn (f := fun c => { c with deletion_sheduled_ := true })
      fun c => rfl).setCoroutine hco (by simp [hpc]) fun _ => .inr rfl
  · cases h

/-! ## Deletion and `Server::stop` -/

/-- The deleted objects are at rest, as no coroutine of them has still to set the flag. -/
theorem quiet_sweep {idGen : E → Nat} {s : State A E} (hQ : Quiet s)
    (hok : Settled idGen s .sweep) :
    Quiet s.processSheduledConnectionDelete := by
  refine hQ.frame rfl (fun o ho => nomatch ho) (fun _ _ h => .inl h) (fun o c' hc' hlive => ?_)
    (fun o c hc => ?_) hQ.starting hQ.startingOnce hQ.stopper
  · by_cases ho : o ∈ s.connections_to_delete_
    · exact .inr ((hQ.queued o ho).not_busy (hok o ho))
    · refine .inl ⟨c', ?_, hlive⟩
      simpa [State.processSheduledConnectionDelete, ho] using hc'
  · by_cases ho : o ∈ s.connections_to_delete_
    · exact ⟨c.delete, by simp [State.processSheduledConnectionDelete, ho, hc]⟩
    · exact ⟨c, by simp [State.processSheduledConnectionDelete, ho, hc]⟩

/-- `Server::stop` goes on without an object in its hands. -/
theorem Quiet.setStopper {s : State A E} (hQ : Quiet s) {r : Bool} {st : StopPc}
    (hst : ∀ o, st ≠ .moving o) : Quiet { s with running_ := r, stopper := st } :=
  hQ.frame rfl (fun _ h => .inl h) (fun _ _ h => .inl h) (fun _ c hc hl => .inl ⟨c, hc, hl⟩)
    (fun _ c hc => ⟨c, hc⟩) hQ.starting hQ.startingOnce hst

theorem Settled.acceptsFresh {idGen : E → Nat} {s : State A E} {act : Act A E}
    (h : Settled idGen s act) : AcceptsFresh idGen s act := by
  cases act with
  | accept a socket => trivial
  | sweep => trivial
  | stopNext id => trivial
  | _ => exact h

/-! ## Acceptors -/

section Acceptors

variable [DecidableEq A] {idGen : E → Nat} {s s' : State A E} {a : A}

theorem setAcceptor_cases (s : State A E) (a : A) (pc : AcceptorPc E) (b : A) :
    (b = a ∧ (s.setAcceptor a pc).acceptors b = pc) ∨
      (b ≠ a ∧ (s.setAcceptor a pc).acceptors b = s.acceptors b) := by
  by_cases hb : b = a
  · subst hb
    exact .inl ⟨rfl, Function.update_self _ _ _⟩
  · exact .inr ⟨hb, Function.update_of_ne hb _ _⟩

/-- An acceptor goes on, but is not about to start a coroutine. -/
theorem Quiet.setAcceptor {pc : AcceptorPc E} (hQ : Quiet s)
    (htouched : ∀ o, pc.touches = some o → ¬Busy s o) (hstart : ∀ o, pc ≠ .starting o) :
    Quiet (s.setAcceptor a pc) := by
  have hold : ∀ b o, (s.setAcceptor a pc).acceptors b = .starting o → s.acceptors b = .starting o := by
    intro b o ho
    rcases setAcceptor_cases s a pc b with ⟨-, hb⟩ | ⟨-, hb⟩
    · exact absurd (hb.symm.trans ho) (hstart o)
    · exact hb.symm.trans ho
  refine hQ.frame rfl (fun _ h => .inl h) (fun b o ho => ?_) (fun o c hc hl => .inl ⟨c, hc, hl⟩)
    (fun o c hc => ⟨c, hc⟩) (fun b o ho => hQ.starting b o (hold b o ho))
    (fun b b' o h h' => hQ.startingOnce b b' o (hold b o h) (hold b' o h')) hQ.stopper
  rcases setAcceptor_cases s a pc b with ⟨-, hb⟩ | ⟨-, hb⟩
  · rw [hb] at ho
    exact .inr (htouched o ho)
  · rw [hb] at ho
    exact .inl ho

theorem quiet_check (hQ : Quiet s) (h : next idGen s (.check a) = some s') : Quiet s' := by
  simp only [next] at h
  split at h
  · cases h
    refine hQ.setAcceptor (fun o ho => ?_) (fun o ho => ?_)
    · split_ifs at ho <;> cases ho
    · split_ifs at ho
  · cases h

theorem quiet_acceptFails (hQ : Quiet s) (h : next idGen s (.acceptFails a) = some s') :
    Quiet s' := by
  simp only [next] at h
  split at h
  · cases h
    exact hQ.setAcceptor (fun o ho => by cases ho) (by simp)
  · cases h

/-- The object that an acceptor pops is at rest, as no coroutine of it has still to set the flag. -/
theorem quiet_accept {socket : E} (hQ : Quiet s) (hok : Settled idGen s (.accept a socket))
    (h : next idGen s (.accept a socket) = some s') : Quiet s' := by
  simp only [next] at h
  split at h
  swap
  · cases h
  split at h
  · next conn rest hq =>
    cases h
    have hrest : ∀ o ∈ rest, o ∈ s.connections_to_delete_ := by
      intro o ho
      rw [hq]
      exact List.mem_cons_of_mem _ ho
    have hpopped : Quiet { s with connections_to_delete_ := rest } :=
      hQ.frame rfl (fun o ho => .inl (hrest o ho)) (fun _ _ h => .inl h)
        (fun o c hc hl => .inl ⟨c, hc, hl⟩) (fun o c hc => ⟨c, hc⟩) hQ.starting hQ.startingOnce
        hQ.stopper
    refine hpopped.setAcceptor (fun o ho => ?_) (by simp)
    cases ho
    have hqueued : conn ∈ s.connections_to_delete_ := by
      rw [hq]
      exact List.mem_cons_self
    have hflag : ¬Flagging s conn := hok conn (by rw [hq]; rfl)
    exact (hQ.queued conn hqueued).not_busy hflag
  · cases h
    exact hQ.setAcceptor (fun o ho => by cases ho) (by simp)

theorem quiet_reinit (hQ : Quiet s) (h : next idGen s (.reinit a) = some s') : Quiet s' := by
  simp only [next] at h
  split at h
  swap
  · cases h
  next socket conn hpc =>
  cases h
  refine (hQ.modify conn (f := fun c => c.reinit idGen socket) fun c => rfl).setAcceptor
    (fun o ho => ?_) (by simp)
  cases ho
  exact hQ.touched a conn (by rw [hpc]; rfl)

/-- No coroutine was started on a new object. -/
theorem quiet_create {conn : Nat} (hQ : Quiet s) (h : next idGen s (.create a conn) = some s') :
    Quiet s' := by
  simp only [next] at h
  split at h
  swap
  · cases h
  next socket hpc hnone =>
  cases h
  have hrest : ¬Busy s conn := by
    rintro ⟨k, co, hco, rfl, -⟩
    obtain ⟨c, hc⟩ := hQ.allocated k co hco
    cases hc.symm.trans hnone
  have hcreated : Quiet { s with heap := Function.update s.heap conn (some (.new idGen socket)) } := by
    refine hQ.frame rfl (fun _ h => .inl h) (fun _ _ h => .inl h) (fun o c hc hl => ?_)
      (fun o c hc => ?_) hQ.starting hQ.startingOnce hQ.stopper
    · by_cases ho : o = conn
      · exact .inr (ho ▸ hrest)
      · exact .inl ⟨c, (Function.update_of_ne ho _ _).symm.trans hc, hl⟩
    · by_cases ho : o = conn
      · subst ho
        exact ⟨_, Function.update_self _ _ _⟩
      · exact ⟨c, (Function.update_of_ne ho _ _).trans hc⟩
  refine hcreated.setAcceptor (fun o ho => ?_) (by simp)
  cases ho
  exact hrest

/-- The inserted object is in the pool, and the others that are about to be started stay there. -/
theorem quiet_insert (hI : Inv s) (hQ : Quiet s) (h : next idGen s (.insert a) = some s') :
    Quiet s' := by
  simp only [next] at h
  split at h
  swap
  · cases h
  next conn hpc =>
  split at h
  swap
  · cases h
  next c hc =>
  split_ifs at h with hlock
  cases h
  have huse : InUse s conn := .inr (.inl ⟨a, .inl hpc⟩)
  have hheld : Owns s (.acceptor a) conn := by
    show (s.acceptors a).holds = some conn
    rw [hpc]
    rfl
  have hout : ∀ id, ¬Owns s (.pool id) conn := by
    intro id hin
    cases hI.exclusive conn _ _ hin hheld
  have hsc := setAcceptor_cases
    { s with connection_pool_ := AssocMap.assign s.connection_pool_ c.id_ conn } a (.starting conn)
  refine hQ.frame rfl (fun _ h => .inl h) (fun b o ho => ?_) (fun o c hc hl => .inl ⟨c, hc, hl⟩)
    (fun o c hc => ⟨c, hc⟩) (fun b o ho => ?_) (fun b b' o hb hb' => ?_) hQ.stopper
  · rcases hsc b with ⟨rfl, hb⟩ | ⟨-, hb⟩
    · rw [hb] at ho
      rw [hpc]
      exact .inl ho
    · rw [hb] at ho
      exact .inl ho
  · rcases hsc b with ⟨rfl, hb⟩ | ⟨-, hb⟩
    · obtain rfl : conn = o := AcceptorPc.starting.inj (hb.symm.trans ho)
      refine ⟨c.id_, ?_⟩
      show AssocMap.find (AssocMap.assign _ _ _) _ = _
      rw [AssocMap.find_assign, if_pos rfl]
    · obtain ⟨id, hpool⟩ := hQ.starting b o (hb.symm.trans ho)
      refine ⟨id, ?_⟩
      show AssocMap.find (AssocMap.assign _ _ _) _ = _
      rw [AssocMap.find_assign, if_neg, show AssocMap.find s.connection_pool_ id = some o from hpool]
      rintro rfl
      exact hout _ (hI.find_id huse hc hpool ▸ hpool)
  · rcases hsc b with ⟨rfl, h₁⟩ | ⟨-, h₁⟩ <;> rcases hsc b' with ⟨rfl, h₂⟩ | ⟨-, h₂⟩
    · rfl
    · obtain rfl : conn = o := AcceptorPc.starting.inj (h₁.symm.trans hb)
      obtain ⟨id, hpool⟩ := hQ.starting b' conn (h₂.symm.trans hb')
      exact absurd hpool (hout id)
    · obtain rfl : conn = o := AcceptorPc.starting.inj (h₂.symm.trans hb')
      obtain ⟨id, hpool⟩ := hQ.starting b conn (h₁.symm.trans hb)
      exact absurd hpool (hout id)
    · exact hQ.startingOnce b b' o (h₁.symm.trans hb) (h₂.symm.trans hb')

/-- The coroutine that is started is the only one with a step left on its object, and no one else
has this object in its hands. -/
theorem quiet_start {k : Nat} (hI : Inv s) (hQ : Quiet s)
    (h : next idGen s (.start a k) = some s') : Quiet s' := by
  simp only [next] at h
  split at h
  swap
  · cases h
  next conn hpc hnone =>
  cases h
  obtain ⟨id, hpool⟩ := hQ.starting a conn hpc
  obtain ⟨c, hc, hlive⟩ := hI.referred _ _ hpool
  have hrest : ¬Busy s conn := hQ.touched a conn (by rw [hpc]; rfl)
  have hrun : Quiet ((s.modify conn fun c => { c with running_ := true }).setAcceptor a .loop) :=
    (hQ.modify conn (f := fun c => { c with running_ := true }) fun c => rfl).setAcceptor
      (fun o ho => by cases ho) (by simp)
  refine hrun.newCoroutine (c := { c with running_ := true }) (k := k) ?_ hlive hrest ?_ ?_
  · show (s.modify conn _).heap conn = _
    rw [modify_heap_self, hc, Option.map_some]
  · intro hqueued
    cases hI.exclusive conn .queue _ hqueued hpool
  · intro b hb
    rcases setAcceptor_cases (s.modify conn _) a .loop b with ⟨-, h⟩ | ⟨hne, h⟩
    · rw [h] at hb
      cases hb
    · rw [h] at hb
      rcases AcceptorPc.touches_cases hb with hheld | hstart
      · have hheld : Owns s (.acceptor b) conn := hheld
        cases hI.exclusive conn _ _ hheld hpool
      · exact hne (hQ.startingOnce b a conn hstart hpc)

end Acceptors

/-! ## Steps -/

variable [DecidableEq A] {idGen : E → Nat} {s s' : State A E}

theorem quiet_serve {k : Nat} (hQ : Quiet s) (h : next idGen s (.serve k) = some s') : Quiet s' := by
  simp only [next] at h
  split at h
  swap
  · cases h
  split at h
  swap
  · cases h
  split_ifs at h
  cases h
  exact hQ.modify _ fun c => rfl

/-- The object of a coroutine in its request loop is not queued. -/
theorem quiet_leave {k : Nat} (hQ : Quiet s) (h : next idGen s (.leave k) = some s') : Quiet s' := by
  simp only [next] at h
  split at h
  swap
  · cases h
  next co hco =>
  split_ifs at h with hpc
  cases h
  refine hQ.setCoroutine hco (by simp [hpc]) fun hmem => ?_
  rcases hQ.queued co.conn hmem k co hco rfl with h | h
  · cases hpc.symm.trans h
  · cases hpc.symm.trans h

theorem Quiet.stopMove_none (hQ : Quiet s) : next idGen s .stopMove = none := by
  simp only [next]
  split
  · next conn hst => exact absurd hst (hQ.stopper conn)
  · rfl

/-- Every step keeps it, when no object is taken whose coroutine has still to set the flag. -/
theorem quiet_step {act : Act A E} (hI : Inv s) (hQ : Quiet s) (h : next idGen s act = some s')
    (hok : Settled idGen s act) : Quiet s' := by
  cases act with
  | check a => exact quiet_check hQ h
  | acceptFails a => exact quiet_acceptFails hQ h
  | accept a socket => exact quiet_accept hQ hok h
  | reinit a => exact quiet_reinit hQ h
  | create a conn => exact quiet_create hQ h
  | insert a => exact quiet_insert hI hQ h
  | start a k => exact quiet_start hI hQ h
  | serve k => exact quiet_serve hQ h
  | leave k => exact quiet_leave hQ h
  | kill k => exact quiet_kill hI hQ h
  | sweep =>
    cases h
    exact quiet_sweep hQ hok
  | stopCall =>
    simp only [next] at h
    split_ifs at h
    cases h
    exact hQ.setStopper (by simp)
  | stopLock =>
    simp only [next] at h
    split_ifs at h
    cases h
    exact hQ.setStopper (r := s.running_) (by simp)
  | stopNext id => exact hok.elim
  | stopMove => cases hQ.stopMove_none.symm.trans h
  | stopUnlock =>
    simp only [next] at h
    split_ifs at h
    cases h
    exact hQ.setStopper (r := s.running_) (by simp)

/-! ## What a step changes -/

/-- The step writes fields of the object. -/
def Writes (s : State A E) (o : Nat) : Act A E → Prop
  | .reinit a => ∃ socket, s.acceptors a = .reusing socket o
  | .start a _ => s.acceptors a = .starting o
  | .serve k => ∃ co, s.coroutines k = some co ∧ co.conn = o ∧ co.pc ≠ .done
  | .kill k => ∃ co, s.coroutines k = some co ∧ co.conn = o ∧ co.pc ≠ .done
  | .stopNext id => AssocMap.find s.connection_pool_ id = some o
  | _ => False

/-- What a step from `s` to `s'` does to the coroutines and to the objects. -/
structure Changes (s : State A E) (act : Act A E) (s' : State A E) : Prop where
  coroutines : s'.coroutines = s.coroutines ∨
    (∃ k co pc, s.coroutines k = some co ∧ co.pc ≠ .done ∧
      s'.coroutines = Function.update s.coroutines k (some { co with pc := pc })) ∨
    ∃ k co, s.coroutines k = none ∧ s'.coroutines = Function.update s.coroutines k (some co)
  heap : s'.heap = s.heap ∨ (∃ o f, Writes s o act ∧ s'.heap = (s.modify o f).heap) ∨
    (∃ o c, s.heap o = none ∧ s'.heap = Function.update s.heap o (some c)) ∨
    s'.heap = s.processSheduledConnectionDelete.heap

theorem changes_kill {k : Nat} (h : next idGen s (.kill k) = some s') : Changes s (.kill k) s' := by
  simp only [next] at h
  split at h
  swap
  · cases h
  next co hco =>
  obtain ⟨c, -, h⟩ := Option.bind_eq_some_iff.mp h
  have hwrites : co.pc ≠ .done → Writes s co.conn (.kill k) := fun hne => ⟨co, hco, rfl, hne⟩
  unfold killStep at h
  split at h
  · next hpc =>
    have hne : co.pc ≠ .done := by simp [hpc]
    cases h
    exact ⟨.inr (.inl ⟨k, co, _, hco, hne, rfl⟩), .inl rfl⟩
  · next hpc =>
    have hne : co.pc ≠ .done := by simp [hpc]
    cases h
    exact ⟨.inr (.inl ⟨k, co, _, hco, hne, rfl⟩), .inr (.inl ⟨_, _, hwrites hne, rfl⟩)⟩
  · next hpc =>
    have hne : co.pc ≠ .done := by simp [hpc]
    split_ifs at h
    cases h
    refine ⟨.inr (.inl ⟨k, co, .killFlag, hco, hne, ?_⟩), .inl (move_heap s c.id_)⟩
    rw [← move_coroutines s c.id_]
    rfl
  · next hpc =>
    have hne : co.pc ≠ .done := by simp [hpc]
    cases h
    exact ⟨.inr (.inl ⟨k, co, _, hco, hne, rfl⟩), .inr (.inl ⟨_, _, hwrites hne, rfl⟩)⟩
  · cases h

theorem changes_step {act : Act A E} (h : next idGen s act = some s') : Changes s act s' := by
  cases act with
  | kill k => exact changes_kill h
  | reinit a =>
    simp only [next] at h
    split at h
    · next socket conn hpc =>
      cases h
      exact ⟨.inl rfl, .inr (.inl ⟨conn, _, ⟨socket, hpc⟩, rfl⟩)⟩
    · cases h
  | create a conn =>
    simp only [next] at h
    split at h
    · next hnone =>
      cases h
      exact ⟨.inl rfl, .inr (.inr (.inl ⟨conn, _, hnone, rfl⟩))⟩
    · cases h
  | start a k =>
    simp only [next] at h
    split at h
    · next conn hpc hnone =>
      cases h
      exact ⟨.inr (.inr ⟨k, _, hnone, rfl⟩), .inr (.inl ⟨conn, _, hpc, rfl⟩)⟩
    · cases h
  | serve k =>
    simp only [next] at h
    split at h
    swap
    · cases h
    next co hco =>
    split at h
    swap
    · cases h
    next hpc _ =>
    split_ifs at h
    cases h
    exact ⟨.inl rfl, .inr (.inl ⟨_, _, ⟨co, hco, rfl, by simp [hpc]⟩, rfl⟩)⟩
  | leave k =>
    simp only [next] at h
    split at h
    swap
    · cases h
    next co hco =>
    split_ifs at h with hpc
    cases h
    exact ⟨.inr (.inl ⟨k, co, _, hco, by simp [hpc], rfl⟩), .inl rfl⟩
  | sweep =>
    cases h
    exact ⟨.inl rfl, .inr (.inr (.inr rfl))⟩
  | stopNext id =>
    simp only [next] at h
    split at h
    · next conn _ hfind =>
      cases h
      exact ⟨.inl rfl, .inr (.inl ⟨conn, _, hfind, rfl⟩)⟩
    · cases h
  | stopMove =>
    simp only [next] at h
    split at h
    · obtain ⟨c, -, rfl⟩ := Option.map_eq_some_iff.mp h
      exact ⟨.inl (move_coroutines s c.id_), .inl (move_heap s c.id_)⟩
    · cases h
  | check a =>
    simp only [next] at h
    split at h
    · cases h
      exact ⟨.inl rfl, .inl rfl⟩
    · cases h
  | acceptFails a =>
    simp only [next] at h
    split at h
    · cases h
      exact ⟨.inl rfl, .inl rfl⟩
    · cases h
  | accept a socket =>
    simp only [next] at h
    split at h
    swap
    · cases h
    split at h
    · cases h
      exact ⟨.inl rfl, .inl rfl⟩
    · cases h
      exact ⟨.inl rfl, .inl rfl⟩
  | insert a =>
    simp only [next] at h
    split at h
    swap
    · cases h
    split at h
    swap
    · cases h
    split_ifs at h
    cases h
    exact ⟨.inl rfl, .inl rfl⟩
  | stopCall =>
    simp only [next] at h
    split_ifs at h
    cases h
    exact ⟨.inl rfl, .inl rfl⟩
  | stopLock =>
    simp only [next] at h
    split_ifs at h
    cases h
    exact ⟨.inl rfl, .inl rfl⟩
  | stopUnlock =>
    simp only [next] at h
    split_ifs at h
    cases h
    exact ⟨.inl rfl, .inl rfl⟩

omit [DecidableEq A] in
/-- The flags of an object change only when the step writes the object. -/
theorem Changes.writes_of_flags {act : Act A E} (h : Changes s act s') {o : Nat} {c : Connection E}
    (hc : s.heap o = some c) (hne : flags s' o ≠ flags s o) : Writes s o act := by
  rcases h.heap with heq | ⟨x, f, hw, heq⟩ | ⟨x, c', hnone, heq⟩ | heq
  · exact absurd (congrArg (Option.map _) (congrFun heq o)) hne
  · by_cases ho : o = x
    · exact ho ▸ hw
    · refine absurd ?_ hne
      unfold flags
      rw [heq, modify_heap_of_ne s f ho]
  · have ho : o ≠ x := by
      rintro rfl
      exact absurd (hc.symm.trans hnone) nofun
    refine absurd ?_ hne
    unfold flags
    rw [heq, Function.update_of_ne ho]
  · refine absurd ?_ hne
    unfold flags
    rw [heq]
    by_cases ho : o ∈ s.connections_to_delete_
    · simp [State.processSheduledConnectionDelete, ho, hc, Connection.delete]
    · simp [State.processSheduledConnectionDelete, ho]

/-- A coroutine keeps its object and has no step left once it has finished, and objects stay
allocated. -/
structure Continues (s s' : State A E) : Prop where
  coroutine : ∀ k co, s.coroutines k = some co →
    ∃ co', s'.coroutines k = some co' ∧ co'.conn = co.conn ∧ (co.pc = .done → co'.pc = .done)
  allocated : ∀ o c, s.heap o = some c → ∃ c', s'.heap o = some c'

omit [DecidableEq A] in
theorem Changes.continues {act : Act A E} (h : Changes s act s') : Continues s s' := by
  constructor
  case coroutine =>
    intro k co hco
    rcases h.coroutines with heq | ⟨k', co', pc, hco', hne, heq⟩ | ⟨k', co', hnone, heq⟩
    · exact ⟨co, heq ▸ hco, rfl, id⟩
    · by_cases hk : k = k'
      · subst hk
        obtain rfl : co' = co := Option.some.inj (hco'.symm.trans hco)
        exact ⟨{ co' with pc := pc }, by rw [heq, Function.update_self], rfl, fun h => absurd h hne⟩
      · exact ⟨co, by rw [heq, Function.update_of_ne hk, hco], rfl, id⟩
    · have hk : k ≠ k' := by
        rintro rfl
        exact absurd (hco.symm.trans hnone) nofun
      exact ⟨co, by rw [heq, Function.update_of_ne hk, hco], rfl, id⟩
  case allocated =>
    intro o c hc
    rcases h.heap with heq | ⟨x, f, -, heq⟩ | ⟨x, c', -, heq⟩ | heq
    · exact ⟨c, heq ▸ hc⟩
    · by_cases ho : o = x
      · subst ho
        exact ⟨f c, by rw [heq, modify_heap_self, hc, Option.map_some]⟩
      · exact ⟨c, by rw [heq, modify_heap_of_ne s f ho, hc]⟩
    · by_cases ho : o = x
      · subst ho
        exact ⟨c', by rw [heq, Function.update_self]⟩
      · exact ⟨c, by rw [heq, Function.update_of_ne ho, hc]⟩
    · by_cases ho : o ∈ s.connections_to_delete_
      · exact ⟨c.delete, by simp [heq, State.processSheduledConnectionDelete, ho, hc]⟩
      · exact ⟨c, by simp [heq, State.processSheduledConnectionDelete, ho, hc]⟩

/-! ## Runs -/

/-- Over a run whose steps are settled the invariants stay, and so do its coroutines. -/
theorem settled_run {acts : List (Act A E)} (hI : Inv s) (hQ : Quiet s)
    (hok : Transition.RunMeets (next idGen) (Settled idGen) s acts)
    (h : Transition.run (next idGen) s acts = some s') : Inv s' ∧ Quiet s' ∧ Continues s s' := by
  induction acts generalizing s with
  | nil =>
    obtain rfl : s = s' := Option.some.inj h
    exact ⟨hI, hQ, fun _ co hco => ⟨co, hco, rfl, id⟩, fun _ c hc => ⟨c, hc⟩⟩
  | cons act acts ih =>
    obtain ⟨t, ht, hrun⟩ := Option.bind_eq_some_iff.mp h
    obtain ⟨hact, hrest⟩ := hok
    rw [ht] at hrest
    obtain ⟨hI', hQ', hlater⟩ := ih (inv_step hI ht hact.acceptsFresh) (quiet_step hI hQ ht hact)
      hrest hrun
    have hfirst := (changes_step ht).continues
    refine ⟨hI', hQ', fun k co hco => ?_, fun o c hc => ?_⟩
    · obtain ⟨co₁, hco₁, hconn₁, hdone₁⟩ := hfirst.coroutine k co hco
      obtain ⟨co₂, hco₂, hconn₂, hdone₂⟩ := hlater.coroutine k co₁ hco₁
      exact ⟨co₂, hco₂, hconn₂.trans hconn₁, fun hdone => hdone₂ (hdone₁ hdone)⟩
    · obtain ⟨c₁, hc₁⟩ := hfirst.allocated o c hc
      exact hlater.allocated o c₁ hc₁

omit [DecidableEq A] in
/-- What writes an object that was at rest belongs to a later session. -/
theorem ofLaterSession_of_writes {s₁ s₂ : State A E} {o : Nat} {act : Act A E} (hrest : ¬Busy s₁ o)
    (hstart : ∀ b, s₁.acceptors b ≠ .starting o) (hcont : Continues s₁ s₂)
    (hok : Settled idGen s₂ act) (hw : Writes s₂ o act) : OfLaterSession s₁ s₂ o act := by
  have hnew : ∀ k co, s₂.coroutines k = some co → co.conn = o → co.pc ≠ .done →
      s₁.coroutines k = none := by
    intro k co hco hconn hne
    by_contra hsome
    obtain ⟨co₁, hco₁⟩ := Option.ne_none_iff_exists'.mp hsome
    obtain ⟨co₂, hco₂, hconn₂, hdone₂⟩ := hcont.coroutine k co₁ hco₁
    obtain rfl : co₂ = co := Option.some.inj (hco₂.symm.trans hco)
    refine hrest ⟨k, co₁, hco₁, hconn₂.symm.trans hconn, fun hdone => ?_⟩
    exact hne (hdone₂ hdone)
  cases act with
  | reinit a => exact hw
  | start a k => exact ⟨hw, hstart⟩
  | serve k =>
    obtain ⟨co, hco, hconn, hne⟩ := hw
    exact hnew k co hco hconn hne
  | kill k =>
    obtain ⟨co, hco, hconn, hne⟩ := hw
    exact hnew k co hco hconn hne
  | stopNext id => exact hok.elim
  | _ => exact hw.elim

omit [DecidableEq A] in
/-- An acceptor that has an object in its hands has taken it from a session that is over. -/
theorem Quiet.reused (hI : Inv s) (hQ : Quiet s) {a : A} {socket : E} {o : Nat}
    (ha : s.acceptors a = .reusing socket o) : ¬Busy s o ∧ ∀ b, s.acceptors b ≠ .starting o := by
  refine ⟨hQ.touched a o (by rw [ha]; rfl), fun b hb => ?_⟩
  obtain ⟨id, hpool⟩ := hQ.starting b o hb
  have hheld : Owns s (.acceptor a) o := by
    show (s.acceptors a).holds = some o
    rw [ha]
    rfl
  exact absurd (hI.exclusive o _ _ hpool hheld) nofun

theorem Quiet.untouched (hI : Inv s) (hQ : Quiet s) : Untouched idGen s where
  deleted := hQ.dead
  reused := fun _ _ _ ha => hQ.reused hI ha
  flags := by
    intro a socket o s₁ acts s₂ act s₃ ha h₁ hfresh hmeets hrun hok h₃ hne
    obtain ⟨hrest, hstart⟩ := hQ.reused hI ha
    obtain ⟨c, hc, -⟩ : Live s o := hI.referred (.acceptor a) o (by
      show (s.acceptors a).holds = some o
      rw [ha]
      rfl)
    have hI₁ : Inv s₁ := inv_step hI h₁ hfresh
    have hQ₁ : Quiet s₁ := quiet_step hI hQ h₁ hfresh
    have hstep := changes_step h₁
    obtain ⟨hI₂, hQ₂, hcont⟩ := settled_run hI₁ hQ₁ hmeets hrun
    obtain ⟨c₁, hc₁⟩ := hstep.continues.allocated o c hc
    obtain ⟨c₂, hc₂⟩ := hcont.allocated o c₁ hc₁
    have hw : Writes s₂ o act := (changes_step h₃).writes_of_flags hc₂ hne
    simp only [next, ha, Option.some.injEq] at h₁
    subst h₁
    refine ofLaterSession_of_writes (fun hb => hrest hb) (fun b hb => ?_) hcont hok hw
    rcases setAcceptor_cases (s.modify o fun c => c.reinit idGen socket) a (.inserting o) b with
      ⟨-, h⟩ | ⟨-, h⟩
    · cases h.symm.trans hb
    · exact hstart b (h.symm.trans hb)

/-- In every run in which no object is taken from the queue while a coroutine of it has still to set
the flag, `Server::stop` finds no connection, and the accepted sockets are fresh, no coroutine has a
step left on an object that is deleted or given to a new session, and its flags then belong to that
session. -/
theorem untouched_of_settled (idGen : E → Nat)
    (h : Transition.Reachable ((system A idGen).restrict (Settled idGen)) s) :
    Untouched idGen s := by
  have hinv : Inv s ∧ Quiet s := by
    refine h.invariant (I := fun s => Inv s ∧ Quiet s) (fun s hs => ?_) fun s act s' hin htr => ?_
    · rw [show s = State.new from hs]
      exact ⟨inv_new, quiet_new⟩
    · exact ⟨inv_step hin.1 htr.1 htr.2.acceptsFresh, quiet_step hin.1 hin.2 htr.1 htr.2⟩
  exact hinv.2.untouched hinv.1

/-- The first connection of a server ends, and its object is taken for the next one. -/
def recycling : List (Act Unit Nat) :=
  [.check (), .accept () 7, .create () 0, .insert (), .start () 0, .serve 0, .leave 0, .kill 0,
    .kill 0, .kill 0, .kill 0, .check (), .accept () 8]

theorem untouched_recycling :
    ∃ s : State Unit Nat, Transition.run (next fun e => e) State.new recycling = some s ∧
      s.acceptors () = .reusing 8 0 ∧ Untouched (fun e => e) s := by
  refine ⟨_, rfl, rfl, untouched_of_settled (fun e => e) ?_⟩
  refine Transition.reachable_restrict_run recycling (.init rfl) ?_ rfl
  refine ⟨trivial, fun o ho => (nomatch ho), ?_, trivial, trivial, trivial, trivial, trivial, trivial,
    trivial, trivial, trivial, ?_, trivial⟩
  · intro socket _ o c _ _ hc
    cases hc
  · rintro o ho ⟨k, co, hco, rfl, hpc⟩
    -- the only coroutine is `0`, which has finished
    have hk : k = 0 := by
      by_contra hk
      simp [hk, State.setCoroutine, State.modify, State.setAcceptor, State.new] at hco
    subst hk
    cases hco
    cases hpc

/-- Connection `0` has scheduled its deletion and not yet set the flag. An acceptor takes it for the
next session; the old coroutine then sets the flag of that session. -/
theorem old_coroutine_flags_new_session :
    ¬∀ s : State Unit Nat, Transition.Reachable (system Unit fun e => e) s →
      Untouched (fun e => e) s := by
  intro h
  have hun := h _ (Transition.reachable_of_run
    [.check (), .accept () 7, .create () 0, .insert (), .start () 0, .leave 0, .kill 0, .kill 0,
      .kill 0, .check (), .accept () 8] rfl)
  exact (hun.reused () 8 0 rfl).1 ⟨0, _, rfl, rfl, nofun⟩

end Http.Server

import ItexDemo.DemoManager.Proofs.DispatchProofs
import ItexDemo.Lib.Ownership

/-!
# Proofs: the demo manager

`Effect` lists what a step of a connection can do; the invariants are proved for each of these, and
for the steps of the coroutine.
-/

namespace DemoManager.Service

open Transition Quant

variable {C D : Type*} [DecidableEq C]

/-- A phase that a connection can be in without a handler. -/
def Phase.early : Phase D → Bool
  | reading | requested _ | constructing _ => true
  | _ => false

/-- The phases that a connection goes on to without a push or a response. -/
inductive Next (parse : Http.Str → Option (List D × List D)) (ready : Bool) (a : Act C D) :
    Conn D → Phase D → Prop where
  | request (c : C) (handler : Option Nat) (req : ApiRequest) (ha : a = .request c req) :
      Next parse ready a { handler_ := handler, phase := .reading } (.requested req)
  /-- `create_handler` finds the flag set. -/
  | letThrough (req : ApiRequest) (hready : ready = true) :
      Next parse ready a { handler_ := none, phase := .requested req } (.constructing req)
  | respond (publisher : Nat) (req : ApiRequest) (timestamp : D) (reply : Reply)
      (h : routeRequest parse req timestamp = some (.respond reply)) :
      Next parse ready a { handler_ := some publisher, phase := .requested req } (.answering reply)
  | draw (publisher : Nat) (req : ApiRequest) (timestamp : D) (window : Option (Nat × Nat))
      (h : routeRequest parse req timestamp = some (.draw window)) :
      Next parse ready a { handler_ := some publisher, phase := .requested req } (.drawing window)
  | drawn (handler : Option Nat) (window : Option (Nat × Nat)) :
      Next parse ready a { handler_ := handler, phase := .drawing window } (.answering .png)

/-- The response of the handler and what is sent for it. -/
inductive Sends (parse : Http.Str → Option (List D × List D)) : Conn D → Reply → Reply → Prop where
  | notReady (req : ApiRequest) :
      Sends parse { handler_ := none, phase := .requested req } .notReady .notReady
  | failed (publisher : Nat) (req : ApiRequest) (timestamp : D) (e : Decimal.Failure)
      (h : routeRequest parse req timestamp = some (.throw e)) :
      Sends parse { handler_ := some publisher, phase := .requested req } (.failed e) (.failed e)
  | answer (handler : Option Nat) (reply : Reply) (timedOut : Bool) :
      Sends parse { handler_ := handler, phase := .answering reply } reply
        (if timedOut then .timeout else reply)

/-- What a step of connection `c` can do. -/
inductive Effect (persist : Bool) (build : QueueEntry D → Option (OrderbookEntry D))
    (parse : Http.Str → Option (List D × List D)) (a : Act C D) (s : State C D) (c : C) :
    State C D → Prop where
  | stay : Effect persist build parse a s c s
  | move (p : Phase D) (h : Next parse s.ready_ a (s.connections c) p) :
      Effect persist build parse a s c (s.setPhase c p)
  | send (response reply : Reply) (h : Sends parse (s.connections c) response reply) :
      Effect persist build parse a s c (s.send c response reply)
  | accept (publisher : Nat) (req : ApiRequest) (timestamp : D) (entry : QueueEntry D)
      (hconn : s.connections c = { handler_ := some publisher, phase := .requested req })
      (hroute : routeRequest parse req timestamp = some (.book entry)) :
      Effect persist build parse a s c (s.accept c req entry)
  | getPublisher (req : ApiRequest) (hphase : (s.connections c).phase = .constructing req) :
      Effect persist build parse a s c { s with
        ws := s.ws.getPublisher
        connections := Function.update s.connections c
          { handler_ := some s.ws.nextHandle, phase := .requested req } }
  | pushQueue (entry : QueueEntry D) (hphase : (s.connections c).phase = .accepted entry) :
      Effect persist build parse a s c { s.setPhase c (.queued entry) with
        queuePushes := if persist then s.queuePushes ++ [(c, entry)] else s.queuePushes }
  | pushWorkset (publisher : Nat) (entry : QueueEntry D) (workset_entry : OrderbookEntry D)
      (hconn : s.connections c = { handler_ := some publisher, phase := .queued entry })
      (hentry : build entry = some workset_entry) :
      Effect persist build parse a s c { s.setPhase c (.answering .added) with
        ws := s.ws.push workset_entry
        worksetPushes := s.worksetPushes ++ [(c, entry, workset_entry)] }
  | close (publisher : Nat)
      (hconn : s.connections c = { handler_ := some publisher, phase := .reading }) :
      Effect persist build parse a s c { s with
        ws := s.ws.removePublisher publisher
        connections := Function.update s.connections c { handler_ := none, phase := .reading } }
  | delete (ha : a = .close c) (hphase : (s.connections c).phase.idle = false) :
      Effect persist build parse a s c { s with
        ws := s.released c
        deleted := Function.update s.deleted c true }

/-- What a step of the coroutine can do. -/
inductive PreloadEffect (setup : Setup D) (s : State C D) : State C D → Prop where
  | start (hp : s.preload = .start) : PreloadEffect setup s { s with
      ws := s.ws.getPublisher
      preload := .loading s.ws.nextHandle setup.rows }
  | push (publisher : Nat) (entry : OrderbookEntry D) (rest : List (OrderbookEntry D))
      (hp : s.preload = .loading publisher (entry :: rest)) : PreloadEffect setup s { s with
        ws := s.ws.push entry
        preload := .loading publisher rest
        loaded := s.loaded ++ [entry] }
  | fail (publisher : Nat) (hp : s.preload = .loading publisher []) :
      PreloadEffect setup s { s with preload := .failed publisher }
  /-- There was no row. -/
  | leave (publisher : Nat) (hp : s.preload = .loading publisher [])
      (hcompleted : setup.completed = true) :
      PreloadEffect setup s { s with preload := .returned (some publisher) }
  | release (publisher : Nat) (hp : s.preload = .loading publisher [])
      (hcompleted : setup.completed = true) : PreloadEffect setup s { s with
        ws := s.ws.removePublisher publisher
        preload := .returned none }
  | ready (unreleased : Option Nat) (hp : s.preload = .returned unreleased) :
      PreloadEffect setup s { s with ready_ := true, preload := .finished unreleased }

/-! ## What a step can do -/

section Inversion

variable [LinearOrder D] [Zero D] {parse : Http.Str → Option (List D × List D)}
  {sorter : StdSort (D × D)} {ofId : UInt64 → D} {setup : Setup D} {s s' : State C D} {c : C}

omit [LinearOrder D] [Zero D] in
theorem readWindow_outcome (params : List (Http.Str × Http.Str)) :
    (∃ e, (readWindow params : Handled D) = .throw e) ∨
      ∃ window, (readWindow params : Handled D) = .draw window := by
  unfold readWindow
  split
  · split
    · exact Or.inr ⟨_, rfl⟩
    · exact Or.inl ⟨_, rfl⟩
    · exact Or.inl ⟨_, rfl⟩
  · exact Or.inr ⟨_, rfl⟩

omit [LinearOrder D] [Zero D] in
/-- The router and the handlers do not answer for `add_orderbook` before its end. -/
theorem routeRequest_respond {req : ApiRequest} {timestamp : D} {reply : Reply}
    (h : routeRequest parse req timestamp = some (.respond reply)) : reply ≠ .added := by
  unfold routeRequest at h
  split at h
  · unfold readOrderbook at h
    split at h
    · split at h
      · simp at h
      · obtain ⟨arrays, -, hbook⟩ := Option.bind_eq_some_iff.mp h
        obtain ⟨entry, -, heq⟩ := Option.map_eq_some_iff.mp hbook
        cases heq
    · cases h
      exact nofun
  · next params _ =>
    rcases readWindow_outcome (D := D) params with ⟨e, he⟩ | ⟨window, hw⟩
    · rw [he] at h
      cases h
    · rw [hw] at h
      cases h
  · cases h
    exact nofun

omit [LinearOrder D] [Zero D] in
/-- The effect of an outcome. -/
theorem effect_goOn {build : QueueEntry D → Option (OrderbookEntry D)} {persist : Bool} {a : Act C D}
    {req : ApiRequest} {publisher : Nat} {timestamp : D} {outcome : Handled D}
    (hconn : s.connections c = { handler_ := some publisher, phase := .requested req })
    (h : routeRequest parse req timestamp = some outcome) :
    Effect persist build parse a s c (s.goOn c req outcome) := by
  cases outcome with
  | respond reply => exact .move _ (hconn ▸ .respond publisher req timestamp reply h)
  | throw e => exact .send _ _ (hconn ▸ .failed publisher req timestamp e h)
  | book entry => exact .accept publisher req timestamp entry hconn h
  | draw window => exact .move _ (hconn ▸ .draw publisher req timestamp window h)

theorem effect_of_connectionStep {a : Act C D} (hc : a.connection = some c)
    (h : connectionStep parse sorter ofId setup s c a = some s') :
    Effect setup.persist_workset_to_database (HttpServerHandler.worksetEntry sorter ofId) parse a s c
      s' := by
  cases a with
  | request d req =>
    simp only [connectionStep] at h
    split at h
    · next hphase =>
      cases h
      refine .move _ ?_
      rw [show s.connections c = ⟨(s.connections c).handler_, .reading⟩ by rw [← hphase]]
      exact .request d _ req rfl
    · cases h
  | createHandler _ =>
    simp only [connectionStep] at h
    split at h
    · next req hconn =>
      cases h
      by_cases hready : s.ready_ = true
      · rw [if_pos hready]
        exact .move _ (hconn ▸ .letThrough req hready)
      · rw [if_neg hready]
        exact .send _ _ (hconn ▸ .notReady req)
    · cases h
  | getPublisher _ =>
    simp only [connectionStep] at h
    split at h
    · next req hphase =>
      cases h
      exact .getPublisher req hphase
    · cases h
  | route _ timestamp =>
    simp only [connectionStep] at h
    split at h
    · next publisher req hconn =>
      obtain ⟨outcome, houtcome, rfl⟩ := Option.map_eq_some_iff.mp h
      exact effect_goOn hconn houtcome
    · cases h
  | pushQueue _ =>
    simp only [connectionStep] at h
    split at h
    · next entry hphase =>
      cases h
      exact .pushQueue entry hphase
    · cases h
  | pushWorkset _ =>
    simp only [connectionStep] at h
    split at h
    · next publisher entry hconn =>
      split at h
      · obtain ⟨workset_entry, hentry, rfl⟩ := Option.map_eq_some_iff.mp h
        exact .pushWorkset publisher entry workset_entry hconn hentry
      · cases h
    · cases h
  | draw _ =>
    simp only [connectionStep] at h
    split at h
    · next window hphase =>
      cases h
      refine .move _ ?_
      rw [show s.connections c = ⟨(s.connections c).handler_, .drawing window⟩ by rw [← hphase]]
      exact .drawn _ window
    · cases h
  | answer _ timedOut =>
    simp only [connectionStep] at h
    split at h
    · next reply hphase =>
      cases h
      refine .send _ _ ?_
      rw [show s.connections c = ⟨(s.connections c).handler_, .answering reply⟩ by rw [← hphase]]
      exact .answer _ reply timedOut
    · cases h
  | close d =>
    obtain rfl : d = c := Option.some.inj hc
    simp only [connectionStep] at h
    split at h
    · cases h
      exact .stay
    · next publisher hconn =>
      cases h
      exact .close publisher hconn
    · next hnone hsome =>
      cases h
      refine .delete rfl ?_
      rcases hconn : s.connections d with ⟨_ | publisher, phase⟩
      · cases phase <;> first | rfl | exact (hnone hconn).elim
      · cases phase <;> first | rfl | exact (hsome publisher hconn).elim
  | preloadStart => cases h
  | preloadPush => cases h
  | preloadEnd => cases h
  | setReady => cases h

omit [DecidableEq C] [LinearOrder D] [Zero D] in
theorem effect_of_preloadStep {a : Act C D} (h : preloadStep setup s a = some s') :
    PreloadEffect setup s s' := by
  cases a with
  | preloadStart =>
    simp only [preloadStep] at h
    split at h
    · next hp =>
      cases h
      exact .start hp
    · cases h
  | preloadPush =>
    simp only [preloadStep] at h
    split at h
    · next publisher entry rest hp =>
      split at h
      · cases h
        exact .push publisher entry rest hp
      · cases h
    · cases h
  | preloadEnd =>
    simp only [preloadStep] at h
    split at h
    · next publisher hp =>
      by_cases hcompleted : setup.completed = true
      · rw [hcompleted] at h
        simp only [Bool.not_true, Bool.false_eq_true, if_false] at h
        split at h
        · cases h
          exact .leave publisher hp hcompleted
        · cases h
          exact .release publisher hp hcompleted
      · rw [Bool.eq_false_of_not_eq_true hcompleted] at h
        simp only [Bool.not_false, if_true] at h
        cases h
        exact .fail publisher hp
    · cases h
  | setReady =>
    simp only [preloadStep] at h
    split at h
    · next unreleased hp =>
      cases h
      exact .ready unreleased hp
    · cases h
  | request c req => cases h
  | createHandler c => cases h
  | getPublisher c => cases h
  | route c timestamp => cases h
  | pushQueue c => cases h
  | pushWorkset c => cases h
  | draw c => cases h
  | answer c timedOut => cases h
  | close c => cases h

theorem request_of_step {req : ApiRequest}
    (h : step parse sorter ofId setup s (.request c req) = some s') :
    (s.connections c).phase = .reading ∧ s' = s.setPhase c (.requested req) := by
  simp only [step, Act.connection, connectionStep] at h
  split at h
  · cases h
  · split at h
    · next hphase =>
      cases h
      exact ⟨hphase, rfl⟩
    · cases h

/-- A connection that makes a step was not deleted. -/
theorem connectionStep_of_step {a : Act C D} (hc : a.connection = some c)
    (h : step parse sorter ofId setup s a = some s') :
    s.deleted c = false ∧ connectionStep parse sorter ofId setup s c a = some s' := by
  rw [step, hc] at h
  dsimp only at h
  split at h
  · cases h
  · next hlive => exact ⟨Bool.eq_false_of_not_eq_true hlive, h⟩

/-- A step is one of a connection or one of the coroutine. -/
theorem effect_of_step {a : Act C D} (h : step parse sorter ofId setup s a = some s') :
    (∃ c, s.deleted c = false ∧ Effect setup.persist_workset_to_database
        (HttpServerHandler.worksetEntry sorter ofId) parse a s c s') ∨ PreloadEffect setup s s' := by
  cases hc : a.connection with
  | some c =>
    obtain ⟨hlive, h⟩ := connectionStep_of_step hc h
    exact Or.inl ⟨c, hlive, effect_of_connectionStep hc h⟩
  | none =>
    rw [step, hc] at h
    exact Or.inr (effect_of_preloadStep h)

end Inversion

/-! ## Small lemmas -/

section Phases

variable {parse : Http.Str → Option (List D × List D)} {ready : Bool} {a : Act C D} {conn : Conn D}
  {p : Phase D}

omit [DecidableEq C]

theorem Next.inFlight (h : Next parse ready a conn p) :
    conn.phase.inFlight = [] ∧ p.inFlight = [] := by
  cases h <;> exact ⟨rfl, rfl⟩

theorem Next.pending (h : Next parse ready a conn p) :
    conn.phase.pending = [] ∧ p.pending = [] := by
  cases h <;> exact ⟨rfl, rfl⟩

/-- The router does not respond for `add_orderbook`. -/
theorem Next.owed (h : Next parse ready a conn p) : conn.phase.owed = 0 ∧ p.owed = 0 := by
  cases h with
  | respond publisher req timestamp reply hroute =>
    have hne := routeRequest_respond hroute
    refine ⟨rfl, ?_⟩
    cases reply <;> first | rfl | exact absurd rfl hne
  | request c handler req ha => exact ⟨rfl, rfl⟩
  | letThrough req hready => exact ⟨rfl, rfl⟩
  | draw publisher req timestamp window hroute => exact ⟨rfl, rfl⟩
  | drawn handler window => exact ⟨rfl, rfl⟩

theorem Next.constructing {req : ApiRequest} (h : Next parse ready a conn p)
    (hp : p = .constructing req) : ready = true ∧ conn.handler_ = none := by
  subst hp
  cases h with
  | letThrough req hready => exact ⟨hready, rfl⟩

/-- A connection gets past the creation of its handler with a handler only. -/
theorem Next.late (h : Next parse ready a conn p) (hp : p.early = false) :
    conn.handler_ ≠ none ∨ conn.phase.early = false := by
  cases h with
  | request c handler req ha => cases hp
  | letThrough req hready => cases hp
  | respond publisher req timestamp reply hroute => exact Or.inl (Option.some_ne_none publisher)
  | draw publisher req timestamp window hroute => exact Or.inl (Option.some_ne_none publisher)
  | drawn handler window => exact Or.inr rfl

variable {response reply : Reply}

theorem Sends.inFlight (h : Sends parse conn response reply) : conn.phase.inFlight = [] := by
  cases h <;> rfl

theorem Sends.pending (h : Sends parse conn response reply) : conn.phase.pending = [] := by
  cases h <;> rfl

theorem Sends.owed (h : Sends parse conn response reply) :
    conn.phase.owed = if response = .added then 1 else 0 := by
  cases h with
  | notReady req => rfl
  | failed publisher req timestamp e hroute => rfl
  | answer handler reply timedOut => cases response <;> rfl

theorem Sends.late (h : Sends parse conn response reply) :
    (response = .notReady ∧ reply = .notReady) ∨ conn.handler_ ≠ none ∨ conn.phase.early = false := by
  cases h with
  | notReady req => exact Or.inl ⟨rfl, rfl⟩
  | failed publisher req timestamp e hroute => exact Or.inr (Or.inl (Option.some_ne_none publisher))
  | answer handler reply timedOut => exact Or.inr (Or.inr rfl)

end Phases

section Updates

variable {s : State C D} {c d : C} {p : Phase D}

@[simp] theorem setPhase_handler_ :
    ((s.setPhase c p).connections d).handler_ = (s.connections d).handler_ := by
  unfold State.setPhase
  by_cases hd : d = c
  · subst hd
    simp
  · simp [Function.update_of_ne hd]

@[simp] theorem setPhase_phase_self : ((s.setPhase c p).connections c).phase = p := by
  simp [State.setPhase]

theorem setPhase_phase_of_ne (hd : d ≠ c) :
    ((s.setPhase c p).connections d).phase = (s.connections d).phase := by
  simp [State.setPhase, Function.update_of_ne hd]

/-- A step changes one connection. -/
theorem Effect.connections_of_ne {persist : Bool} {build : QueueEntry D → Option (OrderbookEntry D)}
    {parse : Http.Str → Option (List D × List D)} {a : Act C D} {s' : State C D}
    (h : Effect persist build parse a s c s') (hd : d ≠ c) : s'.connections d = s.connections d := by
  cases h with
  | stay => rfl
  | move p hnext => exact Function.update_of_ne hd ..
  | send response reply hsends => exact Function.update_of_ne hd ..
  | accept publisher req timestamp entry hconn hroute => exact Function.update_of_ne hd ..
  | getPublisher req hphase => exact Function.update_of_ne hd ..
  | pushQueue entry hphase => exact Function.update_of_ne hd ..
  | pushWorkset publisher entry workset_entry hconn hentry => exact Function.update_of_ne hd ..
  | close publisher hconn => exact Function.update_of_ne hd ..
  | delete ha hphase => rfl

/-- What a step leaves in the workset pushes and in the responses. -/
theorem Effect.traffic {persist : Bool} {build : QueueEntry D → Option (OrderbookEntry D)}
    {parse : Http.Str → Option (List D × List D)} {a : Act C D} {s' : State C D}
    (h : Effect persist build parse a s c s') :
    (s'.worksetPushes = s.worksetPushes ∧ s'.replies = s.replies) ∨
      (∃ entry workset_entry, (s.connections c).phase = .queued entry ∧
        s'.worksetPushes = s.worksetPushes ++ [(c, entry, workset_entry)] ∧ s'.replies = s.replies) ∨
      ∃ response reply, Sends parse (s.connections c) response reply ∧
        s'.worksetPushes = s.worksetPushes ∧ s'.replies = s.replies ++ [(c, response, reply)] := by
  cases h with
  | stay => exact Or.inl ⟨rfl, rfl⟩
  | move p hnext => exact Or.inl ⟨rfl, rfl⟩
  | send response reply hsends => exact Or.inr (Or.inr ⟨response, reply, hsends, rfl, rfl⟩)
  | accept publisher req timestamp entry hconn hroute => exact Or.inl ⟨rfl, rfl⟩
  | getPublisher req hphase => exact Or.inl ⟨rfl, rfl⟩
  | pushQueue entry hphase => exact Or.inl ⟨rfl, rfl⟩
  | pushWorkset publisher entry workset_entry hconn hentry =>
    exact Or.inr (Or.inl ⟨entry, workset_entry, by rw [hconn], rfl, rfl⟩)
  | close publisher hconn => exact Or.inl ⟨rfl, rfl⟩
  | delete ha hphase => exact Or.inl ⟨rfl, rfl⟩

end Updates

/-! ## The workset is preloaded first -/

/-- What the coroutine has pushed. -/
def Preload.Pushed (setup : Setup D) (loaded : List (OrderbookEntry D)) : Preload D → Prop
  | start => loaded = []
  | loading _ rest => loaded ++ rest = setup.rows
  | returned _ => loaded = setup.rows ∧ setup.completed = true
  | finished _ => loaded = setup.rows ∧ setup.completed = true
  | failed _ => loaded = setup.rows

/-- The entries that the handlers have pushed. -/
def State.live (s : State C D) : List (OrderbookEntry D) := s.worksetPushes.map fun push => push.2.2

/-- The ring holds the entries of the coroutine and then those of the handlers, which there are only
after the flag was set. -/
structure Gated (setup : Setup D) (s : State C D) : Prop where
  holds : s.ws.workset_.Holds (s.loaded ++ s.live)
  capacity : s.ws.capacity_ = setup.capacity
  pushed : s.preload.Pushed setup s.loaded
  ready : s.ready_ = true → ∃ unreleased, s.preload = .finished unreleased
  early : ∀ c, (s.connections c).phase.early = false → (s.connections c).handler_ ≠ none
  handler : ∀ c, (s.connections c).handler_ ≠ none → s.ready_ = true
  constructing : ∀ c req, (s.connections c).phase = .constructing req → s.ready_ = true
  live : s.worksetPushes ≠ [] → s.ready_ = true
  queued : s.queuePushes ≠ [] → s.ready_ = true
  replies : s.ready_ = false → ∀ reply ∈ s.replies, reply.2 = (.notReady, .notReady)

omit [DecidableEq C] in
theorem gated_init (setup : Setup D) : Gated setup (State.init setup : State C D) where
  holds := CircularBuffer.holds_new _
  capacity := rfl
  pushed := rfl
  ready := nofun
  early := fun _ => nofun
  handler := fun _ h => absurd rfl h
  constructing := fun _ _ => nofun
  live := fun h => absurd rfl h
  queued := fun h => absurd rfl h
  replies := fun _ => nofun

section Gated

variable {setup : Setup D} {s s' : State C D} {c : C}

omit [DecidableEq C] in
/-- The coroutine pushes the rows in their order. -/
theorem Gated.loaded_prefix (h : Gated setup s) : s.loaded <+: setup.rows := by
  have hpushed := h.pushed
  cases hp : s.preload with
  | start =>
    rw [hp] at hpushed
    rw [show s.loaded = [] from hpushed]
    exact List.nil_prefix
  | loading publisher rest =>
    rw [hp] at hpushed
    exact ⟨rest, hpushed⟩
  | returned unreleased =>
    rw [hp] at hpushed
    exact hpushed.1 ▸ List.prefix_rfl
  | finished unreleased =>
    rw [hp] at hpushed
    exact hpushed.1 ▸ List.prefix_rfl
  | failed unreleased =>
    rw [hp] at hpushed
    exact (show s.loaded = setup.rows from hpushed) ▸ List.prefix_rfl

omit [DecidableEq C] in
/-- A connection that is past the creation of its handler was let through. -/
theorem Gated.ready_of_late (h : Gated setup s) (hlate : (s.connections c).handler_ ≠ none ∨
    (s.connections c).phase.early = false) : s.ready_ = true := by
  rcases hlate with hhandler | hearly
  · exact h.handler c hhandler
  · exact h.handler c (h.early c hearly)

/-- A change of one connection. -/
theorem Gated.update (h : Gated setup s) {conn : Conn D}
    (hearly : conn.phase.early = false → conn.handler_ ≠ none)
    (hhandler : conn.handler_ ≠ none → s.ready_ = true)
    (hready : ∀ req, conn.phase = .constructing req → s.ready_ = true) :
    Gated setup { s with connections := Function.update s.connections c conn } where
  holds := h.holds
  capacity := h.capacity
  pushed := h.pushed
  ready := h.ready
  early := by
    intro d
    by_cases hdc : d = c
    · subst hdc
      simpa using hearly
    · simpa [Function.update_of_ne hdc] using h.early d
  handler := by
    intro d
    by_cases hdc : d = c
    · subst hdc
      simpa using hhandler
    · simpa [Function.update_of_ne hdc] using h.handler d
  constructing := by
    intro d
    by_cases hdc : d = c
    · subst hdc
      simpa using hready
    · simpa [Function.update_of_ne hdc] using h.constructing d
  live := h.live
  queued := h.queued
  replies := h.replies

/-- A change of phase. -/
theorem Gated.setPhase (h : Gated setup s) {p : Phase D}
    (hready : ∀ req, p = .constructing req → s.ready_ = true)
    (hhandler : p.early = false → (s.connections c).handler_ ≠ none) :
    Gated setup (s.setPhase c p) :=
  h.update hhandler (h.handler c) hready

omit [DecidableEq C] in
/-- A push of a handler. -/
theorem Gated.pushWorkset (h : Gated setup s) (hready : s.ready_ = true) (c : C)
    (entry : QueueEntry D) (workset_entry : OrderbookEntry D) :
    Gated setup { s with
      ws := s.ws.push workset_entry
      worksetPushes := s.worksetPushes ++ [(c, entry, workset_entry)] } where
  holds := by
    have hpush := h.holds.pushBack workset_entry
    rw [List.append_assoc] at hpush
    simpa [State.live, Workset.push] using hpush
  capacity := h.capacity
  pushed := h.pushed
  ready := h.ready
  early := h.early
  handler := h.handler
  constructing := h.constructing
  live := fun _ => hready
  queued := h.queued
  replies := h.replies

theorem Gated.effect {persist : Bool} {build : QueueEntry D → Option (OrderbookEntry D)}
    (h : Gated setup s) (heff : Effect persist build parse a s c s') : Gated setup s' := by
  cases heff with
  | stay => exact h
  | move p hnext =>
    refine h.setPhase (fun req hp => (hnext.constructing hp).1) fun hp => ?_
    rcases hnext.late hp with hhandler | hearly
    · exact hhandler
    · exact h.early c hearly
  | send response reply hsends =>
    have hphase : Gated setup (s.setPhase c .reading) := h.setPhase nofun nofun
    refine { hphase with replies := ?_ }
    intro hready r hr
    rcases List.mem_append.mp hr with hr | hr
    · exact h.replies hready r hr
    · obtain rfl := List.mem_singleton.mp hr
      rcases hsends.late with ⟨rfl, rfl⟩ | hlate
      · rfl
      · have hready : s.ready_ = false := hready
        rw [h.ready_of_late hlate] at hready
        cases hready
  | accept publisher req timestamp entry hconn hroute =>
    have hhandler : (s.connections c).handler_ ≠ none := by
      rw [hconn]
      exact nofun
    have hmoved : Gated setup (s.setPhase c (.accepted entry)) := h.setPhase nofun fun _ => hhandler
    exact { hmoved with }
  | getPublisher req hphase =>
    have hready := h.constructing c req hphase
    have hconn : Gated setup { s with
        connections := Function.update s.connections c ⟨some s.ws.nextHandle, .requested req⟩ } :=
      h.update nofun (fun _ => hready) nofun
    exact { hconn with holds := h.holds, capacity := h.capacity }
  | pushQueue entry hphase =>
    have hhandler : (s.connections c).handler_ ≠ none := h.early c (by rw [hphase]; rfl)
    have hmoved : Gated setup (s.setPhase c (.queued entry)) := h.setPhase nofun fun _ => hhandler
    exact { hmoved with queued := fun _ => h.handler c hhandler }
  | pushWorkset publisher entry workset_entry hconn hentry =>
    have hhandler : (s.connections c).handler_ ≠ none := by
      rw [hconn]
      exact nofun
    have hmoved : Gated setup (s.setPhase c (.answering .added)) := h.setPhase nofun fun _ => hhandler
    exact hmoved.pushWorkset (h.handler c hhandler) c entry workset_entry
  | close publisher hconn =>
    have hclosed : Gated setup { s with
        connections := Function.update s.connections c ⟨none, .reading⟩ } :=
      h.update nofun (fun hno => absurd rfl hno) nofun
    exact { hclosed with holds := h.holds, capacity := h.capacity }
  | delete ha hphase =>
    have hring : (s.released c).workset_ = s.ws.workset_ ∧
        (s.released c).capacity_ = s.ws.capacity_ := by
      unfold State.released
      cases (s.connections c).handler_ <;> exact ⟨rfl, rfl⟩
    exact { h with
      holds := by
        rw [hring.1]
        exact h.holds
      capacity := hring.2.trans h.capacity }

omit [DecidableEq C] in
/-- The coroutine pushes before the flag is set, when no handler has pushed. -/
theorem Gated.preloadEffect (h : Gated setup s) (heff : PreloadEffect setup s s') : Gated setup s' := by
  have hnone (hp : ∀ unreleased, s.preload ≠ .finished unreleased) : ¬s.ready_ = true := by
    intro hready
    obtain ⟨unreleased, hu⟩ := h.ready hready
    exact hp unreleased hu
  have hpushed := h.pushed
  cases heff with
  | start hp =>
    rw [hp] at hpushed
    have hready := hnone (by rw [hp]; exact fun _ => nofun)
    have hloaded : s.loaded = [] := hpushed
    have hrest : s.loaded ++ setup.rows = setup.rows := by rw [hloaded, List.nil_append]
    exact { h with pushed := hrest, ready := fun hr => absurd hr hready }
  | push publisher entry rest hp =>
    rw [hp] at hpushed
    have hready := hnone (by rw [hp]; exact fun _ => nofun)
    have hlive : s.worksetPushes = [] := by
      by_contra hlive
      exact hready (h.live hlive)
    have hholds := h.holds.pushBack entry
    have hrest : s.loaded ++ entry :: rest = setup.rows := hpushed
    exact { h with
      holds := by simpa [State.live, hlive, Workset.push] using hholds
      pushed := by
        show s.loaded ++ [entry] ++ rest = setup.rows
        rw [← hrest, List.append_assoc, List.singleton_append]
      ready := fun hr => absurd hr hready }
  | fail publisher hp =>
    rw [hp] at hpushed
    have hready := hnone (by rw [hp]; exact fun _ => nofun)
    have hrows : s.loaded ++ [] = setup.rows := hpushed
    rw [List.append_nil] at hrows
    exact { h with pushed := hrows, ready := fun hr => absurd hr hready }
  | leave publisher hp hcompleted =>
    rw [hp] at hpushed
    have hready := hnone (by rw [hp]; exact fun _ => nofun)
    have hrows : s.loaded ++ [] = setup.rows := hpushed
    rw [List.append_nil] at hrows
    exact { h with pushed := ⟨hrows, hcompleted⟩, ready := fun hr => absurd hr hready }
  | release publisher hp hcompleted =>
    rw [hp] at hpushed
    have hready := hnone (by rw [hp]; exact fun _ => nofun)
    have hrows : s.loaded ++ [] = setup.rows := hpushed
    rw [List.append_nil] at hrows
    exact { h with pushed := ⟨hrows, hcompleted⟩, ready := fun hr => absurd hr hready }
  | ready unreleased hp =>
    rw [hp] at hpushed
    exact { h with
      pushed := hpushed
      ready := fun _ => ⟨unreleased, rfl⟩
      handler := fun _ _ => rfl
      constructing := fun _ _ _ => rfl
      live := fun _ => rfl
      queued := fun _ => rfl
      replies := nofun }

end Gated

/-! ## The publishers -/

section Held

variable {P E : Type*} {ws : Workset E} {R R' : P → Nat → Prop}

/-- The publishers in use are those that some place refers to, each from one place. -/
structure Held (ws : Workset E) (R : P → Nat → Prop) : Prop where
  fresh : ∀ k, ws.nextHandle ≤ k → ws.publishers_ k = false
  inUse : ∀ k, ws.publishers_ k = true ↔ ∃ p, R p k
  exclusive : Ownership.Exclusive R

theorem Held.congr (h : Held ws R) {ws' : Workset E} (hnext : ws'.nextHandle = ws.nextHandle)
    (hpublishers : ws'.publishers_ = ws.publishers_) (hR : ∀ p k, R' p k ↔ R p k) : Held ws' R' where
  fresh := by
    rw [hnext, hpublishers]
    exact h.fresh
  inUse := by
    intro k
    rw [hpublishers, h.inUse k]
    exact exists_congr fun p => (hR p k).symm
  exclusive := h.exclusive.mono fun p k => (hR p k).mp

/-- `get_publisher` for a place that has none. -/
theorem Held.acquire (h : Held ws R) {p : P}
    (hR : ∀ q k, R' q k ↔ R q k ∨ (q = p ∧ k = ws.nextHandle)) : Held ws.getPublisher R' := by
  have hnew : ∀ q, ¬R q ws.nextHandle := by
    intro q hq
    have huse := (h.inUse _).mpr ⟨q, hq⟩
    rw [h.fresh _ (Nat.le_refl _)] at huse
    cases huse
  have hrelocates : Ownership.Relocates R R' ws.nextHandle p := by
    refine .of_others ?_ ?_
    · intro q x hx
      simp [hR q x, hx]
    · intro q
      simp [hR q, hnew q]
  refine ⟨?_, ?_, h.exclusive.relocate hrelocates⟩
  · intro k hk
    have hlt : ws.nextHandle < k := hk
    exact (Function.update_of_ne (Nat.ne_of_gt hlt) ..).trans (h.fresh k (Nat.le_of_lt hlt))
  · intro k
    by_cases hk : k = ws.nextHandle
    · subst hk
      simp [Workset.getPublisher, hR]
    · simp [Workset.getPublisher, hR, hk, h.inUse k]

/-- `release`, by the place that has the publisher. -/
theorem Held.release (h : Held ws R) {p : P} {publisher : Nat} (hp : R p publisher)
    (hR : ∀ q k, R' q k ↔ R q k ∧ q ≠ p) (honly : ∀ k, R p k → k = publisher) :
    Held (ws.removePublisher publisher) R' := by
  refine ⟨?_, ?_, h.exclusive.mono fun q k hq => ((hR q k).mp hq).1⟩
  · intro k hk
    by_cases hkp : k = publisher
    · subst hkp
      exact Function.update_self ..
    · exact (Function.update_of_ne hkp ..).trans (h.fresh k hk)
  · intro k
    by_cases hkp : k = publisher
    · subst hkp
      simp only [Workset.removePublisher, Function.update_self, Bool.false_eq_true, false_iff,
        not_exists]
      intro q hq
      obtain ⟨hq, hne⟩ := (hR q k).mp hq
      exact hne (h.exclusive k q p hq hp)
    · simp only [Workset.removePublisher, Function.update_of_ne hkp, h.inUse k]
      refine exists_congr fun q => ⟨fun hq => (hR q k).mpr ⟨hq, ?_⟩, fun hq => ((hR q k).mp hq).1⟩
      rintro rfl
      exact hkp (honly k hq)

end Held

/-- Connection `c`, or the coroutine for `none`, has this publisher. What a deleted connection had was
released. -/
def State.Refers (s : State C D) : Option C → Nat → Prop
  | some c, k => s.deleted c = false ∧ (s.connections c).handler_ = some k
  | none, k => s.preload.publisher = some k

/-- The publishers in use are those of the handlers, each with its own, and that of the coroutine. A
handler is constructed where there is none. -/
structure Owned (s : State C D) : Prop where
  held : Held s.ws s.Refers
  constructing : ∀ c req, (s.connections c).phase = .constructing req →
    (s.connections c).handler_ = none

omit [DecidableEq C] in
theorem owned_init (setup : Setup D) : Owned (State.init setup : State C D) where
  held := by
    refine ⟨fun _ _ => rfl, fun k => ⟨nofun, ?_⟩, ?_⟩
    · rintro ⟨_ | c, hp⟩
      · cases hp
      · cases hp.2
    · rintro k (_ | c) q hp hq
      · cases hp
      · cases hp.2
  constructing := fun _ _ => nofun

section Owned

variable {setup : Setup D} {s s' : State C D} {c : C}

theorem constructing_update {conn : Conn D}
    (h : ∀ d req, (s.connections d).phase = .constructing req → (s.connections d).handler_ = none)
    (hconn : ∀ req, conn.phase = .constructing req → conn.handler_ = none) (d : C) (req : ApiRequest)
    (hd : (Function.update s.connections c conn d).phase = .constructing req) :
    (Function.update s.connections c conn d).handler_ = none := by
  by_cases hdc : d = c
  · subst hdc
    rw [Function.update_self] at hd ⊢
    exact hconn req hd
  · rw [Function.update_of_ne hdc] at hd ⊢
    exact h d req hd

theorem Owned.setPhase (h : Owned s) {p : Phase D}
    (hready : ∀ req, p = .constructing req → (s.connections c).handler_ = none) :
    Owned (s.setPhase c p) where
  held := by
    refine h.held.congr rfl rfl ?_
    rintro (_ | d) k
    · exact Iff.rfl
    · simp only [State.Refers, setPhase_handler_]
      exact Iff.rfl
  constructing := constructing_update h.constructing hready

/-- `~Connection` in front of a response: the publisher of the handler is given back. -/
theorem Owned.delete (h : Owned s) (hlive : s.deleted c = false) :
    Owned { s with ws := s.released c, deleted := Function.update s.deleted c true } := by
  have hrefers (q : Option C) (k : Nat) :
      State.Refers { s with deleted := Function.update s.deleted c true } q k ↔
        s.Refers q k ∧ q ≠ some c := by
    cases q with
    | none => simp [State.Refers]
    | some d =>
      by_cases hdc : d = c
      · simp [State.Refers, hdc]
      · simp [State.Refers, hdc]
  refine ⟨?_, h.constructing⟩
  cases hhandler : (s.connections c).handler_ with
  | none =>
    have hfree : ∀ q k, s.Refers q k → q ≠ some c := by
      rintro _ k hq rfl
      rw [State.Refers, hhandler] at hq
      cases hq.2
    refine h.held.congr ?_ ?_ fun q k => (hrefers q k).trans (and_iff_left_of_imp (hfree q k))
    · rw [State.released, hhandler]
    · rw [State.released, hhandler]
  | some publisher =>
    rw [State.released, hhandler]
    refine h.held.release (p := some c) ⟨hlive, hhandler⟩ hrefers ?_
    intro k hk
    exact (Option.some.inj (hhandler.symm.trans hk.2)).symm

theorem Owned.effect {persist : Bool} {build : QueueEntry D → Option (OrderbookEntry D)}
    (h : Owned s) (hlive : s.deleted c = false) (heff : Effect persist build parse a s c s') :
    Owned s' := by
  cases heff with
  | stay => exact h
  | move p hnext => exact h.setPhase fun req hp => (hnext.constructing hp).2
  | send response reply hsends =>
    have hmoved : Owned (s.setPhase c .reading) := h.setPhase nofun
    exact { hmoved with }
  | accept publisher req timestamp entry hconn hroute =>
    have hmoved : Owned (s.setPhase c (.accepted entry)) := h.setPhase nofun
    exact { hmoved with }
  | getPublisher req hphase =>
    have hnone := h.constructing c req hphase
    refine ⟨h.held.acquire (p := some c) ?_, constructing_update h.constructing nofun⟩
    rintro (_ | d) k
    · simp [State.Refers]
    · by_cases hdc : d = c
      · subst hdc
        simp [State.Refers, hlive, hnone, eq_comm]
      · simp [State.Refers, hdc]
  | pushQueue entry hphase =>
    have hmoved : Owned (s.setPhase c (.queued entry)) := h.setPhase nofun
    exact { hmoved with }
  | pushWorkset publisher entry workset_entry hconn hentry =>
    have hmoved : Owned (s.setPhase c (.answering .added)) := h.setPhase nofun
    exact { hmoved with held := hmoved.held.congr rfl rfl fun _ _ => Iff.rfl }
  | close publisher hconn =>
    refine ⟨h.held.release (p := some c) (by simp [State.Refers, hlive, hconn]) ?_ ?_,
      constructing_update h.constructing nofun⟩
    · rintro (_ | d) k
      · simp [State.Refers]
      · by_cases hdc : d = c
        · subst hdc
          simp [State.Refers]
        · simp [State.Refers, hdc]
    · intro k hk
      simpa [State.Refers, hlive, hconn, eq_comm] using hk
  | delete ha hphase => exact h.delete hlive

/-- Only a deletion in front of a response deletes a connection whose coroutine goes on. -/
theorem Effect.live {persist : Bool} {build : QueueEntry D → Option (OrderbookEntry D)}
    {parse : Http.Str → Option (List D × List D)} {a : Act C D}
    (hidle : ∀ d, a = .close d → (s.connections d).phase.idle = true)
    (heff : Effect persist build parse a s c s') : s'.deleted = s.deleted := by
  cases heff with
  | delete ha hphase =>
    rw [hidle c ha] at hphase
    cases hphase
  | stay => rfl
  | move p hnext => rfl
  | send response reply hsends => rfl
  | accept publisher req timestamp entry hconn hroute => rfl
  | getPublisher req hphase => rfl
  | pushQueue entry hphase => rfl
  | pushWorkset publisher entry workset_entry hconn hentry => rfl
  | close publisher hconn => rfl

omit [DecidableEq C] in
/-- Only the coroutine changes what it has. -/
theorem Owned.ofPreload (h : Owned s) {u : Preload D} (hu : u.publisher = s.preload.publisher) :
    Owned { s with preload := u } := by
  refine ⟨h.held.congr rfl rfl ?_, h.constructing⟩
  rintro (_ | d) k
  · simp only [State.Refers, hu]
  · exact Iff.rfl

omit [DecidableEq C] in
theorem Owned.preloadEffect (h : Owned s) (heff : PreloadEffect setup s s') : Owned s' := by
  cases heff with
  | start hp =>
    refine ⟨h.held.acquire (p := none) ?_, h.constructing⟩
    rintro (_ | d) k
    · simp [State.Refers, hp, Preload.publisher, eq_comm]
    · simp [State.Refers]
  | push publisher entry rest hp =>
    have hsame : Owned { s with preload := .loading publisher rest } := h.ofPreload (by rw [hp]; rfl)
    exact ⟨hsame.held.congr rfl rfl fun _ _ => Iff.rfl, hsame.constructing⟩
  | fail publisher hp => exact h.ofPreload (by rw [hp]; rfl)
  | leave publisher hp hcompleted => exact h.ofPreload (by rw [hp]; rfl)
  | release publisher hp hcompleted =>
    refine ⟨h.held.release (p := none) (by simp [State.Refers, hp, Preload.publisher]) ?_ ?_,
      h.constructing⟩
    · rintro (_ | d) k
      · simp [State.Refers, Preload.publisher]
      · simp [State.Refers]
    · intro k hk
      simpa [State.Refers, hp, Preload.publisher, eq_comm] using hk
  | ready unreleased hp =>
    have hsame : Owned { s with preload := .finished unreleased } := h.ofPreload (by rw [hp]; rfl)
    exact { hsame with }

end Owned

/-! ## Every book once -/

/-- A book goes to the queue and then to the workset, each connection's in their order, and its
response is owed from then on. -/
structure Accounted (persist : Bool) (build : QueueEntry D → Option (OrderbookEntry D))
    (s : State C D) : Prop where
  both : persist = true → ∀ c, s.queuedBy c = s.pushedBy c ++ (s.connections c).phase.inFlight
  neither : persist = false → s.queuePushes = []
  built : ∀ push ∈ s.worksetPushes, build push.2.1 = some push.2.2
  answered : ∀ c, (s.pushedBy c).length = s.addedBy c + (s.connections c).phase.owed

theorem accounted_init {persist : Bool} {build : QueueEntry D → Option (OrderbookEntry D)}
    (setup : Setup D) : Accounted persist build (State.init setup : State C D) where
  both := fun _ _ => rfl
  neither := fun _ => rfl
  built := fun _ => nofun
  answered := fun _ => rfl

section Accounted

variable {persist : Bool} {build : QueueEntry D → Option (OrderbookEntry D)} {setup : Setup D}
  {s s' : State C D} {c : C}

/-- A change of one connection that has nothing between the pushes and owes no response. -/
theorem Accounted.update (h : Accounted persist build s) {conn : Conn D}
    (hold : (s.connections c).phase.inFlight = []) (howed : (s.connections c).phase.owed = 0)
    (hnew : conn.phase.inFlight = []) (howed' : conn.phase.owed = 0) :
    Accounted persist build { s with connections := Function.update s.connections c conn } where
  both := by
    intro hpersist d
    by_cases hdc : d = c
    · subst hdc
      simpa [State.queuedBy, State.pushedBy, hnew, hold] using h.both hpersist d
    · simpa [State.queuedBy, State.pushedBy, hdc] using h.both hpersist d
  neither := h.neither
  built := h.built
  answered := by
    intro d
    by_cases hdc : d = c
    · subst hdc
      simpa [State.pushedBy, State.addedBy, howed, howed'] using h.answered d
    · simpa [State.pushedBy, State.addedBy, hdc] using h.answered d

theorem Accounted.send (h : Accounted persist build s) {response : Reply} (reply : Reply)
    (hold : (s.connections c).phase.inFlight = [])
    (howed : (s.connections c).phase.owed = if response = .added then 1 else 0) :
    Accounted persist build (s.send c response reply) where
  both := by
    intro hpersist d
    by_cases hdc : d = c
    · subst hdc
      have hboth := h.both hpersist d
      rw [hold] at hboth
      simpa [State.send, State.setPhase, State.queuedBy, State.pushedBy, Phase.inFlight] using hboth
    · simpa [State.send, State.setPhase, State.queuedBy, State.pushedBy, hdc] using h.both hpersist d
  neither := h.neither
  built := h.built
  answered := by
    intro d
    have hd := h.answered d
    by_cases hdc : d = c
    · subst hdc
      rw [howed] at hd
      simpa [State.send, State.setPhase, State.pushedBy, State.addedBy, List.countP_append,
        List.countP_cons, Phase.owed] using hd
    · simpa [State.send, State.setPhase, State.pushedBy, State.addedBy, List.countP_append,
        List.countP_cons, hdc, Ne.symm hdc] using hd

theorem Accounted.pushQueue (h : Accounted persist build s) {entry : QueueEntry D}
    (hphase : (s.connections c).phase = .accepted entry) :
    Accounted persist build { s.setPhase c (.queued entry) with
      queuePushes := if persist then s.queuePushes ++ [(c, entry)] else s.queuePushes } where
  both := by
    intro hpersist d
    have hboth := h.both hpersist d
    rw [hpersist, if_pos rfl]
    by_cases hdc : d = c
    · subst hdc
      rw [hphase] at hboth
      simpa [State.setPhase, State.queuedBy, State.pushedBy, Phase.inFlight] using hboth
    · simpa [State.setPhase, State.queuedBy, State.pushedBy, hdc, Ne.symm hdc] using hboth
  neither := by
    intro hpersist
    rw [hpersist]
    simpa using h.neither hpersist
  built := h.built
  answered := by
    intro d
    have hd := h.answered d
    by_cases hdc : d = c
    · subst hdc
      rw [hphase] at hd
      simpa [State.setPhase, State.pushedBy, State.addedBy, Phase.owed] using hd
    · simpa [State.setPhase, State.pushedBy, State.addedBy, hdc] using hd

theorem Accounted.pushWorkset (h : Accounted persist build s) {entry : QueueEntry D}
    {workset_entry : OrderbookEntry D} (hphase : (s.connections c).phase = .queued entry)
    (hentry : build entry = some workset_entry) :
    Accounted persist build { s.setPhase c (.answering .added) with
      ws := s.ws.push workset_entry
      worksetPushes := s.worksetPushes ++ [(c, entry, workset_entry)] } where
  both := by
    intro hpersist d
    have hboth := h.both hpersist d
    by_cases hdc : d = c
    · subst hdc
      rw [hphase] at hboth
      simpa [State.setPhase, State.queuedBy, State.pushedBy, Phase.inFlight] using hboth
    · simpa [State.setPhase, State.queuedBy, State.pushedBy, hdc, Ne.symm hdc] using hboth
  neither := h.neither
  built := by
    intro push hpush
    rcases List.mem_append.mp hpush with hpush | hpush
    · exact h.built push hpush
    · obtain rfl := List.mem_singleton.mp hpush
      exact hentry
  answered := by
    intro d
    have hd := h.answered d
    by_cases hdc : d = c
    · subst hdc
      rw [hphase] at hd
      simpa [State.setPhase, State.pushedBy, State.addedBy, Phase.owed] using hd
    · simpa [State.setPhase, State.pushedBy, State.addedBy, hdc, Ne.symm hdc] using hd

theorem Accounted.effect (h : Accounted persist build s) (heff : Effect persist build parse a s c s') :
    Accounted persist build s' := by
  cases heff with
  | stay => exact h
  | move p hnext =>
    exact h.update hnext.inFlight.1 hnext.owed.1 hnext.inFlight.2 hnext.owed.2
  | send response reply hsends => exact h.send reply hsends.inFlight hsends.owed
  | accept publisher req timestamp entry hconn hroute =>
    have hmoved : Accounted persist build (s.setPhase c (.accepted entry)) :=
      h.update (by rw [hconn]; rfl) (by rw [hconn]; rfl) rfl rfl
    exact { hmoved with }
  | getPublisher req hphase =>
    have hmoved : Accounted persist build { s with
        connections := Function.update s.connections c ⟨some s.ws.nextHandle, .requested req⟩ } :=
      h.update (by rw [hphase]; rfl) (by rw [hphase]; rfl) rfl rfl
    exact { hmoved with }
  | pushQueue entry hphase => exact h.pushQueue hphase
  | pushWorkset publisher entry workset_entry hconn hentry =>
    exact h.pushWorkset (by rw [hconn]) hentry
  | close publisher hconn =>
    have hmoved : Accounted persist build { s with
        connections := Function.update s.connections c ⟨none, .reading⟩ } :=
      h.update (by rw [hconn]; rfl) (by rw [hconn]; rfl) rfl rfl
    exact { hmoved with }
  | delete ha hphase => exact { h with }

theorem Accounted.preloadEffect (h : Accounted persist build s)
    (heff : PreloadEffect setup s s') : Accounted persist build s' := by
  cases heff <;> exact { h with }

end Accounted

/-- The books of the requests are those that have been pushed and then the one that is still to be
pushed, and each is what its request asks to add. -/
structure Recorded (parse : Http.Str → Option (List D × List D)) (s : State C D) : Prop where
  pending : ∀ c, s.acceptedBy c = s.pushedBy c ++ (s.connections c).phase.pending
  read : ∀ book ∈ s.accepted, ∃ timestamp,
    routeRequest parse book.2.1 timestamp = some (.book book.2.2)

section Recorded

variable {parse : Http.Str → Option (List D × List D)} {persist : Bool}
  {build : QueueEntry D → Option (OrderbookEntry D)} {setup : Setup D} {s s' : State C D} {c : C}

theorem recorded_init (parse : Http.Str → Option (List D × List D)) (setup : Setup D) :
    Recorded parse (State.init setup : State C D) where
  pending := fun _ => rfl
  read := fun _ => nofun

/-- A change of one connection that keeps what is still to be pushed. -/
theorem Recorded.update (h : Recorded parse s) {conn : Conn D}
    (hsame : conn.phase.pending = (s.connections c).phase.pending) :
    Recorded parse { s with connections := Function.update s.connections c conn } where
  pending := by
    intro d
    by_cases hdc : d = c
    · subst hdc
      simpa [State.acceptedBy, State.pushedBy, hsame] using h.pending d
    · simpa [State.acceptedBy, State.pushedBy, hdc] using h.pending d
  read := h.read

theorem Recorded.accept (h : Recorded parse s) {req : ApiRequest} {timestamp : D}
    {entry : QueueEntry D} (hphase : (s.connections c).phase = .requested req)
    (hroute : routeRequest parse req timestamp = some (.book entry)) :
    Recorded parse (s.accept c req entry) where
  pending := by
    intro d
    have hd := h.pending d
    by_cases hdc : d = c
    · subst hdc
      rw [hphase] at hd
      simpa [State.accept, State.setPhase, State.acceptedBy, State.pushedBy, Phase.pending] using hd
    · simpa [State.accept, State.setPhase, State.acceptedBy, State.pushedBy, hdc, Ne.symm hdc]
        using hd
  read := by
    intro book hbook
    rcases List.mem_append.mp hbook with hbook | hbook
    · exact h.read book hbook
    · obtain rfl := List.mem_singleton.mp hbook
      exact ⟨timestamp, hroute⟩

theorem Recorded.pushWorkset (h : Recorded parse s) {entry : QueueEntry D}
    (workset_entry : OrderbookEntry D) (hphase : (s.connections c).phase = .queued entry) :
    Recorded parse { s.setPhase c (.answering .added) with
      ws := s.ws.push workset_entry
      worksetPushes := s.worksetPushes ++ [(c, entry, workset_entry)] } where
  pending := by
    intro d
    have hd := h.pending d
    by_cases hdc : d = c
    · subst hdc
      rw [hphase] at hd
      simpa [State.setPhase, State.acceptedBy, State.pushedBy, Phase.pending] using hd
    · simpa [State.setPhase, State.acceptedBy, State.pushedBy, hdc, Ne.symm hdc] using hd
  read := h.read

theorem Recorded.effect (h : Recorded parse s) (heff : Effect persist build parse a s c s') :
    Recorded parse s' := by
  cases heff with
  | stay => exact h
  | move p hnext => exact h.update (hnext.pending.2.trans hnext.pending.1.symm)
  | send response reply hsends =>
    have hmoved : Recorded parse (s.setPhase c .reading) := h.update hsends.pending.symm
    exact { hmoved with }
  | accept publisher req timestamp entry hconn hroute => exact h.accept (by rw [hconn]) hroute
  | getPublisher req hphase =>
    have hmoved : Recorded parse { s with
        connections := Function.update s.connections c ⟨some s.ws.nextHandle, .requested req⟩ } :=
      h.update (by rw [hphase]; rfl)
    exact { hmoved with }
  | pushQueue entry hphase =>
    have hmoved : Recorded parse (s.setPhase c (.queued entry)) := h.update (by rw [hphase]; rfl)
    exact { hmoved with }
  | pushWorkset publisher entry workset_entry hconn hentry =>
    exact h.pushWorkset workset_entry (by rw [hconn])
  | close publisher hconn =>
    have hmoved : Recorded parse { s with
        connections := Function.update s.connections c ⟨none, .reading⟩ } :=
      h.update (by rw [hconn])
    exact { hmoved with }
  | delete ha hphase => exact { h with }

theorem Recorded.preloadEffect (h : Recorded parse s) (heff : PreloadEffect setup s s') :
    Recorded parse s' := by
  cases heff <;> exact { h with }

end Recorded

/-- Lists of pairs that agree for every key are the same up to their order. -/
theorem perm_of_keys {Q : Type*} {xs ys : List (C × Q)}
    (h : ∀ c, xs.filterMap (fun x => if x.1 = c then some x.2 else none) =
      ys.filterMap fun y => if y.1 = c then some y.2 else none) : xs.Perm ys := by
  classical
  have hcount (zs : List (C × Q)) (c : C) (q : Q) :
      zs.count (c, q) = (zs.filterMap fun z => if z.1 = c then some z.2 else none).count q := by
    induction zs with
    | nil => rfl
    | cons z zs ih =>
      obtain ⟨d, r⟩ := z
      by_cases hd : d = c
      · subst hd
        simp [List.count_cons, ih]
      · simp [hd, ih]
  refine List.perm_iff_count.mpr ?_
  rintro ⟨c, q⟩
  rw [hcount xs, hcount ys, h]

/-! ## One book at a time -/

/-- The pushes to the queue are those to the workset, with at most one book more. -/
def Ordered (s : State C D) : Prop :=
  ∃ rest, s.queuePushes = (s.worksetPushes.map fun push => (push.1, push.2.1)) ++ rest ∧
    (∀ c entry, (c, entry) ∈ rest ↔ (s.connections c).phase = .queued entry) ∧ rest.length ≤ 1

section Ordered

variable {build : QueueEntry D → Option (OrderbookEntry D)} {setup : Setup D} {s s' : State C D} {c : C}

omit [DecidableEq C] in
theorem inFlight_eq_nil {p : Phase D} (h : p.inFlight = []) (entry : QueueEntry D) :
    p ≠ .queued entry := by
  rintro rfl
  cases h

/-- A change of one connection that has nothing between the pushes. -/
theorem Ordered.update (h : Ordered s) {conn : Conn D} (hold : (s.connections c).phase.inFlight = [])
    (hnew : conn.phase.inFlight = []) :
    Ordered { s with connections := Function.update s.connections c conn } := by
  obtain ⟨rest, hqueue, hrest, hlength⟩ := h
  refine ⟨rest, hqueue, ?_, hlength⟩
  intro d entry
  rw [hrest d entry]
  by_cases hdc : d = c
  · subst hdc
    simp [inFlight_eq_nil hold entry, inFlight_eq_nil hnew entry]
  · simp [hdc]

theorem Ordered.effect (h : Ordered s) (heff : Effect true build parse a s c s') (hone : s'.AtMostOne) :
    Ordered s' := by
  cases heff with
  | stay => exact h
  | move p hnext => exact h.update hnext.inFlight.1 hnext.inFlight.2
  | send response reply hsends => exact h.update hsends.inFlight rfl
  | accept publisher req timestamp entry hconn hroute => exact h.update (by rw [hconn]; rfl) rfl
  | getPublisher req hphase => exact h.update (by rw [hphase]; rfl) rfl
  | pushQueue entry hphase =>
    obtain ⟨rest, hqueue, hrest, hlength⟩ := h
    have hnone : rest = [] := by
      refine List.eq_nil_iff_forall_not_mem.mpr ?_
      rintro ⟨d, e⟩ hd
      have hd := (hrest d e).mp hd
      have hdc : d ≠ c := by
        rintro rfl
        rw [hphase] at hd
        cases hd
      refine hdc (hone d c ?_ ?_)
      · simp [State.setPhase, hdc, hd, Phase.inFlight]
      · simp [State.setPhase, Phase.inFlight]
    subst hnone
    refine ⟨[(c, entry)], ?_, ?_, Nat.le_refl 1⟩
    · rw [if_pos rfl, hqueue, List.append_nil]
      rfl
    · intro d e
      by_cases hdc : d = c
      · subst hdc
        simp [State.setPhase, eq_comm]
      · have hd := hrest d e
        simp only [List.not_mem_nil, false_iff] at hd
        simp [State.setPhase, hdc, hd]
  | pushWorkset publisher entry workset_entry hconn hentry =>
    obtain ⟨rest, hqueue, hrest, hlength⟩ := h
    have hmem : (c, entry) ∈ rest := (hrest c entry).mpr (by rw [hconn])
    obtain rfl : rest = [(c, entry)] := by
      rcases rest with _ | ⟨r, _ | ⟨r', rest⟩⟩
      · cases hmem
      · rw [List.mem_singleton.mp hmem]
      · simp at hlength
    refine ⟨[], ?_, ?_, Nat.zero_le 1⟩
    · simpa [State.setPhase] using hqueue
    · intro d e
      by_cases hdc : d = c
      · subst hdc
        simp [State.setPhase]
      · have hd := hrest d e
        simp only [List.mem_singleton, Prod.mk.injEq, hdc, false_and, false_iff] at hd
        simp [State.setPhase, hdc, hd]
  | close publisher hconn => exact h.update (by rw [hconn]; rfl) rfl
  | delete ha hphase => exact h

omit [DecidableEq C] in
theorem Ordered.preloadEffect (h : Ordered s) (heff : PreloadEffect setup s s') : Ordered s' := by
  cases heff <;> exact h

end Ordered

/-! ## Every run -/

section Runs

variable [LinearOrder D] [Zero D] {parse : Http.Str → Option (List D × List D)}
  {sorter : StdSort (D × D)} {ofId : UInt64 → D} {setup : Setup D} {s : State C D}

/-- What the steps of connections and of the coroutine keep holds in every state that is reached. -/
theorem invariant_of_effects {I : State C D → Prop} (h0 : I (State.init setup))
    (hconnection : ∀ {a s s' c}, I s → s.deleted c = false →
      Effect setup.persist_workset_to_database (HttpServerHandler.worksetEntry sorter ofId) parse a s c
        s' → I s')
    (hpreload : ∀ {s s'}, I s → PreloadEffect setup s s' → I s')
    (h : Reachable (system parse sorter ofId setup) s) : I s := by
  refine h.invariant (I := I) ?_ ?_
  · rintro _ rfl
    exact h0
  · intro s a s' hI ht
    rcases effect_of_step ht with ⟨c, hlive, heff⟩ | heff
    · exact hconnection hI hlive heff
    · exact hpreload hI heff

theorem gated_of_reachable (h : Reachable (system parse sorter ofId setup) s) : Gated setup s :=
  invariant_of_effects (gated_init setup) (fun hI _ heff => hI.effect heff) Gated.preloadEffect h

theorem recorded_of_reachable (h : Reachable (system parse sorter ofId setup) s) : Recorded parse s :=
  invariant_of_effects (recorded_init parse setup) (fun hI _ heff => hI.effect heff)
    Recorded.preloadEffect h

/-- No connection is deleted while its coroutine is about a request. -/
theorem live_of_reachable (h : Reachable (deletedIdle parse sorter ofId setup) s) (c : C) :
    s.deleted c = false := by
  refine h.invariant (I := fun s => ∀ c, s.deleted c = false) ?_ ?_ c
  · rintro _ rfl c
    rfl
  · rintro s a s' hI ⟨ht, hidle⟩
    rcases effect_of_step ht with ⟨c, -, heff⟩ | heff
    · rw [heff.live hidle]
      exact hI
    · cases heff <;> exact hI

/-- **The workset is preloaded first.** In every state the ring holds the last entries of what the
coroutine has pushed followed by what the handlers have pushed; a handler pushes only after all rows
have been pushed; and until the flag is set every request is answered by a refusal. -/
theorem preloaded_before_live (h : Reachable (system parse sorter ofId setup) s) :
    s.ws.workset_.items =
        (s.loaded ++ s.live).drop ((s.loaded ++ s.live).length - setup.capacity.toNat) ∧
      s.loaded <+: setup.rows ∧
      (s.live ≠ [] → s.loaded = setup.rows ∧ setup.completed = true) ∧
      (s.ready_ = false → ∀ reply ∈ s.replies, reply.2 = (.notReady, .notReady)) := by
  have hI := gated_of_reachable h
  refine ⟨?_, hI.loaded_prefix, ?_, hI.replies⟩
  · have hholds := hI.holds
    rwa [CircularBuffer.Holds, s.ws.capacity_eq, hI.capacity] at hholds
  · intro hlive
    obtain ⟨unreleased, hu⟩ := hI.ready (hI.live fun hno => hlive (by rw [State.live, hno]; rfl))
    have hpushed := hI.pushed
    rw [hu] at hpushed
    exact hpushed

/-- One entry is preloaded, into a workset of two. -/
def oneRow : Setup Int where
  persist_workset_to_database := true
  capacity := 2
  rows := [.new 1]
  completed := true

/-- A body with a bid and an ask. -/
def twoLevels (_ : Http.Str) : Option (List Int × List Int) := some ([10, 11], [1, -1])

/-- A request comes too early; later the same book is added. -/
def refusedThenAdded : List (Act Bool Int) :=
  [.preloadStart, .request false localBook, .createHandler false, .preloadPush, .preloadEnd,
    .setReady, .request false localBook, .createHandler false, .getPublisher false, .route false 5,
    .pushQueue false, .pushWorkset false, .answer false false]

theorem refusedThenAdded_runs :
    ∃ s, run (step twoLevels (.insertion _) (fun _ => 0) oneRow) (.init oneRow) refusedThenAdded =
        some s ∧ s.worksetPushes.length = 1 ∧ s.queuePushes.length = 1 ∧ s.replies.length = 2 :=
  ⟨_, rfl, rfl, rfl, rfl⟩

theorem preloaded_before_live_added :
    ∃ s, run (step twoLevels (.insertion _) (fun _ => 0) oneRow) (.init oneRow) refusedThenAdded =
        some s ∧
      s.ws.workset_.items =
        (s.loaded ++ s.live).drop ((s.loaded ++ s.live).length - oneRow.capacity.toNat) ∧
      s.loaded <+: oneRow.rows ∧
      (s.live ≠ [] → s.loaded = oneRow.rows ∧ oneRow.completed = true) ∧
      (s.ready_ = false → ∀ reply ∈ s.replies, reply.2 = (.notReady, .notReady)) := by
  obtain ⟨s, hs, -⟩ := refusedThenAdded_runs
  exact ⟨s, hs, preloaded_before_live (reachable_of_run _ hs)⟩

/-- The connection has queued a book, which makes an entry, and cannot push it. -/
def Stuck (parse : Http.Str → Option (List D × List D)) (sorter : StdSort (D × D)) (ofId : UInt64 → D)
    (setup : Setup D) (s : State C D) (c : C) : Prop :=
  ∃ entry, (s.connections c).phase = .queued entry ∧
    (HttpServerHandler.worksetEntry sorter ofId entry).isSome ∧
    step parse sorter ofId setup s (.pushWorkset c) = none

/-- A queued book can be pushed as long as the connection was not deleted. -/
theorem Owned.not_stuck (h : Owned s) (hgated : Gated setup s) {c : C} (hlive : s.deleted c = false) :
    ¬ Stuck parse sorter ofId setup s c := by
  rintro ⟨entry, hphase, hbuilt, hnone⟩
  obtain ⟨publisher, hpublisher⟩ := Option.ne_none_iff_exists'.mp
    (hgated.early c (by rw [hphase]; rfl))
  obtain ⟨workset_entry, hentry⟩ := Option.isSome_iff_exists.mp hbuilt
  have hconn : s.connections c = { handler_ := some publisher, phase := .queued entry } := by
    rw [← hpublisher, ← hphase]
  have huse : s.ws.publishers_ publisher = true :=
    (h.held.inUse publisher).mpr ⟨some c, hlive, hpublisher⟩
  simp only [step, Act.connection, hlive, connectionStep, hconn, huse, hentry, if_true,
    Bool.false_eq_true, if_false, Option.map_some] at hnone
  cases hnone

/-- **Nobody pushes on a released publisher.** The publishers in use are those of the handlers of the
connections that were not deleted and that of the coroutine, and no two of them share one. A connection
that has queued a book can push it unless it was deleted, and in a run that deletes connections between
two requests only, it always can. -/
theorem publishers_owned (h : Reachable (system parse sorter ofId setup) s) :
    (∀ k, s.ws.publishers_ k = true ↔
        (∃ c, s.deleted c = false ∧ (s.connections c).handler_ = some k) ∨
          s.preload.publisher = some k) ∧
      (∀ c d k, s.deleted c = false → s.deleted d = false → (s.connections c).handler_ = some k →
        (s.connections d).handler_ = some k → c = d) ∧
      (∀ c k, s.deleted c = false → (s.connections c).handler_ = some k →
        s.preload.publisher ≠ some k) ∧
      (∀ c, Stuck parse sorter ofId setup s c → s.deleted c = true) ∧
      (Reachable (deletedIdle parse sorter ofId setup) s →
        ∀ c, ¬ Stuck parse sorter ofId setup s c) := by
  have hI : Owned s := invariant_of_effects (owned_init setup) Owned.effect Owned.preloadEffect h
  have hgated := gated_of_reachable h
  refine ⟨?_, ?_, ?_, ?_, ?_⟩
  · intro k
    rw [hI.held.inUse, Option.exists]
    exact or_comm
  · intro c d k hc hd hck hdk
    exact Option.some.inj (hI.held.exclusive k (some c) (some d) ⟨hc, hck⟩ ⟨hd, hdk⟩)
  · intro c k hc hck hp
    exact nomatch hI.held.exclusive k (some c) none ⟨hc, hck⟩ hp
  · intro c hstuck
    by_contra hlive
    exact hI.not_stuck hgated (Bool.eq_false_of_not_eq_true hlive) hstuck
  · intro hidle c
    exact hI.not_stuck hgated (live_of_reachable hidle c)

/-- A connection is deleted between its two pushes. -/
def deletedInFlight : List (Act Bool Int) :=
  [.preloadStart, .preloadPush, .preloadEnd, .setReady, .request false localBook,
    .createHandler false, .getPublisher false, .route false 5, .pushQueue false, .close false]

theorem publishers_owned_deleted :
    ∃ s, run (step twoLevels (.insertion _) (fun _ => 0) oneRow) (.init oneRow) deletedInFlight =
        some s ∧ Stuck twoLevels (.insertion _) (fun _ => 0) oneRow s false ∧
      (∀ k, s.ws.publishers_ k = true ↔
        (∃ c, s.deleted c = false ∧ (s.connections c).handler_ = some k) ∨
          s.preload.publisher = some k) ∧
      (∀ c d k, s.deleted c = false → s.deleted d = false → (s.connections c).handler_ = some k →
        (s.connections d).handler_ = some k → c = d) ∧
      (∀ c k, s.deleted c = false → (s.connections c).handler_ = some k →
        s.preload.publisher ≠ some k) ∧
      (∀ c, Stuck twoLevels (.insertion _) (fun _ => 0) oneRow s c → s.deleted c = true) ∧
      (Reachable (deletedIdle twoLevels (.insertion _) (fun _ => 0) oneRow) s →
        ∀ c, ¬ Stuck twoLevels (.insertion _) (fun _ => 0) oneRow s c) := by
  have hrun : ∃ s, run (step twoLevels (.insertion _) (fun _ => 0) oneRow) (.init oneRow)
      deletedInFlight = some s ∧ Stuck twoLevels (.insertion _) (fun _ => 0) oneRow s false :=
    ⟨_, rfl, _, rfl, rfl, rfl⟩
  obtain ⟨s, hs, hstuck⟩ := hrun
  exact ⟨s, hs, hstuck, publishers_owned (reachable_of_run _ hs)⟩

/-- **Every book once.** The books that a connection has pushed to the workset are those of its
requests, each once and in their order, but for the one that is still to be pushed. Each is in the
workset as the entry that is built for it, and its request has one response. With the setting each of
them is in the queue once as well, each connection's in the same order in both, and nothing else is
there when no handler is between its two pushes; without the setting the queue stays empty. -/
theorem books_pushed_once (h : Reachable (system parse sorter ofId setup) s) :
    (∀ c, s.acceptedBy c = s.pushedBy c ++ (s.connections c).phase.pending) ∧
      (∀ book ∈ s.accepted, ∃ timestamp,
        routeRequest parse book.2.1 timestamp = some (.book book.2.2)) ∧
      (∀ c, (s.pushedBy c).length = s.addedBy c + (s.connections c).phase.owed) ∧
      (∀ push ∈ s.worksetPushes,
        HttpServerHandler.worksetEntry sorter ofId push.2.1 = some push.2.2) ∧
      (setup.persist_workset_to_database = true →
        (∀ c, s.queuedBy c = s.pushedBy c ++ (s.connections c).phase.inFlight) ∧
        ((∀ c, (s.connections c).phase.inFlight = []) →
          s.queuePushes.Perm (s.worksetPushes.map fun push => (push.1, push.2.1)))) ∧
      (setup.persist_workset_to_database = false → s.queuePushes = []) := by
  have hI : Accounted setup.persist_workset_to_database
      (HttpServerHandler.worksetEntry sorter ofId) s :=
    invariant_of_effects (accounted_init setup) (fun hI _ heff => hI.effect heff)
      Accounted.preloadEffect h
  have hrecorded := recorded_of_reachable h
  refine ⟨hrecorded.pending, hrecorded.read, hI.answered, hI.built, ?_, hI.neither⟩
  intro hpersist
  refine ⟨hI.both hpersist, ?_⟩
  intro hrest
  refine perm_of_keys fun c => ?_
  have hboth := hI.both hpersist c
  rw [hrest c, List.append_nil] at hboth
  rw [List.filterMap_map]
  exact hboth

theorem books_pushed_once_added :
    ∃ s, run (step twoLevels (.insertion _) (fun _ => 0) oneRow) (.init oneRow) refusedThenAdded =
        some s ∧
      (∀ c, s.acceptedBy c = s.pushedBy c ++ (s.connections c).phase.pending) ∧
      (∀ book ∈ s.accepted, ∃ timestamp,
        routeRequest twoLevels book.2.1 timestamp = some (.book book.2.2)) ∧
      (∀ c, (s.pushedBy c).length = s.addedBy c + (s.connections c).phase.owed) ∧
      (∀ push ∈ s.worksetPushes,
        HttpServerHandler.worksetEntry (.insertion _) (fun _ => 0) push.2.1 = some push.2.2) ∧
      (oneRow.persist_workset_to_database = true →
        (∀ c, s.queuedBy c = s.pushedBy c ++ (s.connections c).phase.inFlight) ∧
        ((∀ c, (s.connections c).phase.inFlight = []) →
          s.queuePushes.Perm (s.worksetPushes.map fun push => (push.1, push.2.1)))) ∧
      (oneRow.persist_workset_to_database = false → s.queuePushes = []) := by
  obtain ⟨s, hs, -⟩ := refusedThenAdded_runs
  exact ⟨s, hs, books_pushed_once (reachable_of_run _ hs)⟩

/-- **One order.** When no two books are ever between their pushes, the queue has the books in the
order of the workset, with at most one more. -/
theorem same_order_one_at_a_time (h : Reachable (oneAtATime parse sorter ofId setup) s)
    (hpersist : setup.persist_workset_to_database = true) :
    ∃ rest, s.queuePushes = (s.worksetPushes.map fun push => (push.1, push.2.1)) ++ rest ∧
      (∀ c entry, (c, entry) ∈ rest ↔ (s.connections c).phase = .queued entry) ∧ rest.length ≤ 1 := by
  refine h.invariant (I := Ordered) ?_ ?_
  · rintro _ rfl
    exact ⟨[], rfl, fun _ _ => ⟨nofun, nofun⟩, Nat.zero_le 1⟩
  · rintro s a s' hI ⟨ht, hone⟩
    rcases effect_of_step ht with ⟨c, -, heff⟩ | heff
    · rw [hpersist] at heff
      exact hI.effect heff (hone s' ht)
    · exact hI.preloadEffect heff

/-- Two connections add a book each. -/
def oneAfterTheOther : List (Act Bool Int) :=
  [.preloadStart, .preloadPush, .preloadEnd, .setReady, .request false localBook,
    .request true localBook, .createHandler false, .createHandler true, .getPublisher true,
    .getPublisher false, .route false 5, .route true 6, .pushQueue true, .pushWorkset true,
    .pushQueue false]

instance {D : Type*} (s : State Bool D) : Decidable s.AtMostOne :=
  inferInstanceAs (Decidable (∀ c d, (s.connections c).phase.inFlight ≠ [] →
    (s.connections d).phase.inFlight ≠ [] → c = d))

/-- The side condition of `oneAtATime`, for one step. -/
instance (s : State Bool Int) (a : Act Bool Int) : Decidable (∀ s',
    step twoLevels (.insertion _) (fun _ => 0) oneRow s a = some s' → s'.AtMostOne) :=
  decidable_of_iff ((step twoLevels (.insertion _) (fun _ => 0) oneRow s a).all fun s' =>
    decide s'.AtMostOne) (by simp [Option.all_eq_true])

theorem same_order_one_at_a_time_two :
    ∃ s, run (step twoLevels (.insertion _) (fun _ => 0) oneRow) (.init oneRow) oneAfterTheOther =
        some s ∧
      ∃ rest, s.queuePushes = (s.worksetPushes.map fun push => (push.1, push.2.1)) ++ rest ∧
        (∀ c entry, (c, entry) ∈ rest ↔ (s.connections c).phase = .queued entry) ∧
        rest.length ≤ 1 := by
  have hrun : ∃ s, run (step twoLevels (.insertion _) (fun _ => 0) oneRow) (.init oneRow)
      oneAfterTheOther = some s := ⟨_, rfl⟩
  obtain ⟨s, hs⟩ := hrun
  have hreach : Reachable (oneAtATime twoLevels (.insertion _) (fun _ => 0) oneRow) s :=
    reachable_restrict_run oneAfterTheOther (.init rfl) (by decide +kernel) hs
  exact ⟨s, hs, same_order_one_at_a_time hreach rfl⟩

end Runs

end DemoManager.Service

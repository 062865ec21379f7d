import ItexDemo.Sqldb.PreparedStatements

/-!
# The cache is in step with the session

The invariant relates the two: a text in the session stands under its own name and was prepared by
the connection, and what the cache lists is in the session. One lemma for each message says that the
session stays in step, one spec for each function of the connection lifts that to its ways to end.
-/

namespace Sqldb

open Prog Connection

/-- The prepared statements of the session and the cache of the connection agree. -/
structure InStep (hash : String → UInt128) (names : List UInt128) (s : Session) : Prop where
  named : ∀ name text, s.statements name = some text →
    name = statementName hash text ∧ s.Prepared text
  listed : ∀ h ∈ names, ∃ text, hash text = h ∧
    s.statements (statementName hash text) = some text
  coherent : ∀ r ∈ s.received, r.Coherent

section Session

variable {hash : String → UInt128} {names : List UInt128} {s : Session}
  {sql : String → Statements → Statements}

theorem Session.Prepared.append {text : String} (h : s.Prepared text) (statements : Statements)
    (r : Received) : Session.Prepared { statements := statements, received := s.received ++ [r] } text := by
  obtain ⟨r', hr', hcarried, hname⟩ := h
  exact ⟨r', List.mem_append_left _ hr', hcarried, hname⟩

/-- A message that leaves the statements as they are. -/
theorem InStep.append (h : InStep hash names s) {r : Received} (hr : r.Coherent) :
    InStep hash names { s with received := s.received ++ [r] } := by
  refine ⟨fun name text hname => ?_, h.listed, fun r' hr' => ?_⟩
  · obtain ⟨hn, hprepared⟩ := h.named name text hname
    exact ⟨hn, hprepared.append s.statements r⟩
  · rcases List.mem_append.mp hr' with hr' | hr'
    · exact h.coherent r' hr'
    · rw [List.mem_singleton.mp hr']
      exact hr

/-- The cache comes to list a text that stands under its name. -/
theorem InStep.list (h : InStep hash names s) {text : String}
    (hstands : s.statements (statementName hash text) = some text) :
    InStep hash (hash text :: names) s := by
  refine ⟨h.named, fun x hx => ?_, h.coherent⟩
  rcases List.mem_cons.mp hx with rfl | hx
  · exact ⟨text, rfl, hstands⟩
  · exact h.listed x hx

/-- A message that puts a text under its name. -/
theorem InStep.extend (h : InStep hash names s) {text : String}
    (hfree : s.statements (statementName hash text) = none) :
    InStep hash names
      { statements := Function.update s.statements (statementName hash text) (some text)
        received := s.received ++
          [{ message := .prepare (statementName hash text) text, statements := s.statements
             carried := true }] } := by
  refine ⟨fun name text' hname => ?_, fun x hx => ?_, ?_⟩
  · show name = _ ∧ _
    change Function.update s.statements _ _ name = _ at hname
    by_cases hn : name = statementName hash text
    · rw [hn, Function.update_self, Option.some.injEq] at hname
      rw [← hname]
      exact ⟨hn, _, List.mem_append_right _ (List.mem_singleton.mpr rfl), rfl, _, rfl⟩
    · rw [Function.update_of_ne hn] at hname
      obtain ⟨hname', hprepared⟩ := h.named name text' hname
      exact ⟨hname', hprepared.append _ _⟩
  · obtain ⟨text', htext, hstands⟩ := h.listed x hx
    refine ⟨text', htext, ?_⟩
    have hother : statementName hash text' ≠ statementName hash text := by
      intro heq
      rw [heq, hfree] at hstands
      cases hstands
    exact (Function.update_of_ne hother _ _).trans hstands
  · exact (h.append (show Received.Coherent ⟨.prepare _ text, s.statements, true⟩ from hfree)).coherent

/-- A text that is executed by itself. -/
theorem InStep.direct (h : InStep hash names s) {query : String}
    (hkeeps : ∀ statements, sql query statements = statements) (results : Option Results) :
    InStep hash names (s.receive sql (.query query) results) := by
  cases results with
  | none => exact h.append trivial
  | some res =>
    rw [Session.receive, Session.effect, hkeeps]
    exact h.append trivial

/-- A text that is executed under its name. -/
theorem InStep.executed (h : InStep hash names s) {query : String}
    (hkeeps : ∀ statements, sql query statements = statements) {name : List Char}
    (hname : s.statements name = some query) (results : Option Results) :
    InStep hash names (s.receive sql (.queryPrepared name query) results) := by
  cases results with
  | none => exact h.append hname
  | some res =>
    simp only [Session.receive, Session.effect, hname, hkeeps]
    exact h.append hname

/-- The server's answer to a preparation under a free name is one result. -/
theorem answer_prepare {name : List Char} {query : String} (hfree : s.statements name = none)
    (res : Results) :
    s.answer (.prepare name query) res = { first := res.first, more := [] } := by
  simp only [Session.answer, Session.admits, hfree, Option.isNone_none, if_true]

/-- A text that is prepared under its name while that is free. -/
theorem InStep.prepare (h : InStep hash names s) {query : String}
    (hfree : s.statements (statementName hash query) = none) (results : Option Results) :
    InStep hash names (s.receive sql (.prepare (statementName hash query) query) results) := by
  cases results with
  | none => exact h.append hfree
  | some res =>
    rw [Session.receive, Session.effect, answer_prepare hfree]
    cases hfirst : res.first with
    | BAD => exact h.append hfree
    | OK => exact h.extend hfree

/-- Once the preparation is answered well the text stands under its name. -/
theorem statements_prepare {query : String} {name : List Char}
    (hfree : s.statements name = none) {res : Results}
    (hfirst : (s.answer (.prepare name query) res).first ≠ .BAD) :
    (s.receive sql (.prepare name query) (some res)).statements name = some query := by
  rw [answer_prepare hfree] at hfirst
  rw [Session.receive, Session.effect, answer_prepare hfree]
  cases hres : res.first with
  | BAD => exact absurd hres hfirst
  | OK => exact Function.update_self ..

end Session

/-! ## The functions of the connection -/

namespace Connection

variable {sql : String → Statements → Statements} {hash : String → UInt128}
  {s : Session} {names : List UInt128} {reply : Reply} {m : Message}

/-- The session and the cache of a connection. -/
def At (s : Session) (names : List UInt128) (c : Connection) : Prop :=
  (c.OnSession fun s' => s' = s) ∧ c.prepared_statements_names_list_ = names

theorem At.modifyHandle {c : Connection} (h : c.At s names) {f : PGconn → PGconn} {s' : Session}
    (hf : ∀ pg : PGconn, pg.session = s → (f pg).session = s') :
    At s' names { c with pg_handle_ := c.pg_handle_.map f } := by
  obtain ⟨⟨pg, hpg, hs⟩, hnames⟩ := h
  exact ⟨⟨f pg, congrArg (Option.map f) hpg, hf pg hs⟩, hnames⟩

theorem checkTimeoutOccurred_spec (expired : Bool) (type : TimeoutType) :
    Meets (At s names) (checkTimeoutOccurred expired type) (fun _ => At s names)
      fun _ => At s names := by
  refine .ite (fun _ => .bind (Q := fun _ => At s names) (.change fun c hc => hc) fun _ => ?_)
    fun _ => ?_
  all_goals
    refine .read fun c hc => .ite (fun _ => .raise fun c' hc' => ?_) fun _ => .return fun c' hc' => ?_
    all_goals
      rw [hc']
      exact hc

theorem readLoop_spec (reads : List Read) :
    Meets (At s names) (readLoop reads) (fun _ => At s names) fun _ => At s names := by
  induction reads with
  | nil => exact .return fun c hc => hc
  | cons r reads ih =>
    refine .bind (checkTimeoutOccurred_spec r.expired .COMMAND) fun _ => .ite ?_ ?_
    · intro _
      exact .bind (Q := fun _ => At s names) (.raise fun c hc => hc) fun _ => .ite
        (fun _ => .bind (checkTimeoutOccurred_spec _ _) fun _ =>
          .bind (Q := fun _ => At s names) (.raise fun c hc => hc) fun _ => ih) fun _ => ih
    · intro _
      exact .ite (fun _ => .bind (checkTimeoutOccurred_spec _ _) fun _ =>
        .bind (Q := fun _ => At s names) (.raise fun c hc => hc) fun _ => ih) fun _ => ih

theorem asyncWaitPgResults_spec (results : Option Results) :
    Meets (At s names) (asyncWaitPgResults reply results)
      (fun res c => results = some res ∧ At s names c) fun _ => At s names := by
  refine .bind (readLoop_spec reply.reads) fun _ => ?_
  cases results with
  | some res =>
    refine .bind (.change fun c hc => ?_) fun _ =>
      .bind (checkTimeoutOccurred_spec _ _) fun _ => .return fun c hc => ⟨rfl, hc⟩
    exact hc.modifyHandle fun pg hs => hs
  | none => exact .bind (Q := fun _ => At s names) (.change fun c hc => hc) fun _ => .raise fun c hc => hc

/-- **One message.** It is received when the function returns, and may have been when it throws. -/
theorem asyncSend_spec (failed : String) :
    Meets (At s names) (asyncSend sql m failed reply)
      (fun res c => ∃ sent, reply.results = some sent ∧ res = s.answer m sent ∧
        At (s.receive sql m (some sent)) names c)
      fun _ c => At s names c ∨ At (s.receive sql m reply.results) names c := by
  refine .read fun c hc => ?_
  obtain ⟨⟨pg, hpg, hs⟩, hnames⟩ := hc
  rw [hpg]
  have hsend : Meets (At s names)
      (if reply.sent ∧ pg.status = .CONNECTION_OK ∧ !pg.busy then do
        modifyHandle fun pg =>
          { pg with busy := true, session := pg.session.receive sql m reply.results }
        asyncWaitPgResults reply (reply.results.map (pg.session.answer m))
      else throw (.query failed))
      (fun res c => ∃ sent, reply.results = some sent ∧ res = s.answer m sent ∧
        At (s.receive sql m (some sent)) names c)
      fun _ c => At s names c ∨ At (s.receive sql m reply.results) names c := by
    refine .ite (fun _ => ?_) fun _ => .raise fun c' hc' => .inl hc'
    refine .bind (Q := fun _ => At (s.receive sql m reply.results) names) (.change fun c' hc' => ?_)
      fun _ => (asyncWaitPgResults_spec _).weaken (fun _ h => h) (fun res c' h => ?_)
        fun _ c' h => .inr h
    · refine hc'.modifyHandle fun pg' hs' => ?_
      rw [hs']
    · obtain ⟨hres, hc'⟩ := h
      obtain ⟨sent, hsent, hanswer⟩ := Option.map_eq_some_iff.mp hres
      rw [hsent] at hc'
      exact ⟨sent, hsent, hs ▸ hanswer.symm, hc'⟩
  have hat : ∀ c', c' = c → At s names c' := by
    rintro c' rfl
    exact ⟨⟨pg, hpg, hs⟩, hnames⟩
  refine Meets.pre ?_ hat
  refine .ite (fun _ => .bind (Q := fun _ => At s names) (.change fun c' hc' => ?_) fun _ => hsend)
    fun _ => hsend
  exact hc'.modifyHandle fun pg' hs' => hs'

/-- The session of the connection is in step with its cache. -/
def Cached (hash : String → UInt128) (c : Connection) : Prop :=
  c.OnSession (InStep hash c.prepared_statements_names_list_)

theorem At.cached {c : Connection} (h : At s names c) (hs : InStep hash names s) :
    c.Cached hash := by
  obtain ⟨⟨pg, hpg, hsession⟩, hnames⟩ := h
  refine ⟨pg, hpg, ?_⟩
  rw [hsession, hnames]
  exact hs

/-- The text of the query stands under its name, which the cache lists. -/
def Stands (hash : String → UInt128) (query : String) (c : Connection) : Prop :=
  c.OnSession fun s => InStep hash c.prepared_statements_names_list_ s ∧
    s.statements (statementName hash query) = some query

/-- The name of a query that the cache does not list is free. -/
theorem free_of_apart {c : Connection} {call : Call} {pg : PGconn} (hpg : c.pg_handle_ = some pg)
    (hstep : InStep hash c.prepared_statements_names_list_ pg.session)
    (hapart : Apart sql hash c call) (hbyName : call.byName = true)
    (hmiss : hash call.query ∉ c.prepared_statements_names_list_) :
    pg.session.statements (statementName hash call.query) = none := by
  cases hname : pg.session.statements (statementName hash call.query) with
  | none => rfl
  | some text =>
    obtain ⟨heq, hprepared⟩ := hstep.named _ _ hname
    obtain rfl := hapart.named hbyName text ⟨pg, hpg, hprepared⟩ heq.symm
    exact absurd (hapart.recorded hbyName ⟨pg, hpg, hprepared⟩) hmiss

/-- A listed query stands under its name. -/
theorem stands_of_listed {c : Connection} {call : Call} {pg : PGconn} (hpg : c.pg_handle_ = some pg)
    (hstep : InStep hash c.prepared_statements_names_list_ pg.session)
    (hapart : Apart sql hash c call) (hbyName : call.byName = true)
    (hlisted : hash call.query ∈ c.prepared_statements_names_list_) : Stands hash call.query c := by
  obtain ⟨text, htext, hstands⟩ := hstep.listed _ hlisted
  have hprepared := (hstep.named _ _ hstands).2
  have hname : statementName hash text = statementName hash call.query := congrArg toString htext
  obtain rfl := hapart.named hbyName text ⟨pg, hpg, hprepared⟩ hname
  exact ⟨pg, hpg, hstep, hstands⟩

theorem asyncPrepare_spec {c : Connection} {call : Call} (hcached : c.Cached hash)
    (hapart : Apart sql hash c call) (hbyName : call.byName = true) :
    Meets (fun c' => c' = c) (asyncPrepare sql hash call) (fun _ => Stands hash call.query)
      fun _ => Cached hash := by
  obtain ⟨pg, hpg, hstep⟩ := hcached
  refine .read fun c' hc' => ?_
  subst hc'
  refine .ite (fun hmiss => ?_) fun hlisted => .return fun c'' hc'' => ?_
  · have hfree := free_of_apart hpg hstep hapart hbyName hmiss
    have hat : ∀ c'', c'' = c' → At pg.session c'.prepared_statements_names_list_ c'' := by
      rintro c'' rfl
      exact ⟨⟨pg, hpg, rfl⟩, rfl⟩
    refine .bind (((asyncSend_spec _).pre hat).stop fun e c'' h => ?_) fun res => ?_
    · rcases h with h | h
      · exact h.cached hstep
      · exact h.cached (hstep.prepare hfree _)
    refine .start fun c'' h => ?_
    obtain ⟨sent, -, hres, hc''⟩ := h
    have hstep' : InStep hash _ (Session.receive sql _ _ _) := hstep.prepare hfree (some sent)
    refine .ite (fun _ => ?_) fun hgood => ?_
    · exact .bind (Q := fun _ _ => False) (.raise fun c₁ hc₁ => hc₁ ▸ hc''.cached hstep')
        fun _ => .start fun _ h => h.elim
    · refine .change fun c₁ hc₁ => ?_
      rw [hc₁]
      obtain ⟨⟨pg', hpg', hsession⟩, hnames⟩ := hc''
      rw [hres] at hgood
      have hstands : (Session.receive sql _ _ _).statements _ = _ := statements_prepare hfree hgood
      refine ⟨pg', hpg', ?_, ?_⟩
      · rw [hsession, hnames]
        exact hstep'.list hstands
      · rw [hsession]
        exact hstands
  · rw [hc'']
    exact stands_of_listed hpg hstep hapart hbyName (by simpa using hlisted)

theorem checkResultsErrors_spec (res : Results) :
    Meets (Cached hash) (checkResultsErrors res) (fun _ => Cached hash) fun _ => Cached hash :=
  .ite (fun _ => .return fun _ h => h) fun _ => .raise fun _ h => h

/-- A message that leaves the session in step, whatever comes of it. -/
theorem asyncSend_cached {c : Connection} {pg : PGconn} (hpg : c.pg_handle_ = some pg)
    (hstep : InStep hash c.prepared_statements_names_list_ pg.session)
    (hnext : ∀ results, InStep hash c.prepared_statements_names_list_
      (pg.session.receive sql m results)) (failed : String) :
    Meets (fun c' => c' = c) (asyncSend sql m failed reply) (fun _ => Cached hash)
      fun _ => Cached hash := by
  have hat : ∀ c', c' = c → At pg.session c.prepared_statements_names_list_ c' := by
    rintro c' rfl
    exact ⟨⟨pg, hpg, rfl⟩, rfl⟩
  refine (asyncSend_spec failed).weaken hat (fun res c' h => ?_) fun e c' h => ?_
  · obtain ⟨sent, -, -, hc'⟩ := h
    exact hc'.cached (hnext _)
  · rcases h with h | h
    · exact h.cached hstep
    · exact h.cached (hnext _)

/-- A query that is sent by itself. -/
theorem query_spec {call : Call} (hkeeps : ∀ statements, sql call.query statements = statements)
    (failed : String) :
    Meets (Cached hash) (asyncSend sql (.query call.query) failed call.executed)
      (fun _ => Cached hash) fun _ => Cached hash :=
  .start fun _ ⟨_, hpg, hstep⟩ =>
    asyncSend_cached hpg hstep (fun results => hstep.direct hkeeps results) failed

/-- A query that is executed under its name. -/
theorem queryPrepared_spec {call : Call}
    (hkeeps : ∀ statements, sql call.query statements = statements) (failed : String) :
    Meets (Stands hash call.query)
      (asyncSend sql (.queryPrepared (statementName hash call.query) call.query) failed call.executed)
      (fun _ => Cached hash) fun _ => Cached hash :=
  .start fun _ ⟨_, hpg, hstep, hstands⟩ =>
    asyncSend_cached hpg hstep (fun results => hstep.executed hkeeps hstands results) failed

/-- **One call** keeps the cache in step. -/
theorem asyncExec_spec {c : Connection} {call : Call} (hcached : c.Cached hash)
    (hapart : Apart sql hash c call) :
    Meets (fun c' => c' = c) (asyncExec sql hash call) (fun _ => Cached hash)
      fun _ => Cached hash := by
  have hstart : ∀ c', c' = c → Cached hash c' := fun c' h => h ▸ hcached
  have hfinish : ∀ res : Results, Meets (Cached hash)
      (do checkResultsErrors res; pure res : Code Results) (fun _ => Cached hash)
      fun _ => Cached hash :=
    fun res => .bind (checkResultsErrors_spec res) fun _ => .return fun _ h => h
  have hparams : Meets (fun c' => c' = c) (asyncExecParams sql hash call) (fun _ => Cached hash)
      fun _ => Cached hash := by
    refine .ite (fun _ => .bind ((query_spec hapart.keeps _).pre hstart) hfinish)
      fun hbyName => ?_
    exact .bind (asyncPrepare_spec hcached hapart (by simpa [Call.byName] using hbyName)) fun _ =>
      .bind (queryPrepared_spec hapart.keeps _) hfinish
  exact .ite (fun _ => hparams) fun _ => .ite
    (fun _ => .bind ((query_spec hapart.keeps _).pre hstart) hfinish) fun _ => hparams

/-- What a run of calls keeps. -/
theorem cached_of_reachable {c : Connection}
    (h : Transition.Reachable ((calls sql hash).restrict (Apart sql hash)) c) : c.Cached hash := by
  refine h.invariant (fun c hc => ?_) fun c call c' hcached htr => ?_
  · obtain ⟨hnames, pg, hpg, hnew⟩ := hc
    refine ⟨pg, hpg, ?_⟩
    rw [hnames, hnew]
    exact ⟨fun _ _ h => (nomatch h), fun _ h => (nomatch h), fun _ h => (nomatch h)⟩
  · obtain ⟨rfl, hapart⟩ := htr
    have hspec := asyncExec_spec hcached hapart c rfl
    rcases hexec : exec (asyncExec sql hash call) c with ⟨r, c'⟩
    rw [hexec] at hspec
    cases r with
    | ok res => exact hspec
    | error e => exact hspec

/-- **Prepared statements.** In every run of calls whose queries can be told apart, what the server
has received uses the names of prepared statements coherently. -/
theorem received_coherent {c : Connection}
    (h : Transition.Reachable ((calls sql hash).restrict (Apart sql hash)) c) :
    c.OnSession fun s => ∀ r ∈ s.received, r.Coherent := by
  obtain ⟨pg, hpg, hstep⟩ := cached_of_reachable h
  exact ⟨pg, hpg, hstep.coherent⟩

/-! ## Two queries -/

/-- A connection with a new session. -/
def opened : Connection where
  pg_handle_ := some { status := .CONNECTION_OK, busy := false, session := .new }
  prepared_statements_names_list_ := []
  socketOpen := true
  timeout_occurred_ := false

/-- A call without incident. -/
def plainCall (query : String) : Call where
  query := query
  parameters := false
  prepared := .plain
  executed := .plain

/-- A hash under which two queries have different values with the same rendering. -/
def clashing (query : String) : UInt128 := if query = "SELECT 1" then (1, 23) else (12, 3)

/-- The connection after one query. -/
def afterOneCall : Connection :=
  (exec (asyncExec (fun _ statements => statements) clashing (plainCall "SELECT 1")) opened).2

/-- The connection after another one. -/
def afterTwoCalls : Connection :=
  (exec (asyncExec (fun _ statements => statements) clashing (plainCall "SELECT 2")) afterOneCall).2

theorem not_prepared_opened {text : String} : ¬opened.OnSession (·.Prepared text) := by
  rintro ⟨pg, hpg, r, hr, -⟩
  cases hpg
  exact nomatch hr

theorem received_coherent_one_call :
    afterOneCall.OnSession fun s => ∀ r ∈ s.received, r.Coherent :=
  received_coherent (.step (a := plainCall "SELECT 1") (.init ⟨rfl, _, rfl, rfl⟩)
    ⟨rfl, fun _ => rfl, fun _ _ h => absurd h not_prepared_opened,
      fun _ h => absurd h not_prepared_opened⟩)

/-- Two queries with different hashes share a name: it is sent for preparation again. -/
theorem name_prepared_twice :
    clashing "SELECT 1" ≠ clashing "SELECT 2" ∧
      Transition.Reachable (calls (fun _ statements => statements) clashing) afterTwoCalls ∧
      ¬afterTwoCalls.OnSession fun s => ∀ r ∈ s.received, r.Coherent := by
  refine ⟨by decide, .step (a := plainCall "SELECT 2") (.step (a := plainCall "SELECT 1")
    (.init ⟨rfl, _, rfl, rfl⟩) rfl) rfl, ?_⟩
  have hlast : (afterTwoCalls.pg_handle_.bind fun pg => pg.session.received.getLast?.map fun r =>
      (r.message, r.statements "123".toList)) =
        some (.prepare "123".toList "SELECT 2", some "SELECT 1") := by decide +kernel
  rintro ⟨pg, hpg, hall⟩
  rw [hpg, Option.bind_some] at hlast
  obtain ⟨r, hr, hfields⟩ := Option.map_eq_some_iff.mp hlast
  obtain ⟨hmessage, hstatements⟩ := Prod.mk.inj hfields
  have hcoherent := hall r (List.mem_of_getLast? hr)
  rw [Received.Coherent, hmessage] at hcoherent
  rw [show r.statements "123".toList = none from hcoherent] at hstatements
  cases hstatements

end Connection

end Sqldb

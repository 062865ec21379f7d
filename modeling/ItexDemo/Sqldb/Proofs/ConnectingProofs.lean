import ItexDemo.Sqldb.Connecting

/-!
# When the retry loop connects

One attempt on a fresh connection is followed from its classification. Two states are dead ends: a
connection whose `timeout_occurred_` is set fails every later attempt in the same way, and one that
kept its socket open leaves the loop with an exception at the next attempt.
-/

namespace Sqldb

open Prog

namespace Connection

variable {c : Connection} {pg : PGconn}

/-! ## The checks -/

theorem status_of_timeout (h : c.timeout_occurred_ = true) : c.status = .BAD := by
  unfold status
  split
  · rfl
  · rw [if_pos h]

theorem status_of_handle (h : c.timeout_occurred_ = false) (hpg : c.pg_handle_ = some pg) :
    c.status = pg.status.toStatus := by
  simp only [status, hpg, h, Bool.false_eq_true, if_false]

theorem status_map_handle (h : c.timeout_occurred_ = false) (hpg : c.pg_handle_ = some pg)
    (f : PGconn → PGconn) :
    ({ c with pg_handle_ := c.pg_handle_.map f } : Connection).status = (f pg).status.toStatus := by
  simp only [status, hpg, Option.map_some, h, Bool.false_eq_true, if_false]

theorem exec_check_quiet (h : c.timeout_occurred_ = false) (type : TimeoutType) :
    exec (checkTimeoutOccurred false type) c = (.ok ⟨⟩, c) := by
  simp [checkTimeoutOccurred, exec_bind, h]

theorem exec_check_expired (type : TimeoutType) :
    exec (checkTimeoutOccurred true type) c =
      (.error (timeout type), { c with timeout_occurred_ := true, socketOpen := false }) := by
  simp [checkTimeoutOccurred, timeoutHandler, exec_bind]

theorem timeout_isConnectionException (type : TimeoutType) :
    (timeout type).isConnectionException = true := by
  cases type <;> rfl

/-! ## The waits -/

/-- The program throws a `ConnectionException` at `c` and leaves a state with `P`. -/
def ThrowsTo {α : Type} (x : Code α) (c : Connection) (P : Connection → Prop) : Prop :=
  ∃ e c', exec x c = (.error e, c') ∧ e.isConnectionException = true ∧ P c'

theorem ThrowsTo.mono {α : Type} {x : Code α} {P Q : Connection → Prop} (h : ThrowsTo x c P)
    (hPQ : ∀ c', P c' → Q c') : ThrowsTo x c Q := by
  obtain ⟨e, c', hexec, he, hc'⟩ := h
  exact ⟨e, c', hexec, he, hPQ c' hc'⟩

theorem ThrowsTo.bind {α β : Type} {x : Code α} {P : Connection → Prop} (h : ThrowsTo x c P)
    (f : α → Code β) : ThrowsTo (x >>= f) c P := by
  obtain ⟨e, c', hexec, he, hc'⟩ := h
  exact ⟨e, c', exec_bind_error hexec, he, hc'⟩

theorem ThrowsTo.after {α β : Type} {x : Code α} {f : α → Code β} {a : α} {c' : Connection}
    {P : Connection → Prop} (hx : exec x c = (.ok a, c')) (h : ThrowsTo (f a) c' P) :
    ThrowsTo (x >>= f) c P := by
  obtain ⟨e, c'', hexec, he, hc''⟩ := h
  exact ⟨e, c'', (exec_bind_ok hx).trans hexec, he, hc''⟩

/-- A wait that fails either times out or leaves a state with `P`. -/
def FailsTo (f : Failure) (P : Connection → Prop) (c : Connection) : Prop :=
  (f = .timeout → c.timeout_occurred_ = true) ∧ (f ≠ .timeout → c.timeout_occurred_ = false ∧ P c)

theorem throws_expired {α : Type} {P : Connection → Prop} (type : TimeoutType) (f : Unit → Code α) :
    ThrowsTo (checkTimeoutOccurred true type >>= f) c (FailsTo .timeout P) :=
  .bind ⟨_, _, exec_check_expired type, timeout_isConnectionException type,
    fun _ => rfl, fun h => absurd rfl h⟩ f

theorem exec_readLoop_waits (h : c.timeout_occurred_ = false) {reads : List Read}
    (hreads : ∀ r ∈ reads, r.Waits) : exec (readLoop reads) c = (.ok ⟨⟩, c) := by
  induction reads with
  | nil => rfl
  | cons r reads ih =>
    obtain ⟨hexpired, hec, hconsumed⟩ := hreads r List.mem_cons_self
    rw [readLoop, hexpired, exec_bind_ok (exec_check_quiet h _), hec, hconsumed]
    exact ih fun r' hr' => hreads r' (List.mem_cons_of_mem r hr')

theorem readLoop_fails (h : c.timeout_occurred_ = false) {f : Failure} {reads : List Read}
    (hfail : ReadsFail f reads) : ThrowsTo (readLoop reads) c (FailsTo f fun c' => c' = c) := by
  induction hfail with
  | expired hexpired =>
    rw [readLoop, hexpired]
    exact throws_expired _ _
  | error hexpired hbad =>
    rw [readLoop, hexpired]
    refine .after (exec_check_quiet h _) ?_
    rename_i r reads
    cases hec : r.ec with
    | true => exact ⟨_, c, rfl, rfl, fun hf => Failure.noConfusion hf, fun _ => ⟨h, rfl⟩⟩
    | false =>
      rw [hbad.resolve_left (by simp [hec])]
      exact .after (exec_check_quiet h _)
        ⟨_, c, rfl, rfl, fun hf => Failure.noConfusion hf, fun _ => ⟨h, rfl⟩⟩
  | wait hwaits _ ih =>
    obtain ⟨hexpired, hec, hconsumed⟩ := hwaits
    rw [readLoop, hexpired, hec, hconsumed]
    exact .after (exec_check_quiet h _) ih

/-- Polling that ends well leaves the handle connected. -/
theorem exec_pollLoop_accepted (h : c.timeout_occurred_ = false) {polls : List Poll}
    (hpolls : Accepted polls) :
    exec (pollLoop polls) c = (.ok ⟨⟩, { c with
      pg_handle_ := c.pg_handle_.map fun pg => { pg with status := .CONNECTION_OK } }) := by
  induction hpolls with
  | ok hstatus hexpired =>
    rw [pollLoop, hstatus, hexpired]
    exact (exec_bind_ok rfl).trans (exec_check_quiet (by exact h) _)
  | wait hwaits _ ih =>
    rw [pollLoop]
    rcases hwaits with hactive | ⟨hstatus | hstatus, hexpired, hec⟩
    · rw [hactive]
      exact ih
    · rw [hstatus, hexpired, hec]
      exact (exec_bind_ok (exec_check_quiet h _)).trans ih
    · rw [hstatus, hexpired, hec]
      exact (exec_bind_ok (exec_check_quiet h _)).trans ih

/-- A connection that will not be `CONNECTED` although its socket is open. -/
def Stuck (c : Connection) : Prop := c.socketOpen = true ∧ c.status ≠ .CONNECTED

theorem pollLoop_fails (h : c.timeout_occurred_ = false) (hstuck : c.Stuck)
    (hpg : c.pg_handle_ = some pg) {f : Failure} {polls : List Poll} (hfail : PollsFail f polls) :
    ThrowsTo (pollLoop polls) c (FailsTo f Stuck) := by
  induction hfail with
  | silent => exact ⟨_, _, rfl, rfl, fun _ => rfl, fun hf => absurd rfl hf⟩
  | @expired p polls hstatus hexpired =>
    rw [pollLoop, hexpired]
    cases hp : p.status with
    | READING => exact throws_expired _ _
    | WRITING => exact throws_expired _ _
    | FAILED => exact .after rfl (throws_expired _ _)
    | OK =>
      exact .after rfl ⟨_, _, exec_check_expired _, rfl, fun _ => rfl, fun hf => absurd rfl hf⟩
    | ACTIVE => exact absurd hp hstatus
  | refused hstatus hexpired =>
    rw [pollLoop, hstatus, hexpired]
    refine .after rfl (.after (exec_check_quiet (by exact h) _)
      ⟨_, _, rfl, rfl, fun hf => Failure.noConfusion hf, fun _ => ⟨h, hstuck.1, ?_⟩⟩)
    rw [status_map_handle h hpg]
    exact Status.noConfusion
  | error hstatus hexpired hec =>
    rw [pollLoop, hexpired, hec]
    rcases hstatus with hstatus | hstatus
    all_goals
      rw [hstatus]
      exact .after (exec_check_quiet h _)
        ⟨_, c, rfl, rfl, fun hf => Failure.noConfusion hf, fun _ => ⟨h, hstuck⟩⟩
  | wait hwaits _ ih =>
    rw [pollLoop]
    rcases hwaits with hactive | ⟨hstatus | hstatus, hexpired, hec⟩
    · rw [hactive]
      exact ih
    · rw [hstatus, hexpired, hec]
      exact .after (exec_check_quiet h _) ih
    · rw [hstatus, hexpired, hec]
      exact .after (exec_check_quiet h _) ih

/-! ## One message -/

section Send

variable {sql : String → Statements → Statements} {m : Message} {failed : String} {reply : Reply}

/-- The handle after a message was sent. -/
def sending (sql : String → Statements → Statements) (m : Message) (reply : Reply) (pg : PGconn) :
    PGconn where
  status := if reply.hangup then .CONNECTION_BAD else pg.status
  busy := true
  session := pg.session.receive sql m reply.results

theorem exec_asyncSend (hpg : c.pg_handle_ = some pg)
    (hok : reply.sent = true ∧ pg.status = .CONNECTION_OK ∧ pg.busy = false) :
    exec (asyncSend sql m failed reply) c =
      exec (asyncWaitPgResults reply (reply.results.map (pg.session.answer m)))
        { c with pg_handle_ := some (sending sql m reply pg) } := by
  obtain ⟨hsent, hstatus, hidle⟩ := hok
  rw [asyncSend, exec_bind_ok (exec_get c)]
  cases hhangup : reply.hangup <;>
    simp [hpg, hsent, hstatus, hidle, hhangup, exec_bind, modifyHandle, sending]

theorem exec_asyncSend_refused (hpg : c.pg_handle_ = some pg)
    (hno : ¬(reply.sent = true ∧ pg.status = .CONNECTION_OK ∧ pg.busy = false)) :
    exec (asyncSend sql m failed reply) c = (.error (.query failed), { c with
      pg_handle_ := some { pg with
        status := if reply.hangup then .CONNECTION_BAD else pg.status } }) := by
  rw [asyncSend, exec_bind_ok (exec_get c)]
  cases hhangup : reply.hangup with
  | true => simp [hpg, hno, exec_bind, modifyHandle]
  | false =>
    simp only [hpg, hno, Bool.false_eq_true, if_false, Bool.not_eq_eq_eq_not, Bool.not_true,
      exec_throw, Prod.mk.injEq, true_and]
    show c = { c with pg_handle_ := some pg }
    rw [← hpg]

theorem exec_wait_good (h : c.timeout_occurred_ = false) (hreads : ∀ r ∈ reply.reads, r.Waits)
    (hexpired : reply.expired = false) (res : Results) :
    exec (asyncWaitPgResults reply (some res)) c = (.ok res, { c with
      pg_handle_ := c.pg_handle_.map fun pg => { pg with busy := false } }) := by
  rw [asyncWaitPgResults, exec_bind_ok (exec_readLoop_waits h hreads), hexpired]
  exact (exec_bind_ok rfl).trans (exec_bind_ok (exec_check_quiet (by exact h) _))

/-- A wait that fails has timed out or leaves the handle with its status. -/
theorem wait_fails (h : c.timeout_occurred_ = false) {f : Failure} (hsent : reply.sent = true)
    (hfail : reply.Fails f) (answer : Results → Results) :
    ThrowsTo (asyncWaitPgResults reply (reply.results.map answer)) c
      (FailsTo f fun c' => c' = c) := by
  cases hfail with
  | unsent hunsent =>
    rw [hsent] at hunsent
    exact Bool.noConfusion hunsent
  | reads _ hreads => exact .bind (readLoop_fails h hreads) _
  | silent _ hreads hres =>
    rw [hres]
    exact .after (exec_readLoop_waits h hreads)
      ⟨_, _, rfl, rfl, fun _ => rfl, fun hf => absurd rfl hf⟩
  | late _ hreads hres hexpired =>
    rw [hres, Option.map_some, asyncWaitPgResults, hexpired]
    exact .after (exec_readLoop_waits h hreads) (.after rfl (throws_expired _ _))

/-- A message on a connection that is `CONNECTED` and idle, answered well. -/
theorem send_good (h : c.timeout_occurred_ = false) (hpg : c.pg_handle_ = some pg)
    (hok : pg.status = .CONNECTION_OK) (hidle : pg.busy = false) (hgood : reply.Good) :
    ∃ res c', exec (asyncSend sql m failed reply) c = (.ok (pg.session.answer m res), c') ∧
      res.good = true ∧ c'.status = .CONNECTED := by
  obtain ⟨hsent, hreads, ⟨res, hres, hresgood⟩, hexpired, hhangup⟩ := hgood
  have hwait := exec_wait_good (c := { c with pg_handle_ := some (sending sql m reply pg) }) h hreads
    hexpired (pg.session.answer m res)
  have hsend : exec (asyncSend sql m failed reply) c = _ :=
    exec_asyncSend hpg ⟨hsent, hok, hidle⟩
  rw [hres] at hsend
  refine ⟨res, _, hsend.trans hwait, hresgood, ?_⟩
  rw [status_map_handle (by exact h) rfl]
  simp [sending, hhangup, hok, ConnStatusType.toStatus]

/-- A message whose exchange fails. -/
theorem send_fails (h : c.timeout_occurred_ = false) (hpg : c.pg_handle_ = some pg)
    (hok : pg.status = .CONNECTION_OK) (hidle : pg.busy = false) {f : Failure}
    (hfail : reply.Fails f) :
    ThrowsTo (asyncSend sql m failed reply) c (FailsTo f fun c' => c'.socketOpen = c.socketOpen ∧
      c'.status = if reply.hangup then .BAD else .CONNECTED) := by
  cases hsent : reply.sent with
  | true =>
    obtain ⟨e, c', hexec, he, htimeout, hother⟩ := wait_fails (c := { c with
      pg_handle_ := some (sending sql m reply pg) }) h hsent hfail (pg.session.answer m)
    refine ⟨e, c', (exec_asyncSend hpg ⟨hsent, hok, hidle⟩).trans hexec, he, htimeout, fun hf => ?_⟩
    obtain ⟨hquiet, rfl⟩ := hother hf
    refine ⟨hquiet, rfl, ?_⟩
    rw [status_of_handle (by exact h) rfl, sending, hok]
    cases reply.hangup <;> rfl
  | false =>
    have hf : f ≠ .timeout := by
      rintro rfl
      cases hfail <;> simp_all
    refine ⟨_, _, exec_asyncSend_refused hpg (by simp [hsent]), rfl, fun h => absurd h hf, fun _ =>
      ⟨h, rfl, ?_⟩⟩
    rw [status_of_handle (by exact h) rfl, hok]
    cases reply.hangup <;> rfl

end Send

/-! ## One attempt -/

variable (sql : String → Statements → Statements) {a : Attempt}

/-- The connection when `PQconnectPoll` is called first. -/
def polling (c : Connection) : Connection :=
  { c with
    pg_handle_ := some { status := .CONNECTION_STARTED, busy := false, session := .new }
    socketOpen := true }

theorem polling_stuck (h : c.timeout_occurred_ = false) : c.polling.Stuck := by
  refine ⟨rfl, ?_⟩
  rw [status_of_handle (by exact h) rfl]
  exact Status.noConfusion

/-- The part of `async_connect` from the first poll on. -/
def finishConnect (sql : String → Statements → Statements) (a : Attempt) : Code Unit := do
  pollLoop a.polls
  let res ← asyncPgQuery sql "SET bytea_output = hex" a.reply
  checkResultsErrors res

theorem exec_connect_starts (h : c.timeout_occurred_ = false) (hstarts : a.Starts) :
    exec (asyncConnect sql a) c =
      if c.socketOpen then (.error .system, { c.polling with socketOpen := c.socketOpen })
      else exec (finishConnect sql a) c.polling := by
  obtain ⟨hstart, hexpired, hnonblocking⟩ := hstarts
  cases hopen : c.socketOpen <;>
    simp [asyncConnect, exec_bind, hstart, hexpired, hnonblocking, status, h,
      ConnStatusType.toStatus, assignSocket, finishConnect, polling, hopen]

/-- Once the timer has expired every attempt ends before it begins. -/
theorem connect_throws_of_timeout (h : a.expired = true ∨ c.timeout_occurred_ = true) :
    ThrowsTo (asyncConnect sql a) c fun c' => c'.timeout_occurred_ = true := by
  refine ⟨.connection "Can not allocate/create PGConn", { c with
    pg_handle_ := a.start.map fun status => { status := status, busy := false, session := .new }
    socketOpen := if a.expired then false else c.socketOpen
    timeout_occurred_ := true }, ?_, rfl, rfl⟩
  cases hexpired : a.expired with
  | true => simp [asyncConnect, exec_bind, hexpired, timeoutHandler, status_of_timeout]
  | false =>
    have hc : c.timeout_occurred_ = true := h.resolve_left (by simp [hexpired])
    simp [asyncConnect, exec_bind, hexpired, status_of_timeout, hc]

/-- The connection when the server has accepted it. -/
def accepted (c : Connection) : Connection :=
  { c.polling with
    pg_handle_ := some { status := .CONNECTION_OK, busy := false, session := .new } }

theorem exec_connect_accepted (h : c.timeout_occurred_ = false) (hclosed : c.socketOpen = false)
    (hstarts : a.Starts) (hpolls : Accepted a.polls) :
    exec (asyncConnect sql a) c =
      exec (asyncPgQuery sql "SET bytea_output = hex" a.reply >>= checkResultsErrors) c.accepted := by
  rw [exec_connect_starts sql h hstarts, hclosed, if_neg Bool.false_ne_true]
  exact exec_bind_ok (exec_pollLoop_accepted (c := c.polling) h hpolls)

/-- An attempt that the database accepts. -/
theorem connect_accepts (h : c.timeout_occurred_ = false) (hclosed : c.socketOpen = false)
    (ha : a.Accepts) : ∃ c', exec (asyncConnect sql a) c = (.ok ⟨⟩, c') ∧ c'.status = .CONNECTED := by
  rw [exec_connect_accepted sql h hclosed ha.starts ha.polls]
  obtain ⟨res, c', hexec, hgood, hstatus⟩ : ∃ res c',
      exec (asyncPgQuery sql "SET bytea_output = hex" a.reply) c.accepted = (.ok res, c') ∧
        res.good = true ∧ c'.status = .CONNECTED :=
    send_good (c := c.accepted) h rfl rfl rfl ha.reply
  refine ⟨c', (exec_bind_ok hexec).trans ?_, hstatus⟩
  rw [checkResultsErrors, if_pos hgood]
  rfl

/-- An attempt that fails when the server has accepted the connection. -/
theorem connect_fails_accepted (h : c.timeout_occurred_ = false) (hclosed : c.socketOpen = false)
    (hstarts : a.Starts) (hpolls : Accepted a.polls) {f : Failure} (hfail : a.reply.Fails f) :
    ThrowsTo (asyncConnect sql a) c (FailsTo f fun c' => c'.socketOpen = true ∧
      c'.status = if a.reply.hangup then .BAD else .CONNECTED) := by
  obtain ⟨e, c', hexec, he, hc'⟩ : ThrowsTo (asyncPgQuery sql "SET bytea_output = hex" a.reply)
      c.accepted (FailsTo f fun c' => c'.socketOpen = true ∧
        c'.status = if a.reply.hangup then .BAD else .CONNECTED) :=
    send_fails (c := c.accepted) h rfl rfl rfl hfail
  exact ⟨e, c', (exec_connect_accepted sql h hclosed hstarts hpolls).trans (exec_bind_error hexec), he, hc'⟩

/-- No later attempt makes the connection `CONNECTED`. -/
def DeadEnd (c : Connection) : Prop :=
  c.timeout_occurred_ = true ∨ c.timeout_occurred_ = false ∧ c.Stuck

theorem deadEnd_of_failsTo {f : Failure} {P : Connection → Prop} (h : FailsTo f P c)
    (hP : P c → c.Stuck) : c.DeadEnd := by
  by_cases hf : f = .timeout
  · exact .inl (h.1 hf)
  · exact .inr ⟨(h.2 hf).1, hP (h.2 hf).2⟩

theorem not_refused_of_readsFail {reads : List Read} {f : Failure} (h : ReadsFail f reads) :
    f ≠ .refused := by
  induction h with
  | expired => exact Failure.noConfusion
  | error => exact Failure.noConfusion
  | wait _ _ ih => exact ih

/-- **A failing attempt on a fresh connection** leads to a dead end, unless the server had accepted
the connection and libpq has not lost it. -/
theorem connect_fails (h : c.timeout_occurred_ = false) (hclosed : c.socketOpen = false)
    {f : Failure} (hfail : a.Fails f) :
    a.FailsAccepted ∨ ThrowsTo (asyncConnect sql a) c DeadEnd := by
  cases hfail with
  | early hexpired => exact .inr ((connect_throws_of_timeout sql (.inl hexpired)).mono fun _ => .inl)
  | polls hstarts hpolls =>
    have hthrows : ThrowsTo (pollLoop a.polls) c.polling (FailsTo f Stuck) :=
      pollLoop_fails (c := c.polling) h (polling_stuck h) rfl hpolls
    obtain ⟨e, c', hexec, he, hc'⟩ := hthrows.bind fun _ => do
      let res ← asyncPgQuery sql "SET bytea_output = hex" a.reply
      checkResultsErrors res
    refine .inr ⟨e, c', ?_, he, deadEnd_of_failsTo hc' id⟩
    rw [exec_connect_starts sql h hstarts, hclosed, if_neg Bool.false_ne_true]
    exact hexec
  | reply hstarts hpolls hreply =>
    have hthrows := connect_fails_accepted sql h hclosed hstarts hpolls hreply
    by_cases hlate : a.FailsAccepted
    · exact .inl hlate
    refine .inr (hthrows.mono fun c' hc' => ?_)
    by_cases hf : f = .timeout
    · exact .inl (hc'.1 hf)
    have hsocket : f = .socketError := by
      cases hreply with
      | unsent => rfl
      | reads _ hreads =>
        have := not_refused_of_readsFail hreads
        cases f <;> simp_all
      | silent => exact absurd rfl hf
      | late => exact absurd rfl hf
    obtain ⟨hquiet, hopen, hstatus⟩ := hc'.2 hf
    refine .inr ⟨hquiet, hopen, ?_⟩
    subst hsocket
    rw [hstatus, if_pos (by
      by_contra hhangup
      exact hlate ⟨hstarts, hpolls, hreply, by simpa using hhangup⟩)]
    exact Status.noConfusion

/-! ## The retry loop -/

variable {attempts : Nat → Attempt}

variable {sql}

theorem tryConnect_of_throws {P : Connection → Prop} (h : ThrowsTo (asyncConnect sql a) c P) :
    ∃ c', exec (tryConnect sql a) c = (.ok ⟨⟩, c') ∧ P c' := by
  obtain ⟨e, c', hexec, he, hc'⟩ := h
  refine ⟨c', ?_, hc'⟩
  rw [tryConnect, exec_tryCatch, hexec]
  simp [he]

theorem exec_connectLoop_zero (i : Nat) :
    exec (connectLoop sql attempts i 0) c = (.ok (decide (c.status = .CONNECTED)), c) := rfl

theorem exec_connectLoop_connected (h : c.status = .CONNECTED) (i n : Nat) :
    exec (connectLoop sql attempts i n) c = (.ok true, c) := by
  cases n with
  | zero => simp [exec_connectLoop_zero, h]
  | succ n => simp [connectLoop, exec_bind, h]

theorem exec_connectLoop_next (h : c.status ≠ .CONNECTED) {c' : Connection} (i n : Nat)
    (hexec : exec (tryConnect sql (attempts i)) c = (.ok ⟨⟩, c')) :
    exec (connectLoop sql attempts i (n + 1)) c = exec (connectLoop sql attempts (i + 1) n) c' := by
  rw [connectLoop, exec_bind_ok (exec_get c), if_neg h]
  exact exec_bind_ok hexec

theorem not_connects_of_timeout (h : c.timeout_occurred_ = true) (i n : Nat) (c' : Connection) :
    exec (connectLoop sql attempts i n) c ≠ (.ok true, c') := by
  induction n generalizing c i with
  | zero => simp [exec_connectLoop_zero, status_of_timeout h]
  | succ n ih =>
    obtain ⟨c'', hexec, hc''⟩ :=
      tryConnect_of_throws (connect_throws_of_timeout sql (a := attempts i) (.inr h))
    rw [exec_connectLoop_next (by simp [status_of_timeout h]) i n hexec]
    exact ih hc'' (i + 1)

/-- **A dead end** stays one whatever the later attempts meet. -/
theorem not_connects_of_deadEnd (h : c.DeadEnd) {i : Nat}
    (hnext : (attempts i).expired = true ∨ (attempts i).Starts) (n : Nat) (c' : Connection) :
    exec (connectLoop sql attempts i n) c ≠ (.ok true, c') := by
  rcases h with h | ⟨h, hopen, hstatus⟩
  · exact not_connects_of_timeout h i n c'
  cases n with
  | zero => simp [exec_connectLoop_zero, hstatus]
  | succ n =>
    rcases hnext with hexpired | hstarts
    · obtain ⟨c'', hexec, hc''⟩ :=
        tryConnect_of_throws (connect_throws_of_timeout sql (c := c) (.inl hexpired))
      rw [exec_connectLoop_next hstatus i n hexec]
      exact not_connects_of_timeout hc'' _ _ _
    · have hexec : exec (asyncConnect sql (attempts i)) c = _ := exec_connect_starts sql h hstarts
      rw [hopen, if_pos rfl] at hexec
      simp [connectLoop, exec_bind, hstatus, tryConnect, exec_tryCatch, hexec,
        Exception.isConnectionException]

end Connection

open Connection

theorem Attempt.starts_of_fails {f : Failure} {a : Attempt} (h : a.Fails f) :
    a.expired = true ∨ a.Starts := by
  cases h with
  | early h => exact .inl h
  | polls h => exact .inr h
  | reply h => exact .inr h

/-- A first attempt that leads to a dead end. -/
theorem not_connects_of_fails {sql : String → Statements → Statements} {attempts : Nat → Attempt}
    {f : Failure} (hf : (attempts 0).Fails f) (hlate : ¬(attempts 0).FailsAccepted)
    (hnext : (attempts 1).expired = true ∨ (attempts 1).Starts) : ¬Connects sql attempts := by
  rintro ⟨n, c, hexec, -⟩
  have hnew : Connection.new.status ≠ .CONNECTED := by decide
  obtain ⟨c', hexec', hdead⟩ :=
    tryConnect_of_throws ((connect_fails sql (c := .new) rfl rfl hf).resolve_left hlate)
  cases n with
  | zero => simp [exec_connectLoop_zero, hnew] at hexec
  | succ n =>
    rw [exec_connectLoop_next hnew 0 n hexec'] at hexec
    exact not_connects_of_deadEnd hdead hnext n c hexec

/-- **The retry loop** connects after `k` failing attempts exactly when there is none, or the first
one was broken off when the server had accepted it and libpq has not lost it. -/
theorem connects_iff_no_dead_end (sql : String → Statements → Statements) {attempts : Nat → Attempt}
    {k : Nat} (hfails : ∀ i < k, ∃ f, (attempts i).Fails f)
    (haccepts : ∀ i, k ≤ i → (attempts i).Accepts) :
    Connects sql attempts ↔ k = 0 ∨ (attempts 0).FailsAccepted := by
  have hnew : Connection.new.status ≠ .CONNECTED := by decide
  have hstarts : ∀ i, (attempts i).expired = true ∨ (attempts i).Starts := by
    intro i
    by_cases hi : i < k
    · obtain ⟨f, hf⟩ := hfails i hi
      exact Attempt.starts_of_fails hf
    · exact .inr (haccepts i (by omega)).starts
  constructor
  · intro hconnects
    by_contra hcon
    obtain ⟨hk, hlate⟩ := not_or.mp hcon
    obtain ⟨f, hf⟩ := hfails 0 (by omega)
    exact not_connects_of_fails hf hlate (hstarts 1) hconnects
  · rintro (rfl | hlate)
    · obtain ⟨c, hexec, hstatus⟩ :=
        connect_accepts sql (c := .new) rfl rfl (haccepts 0 le_rfl)
      refine ⟨1, c, ?_, hstatus⟩
      rw [exec_connectLoop_next hnew 0 0 (by rw [tryConnect, exec_tryCatch, hexec])]
      exact exec_connectLoop_connected hstatus 1 0
    · obtain ⟨c, hexec, -, hc⟩ := tryConnect_of_throws (connect_fails_accepted sql
        (c := .new) rfl rfl hlate.starts hlate.polls hlate.reply)
      obtain ⟨-, -, hstatus⟩ := hc Failure.noConfusion
      rw [hlate.hangup] at hstatus
      refine ⟨1, c, ?_, hstatus⟩
      rw [exec_connectLoop_next hnew 0 0 hexec]
      exact exec_connectLoop_connected hstatus 1 0

/-! ## One failing attempt -/

/-- An attempt with the given polls and reply. -/
def attemptWith (polls : List Poll) (reply : Reply) : Attempt where
  start := some .CONNECTION_STARTED
  expired := false
  nonblocking := true
  polls := polls
  reply := reply

/-- The server accepts at the second poll. -/
def acceptingPolls : List Poll :=
  [{ status := .WRITING, expired := false, ec := false },
   { status := .OK, expired := false, ec := false }]

/-- One attempt, and then the database accepts connections. -/
def afterOne (first : Attempt) : Nat → Attempt
  | 0 => first
  | _ + 1 => attemptWith acceptingPolls .plain

theorem attemptWith_starts (polls : List Poll) (reply : Reply) : (attemptWith polls reply).Starts :=
  ⟨rfl, rfl, rfl⟩

theorem acceptingPolls_accepted : Accepted acceptingPolls :=
  .wait (.inr ⟨.inr rfl, rfl, rfl⟩) (.ok rfl rfl)

theorem afterOne_accepts (first : Attempt) (i : Nat) (hi : 1 ≤ i) :
    (afterOne first i).Accepts := by
  obtain ⟨j, rfl⟩ : ∃ j, i = j + 1 := ⟨i - 1, by omega⟩
  refine ⟨attemptWith_starts _ _, acceptingPolls_accepted, rfl, ?_, ⟨_, rfl, rfl⟩, rfl, rfl⟩
  intro r hr
  rw [List.mem_singleton.mp hr]
  exact ⟨rfl, rfl, rfl⟩

theorem afterOne_fails {first : Attempt} {f : Failure} (h : first.Fails f) (i : Nat) (hi : i < 1) :
    ∃ f, (afterOne first i).Fails f := by
  obtain rfl : i = 0 := by omega
  exact ⟨f, h⟩

/-- The reply to the query is broken off by a read error. -/
def brokenReply : Reply :=
  { Reply.plain with reads := [{ expired := false, ec := true, consumed := true }] }

theorem brokenReply_fails : brokenReply.Fails .socketError := .reads rfl (.error rfl (.inl rfl))

theorem connects_after_broken_reply :
    Connects (fun _ statements => statements) (afterOne (attemptWith acceptingPolls brokenReply)) :=
  (connects_iff_no_dead_end _
    (afterOne_fails (.reply (attemptWith_starts _ _) acceptingPolls_accepted brokenReply_fails))
    (afterOne_accepts _)).mpr
      (.inr ⟨attemptWith_starts _ _, acceptingPolls_accepted, brokenReply_fails, rfl⟩)

/-- One attempt that is refused, or one that times out, and no later attempt connects. -/
theorem never_connects_after_failure :
    (∃ attempts, (attempts 0).Fails .refused ∧ (∀ i, 1 ≤ i → (attempts i).Accepts) ∧
      ¬Connects (fun _ statements => statements) attempts) ∧
    ∃ attempts, (attempts 0).Fails .timeout ∧ (∀ i, 1 ≤ i → (attempts i).Accepts) ∧
      ¬Connects (fun _ statements => statements) attempts := by
  have hrefused : (attemptWith [{ status := .FAILED, expired := false, ec := false }] .plain).Fails
      .refused := .polls (attemptWith_starts _ _) (.refused rfl rfl)
  have htimeout : (attemptWith [] .plain).Fails .timeout := .polls (attemptWith_starts _ _) .silent
  refine ⟨⟨afterOne _, hrefused, afterOne_accepts _, not_connects_of_fails hrefused ?_
    (.inr (attemptWith_starts _ _))⟩, ⟨afterOne _, htimeout, afterOne_accepts _,
      not_connects_of_fails htimeout ?_ (.inr (attemptWith_starts _ _))⟩⟩
  · intro hlate
    cases hlate.polls with
    | ok hstatus => exact PollingStatus.noConfusion hstatus
    | wait hwaits => rcases hwaits with h | ⟨h | h, -⟩ <;> exact PollingStatus.noConfusion h
  · intro hlate
    cases hlate.polls

end Sqldb

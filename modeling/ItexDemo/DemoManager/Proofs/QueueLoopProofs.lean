import ItexDemo.DemoManager.OrderbookQueueLoop
import ItexDemo.DemoManager.Proofs.ReloadProofs
import ItexDemo.Sqldb.Proofs.TransactionProofs

/-!
# The queue writer isolates failures

One triple for each function that a round calls, exact in when it returns; the loop is then followed
from one entry to the next.
-/

namespace DemoManager.OrderbookQueueWriter

open Quant Sqldb Sqldb.Transaction Script

/-! ## When a round succeeds -/

/-- A command is carried out and answered, and the connection is not `BAD` after it. -/
def good : Outcome := { course := .answered, bad := false }

/-- `async_get_connection` returns a connection that can be used. -/
def Calls.Connects (calls : Calls) : Prop :=
  if calls.found then calls.busy = false else calls.connected = true

instance (calls : Calls) : Decidable calls.Connects := inferInstanceAs (Decidable (ite _ _ _))

/-- Everything before the commit succeeds. -/
def Prepares (entry : QueueEntry ℚ) (calls : Calls) : Prop :=
  entry.levels ≠ [] ∧ calls.Connects ∧ calls.start = good ∧ calls.log = good ∧ calls.details = good

instance (entry : QueueEntry ℚ) (calls : Calls) : Decidable (Prepares entry calls) :=
  inferInstanceAs (Decidable (_ ∧ _))

/-- All database calls for the entry succeed. -/
def Succeeds (entry : QueueEntry ℚ) (calls : Calls) : Prop :=
  Prepares entry calls ∧ calls.commit.course = .answered

instance (entry : QueueEntry ℚ) (calls : Calls) : Decidable (Succeeds entry calls) :=
  inferInstanceAs (Decidable (_ ∧ _))

/-- The server carries out the `COMMIT` and its answer is lost. -/
def CommitLost (entry : QueueEntry ℚ) (calls : Calls) : Prop :=
  Prepares entry calls ∧ calls.commit.course = .broken true

instance (entry : QueueEntry ℚ) (calls : Calls) : Decidable (CommitLost entry calls) :=
  inferInstanceAs (Decidable (_ ∧ _))

/-! ## The functions of a round -/

variable {calls : Calls}

/-- The transaction between two calls: its block holds `done`. -/
def held (done : List Statement) (bad : Bool) : View Statement :=
  { View.new with connection_ := some { block := .opened done, busy := false, bad := bad } }

theorem exec_meets (calls : Calls) {v : View Statement} {l : Link Statement}
    {cmd : Command Statement} (hl : v.connection_ = some l) :
    Meets (.ofHandler calls.handler) (fun v' => v' = v) (exec cmd)
      (fun res v' => res.first ≠ .BAD ∧ l.Returns cmd (calls.outcome cmd) ∧
        v' = v.sent l cmd (calls.outcome cmd))
      fun _ v' => ¬l.Returns cmd (calls.outcome cmd) ∧ v' = v.sent l cmd (calls.outcome cmd) := by
  have hanswer : calls.handler (.exec cmd) v = some
      (answerOf (l.Returns cmd (calls.outcome cmd)), v.sent l cmd (calls.outcome cmd)) := by
    simp only [Calls.handler, respond, hl]
    rfl
  refine .bind (.answered hanswer) fun answer => .start ?_
  rintro v' ⟨hanswer, rfl⟩
  by_cases h : l.Returns cmd (calls.outcome cmd)
  · rw [hanswer, answerOf, if_pos h]
    exact .return fun v' hv' => ⟨first_of_good rfl, h, hv'⟩
  · rw [hanswer, answerOf, if_neg h]
    exact .raise fun v' hv' => ⟨h, hv'⟩

theorem isNull_meets (calls : Calls) (v : View Statement)
    {E : Exception → View Statement → Prop} :
    Meets (.ofHandler calls.handler) (fun v' => v' = v) isNull
      (fun null v' => null = v.connection_.isNone ∧ v' = v) E :=
  .answered rfl

/-- The connection that `async_get_connection` returns. -/
def Calls.link (calls : Calls) : Option (Link Statement) :=
  if calls.found then some (.pooled calls.busy)
  else if calls.connected then some .connected
  else none

theorem not_connects {calls : Calls} (h : calls.link = none) : ¬calls.Connects := by
  unfold Calls.link at h
  unfold Calls.Connects
  split at h
  · cases h
  · split at h
    · cases h
    · simp_all

theorem link_new {calls : Calls} {l : Link Statement} (h : calls.link = some l) :
    l.block = .none ∧ l.bad = false ∧ (calls.Connects ↔ l.busy = false) := by
  unfold Calls.link at h
  unfold Calls.Connects
  split at h
  · rename_i hfound
    obtain rfl := Option.some.inj h
    rw [if_pos hfound]
    exact ⟨rfl, rfl, Iff.rfl⟩
  · rename_i hfound
    split at h
    · rename_i hconnected
      obtain rfl := Option.some.inj h
      rw [if_neg hfound]
      exact ⟨rfl, rfl, iff_of_true hconnected rfl⟩
    · cases h

theorem asyncGetConnection_meets (calls : Calls) :
    Meets (.ofHandler calls.handler) (fun v => v = .new) asyncGetConnection
      (fun _ v => ∃ l, calls.link = some l ∧ v = { View.new with connection_ := some l })
      fun _ v => calls.link = none ∧ v = .new := by
  have hassign : ∀ l : Link Statement, calls.link = some l →
      Meets (.ofHandler calls.handler)
        (fun v => v = { View.new with pending := some l }) (ask Op.assign : Code Statement Unit)
        (fun _ v => ∃ l, calls.link = some l ∧ v = { View.new with connection_ := some l })
        fun _ v => calls.link = none ∧ v = .new := by
    intro l hl
    exact (Meets.answered rfl).weaken (fun _ h => h) (fun _ v h => ⟨l, hl, h.2⟩) fun _ _ h => h
  cases hfound : calls.found with
  | true =>
    have hpop : calls.handler .popPool .new =
        some (true, { View.new with pending := some (.pooled calls.busy) }) := by
      simp only [Calls.handler, Calls.choice, respond, hfound]
      rfl
    refine .bind (.answered hpop) fun found => .start ?_
    rintro v ⟨rfl, rfl⟩
    exact hassign _ (by simp [Calls.link, hfound])
  | false =>
    have hpop : calls.handler .popPool .new = some (false, .new) := by
      simp only [Calls.handler, Calls.choice, respond, hfound]
      rfl
    have hconnect : calls.handler .connect { View.new with pending := some .unconnected } =
        some (calls.connected,
          { View.new with pending := if calls.connected then some .connected else none }) := rfl
    refine .bind (.answered hpop) fun found => .start ?_
    rintro v ⟨rfl, rfl⟩
    refine .bind (.answered rfl) fun _ => .start ?_
    rintro v ⟨-, rfl⟩
    refine .bind (.answered hconnect) fun connected => .start ?_
    rintro v ⟨rfl, rfl⟩
    cases hconnected : calls.connected with
    | true => exact hassign _ (by simp [Calls.link, hfound, hconnected])
    | false =>
      refine .bind (Q := fun _ _ => False) (.raise fun v hv => ?_) fun _ => .start fun _ h => h.elim
      exact ⟨by simp [Calls.link, hfound, hconnected], hv⟩

/-! ## The block of a round -/

theorem eq_good_iff {o : Outcome} : o = good ↔ o.course = .answered ∧ o.bad = false := by
  obtain ⟨course, bad⟩ := o
  simp [good]

theorem returns_iff {l : Link Statement} {cmd : Command Statement} {o : Outcome} :
    l.Returns cmd o ↔ l.Usable ∧ l.block.admits cmd.query = true ∧ o.course = .answered := by
  constructor
  · rintro ⟨⟨⟨husable, -⟩, hadmits, -⟩, hanswered⟩
    exact ⟨husable, hadmits, hanswered⟩
  · rintro ⟨husable, hadmits, hanswered⟩
    exact ⟨⟨⟨husable, by rw [hanswered]; exact nofun⟩, hadmits, .inl hanswered⟩, hanswered⟩

theorem after_eq_of_returns {l : Link Statement} {cmd : Command Statement} {o : Outcome}
    (h : l.Returns cmd o) :
    l.after cmd o = { block := l.block.perform cmd.query, busy := false, bad := o.bad } := by
  obtain ⟨⟨hbusy, hbad⟩, -, hanswered⟩ := returns_iff.mp h
  simp [Link.after, h.1, hbusy, hbad, hanswered]

/-- A command that makes nothing durable when it is refused. -/
theorem made_eq {l : Link Statement} {cmd : Command Statement}
    (h : l.block.durableRefused cmd.query = []) (o : Outcome) :
    l.made cmd o = if l.Carries cmd o then l.block.durable cmd.query else [] := by
  unfold Link.made
  rw [h, ite_self]

theorem made_eq_nil {l : Link Statement} {cmd : Command Statement} (h : l.block.durable cmd.query = [])
    (hrefused : l.block.durableRefused cmd.query = []) (o : Outcome) : l.made cmd o = [] := by
  rw [made_eq hrefused, h, ite_self]

/-- `START TRANSACTION` on a new connection. -/
theorem asyncBegin_meets (calls : Calls) {l : Link Statement} (hblock : l.block = .none)
    (hbad : l.bad = false) :
    Meets (.ofHandler calls.handler) (fun v => v = { View.new with connection_ := some l }) asyncBegin
      (fun _ v => (l.busy = false ∧ calls.start.course = .answered) ∧ v = held [] calls.start.bad)
      fun _ v => ¬(l.busy = false ∧ calls.start.course = .answered) ∧ v.trace.made = [] := by
  have hreturns : l.Returns .start calls.start ↔
      l.busy = false ∧ calls.start.course = .answered := by
    rw [returns_iff, hblock, Link.Usable, hbad]
    simp [Block.admits]
  have hmade : l.made .start calls.start = [] := made_eq_nil (by rw [hblock]; rfl) rfl _
  refine .bind (isNull_meets calls _) fun null => .start ?_
  rintro v ⟨rfl, rfl⟩
  refine .bind ((exec_meets calls rfl).weaken (fun _ h => h) (fun _ _ h => h) ?_)
    fun res => .start ?_
  · rintro e v ⟨hthrows, rfl⟩
    refine ⟨fun h => hthrows (hreturns.mpr h), ?_⟩
    show [] ++ l.made .start calls.start = []
    rw [hmade]
    rfl
  · rintro v ⟨hgood, hstart, rfl⟩
    have hstart : l.Returns .start calls.start := hstart
    have hview : View.sent { View.new with connection_ := some l } l .start calls.start =
        held [] calls.start.bad := by
      have hspoils : ¬Spoils l .start calls.start := by
        rintro ⟨-, hcourse⟩
        rw [(hreturns.mp hstart).2] at hcourse
        rcases hcourse with hcourse | hcourse <;> cases hcourse
      have hundoes : ¬Undoes l .start calls.start := fun h => h.2
      simp [View.sent, Trace.after, after_eq_of_returns hstart, hblock, Block.perform, hmade,
        sentOutside, hspoils, hundoes, held, View.new]
    rw [if_neg hgood]
    exact .return fun v hv => ⟨hreturns.mp hstart, hv.trans hview⟩

/-- Nothing has been made durable. -/
def Undone (v : View Statement) : Prop := v.trace.made = []

/-- Giving a connection away makes nothing durable. -/
theorem undone_drop (op : Op Statement)
    (hop : ∀ v, ∃ a, calls.handler op v = some (a, { v with connection_ := none }))
    {E : Exception → View Statement → Prop} :
    Meets (.ofHandler calls.handler) Undone (ask op) (fun _ => Undone) E := by
  refine .start fun v hv => ?_
  obtain ⟨a, ha⟩ := hop v
  refine (Meets.answered ha).weaken (fun _ h => h) ?_ fun _ _ h => h
  rintro _ _ ⟨-, rfl⟩
  exact hv

theorem asyncRollback_meets :
    Meets (.ofHandler calls.handler) Undone (asyncRollback .OFF) (fun _ => Undone)
      fun _ => Undone := by
  refine .start fun v hv => .bind (isNull_meets calls v) fun null => .start ?_
  rintro v' ⟨rfl, rfl⟩
  refine .ite (fun hnull => ?_) fun _ => .return fun v h => h ▸ hv
  obtain ⟨l, hl⟩ := link_of_null_false hnull.1 rfl
  have hundone : ∀ o, Undone (v'.sent l .rollback o) := by
    intro o
    show v'.trace.made ++ l.made .rollback o = []
    rw [hv, made_eq_nil (by cases l.block <;> rfl) rfl]
    rfl
  refine .bind ((exec_meets calls hl).weaken (fun _ h => h) (fun _ _ h => h) ?_) fun res => ?_
  · rintro e v'' ⟨-, rfl⟩
    exact hundone _
  · refine .ite (fun hbad => ?_) fun _ => ?_
    · exact .bind (Q := fun _ _ => False) (.raise fun _ h => absurd hbad h.1) fun _ =>
        .start fun _ h => h.elim
    · refine (undone_drop .returnConnection fun v => ⟨(), rfl⟩).pre ?_
      rintro v'' ⟨-, -, rfl⟩
      exact hundone _

/-- The handler of `async_exec`, after a statement that threw. -/
theorem handler_meets (e : Exception) :
    Meets (.ofHandler calls.handler) (fun v => Undone v ∧ ∃ l, v.connection_ = some l)
      (do
        if ← isBad then deleteConnection
        else if ImplicitAutocommit.OFF = .OFF then asyncRollback .OFF
        throw e : Code Statement Results) (fun _ _ => False) fun _ => Undone := by
  have hraise : ∀ _ : Unit, Meets (.ofHandler calls.handler) Undone
      (throw e : Code Statement Results) (fun _ _ => False) fun _ => Undone :=
    fun _ => .raise fun _ h => h
  refine .start ?_
  rintro v ⟨hv, l, hl⟩
  have hbad : calls.handler .isBad v = some (l.bad || calls.bad,
      { v with connection_ := some { l with bad := l.bad || calls.bad } }) := by
    simp only [Calls.handler, Calls.choice, respond, hl]
    rfl
  refine .bind (.answered hbad) fun bad => .ite (fun _ => ?_) fun _ => .ite (fun _ => ?_) fun h => ?_
  · exact .bind ((undone_drop .deleteConnection fun v => ⟨(), rfl⟩).pre fun v h => h.2 ▸ hv) hraise
  · exact .bind (asyncRollback_meets.pre fun v h => h.2 ▸ hv) hraise
  · exact absurd rfl h

/-- A statement inside the block. -/
theorem statement_meets (calls : Calls) (done : List Statement) (bad : Bool) (q : Statement) :
    Meets (.ofHandler calls.handler) (fun v => v = held done bad)
      (tryCatch (exec (.user (.data q))) fun e => do
        if ← isBad then deleteConnection
        else if ImplicitAutocommit.OFF = .OFF then asyncRollback .OFF
        throw e)
      (fun _ v => (bad = false ∧ (calls.outcome (.user (.data q))).course = .answered) ∧
        v = held (done ++ [q]) (calls.outcome (.user (.data q))).bad)
      fun _ v => ¬(bad = false ∧ (calls.outcome (.user (.data q))).course = .answered) ∧ Undone v := by
  have hreturns : (Link.Returns { block := .opened done, busy := false, bad := bad } (.user (.data q))
      (calls.outcome (.user (.data q)))) ↔
        bad = false ∧ (calls.outcome (.user (.data q))).course = .answered := by
    rw [returns_iff, Link.Usable]
    simp [Block.admits]
  have hmade : Link.made { block := .opened done, busy := false, bad := bad } (.user (.data q))
      (calls.outcome (.user (.data q))) = [] := made_eq_nil rfl rfl _
  refine .tryCatch ((exec_meets calls rfl).weaken (fun _ h => h) ?_ fun _ _ h => h)
    fun e => .start ?_
  · rintro res v ⟨-, hexec, rfl⟩
    have hspoils : ¬Spoils { block := .opened done, busy := false, bad := bad } (.user (.data q))
      (calls.outcome (.user (.data q))) := fun h => h.2
    have hundoes : ¬Undoes { block := .opened done, busy := false, bad := bad } (.user (.data q))
      (calls.outcome (.user (.data q))) := fun h => h.2
    refine ⟨hreturns.mp hexec, ?_⟩
    simp [View.sent, Trace.after, after_eq_of_returns hexec, Block.perform, hmade, sentOutside,
      hspoils, hundoes, held, View.new]
  · rintro v ⟨hthrows, rfl⟩
    refine (handler_meets e).weaken ?_ (fun _ _ h => h.elim) fun _ _ h =>
      ⟨fun hreturn => hthrows (hreturns.mpr hreturn), h⟩
    rintro v rfl
    refine ⟨?_, _, rfl⟩
    show [] ++ Link.made _ _ _ = []
    rw [hmade]
    rfl

/-- `async_exec` on the connection in hand. -/
theorem asyncExec_held (calls : Calls) (done : List Statement) (bad : Bool) (q : Statement) :
    Meets (.ofHandler calls.handler) (fun v => v = held done bad) (asyncExec .OFF (.data q))
      (fun _ v => (bad = false ∧ (calls.outcome (.user (.data q))).course = .answered) ∧
        v = held (done ++ [q]) (calls.outcome (.user (.data q))).bad)
      fun _ v => ¬(bad = false ∧ (calls.outcome (.user (.data q))).course = .answered) ∧ Undone v := by
  refine .bind (isNull_meets calls _) fun null => .ite (fun hnull => ?_) fun hnull => ?_
  · refine .start fun v hv => ?_
    rw [hv.1] at hnull
    cases hnull
  · exact (statement_meets calls done bad q).pre fun v h => h.2

/-- `async_exec` without a connection in hand. -/
theorem asyncExec_new (calls : Calls) (q : Statement) :
    Meets (.ofHandler calls.handler) (fun v => v = .new) (asyncExec .OFF (.data q))
      (fun _ v => (calls.Connects ∧ calls.start = good ∧
        (calls.outcome (.user (.data q))).course = .answered) ∧ v = held [q] (calls.outcome (.user (.data q))).bad)
      fun _ v => ¬(calls.Connects ∧ calls.start = good ∧
        (calls.outcome (.user (.data q))).course = .answered) ∧ Undone v := by
  refine .bind (isNull_meets calls _) fun null => .ite (fun _ => ?_) fun hnull => .start ?_
  · refine .bind ((asyncGetConnection_meets calls).weaken (fun v h => h.2) (fun _ _ h => h) ?_)
      fun _ => .ite (fun _ => .start ?_) fun h => absurd rfl h
    · rintro e v ⟨hlink, rfl⟩
      exact ⟨fun h => not_connects hlink h.1, rfl⟩
    · rintro v ⟨l, hlink, rfl⟩
      obtain ⟨hblock, hbad, hconnects⟩ := link_new hlink
      refine .bind ((asyncBegin_meets calls hblock hbad).weaken (fun _ h => h) (fun _ _ h => h) ?_)
        fun _ => .start ?_
      · rintro e v ⟨hthrows, hv⟩
        exact ⟨fun h => hthrows ⟨hconnects.mp h.1, (eq_good_iff.mp h.2.1).1⟩, hv⟩
      · rintro v ⟨⟨hbusy, hstart⟩, rfl⟩
        refine (statement_meets calls [] calls.start.bad q).weaken (fun _ h => h) ?_ ?_
        · rintro res v ⟨⟨hgood, hanswered⟩, hv⟩
          exact ⟨⟨hconnects.mpr hbusy, eq_good_iff.mpr ⟨hstart, hgood⟩, hanswered⟩, hv⟩
        · rintro e v ⟨hthrows, hv⟩
          exact ⟨fun h => hthrows ⟨(eq_good_iff.mp h.2.1).2, h.2.2⟩, hv⟩
  · rintro v ⟨hnull', rfl⟩
    exact absurd hnull' hnull

/-- `async_commit` of a block. -/
theorem asyncCommit_meets (calls : Calls) (done : List Statement) (bad : Bool) :
    Meets (.ofHandler calls.handler) (fun v => v = held done bad) (asyncCommit .OFF)
      (fun _ v => (bad = false ∧ calls.commit.course = .answered) ∧ v.trace.made = done)
      fun _ v => ¬(bad = false ∧ calls.commit.course = .answered) ∧
        v.trace.made = if bad = false ∧ calls.commit.course = .broken true then done else [] := by
  let l : Link Statement := { block := .opened done, busy := false, bad := bad }
  have hreturns : l.Returns .commit calls.commit ↔
      bad = false ∧ calls.commit.course = .answered := by
    rw [returns_iff, Link.Usable]
    simp [Block.admits, l]
  refine .bind (isNull_meets calls _) fun null => .ite (fun _ => .start ?_) fun hnull => .start ?_
  · rintro v ⟨-, rfl⟩
    refine .bind ((exec_meets calls rfl).weaken (fun _ h => h) (fun _ _ h => h) ?_)
      fun res => .start ?_
    · rintro e v ⟨hthrows, rfl⟩
      have hthrows : ¬l.Returns .commit calls.commit := hthrows
      refine ⟨fun h => hthrows (hreturns.mpr h), ?_⟩
      have hcarries : l.Carries .commit calls.commit ↔
          bad = false ∧ calls.commit.course = .broken true := by
        constructor
        · rintro ⟨⟨husable, -⟩, -, hanswered | hbroken⟩
          · exact absurd (hreturns.mpr ⟨husable.2, hanswered⟩) hthrows
          · exact ⟨husable.2, hbroken⟩
        · rintro ⟨hbad, hbroken⟩
          exact ⟨⟨⟨rfl, hbad⟩, by rw [hbroken]; exact nofun⟩, rfl, .inr hbroken⟩
      show [] ++ l.made .commit calls.commit = _
      rw [List.nil_append, made_eq rfl]
      exact if_congr hcarries rfl rfl
    · rintro v ⟨hgood, hexec, rfl⟩
      have hexec : l.Returns .commit calls.commit := hexec
      rw [if_neg hgood]
      refine (Meets.answered rfl).weaken (fun _ h => h) ?_ fun _ _ h => h
      rintro _ v ⟨-, rfl⟩
      refine ⟨hreturns.mp hexec, ?_⟩
      show [] ++ l.made .commit calls.commit = _
      rw [(after_of_returns hexec).2]
      rfl
  · rintro v ⟨hnull', rfl⟩
    rw [hnull'] at hnull
    exact absurd ⟨rfl, rfl⟩ hnull

/-- `~Transaction`. -/
theorem destruct_meets (made : List Statement) {E : Exception → View Statement → Prop} :
    Meets (.ofHandler calls.handler) (fun v => v.trace.made = made) (destruct .OFF)
      (fun _ v => v.trace.made = made) E := by
  refine .start fun v hv => .bind (isNull_meets calls v) fun null => .ite (fun _ => .start ?_) fun _ =>
    .return fun v' hv' => hv'.2 ▸ hv
  rintro v ⟨-, rfl⟩
  refine (Meets.answered rfl).weaken (fun _ h => h) ?_ fun _ _ h => h
  rintro _ _ ⟨-, rfl⟩
  exact hv

/-! ## A round -/

/-- The statements of a round. -/
def statements (entry : QueueEntry ℚ) (id : Nat) : List Statement :=
  [.insertLog (logParams entry),
    .insertDetails (insertGroups entry.prices.length) (detailParams id entry)]

theorem insertGroups_eq_nil {entry : QueueEntry ℚ} :
    insertGroups entry.prices.length = [] ↔ entry.levels = [] := by
  rw [← List.length_eq_zero_iff, ← List.length_eq_zero_iff, length_levels]
  simp [insertGroups]

/-- How the second statement goes. -/
theorem outcome_details (calls : Calls) (entry : QueueEntry ℚ) (params : List (List Char)) :
    ((calls.outcome (.user (.data (.insertDetails (insertGroups entry.prices.length) params)))).course =
        .answered ↔ entry.levels ≠ [] ∧ calls.details.course = .answered) ∧
      (calls.outcome (.user (.data (.insertDetails (insertGroups entry.prices.length) params)))).bad =
        calls.details.bad := by
  have houtcome : calls.outcome
      (.user (.data (.insertDetails (insertGroups entry.prices.length) params))) =
        if insertGroups entry.prices.length = [] then reject calls.details else calls.details := rfl
  rw [houtcome]
  by_cases h : entry.levels = []
  · rw [if_pos (insertGroups_eq_nil.mpr h)]
    refine ⟨⟨fun hcourse => ?_, fun hcourse => absurd h hcourse.1⟩, rfl⟩
    unfold reject at hcourse
    cases hdetails : calls.details.course <;> simp_all
  · rw [if_neg fun hgroups => h (insertGroups_eq_nil.mp hgroups)]
    exact ⟨⟨fun hcourse => ⟨h, hcourse⟩, fun hcourse => hcourse.2⟩, rfl⟩

/-- A round that fails makes something durable only by a `COMMIT` whose answer is lost. -/
def Fails (entry : QueueEntry ℚ) (calls : Calls) (v : View Statement) : Prop :=
  ¬Succeeds entry calls ∧ v.trace.made =
    if CommitLost entry calls then statements entry calls.orderbook_log_id else []

theorem fails_of_not_prepares {entry : QueueEntry ℚ} {v : View Statement}
    (h : ¬Prepares entry calls) (hv : Undone v) : Fails entry calls v :=
  ⟨fun hs => h hs.1, by rw [if_neg fun hl => h hl.1]; exact hv⟩

theorem body_meets (entry : QueueEntry ℚ) (calls : Calls) :
    Meets (.ofHandler calls.handler) (fun v => v = .new)
      (do
        let _ ← asyncExec .OFF (.data (.insertLog (logParams entry)))
        let _ ← asyncExec .OFF (.data (.insertDetails (insertGroups entry.prices.length)
          (detailParams calls.orderbook_log_id entry)))
        asyncCommit .OFF)
      (fun _ v => Succeeds entry calls ∧ v.trace.made = statements entry calls.orderbook_log_id)
      fun _ => Fails entry calls := by
  obtain ⟨hcourse, hbad⟩ :=
    outcome_details calls entry (detailParams calls.orderbook_log_id entry)
  refine .bind ((asyncExec_new calls _).weaken (fun _ h => h) (fun _ _ h => h) ?_)
    fun _ => .start ?_
  · rintro e v ⟨hthrows, hv⟩
    exact fails_of_not_prepares
      (fun h => hthrows ⟨h.2.1, h.2.2.1, (eq_good_iff.mp h.2.2.2.1).1⟩) hv
  · rintro v ⟨⟨hconnects, hstart, hlog⟩, rfl⟩
    refine .bind ((asyncExec_held calls _ _ _).weaken (fun _ h => h) (fun _ _ h => h) ?_)
      fun _ => .start ?_
    · rintro e v ⟨hthrows, hv⟩
      refine fails_of_not_prepares (fun h => hthrows ⟨(eq_good_iff.mp h.2.2.2.1).2, ?_⟩) hv
      exact hcourse.mpr ⟨h.1, (eq_good_iff.mp h.2.2.2.2).1⟩
    · rintro v ⟨⟨hlogBad, hdetails⟩, rfl⟩
      rw [hbad]
      obtain ⟨hlevels, hdetails⟩ := hcourse.mp hdetails
      have hprepares : calls.details.bad = false ↔ Prepares entry calls := by
        constructor
        · intro h
          exact ⟨hlevels, hconnects, hstart, eq_good_iff.mpr ⟨hlog, hlogBad⟩,
            eq_good_iff.mpr ⟨hdetails, h⟩⟩
        · intro h
          exact (eq_good_iff.mp h.2.2.2.2).2
      refine (asyncCommit_meets calls _ _).weaken (fun _ h => h) ?_ ?_
      · rintro _ v ⟨⟨hgood, hcommit⟩, hmade⟩
        exact ⟨⟨hprepares.mp hgood, hcommit⟩, hmade⟩
      · rintro e v ⟨hthrows, hmade⟩
        refine ⟨fun h => hthrows ⟨hprepares.mpr h.1, h.2⟩, ?_⟩
        rw [hmade]
        exact if_congr (and_congr_left' hprepares) rfl rfl

/-- A round returns exactly when all database calls for its entry succeed. -/
theorem round_meets (entry : QueueEntry ℚ) (calls : Calls) :
    Meets (.ofHandler calls.handler) (fun v => v = .new) (round entry calls.orderbook_log_id)
      (fun _ v => Succeeds entry calls ∧ v.trace.made = statements entry calls.orderbook_log_id)
      fun _ => Fails entry calls := by
  refine .bind (.tryCatch (body_meets entry calls) fun e => .start fun v hv => ?_)
    fun _ => .start fun v hv => ?_
  · refine .bind (Q := fun _ => Fails entry calls) ?_ fun _ => .raise fun _ h => h
    refine (destruct_meets v.trace.made).weaken (fun v' h => by rw [h]) ?_ fun _ _ h => h
    intro _ v' h
    exact ⟨hv.1, h.trans hv.2⟩
  · refine (destruct_meets v.trace.made).weaken (fun v' h => by rw [h]) ?_ fun _ _ h => h
    intro _ v' h
    exact ⟨hv.1, h.trans hv.2⟩

/-! ## The loop -/

/-- The rows of an entry are stored. -/
def Rows.store (rows : Rows) (entry : QueueEntry ℚ) (id : Nat) : Rows where
  orderbook_log := rows.orderbook_log ++ [logRow id entry]
  orderbook_log_details := rows.orderbook_log_details ++ entry.levels.map (detailRow id)

theorem commit_statements (rows : Rows) (entry : QueueEntry ℚ) (id : Nat) :
    rows.commit id (statements entry id) = rows.store entry id := by
  have hdetails : (insertGroups entry.prices.length).mapM
      (Tables.valueRow (detailParams id entry)) = some (entry.levels.map (detailRow id)) := by
    rw [← length_levels]
    exact mapM_valueRow id entry
  simp [Rows.commit, Rows.store, statements, Statement.logRows, Statement.detailRows, hdetails,
    logParams, logRow]

theorem commit_nil (rows : Rows) (id : Nat) : rows.commit id [] = rows := by
  simp [Rows.commit]

theorem start_of_succeeds {entry : QueueEntry ℚ} (h : Succeeds entry calls) (rows : Rows)
    (queue_ : List (QueueEntry ℚ × Calls)) :
    start rows ((entry, calls) :: queue_) =
      start (rows.store entry calls.orderbook_log_id) queue_ := by
  obtain ⟨r, v, hrun, hend⟩ := Safe.run (round_meets entry calls .new rfl)
  rw [start, hrun]
  cases r with
  | ok _ =>
    show start (rows.commit _ v.trace.made) queue_ = _
    rw [hend.2, commit_statements]
  | error e => exact absurd h hend.1

theorem start_of_fails {entry : QueueEntry ℚ} (h : ¬Succeeds entry calls) (rows : Rows)
    (queue_ : List (QueueEntry ℚ × Calls)) :
    start rows ((entry, calls) :: queue_) =
      (if CommitLost entry calls then rows.store entry calls.orderbook_log_id else rows, queue_) := by
  obtain ⟨r, v, hrun, hend⟩ := Safe.run (round_meets entry calls .new rfl)
  rw [start, hrun]
  cases r with
  | ok _ => exact absurd hend.1 h
  | error e =>
    show (rows.commit _ v.trace.made, queue_) = _
    rw [hend.2]
    split
    · rw [commit_statements]
    · rw [commit_nil]

/-- One row of `orderbook_log` and one row of `orderbook_log_details` for every level were stored
for each entry whose database calls all succeed, in the order of the queue, nothing was stored for
the others, and every entry was processed. -/
structure Isolates (rows : Rows) (queue_ : List (QueueEntry ℚ × Calls))
    (result : Rows × List (QueueEntry ℚ × Calls)) : Prop where
  log : result.1.orderbook_log = rows.orderbook_log ++
    (queue_.filter fun t => Succeeds t.1 t.2).map fun t => logRow t.2.orderbook_log_id t.1
  details : result.1.orderbook_log_details = rows.orderbook_log_details ++
    (queue_.filter fun t => Succeeds t.1 t.2).flatMap fun t =>
      t.1.levels.map (detailRow t.2.orderbook_log_id)
  processed : result.2 = []

theorem isolates_cons {t : QueueEntry ℚ × Calls} (h : Succeeds t.1 t.2) (rows : Rows)
    (queue_ : List (QueueEntry ℚ × Calls)) (result : Rows × List (QueueEntry ℚ × Calls)) :
    Isolates rows (t :: queue_) result ↔
      Isolates (rows.store t.1 t.2.orderbook_log_id) queue_ result := by
  have hfilter : (t :: queue_).filter (fun t => decide (Succeeds t.1 t.2)) =
      t :: queue_.filter fun t => decide (Succeeds t.1 t.2) :=
    List.filter_cons_of_pos (decide_eq_true h)
  constructor
  · rintro ⟨hlog, hdetails, hprocessed⟩
    rw [hfilter] at hlog hdetails
    exact ⟨by rw [hlog]; simp [Rows.store], by rw [hdetails]; simp [Rows.store], hprocessed⟩
  · rintro ⟨hlog, hdetails, hprocessed⟩
    refine ⟨?_, ?_, hprocessed⟩
    · rw [hlog, hfilter]
      simp [Rows.store]
    · rw [hdetails, hfilter]
      simp [Rows.store]

/-- **A failure is isolated exactly when it comes last**, and is not the loss of the answer to a
`COMMIT` that was carried out. -/
theorem isolates_iff_fails_last (rows : Rows) (queue_ : List (QueueEntry ℚ × Calls)) :
    Isolates rows queue_ (start rows queue_) ↔
      (∀ t ∈ queue_.dropLast, Succeeds t.1 t.2) ∧ ∀ t ∈ queue_.getLast?, ¬CommitLost t.1 t.2 := by
  induction queue_ generalizing rows with
  | nil => exact iff_of_true ⟨by simp [start], by simp [start], rfl⟩ ⟨by simp, by simp⟩
  | cons t queue_ ih =>
    by_cases h : Succeeds t.1 t.2
    · rw [start_of_succeeds h, isolates_cons h, ih]
      cases queue_ with
      | nil =>
        have hlost : ¬CommitLost t.1 t.2 := by
          rintro ⟨-, hbroken⟩
          rw [h.2] at hbroken
          cases hbroken
        simp [hlost]
      | cons t' queue_ => simp [h]
    · rw [start_of_fails h]
      cases queue_ with
      | nil =>
        have hfilter : [t].filter (fun t => decide (Succeeds t.1 t.2)) = [] :=
          List.filter_cons_of_neg (by simpa using h)
        have hnext : ((∀ t' ∈ [t].dropLast, Succeeds t'.1 t'.2) ∧
            ∀ t' ∈ [t].getLast?, ¬CommitLost t'.1 t'.2) ↔ ¬CommitLost t.1 t.2 := by simp
        rw [hnext]
        constructor
        · intro hisolates hlost
          have hlog := hisolates.log
          rw [if_pos hlost, hfilter] at hlog
          simp [Rows.store] at hlog
        · intro hlost
          rw [if_neg hlost]
          exact ⟨by simp [hfilter], by simp [hfilter], rfl⟩
      | cons t' queue_ =>
        refine iff_of_false (fun hisolates => ?_) fun hall => ?_
        · exact absurd hisolates.processed (List.cons_ne_nil _ _)
        · exact h (hall.1 t (by simp))

/-- An environment in which every call succeeds. -/
def Calls.fine (id : Nat) : Calls where
  found := true
  busy := false
  connected := true
  start := good
  log := good
  details := good
  commit := good
  rollback := good
  bad := false
  orderbook_log_id := id

/-- An entry of one security at one time. -/
def entryOfPrices (prices : List ℚ) : QueueEntry ℚ where
  security_id := 1
  timestamp := 0
  prices := prices
  volumes := prices
  size_eq := rfl

/-- The second statement of an entry without levels is rejected, and the next entry stays in the
queue for ever. -/
theorem entry_behind_failure_left :
    ¬∀ (rows : Rows) (queue_ : List (QueueEntry ℚ × Calls)),
      Isolates rows queue_ (start rows queue_) := by
  intro h
  have hleft : (start { orderbook_log := [], orderbook_log_details := [] }
      [(entryOfPrices [], .fine 1), (entryOfPrices [1], .fine 2)]).2.length = 1 := by decide +kernel
  rw [(h _ _).processed] at hleft
  cases hleft

end DemoManager.OrderbookQueueWriter

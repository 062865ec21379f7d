import ItexDemo.Sqldb.TransactionObject

/-!
# The functions of a transaction

One triple for each function. A function starts and ends at rest: no connection is on its way, the
connection in hand is not inside a block in the implicit mode, and in the explicit mode it is inside
of one unless it is spoiled. For the explicit mode the triples also follow what the block holds.
-/

namespace Sqldb

namespace Transaction

open Script

variable {α : Type} {mode : ImplicitAutocommit} {quiet : Prop}

/-! ## One command -/

theorem usable_of_after {l : Link α} {cmd : Command α} {o : Outcome} (h : (l.after cmd o).Usable) :
    l.Usable := by
  obtain ⟨hbusy, hbad⟩ := h
  simp only [Link.after, Bool.or_eq_false_iff] at hbusy hbad
  exact ⟨hbusy.1, hbad.1⟩

/-- A command that returns was carried out. -/
theorem after_of_returns {l : Link α} {cmd : Command α} {o : Outcome} (h : l.Returns cmd o) :
    (l.after cmd o).block = l.block.perform cmd.query ∧ l.made cmd o = l.block.durable cmd.query := by
  simp only [Link.after, Link.made, if_pos h.1, and_self]

/-- Without a block a statement is carried out or refused by itself. -/
theorem block_after_data {l : Link α} {q : α} {o : Outcome} (h : l.block = .none) :
    (l.after (.user (.data q)) o).block = .none := by
  simp only [Link.after, h]
  split
  · rfl
  · split
    · rfl
    · rfl

/-- A text that is carried out and does not end the block leaves it open. -/
theorem perform_ne_none {b : Block α} (h : b ≠ .none) {q : Query α} (hcommit : q ≠ .commit)
    (hrollback : q ≠ .rollback) (hcontrol : ∀ text, q = .control text → (text.carried b).ended = false) :
    b.perform q ≠ .none := by
  cases q with
  | control text =>
    have hopen := (text.carried b).open_of_not_ended h (hcontrol text rfl)
    cases b <;> exact hopen
  | _ => cases b <;> simp_all [Block.perform]

theorem refuse_ne_none {b : Block α} (h : b ≠ .none) {q : Query α} (hcommit : q ≠ .commit)
    (hcontrol : ∀ text, q = .control text → (text.refused b).ended = false) : b.refuse q ≠ .none := by
  cases q with
  | control text =>
    have hopen := (text.refused b).open_of_not_ended h (hcontrol text rfl)
    cases b <;> exact hopen
  | _ => cases b <;> simp_all [Block.refuse]

theorem block_after_unsent {l : Link α} {cmd : Command α} {o : Outcome} (h : o.course = .unsent) :
    (l.after cmd o).block = l.block := by
  simp [Link.after, Link.Carries, Link.Sends, h]

/-- A text of the user that leaves the connection usable and does not spoil it does not end a block. -/
theorem block_after_user_ne {l : Link α} {q : Query α} {o : Outcome} (h : l.block ≠ .none)
    (husable : (l.after (.user q) o).Usable) (hspoils : ¬Spoils l (.user q) o) :
    (l.after (.user q) o).block ≠ .none := by
  have hl := usable_of_after husable
  cases hcourse : o.course with
  | unsent =>
    rw [block_after_unsent hcourse]
    exact h
  | broken carried =>
    have hbusy := husable.1
    cases carried <;> simp [Link.after, Link.Sends, hl, hcourse] at hbusy
  | answered =>
    have hcommit : q ≠ .commit := by
      rintro rfl
      exact hspoils ⟨hl, .inl hcourse⟩
    have hrollback : q ≠ .rollback := by
      rintro rfl
      exact hspoils ⟨hl, hcourse⟩
    have hcontrol : ∀ text, q = .control text → (text.carried l.block).ended = false := by
      rintro text rfl
      by_contra hended
      exact hspoils ⟨hl, .inl ⟨hcourse, by simpa using hended⟩⟩
    simp only [Link.after]
    split
    · exact perform_ne_none h hcommit hrollback hcontrol
    · rename_i hcarries
      split
      · refine refuse_ne_none h hcommit ?_
        -- every block admits a text with transaction control
        rintro text rfl
        exact absurd ⟨⟨hl, by simp [hcourse]⟩, by cases l.block <;> rfl, .inl hcourse⟩ hcarries
      · exact h
  | refused =>
    have hcommit : q ≠ .commit := by
      rintro rfl
      exact hspoils ⟨hl, .inr hcourse⟩
    have hcontrol : ∀ text, q = .control text → (text.refused l.block).ended = false := by
      rintro text rfl
      by_contra hended
      exact hspoils ⟨hl, .inr ⟨hcourse, by simpa using hended⟩⟩
    simp only [Link.after, Link.Carries, hcourse]
    split
    · rename_i hcarries
      simp at hcarries
    · split
      · exact refuse_ne_none h hcommit hcontrol
      · exact h

/-- The result of a command that returns is good. -/
theorem first_of_good {res : Results} (h : res.good = true) : res.first ≠ .BAD := by
  intro hbad
  simp [Results.good, Results.all, hbad] at h

theorem answers_answerOf (returns : Prop) [Decidable returns] :
    Answers returns (answerOf returns) := by
  unfold answerOf
  split
  · exact ⟨‹_›, rfl⟩
  · exact ⟨‹_›, rfl⟩

theorem exec_spec {v : View α} {l : Link α} {cmd : Command α} (hl : v.connection_ = some l)
    (hin : mode = .OFF → (∃ s, cmd = .user s) →
      InBlock v ∧ (quiet → v.trace.spoiled = false)) :
    Meets (semantics mode quiet) (fun v' => v' = v) (exec cmd)
      (fun res v' => res.first ≠ .BAD ∧ ∃ o, l.Returns cmd o ∧ v' = v.sent l cmd o)
      fun _ v' => ∃ o, ¬l.Returns cmd o ∧ v' = v.sent l cmd o := by
  refine .bind (Q := fun (answer : Except Exception Results) v' =>
    ∃ o, Answers (l.Returns cmd o) answer ∧ v' = v.sent l cmd o) (.ask ?_ ?_) fun answer => ?_
  · rintro v' rfl
    exact ⟨by simp [hl], hin⟩
  · rintro v' answer v'' rfl ⟨l', o, hl', hanswer, hv''⟩
    obtain rfl : l = l' := Option.some.inj (hl.symm.trans hl')
    exact ⟨o, hanswer, hv''⟩
  · cases answer with
    | ok res => exact .return fun v' ⟨o, ⟨hreturns, hgood⟩, hv'⟩ => ⟨first_of_good hgood, o, hreturns, hv'⟩
    | error e => exact .raise fun v' ⟨o, ⟨hthrows, _⟩, hv'⟩ => ⟨o, hthrows, hv'⟩

theorem isNull_spec {P : View α → Prop} {E : Exception → View α → Prop} :
    Meets (semantics mode quiet) P isNull (fun null v => null = v.connection_.isNone ∧ P v) E :=
  .ask (fun _ _ => trivial) fun _ _ _ hP h => ⟨h.2 ▸ h.1, h.2 ▸ hP⟩

theorem returnConnection_spec {v : View α} {l : Link α} (hl : v.connection_ = some l)
    (hblock : l.block = .none) {E : Exception → View α → Prop} :
    Meets (semantics mode quiet) (fun v' => v' = v) returnConnection
      (fun _ v' => v' = { v with connection_ := none }) E :=
  .ask (fun _ h => h ▸ ⟨l, hl, hblock⟩) fun _ _ _ h hv => h ▸ hv

theorem deleteConnection_spec {v : View α} {l : Link α} (hl : v.connection_ = some l)
    {E : Exception → View α → Prop} :
    Meets (semantics mode quiet) (fun v' => v' = v) deleteConnection
      (fun _ v' => v' = { v with connection_ := none }) E :=
  .ask (fun _ h => h ▸ by simp [semantics, Ready, hl]) fun _ _ _ h hv => h ▸ hv

/-! ## Getting a connection -/

/-- There is no connection in hand or on its way. -/
def Empty (v : View α) : Prop := v.connection_ = none ∧ v.pending = none

theorem asyncGetConnection_spec :
    Meets (semantics mode quiet) (Empty (α := α)) asyncGetConnection
      (fun _ v => v.pending = none ∧ v.trace.spoiled = false ∧
        ∃ l, v.connection_ = some l ∧ l.block = .none)
      fun _ => Empty := by
  have hassign : Meets (semantics mode quiet)
      (fun v : View α => v.connection_ = none ∧ ∃ l, v.pending = some l ∧ l.block = .none)
      (ask Op.assign : Code α Unit) (fun _ v => v.pending = none ∧ v.trace.spoiled = false ∧
        ∃ l, v.connection_ = some l ∧ l.block = .none) fun _ => Empty := by
    refine .ask (fun v ⟨hnone, l, hl, _⟩ => ⟨hnone, by simp [hl]⟩) ?_
    rintro v a v' ⟨hnone, l, hl, hblock⟩ rfl
    exact ⟨rfl, rfl, l, hl, hblock⟩
  refine .bind (Q := fun (found : Bool) v => v.connection_ = none ∧
    if found then ∃ l, v.pending = some l ∧ l.block = .none else v.pending = none)
    (.ask (fun _ h => h) ?_) fun found => .ite (fun hmiss => ?_) fun hfound => ?_
  · rintro v found v' ⟨hnone, hpending⟩ hact
    cases found with
    | true =>
      obtain ⟨busy, rfl⟩ := hact
      exact ⟨hnone, .pooled busy, rfl, rfl⟩
    | false =>
      obtain rfl := hact
      exact ⟨hnone, hpending⟩
  · -- a new connection
    refine .bind (Q := fun _ v => v.connection_ = none ∧ ∃ l, v.pending = some l)
      (.ask (fun v hv => ?_) ?_) fun _ => .bind (Q := fun (connected : Bool) v =>
        v.connection_ = none ∧ if connected then ∃ l, v.pending = some l ∧ l.block = .none
          else v.pending = none) (.ask (fun v ⟨_, l, hl⟩ => by simp [semantics, Ready, hl]) ?_)
            fun connected => .ite (fun hfail => ?_) fun hconnected => ?_
    · simpa [semantics, Ready, show found = false by simpa using hmiss] using hv
    · rintro v _ v' hv rfl
      exact ⟨hv.1, _, rfl⟩
    · rintro v connected v' hv rfl
      cases connected with
      | true => exact ⟨hv.1, _, rfl, rfl⟩
      | false => exact ⟨hv.1, rfl⟩
    · exact .bind (Q := fun _ _ => False)
        (.raise fun v hv => ⟨hv.1, by simpa [show connected = false by simpa using hfail] using hv.2⟩)
          fun _ => .start fun _ h => h.elim
    · exact hassign.pre fun v hv =>
        ⟨hv.1, by simpa [show connected = true by simpa using hconnected] using hv.2⟩
  · exact hassign.pre fun v hv =>
      ⟨hv.1, by simpa [show found = true by simpa using hfound] using hv.2⟩

/-! ## In a block -/

/-- A command that throws and leaves a usable connection was refused or not sent. -/
theorem course_of_throws {l : Link α} {cmd : Command α} {o : Outcome}
    (hthrows : ¬l.Returns cmd o) (husable : (l.after cmd o).Usable)
    (hadmits : l.block.admits cmd.query = true) : o.course = .refused ∨ o.course = .unsent := by
  have hl := usable_of_after husable
  cases hcourse : o.course with
  | answered => exact absurd ⟨⟨⟨hl, by simp [hcourse]⟩, hadmits, .inl hcourse⟩, hcourse⟩ hthrows
  | refused => exact .inl rfl
  | unsent => exact .inr rfl
  | broken carried =>
    have hbusy := husable.1
    cases carried <;> simp [Link.after, Link.Sends, hl, hcourse] at hbusy

/-- A text of the user leaves the object inside its block. -/
theorem inBlock_user {v : View α} (h : InBlock v) {l : Link α} (hl : v.connection_ = some l)
    (q : Query α) (o : Outcome) : InBlock (v.sent l (.user q) o) := by
  rintro hspoiled l' hl' husable
  obtain rfl := Option.some.inj hl'
  simp only [View.sent, Trace.after, Bool.or_eq_false_iff, decide_eq_false_iff_not] at hspoiled
  exact block_after_user_ne (h hspoiled.1 l hl (usable_of_after husable)) husable hspoiled.2

/-- So does a `ROLLBACK` that throws. -/
theorem inBlock_rollback {v : View α} (h : InBlock v) {l : Link α} (hl : v.connection_ = some l)
    {o : Outcome} (hthrows : ¬l.Returns .rollback o) : InBlock (v.sent l .rollback o) := by
  rintro hspoiled l' hl' husable
  obtain rfl := Option.some.inj hl'
  have hquiet : v.trace.spoiled = false := by
    simp only [View.sent, Trace.after, Bool.or_eq_false_iff] at hspoiled
    exact hspoiled.1
  have hblock := h hquiet l hl (usable_of_after husable)
  rcases course_of_throws hthrows husable (by cases l.block <;> rfl) with hcourse | hcourse
  · simp only [Link.after, Link.Carries, hcourse]
    split
    · rename_i hcarries
      simp at hcarries
    · split
      · exact refuse_ne_none hblock (by simp [Command.query]) nofun
      · exact hblock
  · rw [block_after_unsent hcourse]
    exact hblock

/-- So does a `COMMIT` that throws and does not spoil the connection. -/
theorem inBlock_commit {v : View α} (h : InBlock v) {l : Link α} (hl : v.connection_ = some l)
    {o : Outcome} (hthrows : ¬l.Returns .commit o) : InBlock (v.sent l .commit o) := by
  rintro hspoiled l' hl' husable
  obtain rfl := Option.some.inj hl'
  have hl := usable_of_after husable
  simp only [View.sent, Trace.after, Bool.or_eq_false_iff, decide_eq_false_iff_not] at hspoiled
  rcases course_of_throws hthrows husable (by cases l.block <;> rfl) with hcourse | hcourse
  · exact absurd ⟨hl, hcourse⟩ hspoiled.2
  · rw [block_after_unsent hcourse]
    exact h hspoiled.1 l ‹_› hl

/-- A connection without a block on which `START TRANSACTION` throws is spoiled or unusable. -/
theorem inBlock_start {v : View α} {l : Link α} (hblock : l.block = .none) {o : Outcome}
    (hthrows : ¬l.Returns .start o) : InBlock (v.sent l .start o) := by
  rintro hspoiled l' hl' husable
  obtain rfl := Option.some.inj hl'
  have hl := usable_of_after husable
  simp only [View.sent, Trace.after, Bool.or_eq_false_iff, decide_eq_false_iff_not] at hspoiled
  exact absurd ⟨hl, course_of_throws hthrows husable (by rw [hblock]; rfl)⟩ hspoiled.2

/-- `async_begin` on a connection without a block. -/
theorem asyncBegin_spec {v : View α} {l : Link α} (hl : v.connection_ = some l)
    (hblock : l.block = .none) (hpending : v.pending = none) (hspoiled : v.trace.spoiled = false) :
    Meets (semantics .OFF quiet) (fun v' => v' = v) asyncBegin
      (fun _ v' => v'.pending = none ∧ v'.trace.spoiled = false ∧
        ∃ l', v'.connection_ = some l' ∧ l'.block = .opened [])
      fun _ v' => v'.pending = none ∧ InBlock v' := by
  refine .bind isNull_spec fun null => .ite (fun hnull => ?_) fun _ => ?_
  · refine .start fun v' ⟨hv', hv⟩ => ?_
    rw [hnull, hv, hl] at hv'
    cases hv'
  · refine .bind (Q := fun res v' => res.first ≠ .BAD ∧ ∃ o, l.Returns .start o ∧
      v' = v.sent l .start o) ?_ fun res => .ite (fun hbad => ?_) fun _ => .return ?_
    · refine (exec_spec hl fun _ ⟨s, hs⟩ => nomatch hs).weaken (fun _ h => h.2) (fun _ _ h => h) ?_
      rintro e v' ⟨o, hthrows, rfl⟩
      exact ⟨hpending, inBlock_start hblock hthrows⟩
    · exact .raise fun v' ⟨hgood, _⟩ => absurd hbad hgood
    · rintro v' ⟨-, o, hreturns, rfl⟩
      refine ⟨hpending, ?_, l.after .start o, rfl, ?_⟩
      · simp [View.sent, Trace.after, Spoils, hspoiled, hreturns.2]
      · rw [(after_of_returns hreturns).1, hblock]
        rfl

/-- The block of the connection holds the acknowledged statements, as far as `clean` says so, the
connection is not spoiled and nothing was undone in the block. -/
def Tracks (clean : Prop) (acked : List α) (v : View α) : Prop :=
  clean → (v.connection_ = none → acked = []) ∧
    ∀ l, v.connection_ = some l → v.trace.spoiled = false → v.trace.undone = false →
      l.block = .opened acked

theorem Empty.inBlock {v : View α} (h : Empty v) : InBlock v := by
  intro _ l hl
  rw [h.1] at hl
  cases hl

theorem Empty.atRest {v : View α} (h : Empty v) : AtRest mode v := by
  refine ⟨h.2, ?_⟩
  cases mode with
  | ON =>
    intro l hl
    rw [h.1] at hl
    cases hl
  | OFF => exact h.inBlock

theorem link_of_null_false {v : View α} {null : Bool} (h : (!null) = true)
    (hv : null = v.connection_.isNone) : ∃ l, v.connection_ = some l := by
  rw [hv, Bool.not_eq_true', Option.isNone_eq_false_iff] at h
  exact Option.isSome_iff_exists.mp h

theorem none_of_null {v : View α} {null : Bool} (h : ¬(!null) = true)
    (hv : null = v.connection_.isNone) : v.connection_ = none := by
  rw [hv, Bool.not_eq_true', Bool.not_eq_false] at h
  exact Option.isNone_iff_eq_none.mp h

/-- What `async_commit` and `async_rollback` do with their connection. -/
def closeWith (cmd : Command α) (text : String) : Code α Unit := do
  let res ← exec cmd
  if res.first = .BAD then throw (.transaction text)
  returnConnection

theorem closeWith_spec {v : View α} {l : Link α} {cmd : Command α} {text : String}
    (hl : v.connection_ = some l) (hpending : v.pending = none) (hcmd : ¬∃ s, cmd = .user s)
    (hperform : l.block.perform cmd.query = .none)
    (hthrows : ∀ o, ¬l.Returns cmd o → InBlock (v.sent l cmd o)) :
    Meets (semantics .OFF quiet) (fun v' => v' = v) (closeWith cmd text)
      (fun _ v' => Empty v' ∧ v'.trace.made = v.trace.made ++ l.block.durable cmd.query)
      fun _ => AtRest .OFF := by
  refine .bind (Q := fun res v' => res.first ≠ .BAD ∧ ∃ o, l.Returns cmd o ∧
    v' = v.sent l cmd o) ?_ fun res => .ite (fun hbad => ?_) fun _ => .start ?_
  · refine (exec_spec hl fun _ h => absurd h hcmd).weaken (fun _ h => h) (fun _ _ h => h) ?_
    rintro e v' ⟨o, ho, rfl⟩
    exact ⟨hpending, hthrows o ho⟩
  · exact .bind (Q := fun _ _ => False) (.raise fun v' ⟨hgood, _⟩ => absurd hbad hgood)
      fun _ => .start fun _ h => h.elim
  · rintro v' ⟨-, o, hreturns, rfl⟩
    obtain ⟨hblock, hdurable⟩ := after_of_returns hreturns
    refine (returnConnection_spec (l := l.after cmd o) rfl (hblock.trans hperform)).weaken
      (fun _ h => h) (fun _ v' hv' => ?_) fun _ _ h => h
    rw [hv', ← hdurable]
    exact ⟨⟨rfl, hpending⟩, rfl⟩

/-- `async_commit` in the explicit mode. -/
theorem asyncCommit_spec (clean : Prop) (acked made : List α) :
    Meets (semantics .OFF quiet) (fun v => AtRest .OFF v ∧ v.trace.made = made ∧
        Tracks clean acked v ∧ (clean → ¬v.Spoiled ∧ ¬v.Undone)) (asyncCommit .OFF)
      (fun _ v => Empty v ∧ (clean → v.trace.made = made ++ acked))
      fun _ => AtRest .OFF := by
  refine .bind isNull_spec fun null => .ite (fun hnull => .start ?_) fun hnull => .return ?_
  · rintro v ⟨hv, hrest, hmade, htracks, hwhole⟩
    obtain ⟨l, hl⟩ := link_of_null_false hnull.1 hv
    refine (closeWith_spec hl hrest.1 (by simp) (by cases l.block <;> rfl)
      fun o ho => inBlock_commit hrest.2 hl ho).weaken (fun _ h => h) ?_ fun _ _ h => h
    rintro _ v' ⟨hempty, hmade'⟩
    refine ⟨hempty, fun hclean => ?_⟩
    obtain ⟨hunspoiled, hkept⟩ := hwhole hclean
    have hspoiled : v.trace.spoiled = false := by simpa [View.Spoiled, hl] using hunspoiled
    have hundone : v.trace.undone = false := by simpa [View.Undone, hl] using hkept
    rw [hmade', hmade, (htracks hclean).2 l hl hspoiled hundone]
    rfl
  · rintro v ⟨hv, hrest, hmade, htracks, -⟩
    have hnone := none_of_null (fun h => hnull ⟨h, rfl⟩) hv
    exact ⟨⟨hnone, hrest.1⟩, fun hclean => by rw [hmade, (htracks hclean).1 hnone, List.append_nil]⟩

/-- `async_rollback` in the explicit mode. -/
theorem asyncRollback_spec :
    Meets (semantics .OFF quiet) (AtRest .OFF) (asyncRollback (α := α) .OFF) (fun _ => Empty)
      fun _ => AtRest .OFF := by
  refine .bind isNull_spec fun null => .ite (fun hnull => .start ?_) fun hnull => .return ?_
  · rintro v ⟨hv, hrest⟩
    obtain ⟨l, hl⟩ := link_of_null_false hnull.1 hv
    exact (closeWith_spec hl hrest.1 (by simp) (by cases l.block <;> rfl)
      fun o ho => inBlock_rollback hrest.2 hl ho).weaken (fun _ h => h) (fun _ _ h => h.1)
        fun _ _ h => h
  · rintro v ⟨hv, hrest⟩
    exact ⟨none_of_null (fun h => hnull ⟨h, rfl⟩) hv, hrest.1⟩

/-! ## A statement -/

/-- The texts that may be executed in a mode: in the implicit mode only those without transaction
control leave the connection without a block. -/
def Allowed (mode : ImplicitAutocommit) (query : Query α) : Prop :=
  mode = .ON → ∃ q, query = .data q

/-- A text leaves the object at rest, whatever comes of it. -/
theorem atRest_user {v : View α} (h : AtRest mode v) {l : Link α} (hl : v.connection_ = some l)
    {query : Query α} (hquery : Allowed mode query) (o : Outcome) :
    AtRest mode (v.sent l (.user query) o) := by
  refine ⟨h.1, ?_⟩
  cases mode with
  | ON =>
    intro l' hl'
    obtain rfl := Option.some.inj hl'
    obtain ⟨q, rfl⟩ := hquery rfl
    exact block_after_data (h.2 l hl)
  | OFF => exact inBlock_user h.2 hl query o

/-- At rest with a connection in hand. -/
def Holding (mode : ImplicitAutocommit) (v : View α) : Prop :=
  AtRest mode v ∧ ∃ l, v.connection_ = some l

theorem isBad_spec {E : Exception → View α → Prop} :
    Meets (semantics mode quiet) (Holding (α := α) mode) isBad (fun _ => Holding mode) E := by
  refine .ask (fun v ⟨_, l, hl⟩ => ?_) fun v bad v' ⟨hrest, _⟩ ⟨l, hl, hbad, hv'⟩ => ?_
  · show v.connection_.isSome = true
    rw [hl]
    rfl
  · rw [hv']
    refine ⟨⟨hrest.1, ?_⟩, _, rfl⟩
    cases mode with
    | ON =>
      intro l' hl'
      obtain rfl := Option.some.inj hl'
      exact hrest.2 l hl
    | OFF =>
      rintro hspoiled l' hl' ⟨hbusy, hgood⟩
      obtain rfl := Option.some.inj hl'
      refine hrest.2 hspoiled l hl ⟨hbusy, ?_⟩
      cases hb : l.bad with
      | false => rfl
      | true => exact (hbad hb).symm.trans hgood

theorem delete_spec {E : Exception → View α → Prop} :
    Meets (semantics mode quiet) (Holding (α := α) mode) deleteConnection (fun _ => Empty) E :=
  .start fun _ ⟨hrest, _, hl⟩ => (deleteConnection_spec hl).weaken (fun _ h => h)
    (fun _ _ h => h ▸ ⟨rfl, hrest.1⟩) fun _ _ h => h

/-- The handler of `async_exec`, after a statement that threw. -/
theorem handler_spec (e : Exception) :
    Meets (semantics mode quiet) (Holding mode)
      (do
        if ← isBad then deleteConnection
        else if mode = .OFF then asyncRollback mode
        throw e : Code α Results) (fun _ _ => False) fun _ => AtRest mode := by
  refine .bind isBad_spec fun bad => .ite (fun _ => ?_) fun _ => .ite (fun hmode => ?_) fun _ => ?_
  · exact .bind delete_spec fun _ => .raise fun _ h => h.atRest
  · subst hmode
    exact .bind (asyncRollback_spec.pre fun _ h => h.1) fun _ => .raise fun _ h => h.atRest
  · exact .raise fun _ h => h.1

/-- The statement of `async_exec` on a connection in hand. -/
theorem statement_spec {v : View α} {l : Link α} {query : Query α} (hquery : Allowed mode query)
    (hl : v.connection_ = some l) (hrest : AtRest mode v) (hquiet : mode = .OFF → quiet → v.trace.spoiled = false) :
    Meets (semantics mode quiet) (fun v' => v' = v)
      (tryCatch (exec (.user query)) fun e => do
        if ← isBad then deleteConnection
        else if mode = .OFF then asyncRollback mode
        throw e)
      (fun _ v' => ∃ o, l.Returns (.user query) o ∧ v' = v.sent l (.user query) o)
      fun _ => AtRest mode := by
  have hin : mode = .OFF → (∃ s, Command.user query = .user s) →
      InBlock v ∧ (quiet → v.trace.spoiled = false) := by
    rintro rfl -
    exact ⟨hrest.2, hquiet rfl⟩
  refine .tryCatch (E := fun _ => Holding mode)
    ((exec_spec hl hin).weaken (fun _ h => h) (fun _ _ h => h.2) ?_)
      fun e => (handler_spec e).weaken (fun _ h => h) (fun _ _ h => h.elim) fun _ _ h => h
  rintro e v' ⟨o, -, rfl⟩
  exact ⟨atRest_user hrest hl hquery o, _, rfl⟩

/-- A text that returns on a block of the object, and neither ends it nor undoes anything in it, adds
its statement. -/
theorem perform_opened {l : Link α} {acked : List α} {query : Query α} {o : Outcome}
    (hblock : l.block = .opened acked) (hreturns : l.Returns (.user query) o)
    (hspoils : ¬Spoils l (.user query) o) (hundoes : ¬Undoes l (.user query) o) :
    l.block.perform query = .opened (acked ++ query.data?.toList) := by
  have husable : l.Usable := hreturns.1.1.1
  have hanswered : o.course = .answered := hreturns.2
  cases query with
  | data statement =>
    rw [hblock]
    rfl
  | start => simp [hblock, Block.perform, Query.data?]
  | commit => exact absurd ⟨husable, .inl hanswered⟩ hspoils
  | rollback => exact absurd ⟨husable, hanswered⟩ hspoils
  | control text =>
    have hended : (text.carried l.block).ended = false := by
      by_contra hended
      exact hspoils ⟨husable, .inl ⟨hanswered, by simpa using hended⟩⟩
    have hundone : (text.carried l.block).undone = false := by
      by_contra hundone
      exact hundoes ⟨husable, hanswered, by simpa using hundone⟩
    have hopen : l.block ≠ .none := by simp [hblock]
    have hsame := (text.carried l.block).eq_of_not_undone hopen hended hundone
    simp only [Block.perform, hsame, Query.data?, Option.toList_none, List.append_nil]
    exact hblock

/-- `async_exec` in the explicit mode. -/
theorem asyncExec_spec (clean : Prop) (acked : List α) (query : Query α) :
    Meets (semantics .OFF quiet)
      (fun v => AtRest .OFF v ∧ (quiet → ¬v.Spoiled) ∧ Tracks clean acked v)
      (asyncExec .OFF query)
      (fun _ v => Holding .OFF v ∧ Tracks clean (acked ++ query.data?.toList) v)
      fun _ => AtRest .OFF := by
  have hallowed : Allowed .OFF query := fun h => nomatch h
  have hstatement : ∀ (v : View α) l, v.connection_ = some l → AtRest .OFF v →
      (quiet → v.trace.spoiled = false) →
      (clean → v.trace.spoiled = false → v.trace.undone = false → l.block = .opened acked) →
      Meets (semantics .OFF quiet) (fun v' => v' = v)
        (tryCatch (exec (.user query)) fun e => do
          if ← isBad then deleteConnection
          else if ImplicitAutocommit.OFF = .OFF then asyncRollback .OFF
          throw e)
        (fun _ v' => Holding .OFF v' ∧ Tracks clean (acked ++ query.data?.toList) v')
        fun _ => AtRest .OFF := by
    intro v l hl hrest hquiet hblock
    refine (statement_spec hallowed hl hrest fun _ => hquiet).weaken (fun _ h => h) ?_ fun _ _ h => h
    rintro res v' ⟨o, hreturns, rfl⟩
    refine ⟨⟨atRest_user hrest hl hallowed o, _, rfl⟩, fun hclean => ⟨fun h => (nomatch h), ?_⟩⟩
    intro l' hl' hspoiled hundone
    obtain rfl := Option.some.inj hl'
    simp only [View.sent, Trace.after, Bool.or_eq_false_iff, decide_eq_false_iff_not]
      at hspoiled hundone
    rw [(after_of_returns hreturns).1]
    exact perform_opened (hblock hclean hspoiled.1 hundone.1) hreturns hspoiled.2 hundone.2
  refine .bind isNull_spec fun null => .ite (fun hnull => .start ?_) fun hnull => .start ?_
  · rintro v ⟨hv, hrest, -, htracks⟩
    have hempty : Empty v := ⟨Option.isNone_iff_eq_none.mp (hv.symm.trans hnull), hrest.1⟩
    refine .bind (asyncGetConnection_spec.weaken (fun v' hv' => hv' ▸ hempty) (fun _ _ h => h)
      fun _ _ h => h.atRest) fun _ => .ite (fun _ => .start ?_) fun h => absurd rfl h
    rintro v₁ ⟨hpending, hspoiled, l, hl, hblock⟩
    refine .bind ((asyncBegin_spec hl hblock hpending hspoiled).weaken (fun _ h => h)
      (fun _ _ h => h) fun _ _ h => h) fun _ => .start ?_
    rintro v₂ ⟨hpending₂, hspoiled₂, l₂, hl₂, hblock₂⟩
    refine hstatement v₂ l₂ hl₂ ⟨hpending₂, fun _ l' hl' _ => ?_⟩ (fun _ => hspoiled₂)
      fun hclean _ _ => ?_
    · obtain rfl : l₂ = l' := Option.some.inj (hl₂.symm.trans hl')
      simp [hblock₂]
    · rw [hblock₂, (htracks hclean).1 hempty.1]
  · rintro v ⟨hv, hrest, hquiet, htracks⟩
    obtain ⟨l, hl⟩ := link_of_null_false (by simpa using hnull) hv
    refine hstatement v l hl hrest (fun hq => ?_) fun hclean => (htracks hclean).2 l hl
    have h := hquiet hq
    simpa [View.Spoiled, hl] using h

/-! ## The implicit mode and the destructor -/

/-- `async_exec` in the implicit mode. -/
theorem asyncExec_implicit_spec {query : Query α} (hquery : Allowed .ON query) :
    Meets (semantics .ON quiet) (AtRest .ON) (asyncExec .ON query) (fun _ => AtRest .ON)
      fun _ => AtRest .ON := by
  have hstatement : ∀ (v : View α) l, v.connection_ = some l → AtRest .ON v →
      Meets (semantics .ON quiet) (fun v' => v' = v)
        (tryCatch (exec (.user query)) fun e => do
          if ← isBad then deleteConnection
          else if ImplicitAutocommit.ON = .OFF then asyncRollback .ON
          throw e)
        (fun _ => AtRest .ON) fun _ => AtRest .ON := by
    intro v l hl hrest
    refine (statement_spec hquery hl hrest fun h => nomatch h).weaken (fun _ h => h) ?_
      fun _ _ h => h
    rintro res v' ⟨o, -, rfl⟩
    exact atRest_user hrest hl hquery o
  refine .bind isNull_spec fun null => .ite (fun hnull => .start ?_) fun hnull => .start ?_
  · rintro v ⟨hv, hrest⟩
    have hempty : Empty v := ⟨Option.isNone_iff_eq_none.mp (hv.symm.trans hnull), hrest.1⟩
    refine .bind (asyncGetConnection_spec.weaken (fun v' hv' => hv' ▸ hempty) (fun _ _ h => h)
      fun _ _ h => h.atRest) fun _ => .ite (fun h => nomatch h) fun _ => .start ?_
    rintro v₁ ⟨hpending, -, l, hl, hblock⟩
    refine hstatement v₁ l hl ⟨hpending, fun l' hl' => ?_⟩
    obtain rfl : l = l' := Option.some.inj (hl.symm.trans hl')
    exact hblock
  · rintro v ⟨hv, hrest⟩
    obtain ⟨l, hl⟩ := link_of_null_false (by simpa using hnull) hv
    exact hstatement v l hl hrest

/-- `~Transaction`. -/
theorem destruct_spec :
    Meets (semantics mode quiet) (AtRest (α := α) mode) (destruct mode) (fun _ => Empty)
      fun _ => AtRest mode := by
  refine .bind isNull_spec fun null => .ite (fun hnull => .start ?_) fun hnull => .return ?_
  · rintro v ⟨hv, hrest⟩
    obtain ⟨l, hl⟩ := link_of_null_false hnull hv
    cases mode with
    | ON =>
      exact (returnConnection_spec hl (hrest.2 l hl)).weaken (fun _ h => h)
        (fun _ v' h => h ▸ ⟨rfl, hrest.1⟩) fun _ _ h => h
    | OFF =>
      exact (deleteConnection_spec hl).weaken (fun _ h => h)
        (fun _ v' h => h ▸ ⟨rfl, hrest.1⟩) fun _ _ h => h
  · rintro v ⟨hv, hrest⟩
    exact ⟨none_of_null hnull hv, hrest.1⟩

/-- In the implicit mode `async_commit` and `async_rollback` do nothing. -/
theorem close_implicit_spec {cmd : Command α} {text : String} :
    Meets (semantics .ON quiet) (AtRest .ON)
      (do
        if !(← isNull) ∧ ImplicitAutocommit.ON = .OFF then closeWith cmd text)
      (fun _ => AtRest .ON) fun _ => AtRest .ON :=
  .bind isNull_spec fun _ => .ite (fun h => nomatch h.2) fun _ => .return fun _ h => h.2

/-- A call with an allowed text, if any. -/
def Call.Allowed (mode : ImplicitAutocommit) : Call α → Prop
  | .exec query => Transaction.Allowed mode query
  | _ => True

/-- **Every call** with an allowed text starts and ends at rest. -/
theorem code_spec (c : Call α) (hallowed : c.Allowed mode) :
    Meets (semantics mode quiet)
      (fun v => AtRest mode v ∧ ((∃ q, c = .exec q) → quiet → ¬v.Spoiled))
      (c.code mode) (fun _ => AtRest mode) fun _ => AtRest mode := by
  cases mode with
  | ON =>
    cases c with
    | exec query =>
      exact .bind ((asyncExec_implicit_spec hallowed).pre fun _ h => h.1)
        fun _ => .return fun _ h => h
    | commit => exact close_implicit_spec.pre fun _ h => h.1
    | rollback => exact close_implicit_spec.pre fun _ h => h.1
  | OFF =>
    cases c with
    | exec query =>
      exact .bind ((asyncExec_spec False [] query).weaken
        (fun _ h => ⟨h.1, h.2 ⟨query, rfl⟩, fun hf => hf.elim⟩) (fun _ _ h => h.1.1) fun _ _ h => h)
          fun _ => .return fun _ h => h
    | commit =>
      refine .start fun v hv => (asyncCommit_spec False [] v.trace.made).weaken ?_
        (fun _ _ h => h.1.atRest) fun _ _ h => h
      rintro v' rfl
      exact ⟨hv.1, rfl, fun hf => hf.elim, fun hf => hf.elim⟩
    | rollback =>
      exact asyncRollback_spec.weaken (fun _ h => h.1) (fun _ _ h => h.atRest) fun _ _ h => h

end Transaction

end Sqldb

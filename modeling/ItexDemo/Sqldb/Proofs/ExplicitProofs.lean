import ItexDemo.Sqldb.Proofs.TransactionProofs

/-!
# Transactions in the explicit mode

The two guarantees over all runs of one object. While a function runs, the invariant is that the rest
of it is safe; the triples of the functions give that when a call begins.
-/

namespace Sqldb

namespace Transaction

open Script

variable {α : Type}

/-! ## An environment that decides -/

theorem act_of_respond {c : Choice} {op : Op α} {v v' : View α} {a : Ans op}
    (h : respond c op v = some (a, v')) : Act op v a v' := by
  cases op with
  | isNull =>
    obtain ⟨rfl, rfl⟩ := Prod.mk.inj (Option.some.inj h)
    exact ⟨rfl, rfl⟩
  | popPool =>
    obtain ⟨rfl, rfl⟩ := Prod.mk.inj (Option.some.inj h)
    cases hfound : c.found with
    | true => exact ⟨c.busy, rfl⟩
    | false => rfl
  | newConnection => exact (Prod.mk.inj (Option.some.inj h)).2.symm
  | connect =>
    obtain ⟨rfl, rfl⟩ := Prod.mk.inj (Option.some.inj h)
    rfl
  | assign => exact (Prod.mk.inj (Option.some.inj h)).2.symm
  | exec cmd =>
    obtain ⟨l, hl, heq⟩ := Option.map_eq_some_iff.mp h
    obtain ⟨rfl, rfl⟩ := Prod.mk.inj heq
    exact ⟨l, c.outcome, hl, answers_answerOf _, rfl⟩
  | isBad =>
    obtain ⟨l, hl, heq⟩ := Option.map_eq_some_iff.mp h
    obtain ⟨rfl, rfl⟩ := Prod.mk.inj heq
    exact ⟨l, hl, fun hbad => by rw [hbad]; rfl, rfl⟩
  | deleteConnection => exact (Prod.mk.inj (Option.some.inj h)).2.symm
  | returnConnection => exact (Prod.mk.inj (Option.some.inj h)).2.symm

/-- The label of a move. -/
def Move.label : Move α → Label α
  | .call c => .call c
  | .answer _ => .answer
  | .finish => .finish

theorem step_of_move {s s' : Object α} {m : Move α} (h : move s m = some s') :
    Step s m.label s' := by
  cases m with
  | call c =>
    simp only [move, Option.isNone_iff_eq_none, Option.ite_none_right_eq_some,
      Option.some.injEq] at h
    exact ⟨h.1, h.2.symm⟩
  | answer choice =>
    simp only [move] at h
    split at h
    · rename_i c op k hrunning
      obtain ⟨⟨a, v⟩, hr, rfl⟩ := Option.map_eq_some_iff.mp h
      exact ⟨c, op, k, a, v, hrunning, act_of_respond hr, rfl⟩
    · cases h
  | finish =>
    simp only [move] at h
    split at h
    · rename_i c r hrunning
      exact ⟨c, r, hrunning, (Option.some.inj h).symm⟩
    · cases h

/-- The environment of a step in which the pool has a connection and a command takes this course. -/
def Choice.of (course : Course) : Choice where
  found := true
  busy := false
  connected := true
  outcome := { course := course, bad := false }
  bad := false

/-- The moves of a call with one course for each of its operations. -/
def Call.moves (c : Call α) (courses : List Course) : List (Move α) :=
  .call c :: courses.map (fun course => .answer (.of course)) ++ [.finish]

/-- Moves lead to reachable objects. -/
theorem reachable_of_moves {ok : Object α → Label α → Prop} {s s' : Object α} (ms : List (Move α))
    (hs : Transition.Reachable (runs.restrict ok) s)
    (hok : Transition.RunMeets move (fun s m => ok s m.label) s ms)
    (h : Transition.run move s ms = some s') : Transition.Reachable (runs.restrict ok) s' := by
  induction ms generalizing s with
  | nil => exact Option.some.inj h ▸ hs
  | cons m ms ih =>
    obtain ⟨t, ht, hrun⟩ := Option.bind_eq_some_iff.mp h
    obtain ⟨hm, hrest⟩ := hok
    rw [ht] at hrest
    exact ih (hs.step ⟨step_of_move ht, hm⟩) hrest hrun

/-- The same without a side condition. -/
theorem reachable_of_any_moves {s : Object α} (ms : List (Move α))
    (h : Transition.run move .new ms = some s) : Transition.Reachable runs s := by
  have hany : Transition.Reachable (runs.restrict fun _ _ => True) s :=
    reachable_of_moves ms (.init rfl) (.of_forall (fun _ _ => trivial) _ ms) h
  exact hany.of_restrict

/-! ## Statements inside a block -/

/-- No statement was sent outside of a block, and the rest of a running function is safe. -/
structure Inside (s : Object α) : Prop where
  outside : s.view.trace.outside = []
  rest : s.running = none → AtRest .OFF s.view
  safe : ∀ c p, s.running = some (c, p) →
    Safe (semantics .OFF True) (Ends (fun _ => AtRest .OFF) fun _ => AtRest .OFF) p s.view

theorem inside_call {s : Object α} (h : Inside s) {c : Call α} (hidle : s.running = none)
    (hok : ExecsUnspoiled s (.call c)) : Inside (s.call c) := by
  refine ⟨h.outside, fun hrunning => (nomatch hrunning), fun c' p hp => ?_⟩
  obtain ⟨rfl, rfl⟩ := Prod.mk.inj (Option.some.inj hp)
  have hallowed : c.Allowed .OFF := by
    cases c with
    | exec query => exact fun hmode => nomatch hmode
    | commit => trivial
    | rollback => trivial
  refine code_spec c hallowed _ ⟨h.rest hidle, ?_⟩
  rintro ⟨q, rfl⟩ -
  exact hok

/-- A command that may be sent in the explicit mode is not sent outside of a block. -/
theorem sentOutside_of_ready {v : View α} {l : Link α} {cmd : Command α} {o : Outcome}
    (hready : Ready .OFF True (.exec cmd) v) (hl : v.connection_ = some l) :
    sentOutside l cmd o = [] := by
  unfold sentOutside
  split
  · rename_i q hblock
    obtain ⟨hin, hspoiled⟩ := hready.2 rfl ⟨q, rfl⟩
    rw [if_neg]
    intro hsends
    exact hin (hspoiled trivial) l hl hsends.1 hblock
  · rfl

theorem outside_act {op : Op α} {v v' : View α} {a : Ans op} (hready : Ready .OFF True op v)
    (hact : Act op v a v') (h : v.trace.outside = []) : v'.trace.outside = [] := by
  cases op with
  | isNull => exact hact.2 ▸ h
  | popPool =>
    cases a with
    | true =>
      obtain ⟨busy, rfl⟩ := hact
      exact h
    | false => exact hact ▸ h
  | newConnection => exact hact ▸ h
  | connect => exact hact ▸ h
  | assign => exact hact ▸ h
  | exec cmd =>
    obtain ⟨l, o, hl, -, rfl⟩ := hact
    show v.trace.outside ++ sentOutside l cmd o = []
    rw [h, sentOutside_of_ready hready hl]
    rfl
  | isBad =>
    obtain ⟨l, -, -, rfl⟩ := hact
    exact h
  | deleteConnection => exact hact ▸ h
  | returnConnection => exact hact ▸ h

theorem inside_step {s s' : Object α} (h : Inside s) {a : Label α} (hstep : Step s a s')
    (hok : ExecsUnspoiled s a) : Inside s' := by
  cases a with
  | call c =>
    obtain ⟨hidle, rfl⟩ := hstep
    exact inside_call h hidle hok
  | answer =>
    obtain ⟨c, op, k, a, v, hrunning, hact, rfl⟩ := hstep
    have hsafe := h.safe c _ hrunning
    refine ⟨outside_act hsafe.1 hact h.outside, fun hnone => (nomatch hnone), fun c' p hp => ?_⟩
    obtain ⟨rfl, rfl⟩ := Prod.mk.inj (Option.some.inj hp)
    exact hsafe.answer hact
  | finish =>
    obtain ⟨c, r, hrunning, rfl⟩ := hstep
    have hrest : AtRest .OFF s.view := by
      have hsafe := h.safe c _ hrunning
      cases r <;> exact hsafe
    cases c <;> cases r <;>
      exact ⟨h.outside, fun _ => hrest, fun _ _ hsome => nomatch hsome⟩

/-- **Statements run inside a block.** In every run in which `async_exec` is not called on a spoiled
connection, no statement of the user is sent outside of a block. -/
theorem no_statement_outside {s : Object α}
    (h : Transition.Reachable (runs.restrict ExecsUnspoiled) s) : s.view.trace.outside = [] := by
  have hinside : Inside s := by
    refine h.invariant (fun s hs => ?_) fun s a s' hin htr => ?_
    · rw [show s = .new from hs]
      exact ⟨rfl, fun _ => Empty.atRest ⟨rfl, rfl⟩, fun _ _ hsome => nomatch hsome⟩
    · exact inside_step hin htr.1 htr.2
  exact hinside.outside

theorem no_statement_outside_one_call :
    ∃ s : Object ℕ, s.acked = [1] ∧ s.view.trace.outside = [] := by
  have hrun : (Transition.run move .new ((Call.exec (.data 1)).moves (.replicate 6 .answered))).map
      Object.acked = some [1] := by decide +kernel
  obtain ⟨s, hs, hacked⟩ := Option.map_eq_some_iff.mp hrun
  refine ⟨s, hacked, no_statement_outside (reachable_of_moves _ (.init rfl) ?_ hs)⟩
  decide +kernel

/-- The server refuses `START TRANSACTION` and the connection stays `CONNECTED`: the next statement is
sent outside of a block. -/
theorem statement_outside_after_refused_start :
    ¬∀ s : Object ℕ, Transition.Reachable runs s → s.view.trace.outside = [] := by
  intro h
  have hrun : (Transition.run move .new
      ((Call.exec (.data 1)).moves [.answered, .answered, .answered, .answered, .refused] ++
        (Call.exec (.data 2)).moves [.answered, .answered])).map
      (fun s => s.view.trace.outside.map Query.data?) = some [some 2] := by decide +kernel
  obtain ⟨s, hs, houtside⟩ := Option.map_eq_some_iff.mp hrun
  rw [h s (reachable_of_any_moves _ hs)] at houtside
  cases houtside

/-! ## What a commit makes durable -/

/-- Nothing that was acknowledged is given up, as far as the object knows. -/
def Whole (s : Object α) : Prop := s.lost = false ∧ s.kept = false

/-- What the rest of a running function will do. -/
def WillEnd (s : Object α) : Call α → Running α → Prop
  | .exec query, p => Safe (semantics .OFF False)
      (Ends (fun _ v => Holding .OFF v ∧ Tracks (Whole s) (s.acked ++ query.data?.toList) v)
        fun _ => AtRest .OFF) p s.view
  | .commit, p => Safe (semantics .OFF False)
      (Ends (fun _ v => Empty v ∧ v.trace.made = s.acked) fun _ => AtRest .OFF) p s.view
  | .rollback, p => Safe (semantics .OFF False) (Ends (fun _ => Empty) fun _ => AtRest .OFF) p s.view

/-- The commits so far were whole, and the block in hand holds what was acknowledged. -/
structure Faithful (s : Object α) : Prop where
  commits : ∀ c ∈ s.commits, c.1 = c.2
  rest : s.running = none → AtRest .OFF s.view
  tracks : s.running = none → Tracks (Whole s) s.acked s.view
  kept : s.running = none → s.view.connection_ = none → s.kept = false
  running : ∀ c p, s.running = some (c, p) → WillEnd s c p

theorem faithful_call {s : Object α} (h : Faithful s) {c : Call α} (hidle : s.running = none)
    (hok : CommitsWhole s (.call c)) : Faithful (s.call c) := by
  refine ⟨h.commits, fun hnone => (nomatch hnone), fun hnone => (nomatch hnone),
    fun hnone => (nomatch hnone), fun c' p hp => ?_⟩
  obtain ⟨rfl, rfl⟩ := Prod.mk.inj (Option.some.inj hp)
  cases c with
  | exec query =>
    refine (Meets.bind (asyncExec_spec (Whole s) s.acked query) fun _ => .return fun _ hv => hv) _ ?_
    exact ⟨h.rest hidle, fun hf => hf.elim, h.tracks hidle⟩
  | commit =>
    obtain ⟨hlost, hkept, hwhole⟩ := hok
    refine Safe.mono (asyncCommit_spec (Whole s) s.acked [] (s.call .commit).view
      ⟨h.rest hidle, rfl, h.tracks hidle, fun _ => hwhole⟩) fun r v hv => ?_
    cases r with
    | ok _ => exact ⟨hv.1, hv.2 ⟨hlost, hkept⟩⟩
    | error e => exact hv
  | rollback => exact asyncRollback_spec _ (h.rest hidle)

theorem whole_of_empty {s : Object α} {acked : List α} {v : View α} (hempty : Empty v)
    (h : acked = []) : Tracks (Whole s) acked v :=
  fun _ => ⟨fun _ => h, fun l hl => by rw [hempty.1] at hl; cases hl⟩

/-- The object after a call that threw. -/
theorem faithful_throw {s : Object α} (hcommits : ∀ c ∈ s.commits, c.1 = c.2)
    (hidle : s.running = none) (hrest : AtRest .OFF s.view)
    (hkept : s.kept = s.view.connection_.isSome) (hlost : s.lost = false → s.acked = []) :
    Faithful s := by
  refine ⟨hcommits, fun _ => hrest, fun _ hwhole => ?_, fun _ hnone => ?_, fun c p hp => ?_⟩
  · have hnone : s.view.connection_ = none := by simpa [hkept] using hwhole.2
    exact ⟨fun _ => hlost hwhole.1, fun l hl => by rw [hnone] at hl; cases hl⟩
  · rw [hkept, hnone]
    rfl
  · rw [hidle] at hp
    cases hp

/-- The object after the caller ended a transaction. -/
theorem faithful_empty {s : Object α} (hcommits : ∀ c ∈ s.commits, c.1 = c.2)
    (hidle : s.running = none) (hempty : Empty s.view) (hkept : s.kept = false)
    (hacked : s.acked = []) : Faithful s := by
  refine ⟨hcommits, fun _ => hempty.atRest, fun _ => whole_of_empty hempty hacked, fun _ _ => hkept,
    fun c p hp => ?_⟩
  rw [hidle] at hp
  cases hp

theorem faithful_finish {s : Object α} (h : Faithful s) {c : Call α} {r : Except Exception Unit}
    (hrunning : s.running = some (c, .ret r)) : Faithful (s.finish c r) := by
  have hend := h.running c _ hrunning
  cases r with
  | ok _ =>
    cases c with
    | exec query =>
      obtain ⟨⟨hrest, l, hl⟩, htracks⟩ := hend
      refine ⟨h.commits, fun _ => hrest, fun _ hwhole => ?_, fun _ hnone => ?_, fun _ _ h => nomatch h⟩
      · refine htracks ⟨hwhole.1, ?_⟩
        simpa [Object.finish, hl] using hwhole.2
      · rw [show s.view.connection_ = none from hnone] at hl
        cases hl
    | commit =>
      obtain ⟨hempty, hmade⟩ := hend
      refine faithful_empty (fun c hc => ?_) rfl hempty (by simp [Object.finish, hempty.1]) rfl
      rcases List.mem_append.mp hc with hc | hc
      · exact h.commits c hc
      · rw [List.mem_singleton.mp hc]
        exact hmade
    | rollback =>
      have hempty : Empty s.view := hend
      exact faithful_empty h.commits rfl hempty (by simp [Object.finish, hempty.1]) rfl
  | error e =>
    cases c with
    | exec query =>
      refine faithful_throw h.commits rfl hend rfl fun hlost => ?_
      simp only [Object.finish, Bool.or_eq_false_iff, Bool.not_eq_false', List.isEmpty_iff] at hlost
      exact hlost.2
    | commit => exact faithful_throw h.commits rfl hend rfl fun _ => rfl
    | rollback => exact faithful_throw h.commits rfl hend rfl fun _ => rfl

theorem faithful_step {s s' : Object α} (h : Faithful s) {a : Label α} (hstep : Step s a s')
    (hok : CommitsWhole s a) : Faithful s' := by
  cases a with
  | call c =>
    obtain ⟨hidle, rfl⟩ := hstep
    exact faithful_call h hidle hok
  | answer =>
    obtain ⟨c, op, k, a, v, hrunning, hact, rfl⟩ := hstep
    have hend := h.running c _ hrunning
    refine ⟨h.commits, fun hnone => (nomatch hnone), fun hnone => (nomatch hnone),
      fun hnone => (nomatch hnone), fun c' p hp => ?_⟩
    obtain ⟨rfl, rfl⟩ := Prod.mk.inj (Option.some.inj hp)
    cases c <;> exact Safe.answer hend hact
  | finish =>
    obtain ⟨c, r, hrunning, rfl⟩ := hstep
    exact faithful_finish h hrunning

end Transaction

end Sqldb

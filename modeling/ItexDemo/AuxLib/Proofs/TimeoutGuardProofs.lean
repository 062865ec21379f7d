import ItexDemo.Http.Timeouts
import ItexDemo.Sqldb.Timeouts

/-!
# Timeouts stay with their operations

For both kinds of connections: while an operation can still fail with a timeout, the flag has been
set by nothing but its own timer. An aborted call changes nothing, wherever it is run.
-/

open TimeoutGuard

theorem TimeoutGuard.Timer.take_eq_some {t t' : Timer} {i : Nat} {c : Completion}
    (h : t.take i = some (c, t')) : t.queued[i]? = some c := by
  obtain ⟨c', hc, heq⟩ := Option.map_eq_some_iff.mp h
  rw [hc, (Prod.mk.inj heq).1]

namespace Http.Timeouts

/-- The flag of a request that is not checked yet was set by its own timer. -/
structure Inv (s : State) : Prop where
  flag : s.timeout_occurred_ = true → s.expiredBy ≠ []
  own : s.phase = .reading ∨ s.phase = .handling → ∀ m ∈ s.expiredBy, m = s.request
  misled : s.misled = []

theorem inv_new : Inv .new := by
  refine ⟨fun h => (nomatch h), fun h => ?_, rfl⟩
  rcases h with h | h <;> cases h

/-- A step that leaves the flag alone. -/
theorem Inv.frame {s s' : State} (h : Inv s) (hflag : s'.timeout_occurred_ = s.timeout_occurred_)
    (hexpired : s'.expiredBy = s.expiredBy) (hrequest : s'.request = s.request)
    (hphase : s'.phase = .reading ∨ s'.phase = .handling → s.phase = .reading ∨ s.phase = .handling)
    (hmisled : s'.misled = s.misled) : Inv s' where
  flag := by
    rw [hflag, hexpired]
    exact h.flag
  own := by
    rw [hexpired, hrequest]
    exact fun hs => h.own (hphase hs)
  misled := hmisled.trans h.misled

/-- A request that fails with a timeout has its own timer to blame. -/
theorem own_mem_of_flag {s : State} (h : Inv s) (hphase : s.phase = .handling)
    (hflag : s.timeout_occurred_ = true) : s.request ∈ s.expiredBy := by
  obtain ⟨m, hm⟩ := List.exists_mem_of_ne_nil _ (h.flag hflag)
  have hown : m = s.request := h.own (.inr hphase) m hm
  rw [← hown]
  exact hm

theorem inv_processed {s : State} (h : Inv s) (hphase : s.phase = .handling) :
    Inv ({ s with phase := .answered } : State).checkTimeoutOccurred := by
  unfold State.checkTimeoutOccurred
  split
  · rename_i hflag
    have hmem : s.request ∈ s.expiredBy := own_mem_of_flag h hphase hflag
    refine ⟨h.flag, fun hs => ?_, ?_⟩
    · rcases hs with hs | hs <;> cases hs
    · rw [if_pos hmem]
      exact h.misled
  · refine h.frame rfl rfl rfl (fun hs => ?_) rfl
    rcases hs with hs | hs <;> cases hs

theorem inv_deliver {s : State} (h : Inv s) {c : Completion} (t : Timer)
    (hown : c.aborted = false → (s.phase = .reading ∨ s.phase = .handling) → c.operation = s.request) :
    Inv { s.timeoutHandler c with timer_ := t } := by
  unfold State.timeoutHandler
  cases haborted : c.aborted with
  | true => exact h.frame rfl rfl rfl id rfl
  | false =>
    refine ⟨fun _ => by simp, fun hs m hm => ?_, h.misled⟩
    rcases List.mem_append.mp hm with hm | hm
    · exact h.own hs m hm
    · rw [List.mem_singleton.mp hm]
      exact hown haborted hs

theorem inv_step {s s' : State} {a : Act} (h : Inv s) (hstep : next s a = some s')
    (hok : Timely s a) : Inv s' := by
  cases a with
  | reset =>
    obtain ⟨-, heq⟩ := Option.ite_none_right_eq_some.mp hstep
    obtain rfl := Option.some.inj heq
    exact ⟨fun hflag => (nomatch hflag), fun _ m hm => (nomatch hm), h.misled⟩
  | received =>
    obtain ⟨hphase, heq⟩ := Option.ite_none_right_eq_some.mp hstep
    obtain rfl := Option.some.inj heq
    exact h.frame rfl rfl rfl (fun _ => .inl hphase) rfl
  | processed returned =>
    obtain ⟨hphase, heq⟩ := Option.ite_none_right_eq_some.mp hstep
    obtain rfl := Option.some.inj heq
    cases returned with
    | true => exact inv_processed h hphase
    | false => exact h.frame rfl rfl rfl (fun _ => .inr hphase) rfl
  | disarm =>
    obtain ⟨-, heq⟩ := Option.ite_none_right_eq_some.mp hstep
    obtain rfl := Option.some.inj heq
    exact h.frame rfl rfl rfl (fun hs => by rcases hs with hs | hs <;> cases hs) rfl
  | written =>
    obtain ⟨-, heq⟩ := Option.ite_none_right_eq_some.mp hstep
    obtain rfl := Option.some.inj heq
    exact h.frame rfl rfl rfl (fun hs => by rcases hs with hs | hs <;> cases hs) rfl
  | leave =>
    obtain ⟨-, heq⟩ := Option.ite_none_right_eq_some.mp hstep
    obtain rfl := Option.some.inj heq
    exact h.frame rfl rfl rfl (fun hs => by rcases hs with hs | hs <;> cases hs) rfl
  | reinit =>
    obtain ⟨-, heq⟩ := Option.ite_none_right_eq_some.mp hstep
    obtain rfl := Option.some.inj heq
    exact ⟨fun hflag => (nomatch hflag), fun _ m hm => (nomatch hm), h.misled⟩
  | stop =>
    obtain rfl := Option.some.inj hstep
    exact h.frame rfl rfl rfl id rfl
  | expire =>
    obtain rfl := Option.some.inj hstep
    exact h.frame rfl rfl rfl id rfl
  | deliver i =>
    obtain ⟨⟨c, t⟩, htake, rfl⟩ := Option.map_eq_some_iff.mp hstep
    exact inv_deliver h t (hok c (Timer.take_eq_some htake))

/-- No request fails because of the timer of another one. -/
theorem misled_eq_nil {s : State} (h : Transition.Reachable (runs.restrict Timely) s) :
    s.misled = [] := by
  have hinv : Inv s := by
    refine h.invariant (fun s hs => ?_) fun s a s' hin htr => ?_
    · rw [show s = .new from hs]
      exact inv_new
    · exact inv_step hin htr.1 htr.2
  exact hinv.misled

end Http.Timeouts

namespace Sqldb.Timeouts

/-- The flag of an operation that runs was set by its own timer. -/
structure Inv (s : State) : Prop where
  flag : s.timeout_occurred_ = true ↔ s.expiredBy ≠ []
  own : 0 < s.guards → ∀ m ∈ s.expiredBy, m = s.operation
  misled : s.misled = []
  cut : s.cut = []

theorem inv_new : Inv .new :=
  ⟨by simp [State.new], fun h => (nomatch h), rfl, rfl⟩

/-- A step that leaves the flag alone. -/
theorem Inv.frame {s s' : State} (h : Inv s) (hflag : s'.timeout_occurred_ = s.timeout_occurred_)
    (hexpired : s'.expiredBy = s.expiredBy) (hoperation : s'.operation = s.operation)
    (hguards : 0 < s'.guards → 0 < s.guards) (hmisled : s'.misled = s.misled)
    (hcut : s'.cut = s.cut) : Inv s' where
  flag := by
    rw [hflag, hexpired]
    exact h.flag
  own := by
    rw [hexpired, hoperation]
    exact fun hs => h.own (hguards hs)
  misled := hmisled.trans h.misled
  cut := hcut.trans h.cut

/-- An operation begins on a connection on which no timer has set the flag. -/
theorem inv_begin {s : State} (h : Inv s) (hflag : s.timeout_occurred_ = false) (t : Timer) :
    Inv { s with
      guards := 1
      operation := s.operation + 1
      timer_ := t
      cut := s.cut ++ s.expiredBy.map fun m => (m, s.operation + 1) } := by
  have hexpired : s.expiredBy = [] := by
    by_cases hne : s.expiredBy = []
    · exact hne
    · rw [h.flag.mpr hne] at hflag
      cases hflag
  refine ⟨h.flag, fun _ m hm => ?_, h.misled, ?_⟩
  · rw [hexpired] at hm
    cases hm
  · rw [h.cut, hexpired]
    rfl

theorem checkTimeoutOccurred_eq {s : State} (h : Inv s) (hguards : 0 < s.guards) :
    s.checkTimeoutOccurred = s := by
  unfold State.checkTimeoutOccurred
  rw [if_neg]
  rintro ⟨hflag, hnot⟩
  obtain ⟨m, hm⟩ := List.exists_mem_of_ne_nil _ (h.flag.mp hflag)
  have hown : m = s.operation := h.own hguards m hm
  rw [hown] at hm
  exact hnot hm

theorem inv_deliver {s : State} (h : Inv s) {c : Completion} (t : Timer)
    (hown : c.aborted = false → 0 < s.guards → c.operation = s.operation) :
    Inv { s.timeoutHandler c with timer_ := t } := by
  unfold State.timeoutHandler
  cases haborted : c.aborted with
  | true => exact h.frame rfl rfl rfl id rfl rfl
  | false =>
    refine ⟨by simp, fun hs m hm => ?_, h.misled, ?_⟩
    · rcases List.mem_append.mp hm with hm | hm
      · exact h.own hs m hm
      · rw [List.mem_singleton.mp hm]
        exact hown haborted hs
    · show (if 0 < s.guards ∧ c.operation ≠ s.operation then _ else s.cut) = []
      rw [if_neg fun hs => hs.2 (hown haborted hs.1)]
      exact h.cut

theorem inv_step {s s' : State} {a : Act} (h : Inv s) (hstep : next s a = some s')
    (hok : Timely s a) : Inv s' := by
  cases a with
  | begin =>
    obtain ⟨-, heq⟩ := Option.ite_none_right_eq_some.mp hstep
    obtain rfl := Option.some.inj heq
    exact inv_begin h hok _
  | nest =>
    obtain ⟨hguards, heq⟩ := Option.ite_none_right_eq_some.mp hstep
    obtain rfl := Option.some.inj heq
    exact h.frame rfl rfl rfl (fun _ => by omega) rfl rfl
  | assign =>
    obtain ⟨-, heq⟩ := Option.ite_none_right_eq_some.mp hstep
    obtain rfl := Option.some.inj heq
    exact h.frame rfl rfl rfl id rfl rfl
  | check =>
    obtain ⟨hguards, heq⟩ := Option.ite_none_right_eq_some.mp hstep
    obtain rfl := Option.some.inj heq
    rw [checkTimeoutOccurred_eq h hguards]
    exact h
  | unwind =>
    obtain ⟨hguards, heq⟩ := Option.ite_none_right_eq_some.mp hstep
    obtain rfl := Option.some.inj heq
    exact h.frame rfl rfl rfl (fun _ => hguards) rfl rfl
  | expire =>
    obtain rfl := Option.some.inj hstep
    exact h.frame rfl rfl rfl id rfl rfl
  | deliver i =>
    obtain ⟨⟨c, t⟩, htake, rfl⟩ := Option.map_eq_some_iff.mp hstep
    exact inv_deliver h t (hok c (Timer.take_eq_some htake))

/-- No operation fails because of the timer of another one, nor loses its socket by it. -/
theorem misled_cut_eq_nil {s : State} (h : Transition.Reachable (runs.restrict Timely) s) :
    s.misled = [] ∧ s.cut = [] := by
  have hinv : Inv s := by
    refine h.invariant (fun s hs => ?_) fun s a s' hin htr => ?_
    · rw [show s = .new from hs]
      exact inv_new
    · exact inv_step hin htr.1 htr.2
  exact ⟨hinv.misled, hinv.cut⟩

end Sqldb.Timeouts

namespace TimeoutGuard

/-- **Timeouts are isolated** on both kinds of connections, in every run in which no expired call of
a handler is run too late. -/
theorem timeouts_isolated {s : Http.Timeouts.State} {t : Sqldb.Timeouts.State}
    (hs : Transition.Reachable (Http.Timeouts.runs.restrict Http.Timeouts.Timely) s)
    (ht : Transition.Reachable (Sqldb.Timeouts.runs.restrict Sqldb.Timeouts.Timely) t) :
    s.misled = [] ∧ t.misled = [] ∧ t.cut = [] :=
  ⟨Http.Timeouts.misled_eq_nil hs, Sqldb.Timeouts.misled_cut_eq_nil ht⟩

theorem timeouts_isolated_of_own_timeouts :
    ∃ (s : Http.Timeouts.State) (t : Sqldb.Timeouts.State), s.response = some .timeout ∧
      t.expiredBy = [1] ∧ s.misled = [] ∧ t.misled = [] ∧ t.cut = [] := by
  have hhttp : (Transition.run Http.Timeouts.next .new
      [.reset, .received, .expire, .deliver 0, .processed true]).map (fun s => s.response) =
        some (some .timeout) := by decide
  have hsqldb : (Transition.run Sqldb.Timeouts.next .new
      [.begin, .assign, .expire, .deliver 0, .check, .unwind]).map (fun s => s.expiredBy) =
        some [1] := by decide
  obtain ⟨s, hs, hresponse⟩ := Option.map_eq_some_iff.mp hhttp
  obtain ⟨t, ht, hexpired⟩ := Option.map_eq_some_iff.mp hsqldb
  refine ⟨s, t, hresponse, hexpired, timeouts_isolated
    (Transition.reachable_restrict_run _ (.init rfl) ?_ hs)
    (Transition.reachable_restrict_run _ (.init rfl) ?_ ht)⟩
  · refine ⟨trivial, trivial, trivial, fun c hc _ _ => ?_, trivial, trivial⟩
    cases hc
    rfl
  · refine ⟨rfl, trivial, trivial, fun c hc _ _ => ?_, trivial, trivial, trivial⟩
    cases hc
    rfl

/-- The time of the first operation is over after its last check and before its guard is destroyed.
Its handler is run during the next operation: the response to the next request is replaced, and the
next command fails on a socket that has been closed. -/
theorem late_completion_hits_next_operation :
    (¬∀ s, Transition.Reachable Http.Timeouts.runs s → s.misled = []) ∧
    ¬∀ s, Transition.Reachable Sqldb.Timeouts.runs s → s.misled = [] ∧ s.cut = [] := by
  constructor
  · intro h
    have hrun : (Transition.run Http.Timeouts.next .new
        [.reset, .received, .processed true, .expire, .disarm, .written, .reset, .received,
          .deliver 0, .processed true]).map (fun s => s.misled) = some [2] := by decide
    obtain ⟨s, hs, hmisled⟩ := Option.map_eq_some_iff.mp hrun
    rw [h s (Transition.reachable_of_run _ hs)] at hmisled
    cases hmisled
  · intro h
    have hrun : (Transition.run Sqldb.Timeouts.next .new
        [.begin, .assign, .check, .unwind, .begin, .check, .expire, .unwind, .begin, .deliver 1,
          .check]).map (fun s => (s.misled, s.cut)) = some ([3], [(2, 3)]) := by decide
    obtain ⟨s, hs, heq⟩ := Option.map_eq_some_iff.mp hrun
    have hmisled := (h s (Transition.reachable_of_run _ hs)).1
    rw [(Prod.mk.inj heq).1] at hmisled
    cases hmisled

end TimeoutGuard

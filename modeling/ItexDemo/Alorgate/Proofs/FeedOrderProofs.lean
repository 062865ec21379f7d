import ItexDemo.Alorgate.Proofs.FeedProofs

/-!
# Frames in their order

A gate that waits for every response has one call at a time: `Waits` says which ones have been answered.
-/

namespace Alorgate.Feed

open DemoManager Quant Securities Transition

variable {C D : Type*}

/-! ## Waiting for every response -/

section Waits

/-- The calls whose handler came to the end of `add_orderbook`, in the order of the responses. -/
def State.added (s : State C D) : List Nat :=
  (s.answers.filter fun answer => answer.2 = .added).map Prod.fst

/-- Every call before the present one has been answered, and the books are those of the calls. -/
structure Waits (s : State C D) : Prop where
  answered : s.answers.map Prod.fst = List.range s.answers.length
  calls : s.calls.length = s.answers.length + if s.calling.isSome then 1 else 0
  calling : ∀ n, s.calling = some n → n = s.answers.length
  carried : ∀ c n, s.carries c = some n → s.calling = some n
  settled : ∀ n, n < s.answers.length → n ∈ s.arrived
  order : s.pushed = s.added ++ if s.answers.length ∈ s.pushed then [s.answers.length] else []

variable {s s' : State C D} {c : C} {n : Nat}

theorem waits_init (setup : Service.Setup D) : Waits (State.init setup : State C D) where
  answered := rfl
  calls := rfl
  calling := nofun
  carried := nofun
  settled := nofun
  order := rfl

variable [MulOneClass D] [HasDistribNeg D] [IntCast D] [Zero D] [LinearOrder D] [DecidableEq C]
  {StartsWith : List Char → List Char → Bool} {SerializeObject : Data D → Http.Str}
  {parse : Http.Str → Option (List D × List D)} {sorter : StdSort (D × D)} {ReadBack : D → Prop}
  {ofId : UInt64 → D} {setup : Service.Setup D}

/-- The gate is called by the slot only while it does not wait. -/
theorem Waits.slot (h : Waits s) {event : SlotEvent D}
    (hstep : step StartsWith SerializeObject parse sorter ofId setup s (.slot event) = some s') :
    Waits s' := by
  simp only [step] at hstep
  split at hstep
  · cases hstep
  · next hidle =>
    have hnone : s.calling = none := by simpa using hidle
    have hcalls := h.calls
    rw [hnone] at hcalls
    obtain ⟨⟨gate, outcome⟩, -, rfl⟩ := Option.map_eq_some_iff.mp hstep
    dsimp only
    split
    · next resource body =>
      exact {
        answered := h.answered
        calls := by
          simp only [List.length_append, hcalls]
          rfl
        calling := by
          intro n hn
          rw [← Option.some.inj hn]
          exact hcalls
        carried := by
          intro c n hc
          have hcalling := h.carried c n hc
          rw [hnone] at hcalling
          cases hcalling
        settled := h.settled
        order := h.order }
    · exact { h with }

theorem Waits.deliver (h : Waits s) {port : Nat}
    (hstep : step StartsWith SerializeObject parse sorter ofId setup s (.deliver c n port) = some s') :
    Waits s' := by
  simp only [step] at hstep
  split at hstep
  · cases hstep
  · next hnew =>
    obtain ⟨call, hcall, hstep⟩ := Option.bind_eq_some_iff.mp hstep
    obtain ⟨m, hm, rfl⟩ := Option.map_eq_some_iff.mp hstep
    -- the call that has not arrived is the one that the gate waits for
    have hcalling : s.calling = some n := by
      have hlt := (List.getElem?_eq_some_iff.mp hcall).1
      have hge : ¬n < s.answers.length := fun hn => hnew (h.settled n hn)
      have hcalls := h.calls
      cases hwait : s.calling with
      | none =>
        rw [hwait, Option.isSome_none, if_neg Bool.false_ne_true] at hcalls
        omega
      | some k =>
        rw [hwait, Option.isSome_some, if_pos rfl] at hcalls
        have hk := h.calling k hwait
        have hkn : k = n := by omega
        rw [hkn]
    exact {
      answered := h.answered
      calls := h.calls
      calling := h.calling
      carried := by
        intro d k hd
        by_cases hdc : d = c
        · subst hdc
          simp only [Function.update_self] at hd
          cases hd
          exact hcalling
        · simp only [Function.update_of_ne hdc] at hd
          exact h.carried d k hd
      settled := fun k hk => List.mem_append_left _ (h.settled k hk)
      order := h.order }

omit [DecidableEq C] in
/-- The response says whether the book has been pushed. -/
theorem added_iff_of_sends {conn : Service.Conn D} {response reply : Reply}
    (hold : Carrying StartsWith s n conn.phase) (hsends : Service.Sends parse conn response reply) :
    response = .added ↔ n ∈ s.pushed := by
  cases hsends with
  | notReady req => exact ⟨nofun, fun hn => absurd hn hold.1⟩
  | failed publisher req timestamp e hroute => exact ⟨nofun, fun hn => absurd hn hold.1⟩
  | answer handler reply timedOut => exact hold

theorem Waits.manager (hw : Waits s) (h : Linked StartsWith SerializeObject ReadBack s) {persist : Bool}
    {build : QueueEntry D → Option (OrderbookEntry D)} {a : Service.Act C D} {m : Service.State C D}
    (heff : Service.Effect persist build parse a s.manager c m) : Waits (s.observe c m) := by
  cases hc : s.carries c with
  | none =>
    rw [observe_of_none hc]
    exact { hw with }
  | some n =>
    have hcalling := hw.carried c n hc
    obtain rfl := hw.calling n hcalling
    have hold := h.carrying c _ hc
    have horder := hw.order
    rcases heff.traffic with ⟨hpushes, hreplies⟩ | ⟨entry, workset_entry, hphase, hpushes, hreplies⟩ |
      ⟨response, reply, hsends, hpushes, hreplies⟩
    · rw [observe_quiet hpushes hreplies]
      exact { hw with }
    · rw [hphase] at hold
      have hnew := hold.1
      rw [if_neg hnew, List.append_nil] at horder
      rw [observe_push hc hpushes hreplies]
      refine { hw with order := ?_ }
      show s.pushed ++ [s.answers.length] = s.added ++ _
      rw [if_pos (List.mem_append_right _ (List.mem_singleton_self _)), horder]
    · rw [observe_answer hc hpushes hreplies, if_pos hcalling]
      have hiff := added_iff_of_sends hold hsends
      have hcalls := hw.calls
      rw [hcalling, Option.isSome_some, if_pos rfl] at hcalls
      have hlast : s.answers.length + 1 ∉ s.pushed := by
        intro hmem
        have hlt := h.arrived _ (h.pushed _ hmem)
        omega
      have hlength (r : Reply) : (s.answers ++ [(s.answers.length, r)]).length = s.answers.length + 1 := by
        rw [List.length_append, List.length_singleton]
      constructor
      · rw [List.map_append, hw.answered, hlength, List.range_succ]
        rfl
      · rw [hlength]
        exact hcalls
      · nofun
      · intro d k hd
        by_cases hdc : d = c
        · simp [hdc] at hd
        · have hd : s.carries d = some k := by simpa [hdc] using hd
          have hk := hw.calling k (hw.carried d k hd)
          exact absurd (h.exclusive d c k hd (hk ▸ hc)) hdc
      · intro k hk
        rw [hlength] at hk
        rcases Nat.lt_succ_iff_lt_or_eq.mp hk with hk | rfl
        · exact hw.settled k hk
        · exact h.carried c _ hc
      · show s.pushed = ((s.answers ++ [(s.answers.length, response)]).filter _).map Prod.fst ++ _
        rw [hlength, if_neg hlast, List.append_nil, List.filter_append, List.map_append]
        rw [horder, State.added]
        congr 1
        by_cases hadded : response = .added
        · rw [if_pos (hiff.mp hadded)]
          simp [hadded]
        · rw [if_neg (fun hn => hadded (hiff.mpr hn))]
          simp [hadded]

end Waits

/-! ## Every run -/

section Runs

variable [MulOneClass D] [HasDistribNeg D] [IntCast D] [Zero D] [LinearOrder D] [DecidableEq C]
  {StartsWith : List Char → List Char → Bool} {SerializeObject : Data D → Http.Str}
  {parse : Http.Str → Option (List D × List D)} {sorter : StdSort (D × D)} {ReadBack : D → Prop}
  {ofId : UInt64 → D} {setup : Service.Setup D} {s : State C D}

/-- **In order.** When the gate waits for every response, then whenever it does not wait the calls have
been answered one after the other, which are about different frames in their order, and the entries that
the handlers have pushed show the frames of those that were answered by `add_orderbook`, each once and in
the order of the frames. -/
theorem frames_in_order
    (hjson : ∀ data, (∀ x ∈ data.prices, ReadBack x) → (∀ x ∈ data.volumes, ReadBack x) →
      parse (SerializeObject data) = some (data.prices, data.volumes))
    (h : Reachable
      ((system StartsWith SerializeObject parse sorter ofId setup).restrict fun s a =>
        Fitting ReadBack s a ∧ a ≠ .giveUp) s) (hidle : s.calling = none) :
    s.answers.map Prod.fst = List.range s.calls.length ∧
      (s.calls.map Call.time).Pairwise (· < ·) ∧
      List.Forall₂ (ShowsCall StartsWith s) s.manager.worksetPushes s.added := by
  have hI : Linked StartsWith SerializeObject ReadBack s ∧ Waits s := by
    refine h.invariant (I := fun s => Linked StartsWith SerializeObject ReadBack s ∧ Waits s) ?_ ?_
    · rintro _ rfl
      exact ⟨linked_init setup, waits_init setup⟩
    · rintro s a s' ⟨hlinked, hwaits⟩ ⟨ht, hok, hno⟩
      refine ⟨hlinked.step hjson hok ht, ?_⟩
      cases a with
      | slot event => exact hwaits.slot ht
      | deliver c n port => exact hwaits.deliver ht
      | giveUp => exact absurd rfl hno
      | manager a =>
        obtain ⟨-, m, hm, ⟨c, hc, rfl⟩ | ⟨-, rfl⟩⟩ := manager_of_step ht
        · have hstep := (Service.connectionStep_of_step hc hm).2
          exact hwaits.manager hlinked (Service.effect_of_connectionStep hc hstep)
        · exact { hwaits with }
  obtain ⟨hlinked, hwaits⟩ := hI
  have hcalls := hwaits.calls
  rw [hidle, Option.isSome_none, if_neg Bool.false_ne_true, Nat.add_zero] at hcalls
  have hnew : s.answers.length ∉ s.pushed := by
    intro hmem
    exact Nat.lt_irrefl _ (hcalls ▸ hlinked.arrived _ (hlinked.pushed _ hmem))
  have horder := hwaits.order
  rw [if_neg hnew, List.append_nil] at horder
  refine ⟨?_, hlinked.times, horder ▸ hlinked.shown⟩
  rw [hcalls]
  exact hwaits.answered

theorem frames_in_order_one_frame :
    ∃ s, run (step startsWithPlain PlainJson.serializePlain PlainJson.parsePlain (.insertion _)
        (fun _ => 0) noRows) (.init noRows) oneFrame = some s ∧
      s.answers.map Prod.fst = List.range s.calls.length ∧
        (s.calls.map Call.time).Pairwise (· < ·) ∧
        List.Forall₂ (ShowsCall startsWithPlain s) s.manager.worksetPushes s.added := by
  obtain ⟨s, hs, -, hidle⟩ := oneFrame_runs
  have hreach : Reachable ((system startsWithPlain PlainJson.serializePlain PlainJson.parsePlain
      (.insertion _) (fun _ => 0) noRows).restrict fun s a =>
        Fitting PlainJson.ReadBack s a ∧ a ≠ .giveUp) s :=
    reachable_restrict_run oneFrame (.init rfl) oneFrame_meets hs
  exact ⟨s, hs, frames_in_order (fun data _ _ => PlainJson.parsePlain_serializePlain data) hreach hidle⟩

end Runs

end Alorgate.Feed

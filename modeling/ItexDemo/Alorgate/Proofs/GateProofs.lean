import ItexDemo.Alorgate.Gate
import ItexDemo.Alorgate.Proofs.OrderbookProofs
import ItexDemo.Lib.TransitionSystem

/-!
# What the gate posts

Whatever the tables of a slot raise, `IsTradeAllowed` has the last state of trading of each security and
every order book the rows of its table, so that the end of a frame posts these rows or nothing.
-/

namespace Alorgate.Securities

open Transition

variable {D B : Type*} (StartsWith : List Char → List Char → Bool) (SerializeObject : Data D → B)

/-- The rows of table `i` since it was cleared. -/
def rowsOf (i : Nat) (events : List (SlotEvent D)) : List (DataRow D) :=
  Orderbook.rowsSinceClear (tableEvents i events)

/-- No table has more rows between two clear events than an order book has room for. -/
def AllFit (events : List (SlotEvent D)) : Prop := ∀ i, Orderbook.Fits 50 (tableEvents i events)

/-! ## One more event -/

section Concat

variable {StartsWith} {events : List (SlotEvent D)} {dr : SecurityRow} {i j : Nat}

theorem statuses_concat (events : List (SlotEvent D)) (event : SlotEvent D) :
    statuses StartsWith (events ++ [event]) =
      statuses StartsWith events ++ statuses StartsWith [event] := List.filterMap_append

theorem subscribed_concat (events : List (SlotEvent D)) (event : SlotEvent D) :
    subscribed StartsWith (events ++ [event]) =
      subscribed StartsWith events ++ subscribed StartsWith [event] := List.filterMap_append

theorem tableEvents_concat (i : Nat) (events : List (SlotEvent D)) (event : SlotEvent D) :
    tableEvents i (events ++ [event]) = tableEvents i events ++ tableEvents i [event] :=
  List.filterMap_append

/-- The rows of the other tables stay. -/
theorem rowsOf_concat_of_ne (hij : j ≠ i) (events : List (SlotEvent D)) (event : BookEvent D) :
    rowsOf i (events ++ [.orderbook j event]) = rowsOf i events := by
  have hnone : tableEvents i [SlotEvent.orderbook j event] = [] := by
    simp [tableEvents, hij]
  rw [rowsOf, tableEvents_concat, hnone, List.append_nil]
  rfl

theorem rowsOf_concat_self (i : Nat) (events : List (SlotEvent D)) (event : BookEvent D) :
    rowsOf i (events ++ [.orderbook i event]) =
      Orderbook.rowsAfter (rowsOf i events) (event.toTableEvent []) := by
  have hone : tableEvents i [SlotEvent.orderbook i event] = [event.toTableEvent []] := by
    simp [tableEvents]
  rw [rowsOf, tableEvents_concat, hone, Orderbook.rowsSinceClear_concat]
  rfl

theorem AllFit.of_append {rest : List (SlotEvent D)} (h : AllFit (events ++ rest)) :
    AllFit events := by
  intro i
  have hi := h i
  rw [tableEvents, List.filterMap_append] at hi
  exact hi.of_append

end Concat

/-- The rows do not depend on what the end of a frame comes with. -/
theorem rowsAfter_toTableEvent (rows : List (DataRow D)) (event : BookEvent D)
    (IsTradeAllowed : List (List Char × Bool)) :
    Orderbook.rowsAfter rows (event.toTableEvent IsTradeAllowed) =
      Orderbook.rowsAfter rows (event.toTableEvent []) := by
  cases event <;> rfl

theorem exists_orderbook [Zero D] (security : ActiveSecuritiesEntry) :
    ∃ orderbook : Orderbook D, Orderbook.new security 50 = some orderbook := by
  have hsize : ¬((50 : Int32) * 2).toInt < 0 := by decide
  exact ⟨_, if_neg hsize⟩

variable [MulOneClass D] [HasDistribNeg D] [Zero D] [IntCast D]

/-- A row that there is room for is stored. -/
theorem addRow_returned {security : ActiveSecuritiesEntry} {max_depth : Int32}
    {rows : List (DataRow D)} {orderbook : Orderbook D}
    (h : Orderbook.Holds security max_depth rows orderbook) (dr : DataRow D)
    (hle : (rows ++ [dr]).length ≤ Orderbook.arraySize max_depth) :
    (orderbook.AddRow (B := B) dr).2 = .returned := by
  rw [List.length_append, List.length_singleton] at hle
  have hprices_lt : (rows.map DataRow.Price).length < Orderbook.arraySize max_depth := by
    rwa [List.length_map]
  have hvolumes_lt : (rows.map (Orderbook.signedQuantity (D := D))).length <
      Orderbook.arraySize max_depth := by
    rwa [List.length_map]
  have hprices := Orderbook.store_listing hprices_lt dr.Price
  have hvolumes := Orderbook.store_listing hvolumes_lt (Orderbook.signedQuantity dr)
  rw [List.length_map] at hprices hvolumes
  unfold Orderbook.AddRow
  simp only [h.rows_eq, h.row_index_eq, Orderbook.rowsData, hprices, hvolumes, Orderbook.volume_eq]

/-! ## What the events lead to -/

/-- How the handlers of an event should end after other events. -/
def expected (before : List (SlotEvent D)) : SlotEvent D → Outcome B
  | .orderbook i .endFrame =>
    match (subscribed StartsWith before)[i]? with
    | some security =>
      if AssocMap.last (statuses StartsWith before) security.sec_code = some true then
        .posted (Orderbook.resource security) (SerializeObject
          (Orderbook.rowsData (Orderbook.arraySize 50) (rowsOf i before)))
      else .returned
    | none => .returned
  | _ => .returned

/-- What the handlers know after events. -/
structure Knows (events : List (SlotEvent D)) (securities : Securities D) : Prop where
  allowed : securities.IsTradeAllowed = AssocMap.assignAll [] (statuses StartsWith events)
  length : securities.orderbooks.length = (subscribed StartsWith events).length
  holds : ∀ i security orderbook, (subscribed StartsWith events)[i]? = some security →
    securities.orderbooks[i]? = some orderbook →
      Orderbook.Holds security 50 (rowsOf i events) orderbook
  listed : ∀ security ∈ subscribed StartsWith events,
    ∃ isOpen, (security.sec_code, isOpen) ∈ statuses StartsWith events
  /-- A table raises nothing before its order book is made. -/
  quiet : ∀ i, securities.orderbooks.length ≤ i → tableEvents i events = []

variable {StartsWith SerializeObject} {events : List (SlotEvent D)} {securities securities' : Securities D}

theorem Knows.find (h : Knows StartsWith events securities) (code : List Char) :
    AssocMap.find securities.IsTradeAllowed code =
      AssocMap.last (statuses StartsWith events) code := by
  rw [h.allowed, AssocMap.find_assignAll, AssocMap.find_nil, Option.or_none]

/-- The state of trading of an order book's security is known. -/
theorem Knows.exists_last (h : Knows StartsWith events securities) {i : Nat}
    {security : ActiveSecuritiesEntry} (hi : (subscribed StartsWith events)[i]? = some security) :
    ∃ isOpen, AssocMap.last (statuses StartsWith events) security.sec_code = some isOpen := by
  obtain ⟨isOpen, hmem⟩ := h.listed security (List.mem_of_getElem? hi)
  exact AssocMap.exists_last hmem

theorem knows_new : Knows StartsWith ([] : List (SlotEvent D)) new where
  allowed := rfl
  length := rfl
  holds := by
    intro i security orderbook hi
    cases hi
  listed := by
    intro security hmem
    cases hmem
  quiet := fun _ _ => rfl

/-! ## Steps -/

/-- An event that neither makes an order book nor comes from the table of one. -/
theorem Knows.status (h : Knows StartsWith events securities) {event : SlotEvent D}
    (hbook : subscribed StartsWith [event] = []) (htable : ∀ i, tableEvents i [event] = []) :
    Knows StartsWith (events ++ [event]) { securities with
      IsTradeAllowed :=
        AssocMap.assignAll securities.IsTradeAllowed (statuses StartsWith [event]) } where
  allowed := by
    rw [statuses_concat, AssocMap.assignAll_append, ← h.allowed]
  length := by
    rw [subscribed_concat, hbook, List.append_nil]
    exact h.length
  holds := by
    rw [subscribed_concat, hbook, List.append_nil]
    intro i security orderbook hi horderbook
    rw [rowsOf, tableEvents_concat, htable, List.append_nil]
    exact h.holds i security orderbook hi horderbook
  listed := by
    rw [subscribed_concat, hbook, List.append_nil, statuses_concat]
    intro security hmem
    obtain ⟨isOpen', hmem'⟩ := h.listed security hmem
    exact ⟨isOpen', List.mem_append_left _ hmem'⟩
  quiet := by
    intro i hi
    rw [tableEvents_concat, htable, List.append_nil]
    exact h.quiet i hi

theorem Knows.addRow (h : Knows StartsWith events securities) (dr : SecurityRow) :
    Knows StartsWith (events ++ [.addSecurity dr]) (securities.AddRow StartsWith dr) := by
  by_cases htraded : isTraded StartsWith dr = true
  · have hstatus : statuses StartsWith [SlotEvent.addSecurity (D := D) dr] =
        [(dr.SecCode, isOpen StartsWith dr)] := by
      simp [statuses, htraded]
    have hbook : subscribed StartsWith [SlotEvent.addSecurity (D := D) dr] = [entry dr] := by
      simp [subscribed, htraded]
    obtain ⟨orderbook, hnew⟩ := exists_orderbook (D := D) (entry dr)
    rw [AddRow, if_pos htraded, hnew, Option.toList_some]
    constructor
    · rw [statuses_concat, hstatus, AssocMap.assignAll, List.foldl_append]
      exact congrArg (fun m => AssocMap.assign m dr.SecCode (isOpen StartsWith dr)) h.allowed
    · rw [subscribed_concat, hbook, List.length_append, List.length_append, h.length]
      rfl
    · rw [subscribed_concat, hbook]
      intro i security orderbook' hi horderbook
      have hrows : rowsOf i (events ++ [.addSecurity dr]) = rowsOf i events := by
        rw [rowsOf, tableEvents_concat]
        exact congrArg _ (List.append_nil _)
      rw [hrows]
      by_cases hlt : i < securities.orderbooks.length
      · rw [List.getElem?_append_left (h.length ▸ hlt)] at hi
        rw [List.getElem?_append_left hlt] at horderbook
        exact h.holds i security orderbook' hi horderbook
      · have hle : securities.orderbooks.length ≤ i := Nat.le_of_not_lt hlt
        rw [List.getElem?_append_right (h.length ▸ hle), List.getElem?_singleton] at hi
        rw [List.getElem?_append_right hle, List.getElem?_singleton] at horderbook
        split at hi
        · cases hi
          split at horderbook
          · cases horderbook
            rw [rowsOf, h.quiet i hle]
            exact Orderbook.holds_new hnew
          · cases horderbook
        · cases hi
    · rw [subscribed_concat, hbook, statuses_concat, hstatus]
      intro security hmem
      rcases List.mem_append.mp hmem with hmem | hmem
      · obtain ⟨isOpen', hmem'⟩ := h.listed security hmem
        exact ⟨isOpen', List.mem_append_left _ hmem'⟩
      · obtain rfl := List.mem_singleton.mp hmem
        exact ⟨isOpen StartsWith dr, List.mem_append_right _ (List.mem_singleton_self _)⟩
    · intro i hi
      rw [List.length_append] at hi
      rw [tableEvents_concat]
      exact (List.append_nil _).trans (h.quiet i (by omega))
  · have hstatus : statuses StartsWith [SlotEvent.addSecurity (D := D) dr] = [] := by
      simp [statuses, htraded]
    have hbook : subscribed StartsWith [SlotEvent.addSecurity (D := D) dr] = [] := by
      simp [subscribed, htraded]
    have hsame := h.status hbook fun _ => rfl
    rw [hstatus] at hsame
    rw [AddRow, if_neg htraded]
    exact hsame

/-- The handlers of an order book. -/
theorem Knows.orderbook (h : Knows StartsWith events securities) {i : Nat} {event : BookEvent D}
    {orderbook : Orderbook D} (horderbook : securities.orderbooks[i]? = some orderbook)
    (hfits : AllFit (events ++ [.orderbook i event])) :
    Knows StartsWith (events ++ [.orderbook i event]) { securities with
      orderbooks := securities.orderbooks.set i (orderbook.handle SerializeObject
        (event.toTableEvent securities.IsTradeAllowed)).1 } := by
  have hlt : i < securities.orderbooks.length := (List.getElem?_eq_some_iff.mp horderbook).1
  have hbook : subscribed StartsWith (events ++ [.orderbook i event]) =
      subscribed StartsWith events := by
    rw [subscribed_concat]
    exact List.append_nil _
  have hstatus : statuses StartsWith (events ++ [.orderbook i event]) =
      statuses StartsWith events := by
    rw [statuses_concat]
    exact List.append_nil _
  constructor
  · rw [hstatus]
    exact h.allowed
  · rw [hbook, List.length_set]
    exact h.length
  · rw [hbook]
    intro j security orderbook' hj horderbook'
    by_cases hij : i = j
    · subst hij
      rw [List.getElem?_set_self hlt] at horderbook'
      cases horderbook'
      have hle := (hfits i).length_le
      change (rowsOf i (events ++ [.orderbook i event])).length ≤ _ at hle
      rw [rowsOf_concat_self, ← rowsAfter_toTableEvent _ _ securities.IsTradeAllowed] at hle
      rw [rowsOf_concat_self, ← rowsAfter_toTableEvent _ _ securities.IsTradeAllowed]
      exact (h.holds i security orderbook hj horderbook).handle SerializeObject _
        (Nat.le_trans hle (by decide))
    · rw [List.getElem?_set_ne hij] at horderbook'
      rw [rowsOf_concat_of_ne hij]
      exact h.holds j security orderbook' hj horderbook'
  · rw [hbook, hstatus]
    exact h.listed
  · intro j hj
    rw [List.length_set] at hj
    have hij : i ≠ j := by omega
    have hnone : tableEvents j [SlotEvent.orderbook i event] = [] := by
      simp [tableEvents, hij]
    rw [tableEvents_concat, hnone, List.append_nil]
    exact h.quiet j hj

/-- **Step lemma.** -/
theorem Knows.handle (h : Knows StartsWith events securities) {event : SlotEvent D}
    {outcome : Outcome B} (hfits : AllFit (events ++ [event]))
    (hstep : securities.handle StartsWith SerializeObject event = some (securities', outcome)) :
    Knows StartsWith (events ++ [event]) securities' ∧
      outcome = expected StartsWith SerializeObject events event := by
  cases event with
  | addSecurity dr =>
    cases hstep
    exact ⟨h.addRow dr, rfl⟩
  | updateSecurity dr =>
    cases hstep
    exact ⟨h.status rfl fun _ => rfl, rfl⟩
  | orderbook i event =>
    obtain ⟨orderbook, horderbook, heq⟩ := Option.map_eq_some_iff.mp hstep
    cases heq
    refine ⟨h.orderbook horderbook hfits, ?_⟩
    have hlt : i < (subscribed StartsWith events).length :=
      h.length ▸ (List.getElem?_eq_some_iff.mp horderbook).1
    have hi := List.getElem?_eq_getElem hlt
    have hholds := h.holds i _ orderbook hi horderbook
    have hroom : (rowsOf i (events ++ [.orderbook i event])).length ≤ Orderbook.arraySize 50 :=
      Nat.le_trans (hfits i).length_le (by decide)
    cases event with
    | endFrame =>
      obtain ⟨isOpen, hlast⟩ := h.exists_last hi
      have hfind := h.find (subscribed StartsWith events)[i].sec_code
      rw [hlast] at hfind
      simp only [expected, hi, hlast, BookEvent.toTableEvent, Orderbook.handle, Orderbook.EndFrame,
        hholds.security_eq, hfind, hholds.rows_eq]
      cases isOpen with
      | false => rfl
      | true => rfl
    | addRow dr =>
      rw [rowsOf_concat_self] at hroom
      exact addRow_returned hholds dr hroom
    | updateRow dr =>
      rw [rowsOf_concat_self] at hroom
      exact addRow_returned hholds dr hroom
    | clearData => rfl
    | beginFrame => rfl

/-! ## Runs -/

/-- **The gate posts the book of the table.** Whatever the tables raise, as long as no table has too many
rows, the end of a frame of an order book posts the rows that its table has, exactly when the last row of
its security has a state that allows to trade. -/
theorem outcomes_expected {outcomes : List (Outcome B)}
    (h : runOut (handle StartsWith SerializeObject) new events = some (securities, outcomes))
    (hfits : AllFit events) :
    ∀ before event rest, events = before ++ event :: rest →
      outcomes[before.length]? = some (expected StartsWith SerializeObject before event) := by
  have hrun := runOut_history (P := fun events outcomes securities => AllFit events →
    Knows StartsWith events securities ∧ outcomes.length = events.length ∧
      ∀ before event rest, events = before ++ event :: rest →
        outcomes[before.length]? = some (expected StartsWith SerializeObject before event)) ?_ ?_ h
  · exact (hrun hfits).2.2
  · intro _
    refine ⟨knows_new, rfl, ?_⟩
    intro before event rest heq
    cases List.append_eq_nil_iff.mp heq.symm |>.2
  · intro events outcomes securities event securities' outcome ih hstep hfits
    obtain ⟨hknows, hlength, houtcomes⟩ := ih hfits.of_append
    obtain ⟨hknows', houtcome⟩ := hknows.handle hfits hstep
    refine ⟨hknows', ?_, ?_⟩
    · rw [List.length_append, List.length_append, hlength]
      rfl
    · intro before event' rest heq
      rcases List.eq_nil_or_concat' rest with rfl | ⟨rest', last, rfl⟩
      · -- the new event
        obtain ⟨rfl, hevent⟩ := List.append_inj' heq rfl
        obtain rfl := List.singleton_inj.mp hevent
        rw [← hlength, List.getElem?_concat_length, houtcome]
      · rw [← List.cons_append, ← List.append_assoc] at heq
        obtain ⟨rfl, -⟩ := List.append_inj' heq rfl
        have hlt : before.length < outcomes.length := by
          rw [hlength, List.length_append, List.length_cons]
          omega
        rw [List.getElem?_append_left hlt]
        exact houtcomes before event' rest' rfl

omit [MulOneClass D] [HasDistribNeg D] [Zero D] [IntCast D] in
theorem length_rowsSinceClear_le (events : List (TableEvent D)) :
    (Orderbook.rowsSinceClear events).length ≤ events.length := by
  induction events using List.reverseRecOn with
  | nil => exact Nat.le_refl 0
  | append_singleton events event ih =>
    rw [Orderbook.rowsSinceClear_concat, List.length_append, List.length_singleton]
    cases hrow : Orderbook.rowOf event with
    | none => exact Nat.le_trans (Orderbook.length_rowsAfter_of_none hrow) (Nat.le_succ_of_le ih)
    | some dr =>
      rw [Orderbook.rowsAfter_of_row hrow, List.length_append, List.length_singleton]
      exact Nat.succ_le_succ ih

omit [MulOneClass D] [HasDistribNeg D] [Zero D] [IntCast D] in
/-- A hundred events cannot be too many rows. -/
theorem allFit_of_length_le (h : events.length ≤ 100) : AllFit events := by
  intro i before rest heq
  have hrows := length_rowsSinceClear_le before
  have htable : (tableEvents i events).length ≤ events.length := List.length_filterMap_le _ _
  rw [heq, List.length_append] at htable
  have hroom : (2 * (50 : Int32).toInt).toNat = 100 := by decide
  omega

/-- A security that is open. -/
def opened : SecurityRow where
  SecBoard := "FUT".toList
  SecCode := "Si-9.16 (RTS)".toList
  TradingStatus := "T".toList

/-- A bid, a frame that ends while the security is open, and one that ends while it is closed. -/
def openThenClosed : List (SlotEvent Int) :=
  [.addSecurity opened, .orderbook 0 (.addRow Orderbook.bid), .orderbook 0 .endFrame,
    .updateSecurity { opened with TradingStatus := "N".toList }, .orderbook 0 .endFrame]

theorem outcomes_expected_open_then_closed :
    ∃ securities outcomes, runOut (handle (fun s value => value.isPrefixOf s) (fun data => data.prices))
        new openThenClosed = some (securities, outcomes) ∧
      ∀ before event rest, openThenClosed = before ++ event :: rest → outcomes[before.length]? =
        some (expected (fun s value => value.isPrefixOf s) (fun data => data.prices) before event) :=
  ⟨_, _, rfl, outcomes_expected rfl (allFit_of_length_le (by decide))⟩

end Alorgate.Securities

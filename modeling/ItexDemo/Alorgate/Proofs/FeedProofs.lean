import ItexDemo.Alorgate.Feed
import ItexDemo.Alorgate.PlainJson
import ItexDemo.Alorgate.Proofs.GateProofs
import ItexDemo.DemoManager.Proofs.OrderbookProofs
import ItexDemo.DemoManager.Proofs.ServiceProofs

/-!
# From the tables to the workset

A call carries the rows of a table through the manager: `Linked` says for every connection which call it
is about and what of it is in hand.
-/

namespace Alorgate.Feed

open DemoManager Quant Securities Transition

variable {C D : Type*}

/-! ## Frames -/

section Frames

variable [MulOneClass D] [HasDistribNeg D] [IntCast D]

/-- The rows of a table as price levels, offers with a negative volume. -/
def levels (rows : List (DataRow D)) : List (D × D) :=
  rows.map fun dr => (dr.Price, Orderbook.signedQuantity dr)

variable [Zero D]

/-- What is posted of the rows. -/
def padded (rows : List (DataRow D)) : List (D × D) :=
  levels rows ++ List.replicate (100 - rows.length) (0, 0)

theorem length_padded {rows : List (DataRow D)} (h : rows.length ≤ 100) :
    (padded rows).length = 100 := by
  rw [padded, levels, List.length_append, List.length_map, List.length_replicate]
  omega

theorem rowsData_eq (rows : List (DataRow D)) : Orderbook.rowsData 100 rows =
    { prices := (padded rows).map Prod.fst, volumes := (padded rows).map Prod.snd } := by
  simp only [padded, levels, Orderbook.rowsData, Orderbook.listing, List.length_map, List.map_append,
    List.map_map, List.map_replicate]
  rfl

/-- A row of zeros is on no side. -/
theorem filter_padded {p : D → Bool} (hzero : p 0 = false) (rows : List (DataRow D)) :
    (padded rows).filter (fun row => p row.2) = (levels rows).filter fun row => p row.2 := by
  rw [padded, List.filter_append, List.filter_replicate, if_neg (by simp [hzero]), List.append_nil]

variable [LinearOrder D]

/-- The bids and the offers of a table. -/
def bids (rows : List (DataRow D)) : List (D × D) := (levels rows).filter fun row => row.2 > 0

def asks (rows : List (DataRow D)) : List (D × D) := (levels rows).filter fun row => row.2 < 0

/-- There is room for the rows, for the bids and for the offers. -/
structure HasRoom (rows : List (DataRow D)) : Prop where
  rows_le : rows.length ≤ 100
  bids_le : (bids rows).length ≤ 50
  asks_le : (asks rows).length ≤ 50

/-- There is room for the rows, and the numbers that are sent for them are among those that are read
back. -/
structure Sendable (ReadBack : D → Prop) (rows : List (DataRow D)) : Prop extends HasRoom rows where
  readBack : ∀ row ∈ padded rows, ReadBack row.1 ∧ ReadBack row.2

/-- The entry shows the rows of a table, bids by falling and offers by rising prices. -/
structure ShowsTable (e : OrderbookEntry D) (rows : List (DataRow D)) : Prop where
  depth : e.orderbook_depth_ = 50
  bids : SideShows (fun p q => q ≤ p) (bids rows) e.bidRows
  asks : SideShows (fun p q => p ≤ q) (asks rows) e.askRows

theorem bids_padded (rows : List (DataRow D)) :
    (padded rows).filter (fun row => row.2 > 0) = bids rows :=
  filter_padded (p := fun v => v > 0) (decide_eq_false (lt_irrefl 0)) rows

theorem asks_padded (rows : List (DataRow D)) :
    (padded rows).filter (fun row => row.2 < 0) = asks rows :=
  filter_padded (p := fun v => v < 0) (decide_eq_false (lt_irrefl 0)) rows

theorem HasRoom.fits {rows : List (DataRow D)} (h : HasRoom rows) : Quant.Fits (padded rows) := by
  unfold Quant.Fits
  rw [length_padded h.rows_le, bids_padded, asks_padded]
  exact ⟨h.bids_le, h.asks_le⟩

/-- The padding is not seen. -/
theorem ShowsTable.of_shows {e : OrderbookEntry D} {rows : List (DataRow D)} (hroom : HasRoom rows)
    (h : e.Shows (padded rows)) : ShowsTable e rows where
  depth := by rw [h.depth, length_padded hroom.rows_le]
  bids := bids_padded rows ▸ h.bids
  asks := asks_padded rows ▸ h.asks

end Frames

/-! ## Calls -/

section Calls

variable [MulOneClass D] [HasDistribNeg D] [IntCast D] [Zero D] [LinearOrder D]
  (StartsWith : List Char → List Char → Bool) (SerializeObject : Data D → Http.Str)
  (ReadBack : D → Prop)

/-- The event after the first `time` ones is the end of a frame of an open security, whose table has
these rows. -/
def IsFrame (events : List (SlotEvent D)) (time : Nat) (rows : List (DataRow D)) : Prop :=
  ∃ i security, events[time]? = some (.orderbook i .endFrame) ∧
    (subscribed StartsWith (events.take time))[i]? = some security ∧
    AssocMap.last (statuses StartsWith (events.take time)) security.sec_code = some true ∧
    rows = rowsOf i (events.take time)

/-- The call sends the rows of a frame. -/
def Posts (events : List (SlotEvent D)) (call : Call) : Prop :=
  ∃ rows, IsFrame StartsWith events call.time rows ∧ Sendable ReadBack rows ∧
    call.resource = "itex-demo/securities/0/orderbook".toList ∧
    call.body = SerializeObject (Orderbook.rowsData 100 rows)

/-- The book that the manager makes of the call. -/
def BookOf (events : List (SlotEvent D)) (call : Call) (entry : QueueEntry D) : Prop :=
  ∃ rows, IsFrame StartsWith events call.time rows ∧ HasRoom rows ∧ entry.levels = padded rows

variable {StartsWith SerializeObject ReadBack} {events : List (SlotEvent D)} {call : Call}

omit [MulOneClass D] [HasDistribNeg D] [IntCast D] [Zero D] [LinearOrder D] in
/-- What has been raised stays. -/
theorem IsFrame.append {time : Nat} {rows : List (DataRow D)} (h : IsFrame StartsWith events time rows)
    (rest : List (SlotEvent D)) : IsFrame StartsWith (events ++ rest) time rows := by
  obtain ⟨i, security, hevent, hsecurity, hopen, hrows⟩ := h
  have hlt : time < events.length := (List.getElem?_eq_some_iff.mp hevent).1
  have htake : (events ++ rest).take time = events.take time :=
    List.take_append_of_le_length hlt.le
  refine ⟨i, security, ?_, ?_, ?_, ?_⟩
  · rwa [List.getElem?_append_left hlt]
  · rwa [htake]
  · rwa [htake]
  · rwa [htake]

theorem Posts.append (h : Posts StartsWith SerializeObject ReadBack events call) (rest : List (SlotEvent D)) :
    Posts StartsWith SerializeObject ReadBack (events ++ rest) call := by
  obtain ⟨rows, hframe, hrest⟩ := h
  exact ⟨rows, hframe.append rest, hrest⟩

/-- The frame of a call has been raised. -/
theorem Posts.time_lt (h : Posts StartsWith SerializeObject ReadBack events call) :
    call.time < events.length := by
  obtain ⟨rows, ⟨i, security, hevent, -⟩, -⟩ := h
  exact (List.getElem?_eq_some_iff.mp hevent).1

theorem BookOf.append {entry : QueueEntry D} (h : BookOf StartsWith events call entry)
    (rest : List (SlotEvent D)) : BookOf StartsWith (events ++ rest) call entry := by
  obtain ⟨rows, hframe, hrest⟩ := h
  exact ⟨rows, hframe.append rest, hrest⟩

variable {parse : Http.Str → Option (List D × List D)}
  (hjson : ∀ data, (∀ x ∈ data.prices, ReadBack x) → (∀ x ∈ data.volumes, ReadBack x) →
    parse (SerializeObject data) = some (data.prices, data.volumes))

include hjson in
/-- The manager copies the rows. -/
theorem Posts.route (h : Posts StartsWith SerializeObject ReadBack events call) (port : Nat) (timestamp : D) :
    ∃ entry, routeRequest parse (call.toRequest port) timestamp = some (.book entry) ∧
      BookOf StartsWith events call entry := by
  obtain ⟨rows, hframe, hsendable, hresource, hbody⟩ := h
  have hsegments : Http.segments ('/' :: call.resource) =
      ["itex-demo".toList, "securities".toList, "0".toList, "orderbook".toList] := by
    rw [hresource]
    rfl
  have hrouter : router.get ('/' :: call.resource) .post =
      .ok (.addOrderbook, [("id".toList, "0".toList)]) := by
    rw [router_get, hsegments]
    rfl
  have hparse : parse call.body =
      some ((padded rows).map Prod.fst, (padded rows).map Prod.snd) := by
    rw [hbody, rowsData_eq]
    refine hjson _ ?_ ?_
    · intro x hx
      obtain ⟨row, hrow, rfl⟩ := List.mem_map.mp hx
      exact (hsendable.readBack row hrow).1
    · intro x hx
      obtain ⟨row, hrow, rfl⟩ := List.mem_map.mp hx
      exact (hsendable.readBack row hrow).2
  obtain ⟨entry, hread, hlevels⟩ := readBook_book 0 timestamp (padded rows)
  refine ⟨entry, ?_, rows, hframe, hsendable.toHasRoom, hlevels⟩
  have hid : Decimal.stoull (urlParameter [("id".toList, "0".toList)] "id") = .ok 0 := rfl
  have haddress : isLocalNetAddress (call.toRequest port).address = true := rfl
  have hroute : routeRequest parse (call.toRequest port) timestamp =
      readOrderbook parse [("id".toList, "0".toList)] (call.toRequest port) timestamp := by
    rw [routeRequest, show (call.toRequest port).path = '/' :: call.resource from rfl,
      show (call.toRequest port).method = .post from rfl, hrouter]
  rw [hroute, readOrderbook, if_pos haddress, hid]
  show (parse call.body).bind _ = _
  rw [hparse, Option.bind_some]
  exact congrArg (Option.map Handled.book) hread

omit [MulOneClass D] [HasDistribNeg D] [IntCast D] [Zero D] [LinearOrder D] in
theorem addsBook_of_route {req : ApiRequest} {timestamp : D} {entry : QueueEntry D}
    (h : routeRequest parse req timestamp = some (.book entry)) : addsBook req = true := by
  unfold routeRequest at h
  unfold addsBook
  split at h
  · next params hget => rw [hget]
  · next params hget =>
    rcases Service.readWindow_outcome (D := D) params with ⟨e, he⟩ | ⟨window, hw⟩
    · rw [he] at h
      cases h
    · rw [hw] at h
      cases h
  · cases h

end Calls

/-! ## Which call a connection is about -/

section Linked

variable [MulOneClass D] [HasDistribNeg D] [IntCast D] [Zero D] [LinearOrder D]
  (StartsWith : List Char → List Char → Bool) (SerializeObject : Data D → Http.Str)
  (ReadBack : D → Prop)

/-- A connection that is about call `n`: its book is pushed before the response and not twice. -/
def Carrying (s : State C D) (n : Nat) : Service.Phase D → Prop
  | .requested req | .constructing req =>
    n ∉ s.pushed ∧ ∃ call port, s.calls[n]? = some call ∧ req = call.toRequest port
  | .accepted entry | .queued entry =>
    n ∉ s.pushed ∧ ∃ call, s.calls[n]? = some call ∧ BookOf StartsWith s.events call entry
  | .answering reply => reply = .added ↔ n ∈ s.pushed
  | _ => False

/-- A connection that is about something else. -/
def Other : Service.Phase D → Prop
  | .requested req | .constructing req => addsBook req = false
  | .accepted _ | .queued _ => False
  | .answering reply => reply ≠ .added
  | _ => True

/-- The entry that was pushed shows the frame of call `n`. -/
def ShowsCall (s : State C D) (push : C × QueueEntry D × OrderbookEntry D) (n : Nat) : Prop :=
  ∃ call rows, s.calls[n]? = some call ∧ IsFrame StartsWith s.events call.time rows ∧
    ShowsTable push.2.2 rows

/-- The calls and the connections. -/
structure Linked (s : State C D) : Prop where
  knows : Securities.Knows StartsWith s.events s.gate
  posts : ∀ call ∈ s.calls, Posts StartsWith SerializeObject ReadBack s.events call
  times : (s.calls.map Call.time).Pairwise (· < ·)
  arrived : ∀ n ∈ s.arrived, n < s.calls.length
  carried : ∀ c n, s.carries c = some n → n ∈ s.arrived
  exclusive : ∀ c d n, s.carries c = some n → s.carries d = some n → c = d
  carrying : ∀ c n, s.carries c = some n → Carrying StartsWith s n (s.manager.connections c).phase
  other : ∀ c, s.carries c = none → Other (s.manager.connections c).phase
  nodup : s.pushed.Nodup
  pushed : ∀ n ∈ s.pushed, n ∈ s.arrived
  shown : List.Forall₂ (ShowsCall StartsWith s) s.manager.worksetPushes s.pushed

variable {StartsWith SerializeObject ReadBack} {s s' : State C D} {c : C} {n : Nat}

theorem linked_init (setup : Service.Setup D) :
    Linked StartsWith SerializeObject ReadBack (State.init setup : State C D) where
  knows := knows_new
  posts := fun _ hcall => absurd hcall List.not_mem_nil
  times := .nil
  arrived := fun _ hn => absurd hn List.not_mem_nil
  carried := nofun
  exclusive := nofun
  carrying := nofun
  other := fun _ _ => trivial
  nodup := List.nodup_nil
  pushed := fun _ hn => absurd hn List.not_mem_nil
  shown := .nil

/-- What is in hand stays in hand when more has happened elsewhere. -/
theorem Carrying.mono {p : Service.Phase D} (h : Carrying StartsWith s n p)
    (hpushed : n ∈ s'.pushed ↔ n ∈ s.pushed)
    (hcalls : ∀ call, s.calls[n]? = some call → s'.calls[n]? = some call)
    (hevents : ∃ rest, s'.events = s.events ++ rest) : Carrying StartsWith s' n p := by
  have hrequest {req : ApiRequest} (h : n ∉ s.pushed ∧ ∃ call port, s.calls[n]? = some call ∧
      req = call.toRequest port) : n ∉ s'.pushed ∧ ∃ call port, s'.calls[n]? = some call ∧
      req = call.toRequest port := by
    obtain ⟨hno, call, port, hcall, hreq⟩ := h
    exact ⟨fun hn => hno (hpushed.mp hn), call, port, hcalls call hcall, hreq⟩
  have hbook {entry : QueueEntry D} (h : n ∉ s.pushed ∧ ∃ call, s.calls[n]? = some call ∧
      BookOf StartsWith s.events call entry) : n ∉ s'.pushed ∧ ∃ call, s'.calls[n]? = some call ∧
      BookOf StartsWith s'.events call entry := by
    obtain ⟨hno, call, hcall, hentry⟩ := h
    obtain ⟨rest, hrest⟩ := hevents
    exact ⟨fun hn => hno (hpushed.mp hn), call, hcalls call hcall, hrest ▸ hentry.append rest⟩
  cases p with
  | reading => exact h
  | requested req => exact hrequest h
  | constructing req => exact hrequest h
  | accepted entry => exact hbook h
  | queued entry => exact hbook h
  | drawing window => exact h
  | answering reply => exact Iff.trans h hpushed.symm

/-- The tables are as the slot is asked for them, `MaxOrderbookSize` rows, half of them for each side,
with numbers that are read back. -/
def Fitting (ReadBack : D → Prop) (s : State C D) : Act C D → Prop
  | .slot event => AllFit (s.events ++ [event]) ∧
      ∀ i, event = .orderbook i .endFrame → Sendable ReadBack (rowsOf i s.events)
  | _ => True

/-! ## Steps of the slot and of the network -/

omit [MulOneClass D] [HasDistribNeg D] [IntCast D] [Zero D] [LinearOrder D] in
theorem id_of_subscribed {events : List (SlotEvent D)} {security : ActiveSecuritiesEntry}
    (h : security ∈ subscribed StartsWith events) : security.id = 0 := by
  obtain ⟨event, -, hevent⟩ := List.mem_filterMap.mp h
  cases event with
  | addSecurity dr =>
    simp only at hevent
    split at hevent
    · cases hevent
      rfl
    · cases hevent
  | updateSecurity dr => cases hevent
  | orderbook i event => cases hevent

theorem resource_of_id {security : ActiveSecuritiesEntry} (h : security.id = 0) :
    Orderbook.resource security = "itex-demo/securities/0/orderbook".toList := by
  unfold Orderbook.resource
  rewrite [h]
  decide

theorem posts_of_expected {events : List (SlotEvent D)} {event : SlotEvent D} {resource : List Char}
    {body : Http.Str} (hroom : ∀ i, event = .orderbook i .endFrame → Sendable ReadBack (rowsOf i events))
    (h : expected StartsWith SerializeObject events event = .posted resource body) :
    Posts StartsWith SerializeObject ReadBack (events ++ [event]) ⟨resource, body, events.length⟩ := by
  unfold expected at h
  split at h
  · next i =>
    split at h
    · next security hsecurity =>
      split at h
      · next hopen =>
        obtain ⟨hresource, hbody⟩ := Outcome.posted.inj h
        have hid := id_of_subscribed (List.mem_of_getElem? hsecurity)
        have htake : (events ++ [SlotEvent.orderbook i .endFrame]).take events.length = events :=
          List.take_left
        have hsize : Orderbook.arraySize 50 = 100 := by decide
        refine ⟨rowsOf i events, ⟨i, security, ?_, ?_, ?_, ?_⟩, hroom i rfl, ?_, ?_⟩
        · exact List.getElem?_concat_length
        · rwa [htake]
        · rwa [htake]
        · rw [htake]
        · exact hresource.symm.trans (resource_of_id hid)
        · rw [← hbody, hsize]
      · cases h
    · cases h
  · cases h

/-- One more event, and the calls that come of it. -/
theorem Linked.grow (h : Linked StartsWith SerializeObject ReadBack s) {event : SlotEvent D}
    {gate : Securities D} {new : List Call} (calling : Option Nat)
    (hknows : Knows StartsWith (s.events ++ [event]) gate)
    (hposts : ∀ call ∈ new, Posts StartsWith SerializeObject ReadBack (s.events ++ [event]) call)
    (htimes : ((s.calls ++ new).map Call.time).Pairwise (· < ·)) :
    Linked StartsWith SerializeObject ReadBack { s with
      events := s.events ++ [event], gate := gate, calls := s.calls ++ new, calling := calling } where
  knows := hknows
  posts := by
    intro call hcall
    rcases List.mem_append.mp hcall with hcall | hcall
    · exact (h.posts call hcall).append [event]
    · exact hposts call hcall
  times := htimes
  arrived := by
    intro n hn
    rw [List.length_append]
    exact Nat.lt_of_lt_of_le (h.arrived n hn) (Nat.le_add_right _ _)
  carried := h.carried
  exclusive := h.exclusive
  carrying := by
    intro c n hc
    refine (h.carrying c n hc).mono Iff.rfl ?_ ⟨[event], rfl⟩
    intro call hcall
    exact List.getElem?_append_left (List.getElem?_eq_some_iff.mp hcall).1 ▸ hcall
  other := h.other
  nodup := h.nodup
  pushed := h.pushed
  shown := by
    refine h.shown.imp ?_
    rintro push n ⟨call, rows, hcall, hframe, hshows⟩
    have hlt := (List.getElem?_eq_some_iff.mp hcall).1
    refine ⟨call, rows, ?_, hframe.append [event], hshows⟩
    show (s.calls ++ new)[n]? = some call
    rwa [List.getElem?_append_left hlt]

variable [DecidableEq C] {parse : Http.Str → Option (List D × List D)} {sorter : StdSort (D × D)}
  {ofId : UInt64 → D} {setup : Service.Setup D}

theorem Linked.slot (h : Linked StartsWith SerializeObject ReadBack s) {event : SlotEvent D}
    (hfits : AllFit (s.events ++ [event]))
    (hroom : ∀ i, event = .orderbook i .endFrame → Sendable ReadBack (rowsOf i s.events))
    (hstep : step StartsWith SerializeObject parse sorter ofId setup s (.slot event) = some s') :
    Linked StartsWith SerializeObject ReadBack s' := by
  simp only [step] at hstep
  split at hstep
  · cases hstep
  · obtain ⟨⟨gate, outcome⟩, hhandle, rfl⟩ := Option.map_eq_some_iff.mp hstep
    obtain ⟨hknows, houtcome⟩ := h.knows.handle hfits hhandle
    dsimp only
    split
    · next resource body =>
      refine h.grow (some s.calls.length) hknows ?_ ?_
      · intro call hcall
        obtain rfl := List.mem_singleton.mp hcall
        exact posts_of_expected hroom houtcome.symm
      · rw [List.map_append, List.pairwise_append]
        refine ⟨h.times, List.pairwise_singleton _ _, ?_⟩
        intro time htime _ hlast
        obtain rfl := List.mem_singleton.mp hlast
        obtain ⟨call, hcall, rfl⟩ := List.mem_map.mp htime
        exact (h.posts call hcall).time_lt
    · have hnone : ∀ call ∈ ([] : List Call),
          Posts StartsWith SerializeObject ReadBack (s.events ++ [event]) call :=
        fun _ hcall => absurd hcall List.not_mem_nil
      have hquiet := h.grow s.calling hknows hnone (by rw [List.append_nil]; exact h.times)
      rwa [List.append_nil] at hquiet

/-- The manager reads the request of a call. -/
theorem Linked.deliver (h : Linked StartsWith SerializeObject ReadBack s) {port : Nat}
    (hstep : step StartsWith SerializeObject parse sorter ofId setup s (.deliver c n port) = some s') :
    Linked StartsWith SerializeObject ReadBack s' := by
  simp only [step] at hstep
  split at hstep
  · cases hstep
  · next hnew =>
    obtain ⟨call, hcall, hstep⟩ := Option.bind_eq_some_iff.mp hstep
    obtain ⟨m, hm, rfl⟩ := Option.map_eq_some_iff.mp hstep
    obtain ⟨hreading, rfl⟩ := Service.request_of_step hm
    have hpushed : n ∉ s.pushed := fun hn => hnew (h.pushed n hn)
    have hnone : s.carries c = none := by
      cases hc : s.carries c with
      | none => rfl
      | some k =>
        have hk := h.carrying c k hc
        rw [hreading] at hk
        exact absurd hk id
    exact {
      knows := h.knows
      posts := h.posts
      times := h.times
      arrived := by
        intro k hk
        rcases List.mem_append.mp hk with hk | hk
        · exact h.arrived k hk
        · obtain rfl := List.mem_singleton.mp hk
          exact (List.getElem?_eq_some_iff.mp hcall).1
      carried := by
        intro d k hd
        by_cases hdc : d = c
        · subst hdc
          simp only [Function.update_self] at hd
          cases hd
          exact List.mem_append_right _ (List.mem_singleton_self _)
        · simp only [Function.update_of_ne hdc] at hd
          exact List.mem_append_left _ (h.carried d k hd)
      exclusive := by
        have hother {d : C} (hd : s.carries d = some n) : False := hnew (h.carried d n hd)
        intro d e k hd he
        by_cases hdc : d = c <;> by_cases hec : e = c
        · rw [hdc, hec]
        · subst hdc
          simp only [Function.update_self] at hd
          simp only [Function.update_of_ne hec] at he
          cases hd
          exact (hother he).elim
        · subst hec
          simp only [Function.update_self] at he
          simp only [Function.update_of_ne hdc] at hd
          cases he
          exact (hother hd).elim
        · simp only [Function.update_of_ne hdc] at hd
          simp only [Function.update_of_ne hec] at he
          exact h.exclusive d e k hd he
      carrying := by
        intro d k hd
        by_cases hdc : d = c
        · subst hdc
          simp only [Function.update_self] at hd
          cases hd
          rw [Service.setPhase_phase_self]
          exact ⟨hpushed, call, port, hcall, rfl⟩
        · simp only [Function.update_of_ne hdc] at hd
          rw [Service.setPhase_phase_of_ne hdc]
          exact h.carrying d k hd
      other := by
        intro d hd
        by_cases hdc : d = c
        · subst hdc
          simp only [Function.update_self] at hd
          cases hd
        · simp only [Function.update_of_ne hdc] at hd
          rw [Service.setPhase_phase_of_ne hdc]
          exact h.other d hd
      nodup := h.nodup
      pushed := fun k hk => List.mem_append_left _ (h.pushed k hk)
      shown := h.shown }

/-! ## Steps of the manager -/

omit [DecidableEq C] in
/-- A step of the coroutine. -/
theorem Linked.coroutine (h : Linked StartsWith SerializeObject ReadBack s) {m : Service.State C D}
    (heff : Service.PreloadEffect setup s.manager m) :
    Linked StartsWith SerializeObject ReadBack { s with manager := m } := by
  cases heff <;> exact { h with }

section Observe

omit [MulOneClass D] [HasDistribNeg D] [IntCast D] [Zero D] [LinearOrder D]

variable {m : Service.State C D}

theorem observe_of_none (hc : s.carries c = none) : s.observe c m = { s with manager := m } := by
  rw [State.observe, hc]

theorem observe_manager (s : State C D) (c : C) (m : Service.State C D) :
    (s.observe c m).manager = m := by
  unfold State.observe
  split
  · rfl
  · dsimp only
    split <;> rfl

theorem observe_quiet (hpushes : m.worksetPushes = s.manager.worksetPushes)
    (hreplies : m.replies = s.manager.replies) : s.observe c m = { s with manager := m } := by
  cases hc : s.carries c with
  | none => exact observe_of_none hc
  | some n =>
    simp only [State.observe, hc, hpushes, hreplies, List.drop_length, List.map_nil, List.append_nil]

theorem observe_push {push : C × QueueEntry D × OrderbookEntry D} (hc : s.carries c = some n)
    (hpushes : m.worksetPushes = s.manager.worksetPushes ++ [push])
    (hreplies : m.replies = s.manager.replies) :
    s.observe c m = { s with manager := m, pushed := s.pushed ++ [n] } := by
  simp only [State.observe, hc, hpushes, hreplies, List.drop_length, List.drop_left,
    List.map_cons, List.map_nil]

theorem observe_answer {response reply : Reply} (hc : s.carries c = some n)
    (hpushes : m.worksetPushes = s.manager.worksetPushes)
    (hreplies : m.replies = s.manager.replies ++ [(c, response, reply)]) :
    s.observe c m = { s with
      manager := m
      carries := Function.update s.carries c none
      calling := if s.calling = some n then none else s.calling
      answers := s.answers ++ [(n, response)] } := by
  simp only [State.observe, hc, hpushes, hreplies, List.drop_length, List.drop_left, List.map_nil,
    List.append_nil]

end Observe

omit [DecidableEq C] in
/-- A step of one connection without a push or a response. -/
theorem Linked.quiet (h : Linked StartsWith SerializeObject ReadBack s) {m : Service.State C D}
    (hframe : ∀ d, d ≠ c → m.connections d = s.manager.connections d)
    (hpushes : m.worksetPushes = s.manager.worksetPushes)
    (hcarrying : ∀ n, s.carries c = some n → Carrying StartsWith s n (m.connections c).phase)
    (hother : s.carries c = none → Other (m.connections c).phase) :
    Linked StartsWith SerializeObject ReadBack { s with manager := m } where
  knows := h.knows
  posts := h.posts
  times := h.times
  arrived := h.arrived
  carried := h.carried
  exclusive := h.exclusive
  carrying := by
    intro d n hd
    by_cases hdc : d = c
    · subst hdc
      exact hcarrying n hd
    · rw [hframe d hdc]
      exact h.carrying d n hd
  other := by
    intro d hd
    by_cases hdc : d = c
    · subst hdc
      exact hother hd
    · rw [hframe d hdc]
      exact h.other d hd
  nodup := h.nodup
  pushed := h.pushed
  shown := by
    rw [hpushes]
    exact h.shown

/-- The push of a call's book. -/
theorem Linked.push (h : Linked StartsWith SerializeObject ReadBack s) {m : Service.State C D}
    {push : C × QueueEntry D × OrderbookEntry D} (hc : s.carries c = some n) (hnew : n ∉ s.pushed)
    (hshows : ShowsCall StartsWith s push n)
    (hframe : ∀ d, d ≠ c → m.connections d = s.manager.connections d)
    (hphase : (m.connections c).phase = .answering .added)
    (hpushes : m.worksetPushes = s.manager.worksetPushes ++ [push])
    (hreplies : m.replies = s.manager.replies) :
    Linked StartsWith SerializeObject ReadBack (s.observe c m) := by
  rw [observe_push hc hpushes hreplies]
  constructor
  · exact h.knows
  · exact h.posts
  · exact h.times
  · exact h.arrived
  · exact h.carried
  · exact h.exclusive
  · intro d k hd
    by_cases hdc : d = c
    · subst hdc
      obtain rfl : n = k := Option.some.inj (hc.symm.trans hd)
      rw [hphase]
      exact ⟨fun _ => List.mem_append_right _ (List.mem_singleton_self _), fun _ => rfl⟩
    · have hne : k ≠ n := by
        rintro rfl
        exact hdc (h.exclusive d c k hd hc)
      rw [hframe d hdc]
      refine (h.carrying d k hd).mono ?_ (fun _ hcall => hcall) ⟨[], (List.append_nil _).symm⟩
      simp [hne]
  · intro d hd
    have hdc : d ≠ c := by
      rintro rfl
      have hnone : s.carries d = none := hd
      rw [hc] at hnone
      cases hnone
    rw [hframe d hdc]
    exact h.other d hd
  · refine List.nodup_append.mpr ⟨h.nodup, List.nodup_singleton n, ?_⟩
    rintro k hk _ hk' rfl
    exact hnew (List.mem_singleton.mp hk' ▸ hk)
  · intro k hk
    rcases List.mem_append.mp hk with hk | hk
    · exact h.pushed k hk
    · exact List.mem_singleton.mp hk ▸ h.carried c n hc
  · rw [hpushes]
    exact List.rel_append h.shown (.cons hshows .nil)

/-- The response to a call. -/
theorem Linked.answer (h : Linked StartsWith SerializeObject ReadBack s) {m : Service.State C D}
    {response reply : Reply} (hc : s.carries c = some n)
    (hframe : ∀ d, d ≠ c → m.connections d = s.manager.connections d)
    (hphase : (m.connections c).phase = .reading)
    (hpushes : m.worksetPushes = s.manager.worksetPushes)
    (hreplies : m.replies = s.manager.replies ++ [(c, response, reply)]) :
    Linked StartsWith SerializeObject ReadBack (s.observe c m) := by
  rw [observe_answer hc hpushes hreplies]
  have hother {d : C} {k : Nat} (hd : Function.update s.carries c none d = some k) :
      d ≠ c ∧ s.carries d = some k := by
    by_cases hdc : d = c
    · simp [hdc] at hd
    · exact ⟨hdc, by simpa [hdc] using hd⟩
  constructor
  · exact h.knows
  · exact h.posts
  · exact h.times
  · exact h.arrived
  · intro d k hd
    exact h.carried d k (hother hd).2
  · intro d e k hd he
    exact h.exclusive d e k (hother hd).2 (hother he).2
  · intro d k hd
    obtain ⟨hdc, hd⟩ := hother hd
    rw [hframe d hdc]
    exact h.carrying d k hd
  · intro d hd
    by_cases hdc : d = c
    · rw [hdc, hphase]
      trivial
    · rw [hframe d hdc]
      exact h.other d (by simpa [hdc] using hd)
  · exact h.nodup
  · exact h.pushed
  · rw [hpushes]
    exact h.shown

omit [MulOneClass D] [HasDistribNeg D] [IntCast D] [Zero D] [LinearOrder D] in
/-- A connection that is about no call pushes nothing. -/
theorem other_of_effect {persist : Bool} {build : QueueEntry D → Option (OrderbookEntry D)}
    {a : Service.Act C D} {m m' : Service.State C D} (hold : Other (m.connections c).phase)
    (hno : asksToAdd a = false) (heff : Service.Effect persist build parse a m c m') :
    m'.worksetPushes = m.worksetPushes ∧ Other (m'.connections c).phase := by
  cases heff with
  | stay => exact ⟨rfl, hold⟩
  | move p hnext =>
    refine ⟨rfl, ?_⟩
    rw [Service.setPhase_phase_self]
    generalize m.connections c = conn at hnext hold
    cases hnext with
    | request d handler req ha =>
      subst ha
      exact hno
    | letThrough req hready => exact hold
    | respond publisher req timestamp reply hroute => exact Service.routeRequest_respond hroute
    | draw publisher req timestamp window hroute => trivial
    | drawn handler window => exact nofun
  | send response reply hsends =>
    refine ⟨rfl, ?_⟩
    rw [show (m.send c response reply).connections c = ⟨(m.connections c).handler_, .reading⟩ by
      simp [Service.State.send, Service.State.setPhase]]
    trivial
  | accept publisher req timestamp entry hconn hroute =>
    rw [hconn] at hold
    have hadds := addsBook_of_route hroute
    rw [show addsBook req = false from hold] at hadds
    cases hadds
  | getPublisher req hphase =>
    rw [hphase] at hold
    refine ⟨rfl, ?_⟩
    simpa [Other] using hold
  | pushQueue entry hphase =>
    rw [hphase] at hold
    exact hold.elim
  | pushWorkset publisher entry workset_entry hconn hentry =>
    rw [hconn] at hold
    exact hold.elim
  | close publisher hconn =>
    refine ⟨rfl, ?_⟩
    simp [Other]
  | delete ha hphase => exact ⟨rfl, hold⟩

omit [DecidableEq C] in
/-- The push shows the frame of the call. -/
theorem showsCall_of_bookOf {entry : QueueEntry D} {workset_entry : OrderbookEntry D} {call : Call}
    (hcall : s.calls[n]? = some call) (hbook : BookOf StartsWith s.events call entry)
    (hentry : HttpServerHandler.worksetEntry sorter ofId entry = some workset_entry) (c : C) :
    ShowsCall StartsWith s (c, entry, workset_entry) n := by
  obtain ⟨rows, hframe, hroom, hlevels⟩ := hbook
  have hfits : Quant.Fits entry.levels := by
    rw [hlevels]
    exact hroom.fits
  rw [worksetEntry_of_fits sorter ofId entry hfits] at hentry
  have hshows := entryOf_shows sorter (ofId entry.security_id) entry.timestamp hfits
  rw [Option.some.inj hentry, hlevels] at hshows
  exact ⟨call, rows, hcall, hframe, .of_shows hroom hshows⟩

theorem manager_of_step {a : Service.Act C D}
    (h : step StartsWith SerializeObject parse sorter ofId setup s (.manager a) = some s') :
    asksToAdd a = false ∧ ∃ m, Service.step parse sorter ofId setup s.manager a = some m ∧
      ((∃ c, a.connection = some c ∧ s' = s.observe c m) ∨
        (a.connection = none ∧ s' = { s with manager := m })) := by
  simp only [step] at h
  split at h
  · cases h
  · next hno =>
    obtain ⟨m, hm, rfl⟩ := Option.map_eq_some_iff.mp h
    refine ⟨Bool.eq_false_of_not_eq_true hno, m, hm, ?_⟩
    cases hc : a.connection with
    | none => exact Or.inr ⟨rfl, rfl⟩
    | some c => exact Or.inl ⟨c, rfl, rfl⟩

section Json

variable (hjson : ∀ data, (∀ x ∈ data.prices, ReadBack x) → (∀ x ∈ data.volumes, ReadBack x) →
    parse (SerializeObject data) = some (data.prices, data.volumes))

include hjson

omit [DecidableEq C] in
/-- The request of a call goes through to the book of its frame. -/
theorem carrying_of_next (h : Linked StartsWith SerializeObject ReadBack s) {ready : Bool}
    {a : Service.Act C D} {conn : Service.Conn D} {p : Service.Phase D}
    (hold : Carrying StartsWith s n conn.phase) (hnext : Service.Next parse ready a conn p) :
    Carrying StartsWith s n p := by
  cases hnext with
  | request d handler req ha => exact hold.elim
  | letThrough req hready => exact hold
  | respond publisher req timestamp reply hroute =>
    obtain ⟨-, call, port, hcall, rfl⟩ := hold
    obtain ⟨entry, hbook, -⟩ := (h.posts call (List.mem_of_getElem? hcall)).route hjson port timestamp
    cases hroute.symm.trans hbook
  | draw publisher req timestamp window hroute =>
    obtain ⟨-, call, port, hcall, rfl⟩ := hold
    obtain ⟨entry, hbook, -⟩ := (h.posts call (List.mem_of_getElem? hcall)).route hjson port timestamp
    cases hroute.symm.trans hbook
  | drawn handler window => exact hold.elim

/-- A step of a connection of the manager. -/
theorem Linked.manager (h : Linked StartsWith SerializeObject ReadBack s) {persist : Bool}
    {a : Service.Act C D} {m : Service.State C D} (hno : asksToAdd a = false)
    (heff : Service.Effect persist (HttpServerHandler.worksetEntry sorter ofId) parse a s.manager c m) :
    Linked StartsWith SerializeObject ReadBack (s.observe c m) := by
  have hframe (d : C) (hd : d ≠ c) := heff.connections_of_ne hd
  cases hc : s.carries c with
  | none =>
    obtain ⟨hpushes, hother⟩ := other_of_effect (h.other c hc) hno heff
    rw [observe_of_none hc]
    refine h.quiet hframe hpushes ?_ fun _ => hother
    intro n hn
    rw [hc] at hn
    cases hn
  | some n =>
    have hold := h.carrying c n hc
    have hquiet (hpushes : m.worksetPushes = s.manager.worksetPushes)
        (hreplies : m.replies = s.manager.replies)
        (hnew : Carrying StartsWith s n (m.connections c).phase) :
        Linked StartsWith SerializeObject ReadBack (s.observe c m) := by
      rw [observe_quiet hpushes hreplies]
      refine h.quiet hframe hpushes ?_ ?_
      · intro k hk
        obtain rfl := Option.some.inj (hc.symm.trans hk)
        exact hnew
      · intro hnone
        rw [hc] at hnone
        cases hnone
    cases heff with
    | stay => exact hquiet rfl rfl hold
    | move p hnext =>
      refine hquiet rfl rfl ?_
      rw [Service.setPhase_phase_self]
      exact carrying_of_next hjson h hold hnext
    | send response reply hsends =>
      refine h.answer hc hframe ?_ rfl rfl
      simp [Service.State.send, Service.State.setPhase]
    | accept publisher req timestamp entry hconn hroute =>
      rw [hconn] at hold
      obtain ⟨hno, call, port, hcall, rfl⟩ := hold
      obtain ⟨entry', hbook, hentry⟩ :=
        (h.posts call (List.mem_of_getElem? hcall)).route hjson port timestamp
      cases hroute.symm.trans hbook
      refine hquiet rfl rfl ?_
      rw [show (s.manager.accept c (call.toRequest port) entry).connections c =
        ⟨(s.manager.connections c).handler_, .accepted entry⟩ by
          simp [Service.State.accept, Service.State.setPhase]]
      exact ⟨hno, call, hcall, hentry⟩
    | getPublisher req hphase =>
      rw [hphase] at hold
      refine hquiet rfl rfl ?_
      simpa [Carrying] using hold
    | pushQueue entry hphase =>
      rw [hphase] at hold
      refine hquiet rfl rfl ?_
      simpa [Carrying] using hold
    | pushWorkset publisher entry workset_entry hconn hentry =>
      rw [hconn] at hold
      obtain ⟨hnew, call, hcall, hbook⟩ := hold
      refine h.push hc hnew (showsCall_of_bookOf hcall hbook hentry c) hframe ?_ rfl rfl
      exact Service.setPhase_phase_self
    | close publisher hconn =>
      rw [hconn] at hold
      exact hold.elim
    | delete ha hphase => exact hquiet rfl rfl hold

/-- **Step lemma.** -/
theorem Linked.step (h : Linked StartsWith SerializeObject ReadBack s) {a : Act C D} (hok : Fitting ReadBack s a)
    (hstep : Feed.step StartsWith SerializeObject parse sorter ofId setup s a = some s') :
    Linked StartsWith SerializeObject ReadBack s' := by
  cases a with
  | slot event => exact h.slot hok.1 hok.2 hstep
  | deliver c n port => exact h.deliver hstep
  | giveUp =>
    simp only [Feed.step] at hstep
    split at hstep
    · cases hstep
      exact { h with }
    · cases hstep
  | manager a =>
    obtain ⟨hno, m, hm, hs'⟩ := manager_of_step hstep
    rcases hs' with ⟨c, hc, rfl⟩ | ⟨hc, rfl⟩
    · have hstep := (Service.connectionStep_of_step hc hm).2
      exact h.manager hjson hno (Service.effect_of_connectionStep hc hstep)
    · rw [Service.step, hc] at hm
      exact h.coroutine (Service.effect_of_preloadStep hm)

end Json

end Linked

/-! ## A frame -/

section OneFrame

/-- Nothing is preloaded. -/
def noRows : Service.Setup Int where
  persist_workset_to_database := true
  capacity := 2
  rows := []
  completed := true

/-- `String.StartsWith` for plain texts. -/
def startsWithPlain (s value : List Char) : Bool := value.isPrefixOf s

/-- A frame with a bid, which comes to the workset. -/
def oneFrame : List (Act Bool Int) :=
  [.manager .preloadStart, .manager .preloadEnd, .manager .setReady, .slot (.addSecurity opened),
    .slot (.orderbook 0 (.addRow Orderbook.bid)), .slot (.orderbook 0 .endFrame),
    .deliver true 0 40000, .manager (.createHandler true), .manager (.getPublisher true),
    .manager (.route true 5), .manager (.pushQueue true), .manager (.pushWorkset true),
    .manager (.answer true false)]

/-- The numbers that are sent in a step are read back. -/
def sendsReadBack (s : State C Int) : Act C Int → Bool
  | .slot (.orderbook i .endFrame) =>
    (padded (rowsOf i s.events)).all fun row =>
      decide (PlainJson.ReadBack row.1) && decide (PlainJson.ReadBack row.2)
  | _ => true

/-- Few rows fit. -/
theorem fitting_of_short {s : State C Int} {a : Act C Int} (h : s.events.length < 50)
    (hsends : sendsReadBack s a = true) : Fitting PlainJson.ReadBack s a := by
  cases a with
  | deliver c n port => trivial
  | giveUp => trivial
  | manager a => trivial
  | slot event =>
    refine ⟨allFit_of_length_le ?_, ?_⟩
    · rw [List.length_append, List.length_singleton]
      omega
    · rintro i rfl
      have hrows : (rowsOf i s.events).length ≤ s.events.length :=
        (length_rowsSinceClear_le _).trans (List.length_filterMap_le _ _)
      have hlevels : (levels (rowsOf i s.events)).length ≤ 50 := by
        rw [levels, List.length_map]
        omega
      exact {
        rows_le := by omega
        bids_le := (List.length_filter_le _ _).trans hlevels
        asks_le := (List.length_filter_le _ _).trans hlevels
        readBack := by
          intro row hrow
          have hall := List.all_eq_true.mp hsends row hrow
          rw [Bool.and_eq_true, decide_eq_true_eq, decide_eq_true_eq] at hall
          exact hall }

/-- The gate does not wait any longer. -/
def givesUp : Act Bool Int → Bool
  | .giveUp => true
  | _ => false

theorem oneFrame_runs :
    ∃ s, run (step startsWithPlain PlainJson.serializePlain PlainJson.parsePlain (.insertion _)
        (fun _ => 0) noRows) (.init noRows) oneFrame = some s ∧ s.pushed = [0] ∧ s.calling = none := by
  have hrun : ((run (step startsWithPlain PlainJson.serializePlain PlainJson.parsePlain (.insertion _)
      (fun _ => 0) noRows) (.init noRows) oneFrame).map fun s => (s.pushed, s.calling)) =
      some ([0], none) := by
    decide +kernel
  obtain ⟨s, hs, heq⟩ := Option.map_eq_some_iff.mp hrun
  exact ⟨s, hs, (Prod.mk.inj heq).1, (Prod.mk.inj heq).2⟩

theorem oneFrame_meets :
    RunMeets (step startsWithPlain PlainJson.serializePlain PlainJson.parsePlain (.insertion _)
        (fun _ => 0) noRows) (fun s a => Fitting PlainJson.ReadBack s a ∧ a ≠ .giveUp) (.init noRows)
      oneFrame := by
  have hshort : RunMeets (step startsWithPlain PlainJson.serializePlain PlainJson.parsePlain
      (.insertion _) (fun _ => 0) noRows)
      (fun s a => s.events.length < 50 ∧ sendsReadBack s a = true ∧ givesUp a = false)
      (.init noRows) oneFrame := by
    decide +kernel
  refine hshort.imp ?_
  rintro s a ⟨hlength, hsends, hno⟩
  refine ⟨fitting_of_short hlength hsends, ?_⟩
  rintro rfl
  cases hno

end OneFrame

/-! ## Every run -/

section Runs

variable [MulOneClass D] [HasDistribNeg D] [IntCast D] [Zero D] [LinearOrder D] [DecidableEq C]
  {StartsWith : List Char → List Char → Bool} {SerializeObject : Data D → Http.Str}
  {parse : Http.Str → Option (List D × List D)} {sorter : StdSort (D × D)}
  {ReadBack : D → Prop} {ofId : UInt64 → D} {setup : Service.Setup D} {s : State C D}

/-- The manager makes steps of its own. -/
theorem manager_reachable {ok : State C D → Act C D → Prop}
    (h : Reachable ((system StartsWith SerializeObject parse sorter ofId setup).restrict ok) s) :
    Reachable (Service.system parse sorter ofId setup) s.manager := by
  refine h.invariant (I := fun s => Reachable (Service.system parse sorter ofId setup) s.manager) ?_ ?_
  · rintro _ rfl
    exact .init rfl
  · rintro s a s' hI ⟨ht, -⟩
    cases a with
    | slot event =>
      simp only [system, System.ofStep, step] at ht
      split at ht
      · cases ht
      · obtain ⟨r, -, rfl⟩ := Option.map_eq_some_iff.mp ht
        split <;> exact hI
    | deliver c n port =>
      simp only [system, System.ofStep, step] at ht
      split at ht
      · cases ht
      · obtain ⟨call, -, ht⟩ := Option.bind_eq_some_iff.mp ht
        obtain ⟨m, hm, rfl⟩ := Option.map_eq_some_iff.mp ht
        exact hI.step hm
    | giveUp =>
      simp only [system, System.ofStep, step] at ht
      split at ht
      · cases ht
        exact hI
      · cases ht
    | manager a =>
      obtain ⟨-, m, hm, ⟨c, -, rfl⟩ | ⟨-, rfl⟩⟩ := manager_of_step ht
      · rw [observe_manager]
        exact hI.step hm
      · exact hI.step hm

variable (hjson : ∀ data, (∀ x ∈ data.prices, ReadBack x) → (∀ x ∈ data.volumes, ReadBack x) →
    parse (SerializeObject data) = some (data.prices, data.volumes))

include hjson

theorem linked_of_reachable
    (h : Reachable ((system StartsWith SerializeObject parse sorter ofId setup).restrict (Fitting ReadBack)) s) :
    Linked StartsWith SerializeObject ReadBack s := by
  refine h.invariant (I := Linked StartsWith SerializeObject ReadBack) ?_ ?_
  · rintro _ rfl
    exact linked_init setup
  · rintro s a s' hI ⟨ht, hok⟩
    exact hI.step hjson hok ht

/-- **What the exchange had.** Whatever happens in whatever order, every entry of the workset was preloaded
or shows the rows that a table had at the end of a frame of an open security; the calls are about different
frames, one after the other, and the handlers push the book of no call twice; and no push fails. -/
theorem workset_shows_frames
    (h : Reachable ((system StartsWith SerializeObject parse sorter ofId setup).restrict (Fitting ReadBack)) s) :
    (∀ e ∈ s.manager.ws.workset_.items, e ∈ setup.rows ∨
        ∃ time rows, IsFrame StartsWith s.events time rows ∧ ShowsTable e rows) ∧
      (s.calls.map Call.time).Pairwise (· < ·) ∧
      List.Forall₂ (ShowsCall StartsWith s) s.manager.worksetPushes s.pushed ∧ s.pushed.Nodup ∧
      ∀ c entry, (s.manager.connections c).phase = .queued entry →
        (HttpServerHandler.worksetEntry sorter ofId entry).isSome := by
  have hI := linked_of_reachable hjson h
  refine ⟨?_, hI.times, hI.shown, hI.nodup, ?_⟩
  · intro e he
    have hgated := Service.gated_of_reachable (manager_reachable h)
    have hholds := hgated.holds
    rw [CircularBuffer.Holds] at hholds
    rw [hholds] at he
    rcases List.mem_append.mp (List.mem_of_mem_drop he) with he | he
    · exact Or.inl (hgated.loaded_prefix.subset he)
    · obtain ⟨push, hpush, rfl⟩ := List.mem_map.mp he
      obtain ⟨hlength, hshown⟩ := List.forall₂_iff_get.mp hI.shown
      obtain ⟨i, hi, rfl⟩ := List.getElem_of_mem hpush
      obtain ⟨call, rows, -, hframe, hshows⟩ := hshown i hi (hlength ▸ hi)
      exact Or.inr ⟨call.time, rows, hframe, hshows⟩
  · intro c entry hphase
    cases hc : s.carries c with
    | none =>
      have hother := hI.other c hc
      rw [hphase] at hother
      exact hother.elim
    | some n =>
      have hcarrying := hI.carrying c n hc
      rw [hphase] at hcarrying
      obtain ⟨-, call, -, rows, -, hroom, hlevels⟩ := hcarrying
      have hfits : Quant.Fits entry.levels := by
        rw [hlevels]
        exact hroom.fits
      rw [worksetEntry_of_fits sorter ofId entry hfits]
      rfl

omit hjson in
theorem workset_shows_frames_one_frame :
    ∃ s, run (step startsWithPlain PlainJson.serializePlain PlainJson.parsePlain (.insertion _)
        (fun _ => 0) noRows) (.init noRows) oneFrame = some s ∧
      (∀ e ∈ s.manager.ws.workset_.items, e ∈ noRows.rows ∨
        ∃ time rows, IsFrame startsWithPlain s.events time rows ∧ ShowsTable e rows) ∧
      (s.calls.map Call.time).Pairwise (· < ·) ∧
      List.Forall₂ (ShowsCall startsWithPlain s) s.manager.worksetPushes s.pushed ∧ s.pushed.Nodup ∧
      ∀ c entry, (s.manager.connections c).phase = .queued entry →
        (HttpServerHandler.worksetEntry (.insertion _) (fun _ => 0) entry).isSome := by
  obtain ⟨s, hs, -⟩ := oneFrame_runs
  have hreach : Reachable ((system startsWithPlain PlainJson.serializePlain PlainJson.parsePlain
      (.insertion _) (fun _ => 0) noRows).restrict (Fitting PlainJson.ReadBack)) s :=
    reachable_restrict_run oneFrame (.init rfl) (oneFrame_meets.imp fun _ _ h => h.1) hs
  exact ⟨s, hs, workset_shows_frames
    (fun data _ _ => PlainJson.parsePlain_serializePlain data) hreach⟩

end Runs

end Alorgate.Feed

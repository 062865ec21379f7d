import ItexDemo.DemoManager.Proofs.QueueLoopProofs
import ItexDemo.DemoManager.Proofs.ServiceProofs
import ItexDemo.DemoManager.Restart

/-!
# Proofs: the demo manager over its restarts

The tables hold the stored books in their order (`Recorded`), so the preloading of a process pushes the
entries of the last of them (`setupOf_rows`). What a process stores is the front of its queue.
-/

namespace DemoManager.Restart

open Transition Quant OrderbookQueueWriter

variable {C : Type*}

/-! ## Rounds -/

/-- Both statements of an entry, carried out. -/
theorem execute_statements {t t' : Tables} {entry : QueueEntry ℚ}
    (h : (statements entry t.next_id).foldlM execute t = some t') :
    storeEntry t entry = some (t.next_id, t') := by
  obtain ⟨t₁, hlog, hrest⟩ := Option.bind_eq_some_iff.mp h
  obtain ⟨t₂, hdetails, hlast⟩ := Option.bind_eq_some_iff.mp hrest
  obtain rfl := Option.some.inj hlast
  obtain ⟨⟨id, t₁'⟩, hinsert, rfl⟩ := Option.map_eq_some_iff.mp hlog
  have hid : id = t.next_id := by
    simp only [Tables.insertLog, logParams] at hinsert
    split at hinsert
    · cases hinsert
      rfl
    · cases hinsert
  subst hid
  refine Option.bind_eq_some_iff.mpr ⟨_, hinsert, ?_⟩
  exact Option.bind_eq_some_iff.mpr ⟨_, hdetails, rfl⟩

/-- A round stores its entry or leaves the loop with nothing stored. -/
theorem made_of_round {entry : QueueEntry ℚ} {calls : Calls}
    {ended : Except Sqldb.Exception Unit × Sqldb.Transaction.View Statement}
    (h : (round entry calls.orderbook_log_id).run.run calls.handler .new = some ended) :
    ended.2.trace.made = statements entry calls.orderbook_log_id ∨
      (ended.2.trace.made = [] ∧ ended.1.isOk = false) := by
  obtain ⟨r, v, hrun, hend⟩ := Script.Safe.run (round_meets entry calls .new rfl)
  obtain rfl := Option.some.inj (hrun.symm.trans h)
  cases r with
  | ok _ => exact Or.inl hend.2
  | error e =>
    have hmade : v.trace.made = _ := hend.2
    split at hmade
    · exact Or.inl hmade
    · exact Or.inr ⟨hmade, rfl⟩

/-- What a round can do. -/
inductive Wrote (s : State C) (p : Process C) : State C → Prop where
  | kept (c : C) (entry : QueueEntry ℚ) (t : Tables) (writing : Bool) (hwriting : p.writing = true)
      (hentry : p.service.queuePushes[p.taken]? = some (c, entry))
      (h : storeEntry s.tables entry = some (s.tables.next_id, t)) : Wrote s p
        { tables := t
          process := some { p with taken := p.taken + 1, writing := writing }
          stored := s.stored ++ [(s.tables.next_id, entry)] }
  | lost (t : Tables) (hwriting : p.writing = true) (htaken : p.taken < p.service.queuePushes.length)
      (h : t = s.tables ∨ t = s.tables.skipId) : Wrote s p
        { tables := t
          process := some { p with taken := p.taken + 1, writing := false }
          stored := s.stored }

/-- A round leaves the handlers alone. -/
theorem Wrote.process {s s' : State C} {p : Process C} (h : Wrote s p s') :
    ∃ taken writing, s'.process = some { p with taken := taken, writing := writing } := by
  cases h with
  | kept c entry t writing hwriting hentry hstore => exact ⟨_, _, rfl⟩
  | lost t hwriting htaken ht => exact ⟨_, _, rfl⟩

theorem wrote_of_writeRound {s s' : State C} {p : Process C} {calls : Calls} {skips : Bool}
    (h : writeRound s p calls skips = some s') : Wrote s p s' := by
  unfold writeRound at h
  split at h
  · next c entry hwriting hentry =>
    split at h
    · next hid =>
      obtain ⟨ended, hround, h⟩ := Option.bind_eq_some_iff.mp h
      obtain ⟨t, htables, rfl⟩ := Option.map_eq_some_iff.mp h
      rcases made_of_round hround with hmade | ⟨hmade, hfailed⟩
      · have hne : ended.2.trace.made ≠ [] := by rw [hmade]; exact List.cons_ne_nil _ _
        rw [hmade, hid] at htables
        simp only [hne, false_and, if_false, hid]
        exact .kept c entry t _ hwriting hentry (execute_statements htables)
      · rw [hmade] at htables
        obtain rfl := Option.some.inj htables
        simp only [hmade, true_and, if_true, hfailed]
        refine .lost _ hwriting (List.getElem?_eq_some_iff.mp hentry).1 ?_
        cases skips with
        | false => exact Or.inl rfl
        | true => exact Or.inr rfl
    · cases h
  · cases h

/-! ## What the tables hold -/

/-- The tables hold the stored books, in the order of their ids. -/
structure Recorded (securities : List (Nat × Nat)) (t : Tables)
    (stored : List (Nat × QueueEntry ℚ)) : Prop where
  securities : t.securities = securities
  log : t.orderbook_log = stored.map fun book => logRow book.1 book.2
  increasing : stored.Pairwise fun a b => a.1 < b.1
  holds : ∀ book ∈ stored, Holds t book.1 book.2

theorem recorded_created (securities : List (Nat × Nat)) : Recorded securities (created securities) [] where
  securities := rfl
  log := rfl
  increasing := .nil
  holds := fun _ => nofun

section Recorded

variable {securities : List (Nat × Nat)} {t : Tables} {stored : List (Nat × QueueEntry ℚ)}

theorem Recorded.store (h : Recorded securities t stored) {entry : QueueEntry ℚ} {id : Nat} {t' : Tables}
    (hstore : storeEntry t entry = some (id, t')) :
    Recorded securities t' (stored ++ [(id, entry)]) := by
  have hstored := storeEntry_stored hstore
  refine ⟨hstored.securities.trans h.securities, ?_, ?_, ?_⟩
  · rw [hstored.log, h.log, List.map_append]
    rfl
  · refine List.pairwise_append.mpr ⟨h.increasing, List.pairwise_singleton _ _, ?_⟩
    intro book hbook last hlast
    obtain rfl := List.mem_singleton.mp hlast
    exact hstored.id_eq ▸ (h.holds book hbook).below
  · intro book hbook
    rcases List.mem_append.mp hbook with hold | hnew
    · exact holds_storeEntry (h.holds book hold) hstored
    · obtain rfl := List.mem_singleton.mp hnew
      exact holds_of_stored hstored

theorem Recorded.skipId (h : Recorded securities t stored) : Recorded securities t.skipId stored := by
  have hlog : t.skipId.orderbook_log = t.orderbook_log := by
    unfold Tables.skipId
    split <;> rfl
  exact ⟨(securities_skipId t).trans h.securities, hlog.trans h.log, h.increasing,
    fun book hbook => holds_skipId (h.holds book hbook)⟩

/-! ## What is preloaded -/

/-- The record of the query for a stored book. -/
def recordOf (book : Nat × QueueEntry ℚ) : Tables.LogResult where
  id := book.1
  alias_id := book.2.security_id.toNat
  timestamp := OrderbookQueueWriter.toString book.2.timestamp

variable {cfg : Config}

theorem joinSecurity_logRow (h : t.securities = securities) {book : Nat × QueueEntry ℚ}
    (hlasting : Lasting cfg securities book.2) :
    t.joinSecurity (logRow book.1 book.2) = some (recordOf book) := by
  obtain ⟨security, hmem, hid⟩ := hlasting.known
  have hsome : (t.securities.find? fun security =>
      (logRow book.1 book.2).security_id = Decimal.digits security.1).isSome := by
    rw [List.find?_isSome, h]
    exact ⟨security, hmem, by simp [logRow, hid]⟩
  obtain ⟨found, hfound⟩ := Option.isSome_iff_exists.mp hsome
  have hself : found.1 = book.2.security_id.toNat := by
    have hdigits := List.find?_some hfound
    exact (Decimal.digits_injective (of_decide_eq_true hdigits)).symm
  have halias : found.2 = book.2.security_id.toNat :=
    hlasting.own_alias found (h ▸ List.mem_of_find?_eq_some hfound) hself
  rw [Tables.joinSecurity, hfound]
  simp [recordOf, logRow, halias]

theorem after_recordOf {book : Nat × QueueEntry ℚ} (hlasting : Lasting cfg securities book.2) {bound : ℚ}
    (hbound : bound ≤ cfg.size.toNat) : Tables.after bound (recordOf book) = true := by
  rw [Tables.after, recordOf, stod_toString, Decimal.roundTo_of_hasDecimals hlasting.decimals.1]
  exact decide_eq_true (lt_of_le_of_lt hbound hlasting.late)

/-- The query selects the last of the stored books. -/
theorem selectLog_eq (h : Recorded securities t stored)
    (hlasting : ∀ book ∈ stored, Lasting cfg securities book.2) (logSorter : StdSort Tables.LogResult) :
    t.selectLog logSorter cfg.size.toNat 0 0 =
      (stored.drop (stored.length - cfg.size.toNat)).map recordOf := by
  have hjoined : (t.orderbook_log.filterMap t.joinSecurity).filter
      (Tables.after (cfg.size.toNat : ℚ)) = stored.map recordOf := by
    have hmap : t.orderbook_log.filterMap t.joinSecurity = stored.map recordOf := by
      rw [h.log, List.filterMap_map, ← List.filterMap_eq_map]
      refine List.filterMap_congr fun book hbook => ?_
      exact joinSecurity_logRow h.securities (hlasting book hbook)
    rw [hmap, List.filter_eq_self]
    intro record hrecord
    obtain ⟨book, hbook, rfl⟩ := List.mem_map.mp hrecord
    exact after_recordOf (hlasting book hbook) le_rfl
  have hkeys : (stored.map recordOf).Pairwise fun a b => a.id < b.id :=
    List.pairwise_map.mpr h.increasing
  rw [Tables.selectLog, hjoined, List.drop_zero, StdSort.sort_desc_of_ascending logSorter hkeys,
    List.take_reverse, List.filter_eq_self.mpr, StdSort.sort_asc_of_descending, List.reverse_reverse]
  · rw [List.length_map, List.map_drop]
  · rw [List.pairwise_reverse]
    exact hkeys.sublist (List.drop_sublist _ _)
  · intro record hrecord
    obtain ⟨book, hbook, rfl⟩ := List.mem_map.mp (List.mem_of_mem_drop (List.mem_reverse.mp hrecord))
    exact after_recordOf (hlasting book hbook) (Nat.cast_nonneg _)

variable (detailSorter : StdSort DetailRow) (sorter : StdSort (ℚ × ℚ)) (addAbs : ℚ → ℚ → ℚ)

/-- What is built from the details of a lasting book is its live entry. -/
theorem preloadEntry_of_lasting {book : Nat × QueueEntry ℚ} (h : Holds t book.1 book.2)
    (hlasting : Lasting cfg securities book.2) (avg_volumes : List ℚ) :
    ∃ rows live avg', Utils.readDetails (t.selectDetails detailSorter book.1) = some rows ∧
      Utils.preloadEntry sorter addAbs (book.2.security_id.toNat : ℚ)
        (Decimal.roundTo 6 book.2.timestamp) rows avg_volumes = some (live, avg') ∧
      HttpServerHandler.worksetEntry sorter idValue book.2 = some live ∧
      live.orderbook_depth_ ≠ 0 := by
  obtain ⟨rows, hrows, hperm⟩ := readDetails_selectDetails h detailSorter
  obtain ⟨avg', hentry⟩ := preloadEntry_of_fits sorter addAbs (idValue book.2.security_id)
    (Decimal.roundTo 6 book.2.timestamp) (fits_rounded hperm hlasting.fits) avg_volumes
  rw [(entryOf_eq_iff sorter hperm hlasting.distinct hlasting.fits _).mpr hlasting.decimals] at hentry
  refine ⟨rows, _, avg', hrows, hentry, worksetEntry_of_fits sorter idValue book.2 hlasting.fits, ?_⟩
  rw [(entryOf_shows sorter _ _ hlasting.fits).depth]
  have hlevels := hlasting.levels
  omega

/-- The loop over the records of lasting books comes to its end and pushes their live entries. -/
theorem preloadRecords_eq {books : List (Nat × QueueEntry ℚ)}
    (h : ∀ book ∈ books, Holds t book.1 book.2)
    (hlasting : ∀ book ∈ books, Lasting cfg securities book.2) (avg_volumes : List ℚ) :
    (Utils.preloadRecords detailSorter sorter addAbs t (books.map recordOf) avg_volumes).completed =
        true ∧
      (Utils.preloadRecords detailSorter sorter addAbs t (books.map recordOf) avg_volumes).pushed.map
          (fun pushed => some pushed.2) =
        books.map fun book => HttpServerHandler.worksetEntry sorter idValue book.2 := by
  induction books generalizing avg_volumes with
  | nil => exact ⟨rfl, rfl⟩
  | cons book books ih =>
    have hholds := h book List.mem_cons_self
    obtain ⟨rows, live, avg', hrows, hentry, hlive, hdepth⟩ := preloadEntry_of_lasting detailSorter
      sorter addAbs hholds (hlasting book List.mem_cons_self) avg_volumes
    obtain ⟨hcompleted, hpushed⟩ := ih (fun b hb => h b (List.mem_cons_of_mem _ hb))
      (fun b hb => hlasting b (List.mem_cons_of_mem _ hb)) avg'
    have hid : Decimal.stoull (Decimal.digits book.1) = .ok book.1 := by
      have hbelow := hholds.below
      have hle := t.next_id_le
      exact Decimal.stoull_digits (by omega)
    have halias := Decimal.stoull_digits book.2.security_id.toNat_lt
    have hstep : Utils.preloadRecords detailSorter sorter addAbs t ((book :: books).map recordOf)
        avg_volumes =
          { Utils.preloadRecords detailSorter sorter addAbs t (books.map recordOf) avg' with
            pushed := (book.1, live) ::
              (Utils.preloadRecords detailSorter sorter addAbs t (books.map recordOf) avg').pushed } := by
      rw [List.map_cons, Utils.preloadRecords]
      simp only [recordOf, hid, halias, stod_toString, hrows, Option.bind_some, hentry, hdepth, if_false]
    rw [hstep]
    refine ⟨hcompleted, ?_⟩
    rw [List.map_cons, List.map_cons, hpushed, hlive]

/-- A process whose preloading comes to its end pushes the entries of the last stored books. -/
theorem setupOf_rows (logSorter : StdSort Tables.LogResult) (h : Recorded securities t stored)
    (hlasting : ∀ book ∈ stored, Lasting cfg securities book.2) {read : Option Nat}
    (hcompleted : (setupOf logSorter detailSorter sorter addAbs cfg t read).completed = true) :
    (setupOf logSorter detailSorter sorter addAbs cfg t read).rows.map some =
      (stored.drop (stored.length - cfg.size.toNat)).map
        fun book => HttpServerHandler.worksetEntry sorter idValue book.2 := by
  cases read with
  | some n => cases hcompleted
  | none =>
    have hmem : ∀ book ∈ stored.drop (stored.length - cfg.size.toNat), book ∈ stored := fun _ =>
      List.mem_of_mem_drop
    have hrecords := preloadRecords_eq detailSorter sorter addAbs
      (fun book hbook => h.holds book (hmem book hbook))
      (fun book hbook => hlasting book (hmem book hbook)) []
    rw [← hrecords.2]
    simp only [setupOf, Utils.preloadWorksetAsync, selectLog_eq h hlasting, List.map_map]
    rfl

end Recorded

/-! ## What a process keeps -/

section Steps

variable [DecidableEq C] {logSorter : StdSort Tables.LogResult} {detailSorter : StdSort DetailRow}
  {sorter : StdSort (ℚ × ℚ)} {addAbs : ℚ → ℚ → ℚ} {parse : Http.Str → Option (List ℚ × List ℚ)}
  {cfg : Config} {securities : List (Nat × Nat)} {s s' : State C} {p : Process C}

/-- What a step can do. -/
inductive Effect (logSorter : StdSort Tables.LogResult) (detailSorter : StdSort DetailRow)
    (sorter : StdSort (ℚ × ℚ)) (addAbs : ℚ → ℚ → ℚ) (parse : Http.Str → Option (List ℚ × List ℚ))
    (cfg : Config) (s : State C) : Act C → State C → Prop where
  | boot (read : Option Nat) (hnone : s.process = none) :
      Effect logSorter detailSorter sorter addAbs parse cfg s (.boot read)
        { s with process := some (.start (setupOf logSorter detailSorter sorter addAbs cfg s.tables read)
            s.stored) }
  | serve (a : Service.Act C ℚ) (p : Process C) (service : Service.State C ℚ)
      (hp : s.process = some p)
      (hservice : Service.step parse sorter idValue p.setup p.service a = some service) :
      Effect logSorter detailSorter sorter addAbs parse cfg s (.serve a)
        { s with process := some { p with service := service } }
  | write (calls : Calls) (skips : Bool) (p : Process C) (s' : State C) (hp : s.process = some p)
      (hwrote : Wrote s p s') :
      Effect logSorter detailSorter sorter addAbs parse cfg s (.write calls skips) s'
  | exit (p : Process C) (hp : s.process = some p) :
      Effect logSorter detailSorter sorter addAbs parse cfg s .exit { s with process := none }

theorem effect_of_step {a : Act C}
    (h : step logSorter detailSorter sorter addAbs parse cfg s a = some s') :
    Effect logSorter detailSorter sorter addAbs parse cfg s a s' := by
  cases a with
  | boot read =>
    simp only [step] at h
    split at h
    · cases h
    · next hnone =>
      cases h
      exact .boot read hnone
  | serve a =>
    obtain ⟨p, hp, h⟩ := Option.bind_eq_some_iff.mp h
    obtain ⟨service, hservice, rfl⟩ := Option.map_eq_some_iff.mp h
    exact .serve a p service hp hservice
  | write calls skips =>
    obtain ⟨p, hp, h⟩ := Option.bind_eq_some_iff.mp h
    exact .write calls skips p s' hp (wrote_of_writeRound h)
  | exit =>
    obtain ⟨p, hp, rfl⟩ := Option.map_eq_some_iff.mp h
    exact .exit p hp

/-- Nothing leaves the queue pushes. -/
theorem queuePushes_grow {setup : Service.Setup ℚ} {service service' : Service.State C ℚ}
    {a : Service.Act C ℚ} (h : Service.step parse sorter idValue setup service a = some service') :
    service.queuePushes <+: service'.queuePushes := by
  rcases Service.effect_of_step h with ⟨c, -, heff⟩ | heff
  · cases heff with
    | pushQueue entry hphase =>
      show service.queuePushes <+: if setup.persist_workset_to_database then _ else _
      split
      · exact List.prefix_append _ _
      · exact List.prefix_rfl
    | stay => exact List.prefix_rfl
    | move p hnext => exact List.prefix_rfl
    | send response reply hsends => exact List.prefix_rfl
    | getPublisher req hphase => exact List.prefix_rfl
    | pushWorkset publisher entry workset_entry hconn hentry => exact List.prefix_rfl
    | accept publisher req timestamp entry hconn hroute => exact List.prefix_rfl
    | close publisher hconn => exact List.prefix_rfl
    | delete ha hphase => exact List.prefix_rfl
  · cases heff <;> exact List.prefix_rfl

/-- What a process has stored is the front of its queue, and all that was taken from it as long as no
exception has left the writer. -/
def Process.StoresFront (p : Process C) (stored : List (Nat × QueueEntry ℚ)) : Prop :=
  ∃ new n, stored = p.found ++ new ∧
    new.map Prod.snd = (p.service.queuePushes.map Prod.snd).take n ∧ n ≤ p.taken ∧
    (p.writing = true → n = p.taken)

/-- A process works on what it found, and stores the front of its queue. -/
structure Works (sorter : StdSort (ℚ × ℚ)) (parse : Http.Str → Option (List ℚ × List ℚ)) (cfg : Config)
    (securities : List (Nat × Nat)) (stored : List (Nat × QueueEntry ℚ)) (p : Process C) : Prop where
  service : Reachable (Service.system parse sorter idValue p.setup) p.service
  persist : p.setup.persist_workset_to_database = cfg.persist_to_database
  capacity : p.setup.capacity = cfg.size
  rows : (∀ book ∈ p.found, Lasting cfg securities book.2) → p.setup.completed = true →
    p.setup.rows.map some = (p.found.drop (p.found.length - cfg.size.toNat)).map
      fun book => HttpServerHandler.worksetEntry sorter idValue book.2
  taken : p.taken ≤ p.service.queuePushes.length
  front : p.StoresFront stored

/-- The tables hold what was stored, and the process works on them. -/
structure Durable (sorter : StdSort (ℚ × ℚ)) (parse : Http.Str → Option (List ℚ × List ℚ)) (cfg : Config)
    (securities : List (Nat × Nat)) (s : State C) : Prop where
  recorded : Recorded securities s.tables s.stored
  works : ∀ p, s.process = some p → Works sorter parse cfg securities s.stored p

omit [DecidableEq C] in
theorem Process.StoresFront.serve {stored : List (Nat × QueueEntry ℚ)} (h : p.StoresFront stored)
    (htaken : p.taken ≤ p.service.queuePushes.length) {service : Service.State C ℚ}
    (hgrows : p.service.queuePushes <+: service.queuePushes) :
    Process.StoresFront { p with service := service } stored := by
  obtain ⟨new, n, hstored, hnew, hn, hwriting⟩ := h
  refine ⟨new, n, hstored, ?_, hn, hwriting⟩
  obtain ⟨more, hmore⟩ := hgrows
  rw [hnew, ← hmore, List.map_append, List.take_append_of_le_length]
  rw [List.length_map]
  exact hn.trans htaken

theorem Works.boot (h : Recorded securities s.tables s.stored) (read : Option Nat) :
    Works sorter parse cfg securities s.stored
      (Process.start (C := C) (setupOf logSorter detailSorter sorter addAbs cfg s.tables read)
        s.stored) where
  service := .init rfl
  persist := rfl
  capacity := rfl
  rows := fun hlasting => setupOf_rows detailSorter sorter addAbs logSorter h hlasting
  taken := Nat.le_refl 0
  front := ⟨[], 0, (List.append_nil _).symm, rfl, Nat.le_refl 0, fun _ => rfl⟩

theorem Works.serve {stored : List (Nat × QueueEntry ℚ)} (h : Works sorter parse cfg securities stored p)
    {a : Service.Act C ℚ} {service : Service.State C ℚ}
    (hstep : Service.step parse sorter idValue p.setup p.service a = some service) :
    Works sorter parse cfg securities stored { p with service := service } where
  service := h.service.step hstep
  persist := h.persist
  capacity := h.capacity
  rows := h.rows
  taken := h.taken.trans (queuePushes_grow hstep).length_le
  front := h.front.serve h.taken (queuePushes_grow hstep)

/-- A round takes one entry and stores it or not. -/
theorem Works.round {stored : List (Nat × QueueEntry ℚ)} (h : Works sorter parse cfg securities stored p)
    {stored' : List (Nat × QueueEntry ℚ)} {writing : Bool}
    (htaken : p.taken < p.service.queuePushes.length)
    (hfront : Process.StoresFront { p with taken := p.taken + 1, writing := writing } stored') :
    Works sorter parse cfg securities stored' { p with taken := p.taken + 1, writing := writing } where
  service := h.service
  persist := h.persist
  capacity := h.capacity
  rows := h.rows
  taken := htaken
  front := hfront

theorem Durable.wrote (h : Durable sorter parse cfg securities s) (hp : s.process = some p)
    (hwrote : Wrote s p s') : Durable sorter parse cfg securities s' := by
  have hworks := h.works p hp
  obtain ⟨new, n, hstored, hnew, hn, hall⟩ := hworks.front
  cases hwrote with
  | kept c entry t writing hwriting hentry hstore =>
    refine ⟨h.recorded.store hstore, ?_⟩
    rintro _ ⟨⟩
    have htaken := (List.getElem?_eq_some_iff.mp hentry).1
    refine hworks.round htaken ⟨new ++ [(s.tables.next_id, entry)], p.taken + 1, ?_, ?_,
      Nat.le_refl _, fun _ => rfl⟩
    · rw [hstored, List.append_assoc]
    · rw [List.take_add_one, List.getElem?_map, hentry, List.map_append, hnew, hall hwriting]
      rfl
  | lost t hwriting htaken ht =>
    refine ⟨?_, ?_⟩
    · rcases ht with rfl | rfl
      · exact h.recorded
      · exact h.recorded.skipId
    · rintro _ ⟨⟩
      exact hworks.round htaken ⟨new, n, hstored, hnew, Nat.le_succ_of_le hn, nofun⟩

theorem Durable.step {a : Act C} (h : Durable sorter parse cfg securities s)
    (hstep : step logSorter detailSorter sorter addAbs parse cfg s a = some s') :
    Durable sorter parse cfg securities s' := by
  cases effect_of_step hstep with
  | boot read hnone =>
    refine ⟨h.recorded, ?_⟩
    rintro _ ⟨⟩
    exact Works.boot h.recorded read
  | serve a p service hp hservice =>
    refine ⟨h.recorded, ?_⟩
    rintro _ ⟨⟩
    exact (h.works p hp).serve hservice
  | write calls skips p s' hp hwrote => exact h.wrote hp hwrote
  | exit p hp => exact ⟨h.recorded, nofun⟩

theorem durable_of_reachable
    (h : Reachable (system logSorter detailSorter sorter addAbs parse cfg securities) s) :
    Durable sorter parse cfg securities s :=
  h.invariant_ofStep ⟨recorded_created securities, nofun⟩ fun _ _ _ hI hstep => hI.step hstep

end Steps

/-! ## Every run -/

section Runs

variable [DecidableEq C] {logSorter : StdSort Tables.LogResult} {detailSorter : StdSort DetailRow}
  {sorter : StdSort (ℚ × ℚ)} {addAbs : ℚ → ℚ → ℚ} {parse : Http.Str → Option (List ℚ × List ℚ)}
  {cfg : Config} {securities : List (Nat × Nat)} {s s' : State C} {p p' : Process C}

/-- The entries that the handlers have pushed are those of their books. -/
theorem live_eq {setup : Service.Setup ℚ} {service : Service.State C ℚ}
    (h : Reachable (Service.system parse sorter idValue setup) service) :
    service.live.map some = (service.worksetPushes.map fun push => push.2.1).map
      (HttpServerHandler.worksetEntry sorter idValue) := by
  have haccounted : Service.Accounted setup.persist_workset_to_database
      (HttpServerHandler.worksetEntry sorter idValue) service :=
    Service.invariant_of_effects (Service.accounted_init setup) (fun hI _ heff => hI.effect heff)
      Service.Accounted.preloadEffect h
  rw [Service.State.live, List.map_map, List.map_map]
  exact List.map_congr_left fun push hpush => (haccounted.built push hpush).symm

/-- **The workset outlasts the process.** Once a process is ready, its ring holds the entries of the
last books: of those that were stored before it and then of those that its handlers have pushed. What it
stores itself is the front of its queue. -/
theorem workset_shows_stored
    (h : Reachable (system logSorter detailSorter sorter addAbs parse cfg securities) s)
    (hp : s.process = some p) (hlasting : ∀ book ∈ p.found, Lasting cfg securities book.2)
    (hready : p.service.ready_ = true) :
    p.service.ws.workset_.items.map some =
        (p.books.map (HttpServerHandler.worksetEntry sorter idValue)).drop
          (p.books.length - cfg.size.toNat) ∧
      p.StoresFront s.stored := by
  have hworks := (durable_of_reachable h).works p hp
  refine ⟨?_, hworks.front⟩
  have hgated := Service.gated_of_reachable hworks.service
  obtain ⟨unreleased, hfinished⟩ := hgated.ready hready
  have hpushed := hgated.pushed
  rw [hfinished] at hpushed
  obtain ⟨hloaded, hcompleted⟩ := hpushed
  have hall : (p.service.loaded ++ p.service.live).map some =
      (((p.found.map Prod.snd).drop ((p.found.map Prod.snd).length - cfg.size.toNat) ++
        p.service.worksetPushes.map fun push => push.2.1).map
          (HttpServerHandler.worksetEntry sorter idValue)) := by
    rw [List.map_append, List.map_append, hloaded, hworks.rows hlasting hcompleted,
      live_eq hworks.service, List.length_map, ← List.map_drop, List.map_map, List.map_map]
    rfl
  have hholds := hgated.holds
  rw [CircularBuffer.Holds, p.service.ws.capacity_eq, hgated.capacity, hworks.capacity] at hholds
  rw [hholds, List.map_drop, ← List.length_map some, hall, List.length_map, ← List.map_drop,
    CircularBuffer.last_append, List.map_drop]
  rfl

/-- With one server thread the queue has the order of the workset. -/
theorem ordered_of_reachable
    (h : Reachable (oneAtATime logSorter detailSorter sorter addAbs parse cfg securities) s)
    (hpersist : cfg.persist_to_database = true) :
    ∀ p, s.process = some p →
      p.setup.persist_workset_to_database = true ∧ Service.Ordered p.service := by
  refine h.invariant (I := fun s => ∀ p, s.process = some p →
    p.setup.persist_workset_to_database = true ∧ Service.Ordered p.service) ?_ ?_
  · rintro _ rfl
    exact nofun
  · rintro s a s' hI ⟨hstep, hone⟩ q hq
    have hatMost := hone s' hstep
    cases effect_of_step hstep with
    | boot read hnone =>
      cases hq
      exact ⟨hpersist, [], rfl, fun _ _ => ⟨nofun, nofun⟩, Nat.zero_le 1⟩
    | serve b p service hp hservice =>
      cases hq
      obtain ⟨hsetup, hordered⟩ := hI p hp
      refine ⟨hsetup, ?_⟩
      rcases Service.effect_of_step hservice with ⟨c, -, heff⟩ | heff
      · rw [hsetup] at heff
        exact hordered.effect heff (hatMost _ rfl)
      · exact hordered.preloadEffect heff
    | write calls skips p s' hp hwrote =>
      obtain ⟨taken, writing, hprocess⟩ := hwrote.process
      rw [hprocess] at hq
      cases hq
      exact hI p hp
    | exit p hp => cases hq

/-- As long as the process does not end, it is one and the same. -/
theorem found_of_run {acts : List (Act C)} (hacts : Act.exit ∉ acts)
    (hrun : run (step logSorter detailSorter sorter addAbs parse cfg) s acts = some s')
    (hp : s.process = some p) (hp' : s'.process = some p') : p'.found = p.found := by
  induction acts generalizing s p with
  | nil =>
    cases hrun
    rw [hp] at hp'
    cases hp'
    rfl
  | cons a acts ih =>
    obtain ⟨s₁, hstep, hrest⟩ := Option.bind_eq_some_iff.mp hrun
    have hne : Act.exit ≠ a := fun h => hacts (h ▸ List.mem_cons_self)
    have hlater : Act.exit ∉ acts := fun h => hacts (List.mem_cons_of_mem _ h)
    cases effect_of_step hstep with
    | boot read hnone => cases hp.symm.trans hnone
    | serve b q service hq hservice =>
      obtain rfl := Option.some.inj (hp.symm.trans hq)
      have hsame := ih hlater hrest rfl
      exact hsame
    | write calls skips q s₁ hq hwrote =>
      obtain rfl := Option.some.inj (hp.symm.trans hq)
      obtain ⟨taken, writing, hprocess⟩ := hwrote.process
      have hsame := ih hlater hrest hprocess
      exact hsame
    | exit q hq => exact absurd rfl hne

/-- What a process with an empty queue has stored: all that its ring should show. -/
theorem stored_eq_books
    (h : Reachable (oneAtATime logSorter detailSorter sorter addAbs parse cfg securities) s)
    (hpersist : cfg.persist_to_database = true) (hp : s.process = some p) (hwriting : p.writing = true)
    (htaken : p.taken = p.service.queuePushes.length)
    (hidle : ∀ c, (p.service.connections c).phase.inFlight = []) :
    s.stored.map Prod.snd = p.books := by
  obtain ⟨new, n, hstored, hnew, -, hall⟩ := ((durable_of_reachable h.of_restrict).works p hp).front
  obtain ⟨-, rest, hqueue, hrest, -⟩ := ordered_of_reachable h hpersist p hp
  have hnone : rest = [] := by
    refine List.eq_nil_iff_forall_not_mem.mpr ?_
    rintro ⟨c, entry⟩ hmem
    exact Service.inFlight_eq_nil (hidle c) entry ((hrest c entry).mp hmem)
  rw [hall hwriting, htaken, List.take_of_length_le (by rw [List.length_map]), hqueue, hnone,
    List.append_nil, List.map_map] at hnew
  rw [hstored, List.map_append, hnew]
  rfl

/-- **A restart loses nothing that was stored.** A process that ends when the writer has stored its whole
queue leaves its workset to the next one: once that is ready, its ring holds the last entries of what the
old ring held, followed by its own. -/
theorem restart_restores
    (h : Reachable (oneAtATime logSorter detailSorter sorter addAbs parse cfg securities) s)
    (hpersist : cfg.persist_to_database = true)
    (hlasting : ∀ book ∈ s.stored, Lasting cfg securities book.2)
    (hp : s.process = some p) (hready : p.service.ready_ = true) (hwriting : p.writing = true)
    (htaken : p.taken = p.service.queuePushes.length)
    (hidle : ∀ c, (p.service.connections c).phase.inFlight = [])
    {read : Option Nat} {acts : List (Act C)} (hacts : Act.exit ∉ acts)
    (hrun : run (step logSorter detailSorter sorter addAbs parse cfg) s
      (.exit :: .boot read :: acts) = some s')
    (hp' : s'.process = some p') (hready' : p'.service.ready_ = true) :
    p'.service.ws.workset_.items =
      (p.service.ws.workset_.items ++ p'.service.live).drop
        ((p.service.ws.workset_.items ++ p'.service.live).length - cfg.size.toNat) := by
  have hreach := h.of_restrict
  have hreach' := reachable_run hreach hrun
  have hworks' := (durable_of_reachable hreach').works p' hp'
  have hfound : p'.found = s.stored := by
    obtain ⟨s₁, hexit, hrest⟩ := Option.bind_eq_some_iff.mp hrun
    obtain ⟨s₂, hboot, hrest⟩ := Option.bind_eq_some_iff.mp hrest
    obtain ⟨q, -, rfl⟩ := Option.map_eq_some_iff.mp hexit
    cases hboot
    exact found_of_run hacts hrest rfl hp'
  have hold : ∀ book ∈ p.found, Lasting cfg securities book.2 := by
    obtain ⟨new, n, hstored, -⟩ := ((durable_of_reachable hreach).works p hp).front
    intro book hbook
    exact hlasting book (hstored ▸ List.mem_append_left _ hbook)
  have hring := (workset_shows_stored hreach hp hold hready).1
  have hring' := (workset_shows_stored hreach' hp' (hfound ▸ hlasting) hready').1
  have hbooks : p'.books = p.books ++ p'.service.worksetPushes.map fun push => push.2.1 := by
    rw [Process.books, hfound, stored_eq_books h hpersist hp hwriting htaken hidle]
  have hall : (p.service.ws.workset_.items ++ p'.service.live).map some =
      (p.books.map (HttpServerHandler.worksetEntry sorter idValue)).drop
          ((p.books.map (HttpServerHandler.worksetEntry sorter idValue)).length - cfg.size.toNat) ++
        (p'.service.worksetPushes.map fun push => push.2.1).map
          (HttpServerHandler.worksetEntry sorter idValue) := by
    rw [List.map_append, hring, live_eq hworks'.service, List.length_map]
  apply List.map_injective_iff.mpr (Option.some_injective _)
  rw [List.map_drop, ← List.length_map some, hall, CircularBuffer.last_append, ← List.map_append,
    List.length_map, hring', hbooks]

/-! ## Two processes -/

/-- A workset of two, and the books are recorded. -/
def twoEntries : Config where
  persist_to_database := true
  size := 2
  size_le := by decide

/-- A body with a bid and an ask. -/
def bidAndAsk (_ : Http.Str) : Option (List ℚ × List ℚ) := some ([10, 11], [1, -1])

/-- The steps of processes that read such bodies. -/
def twoEntriesStep : State Bool → Act Bool → Option (State Bool) :=
  step (.insertion _) (.insertion _) (.insertion _) (fun sum volume => sum + |volume|) bidAndAsk
    twoEntries

/-- A process without a row to preload; a book is added and stored. -/
def firstProcess : List (Act Bool) :=
  [.boot none, .serve .preloadStart, .serve .preloadEnd, .serve .setReady,
    .serve (.request false localBook), .serve (.createHandler false), .serve (.getPublisher false),
    .serve (.route false 5), .serve (.pushQueue false), .serve (.pushWorkset false),
    .serve (.answer false false), .write (.fine 1) false]

/-- The next process, until it has pushed a book of its own. -/
def nextProcess : List (Act Bool) :=
  [.serve .preloadStart, .serve .preloadPush, .serve .preloadEnd, .serve .setReady,
    .serve (.request true localBook), .serve (.createHandler true), .serve (.getPublisher true),
    .serve (.route true 6), .serve (.pushQueue true), .serve (.pushWorkset true)]

/-- The book of the first process. -/
def firstBook : QueueEntry ℚ where
  security_id := 7
  timestamp := 5
  prices := [10, 11]
  volumes := [1, -1]
  size_eq := rfl

theorem firstBook_lasting : Lasting twoEntries [(7, 7)] firstBook where
  known := ⟨(7, 7), List.mem_singleton_self _, rfl⟩
  own_alias := by decide
  late := show ((2 : ℕ) : ℚ) < 5 by norm_num
  levels := Nat.le_refl 2
  distinct := show ([10, 11] : List ℚ).Nodup by decide +kernel
  fits := show Fits [((10 : ℚ), (1 : ℚ)), (11, -1)] from ⟨by decide +kernel, by decide +kernel⟩
  decimals := by
    refine ⟨⟨5000000, by norm_num [firstBook]⟩, ?_⟩
    intro level hlevel _
    rcases List.mem_cons.mp hlevel with rfl | hlevel
    · exact ⟨⟨10000000, by norm_num⟩, ⟨1000000, by norm_num⟩⟩
    · rw [List.mem_singleton.mp hlevel]
      exact ⟨⟨11000000, by norm_num⟩, ⟨-1000000, by norm_num⟩⟩

/-- The first book is stored, and nothing else. -/
def OnlyFirst (books : List (Nat × QueueEntry ℚ)) : Prop :=
  books.map (fun book =>
    (book.1, book.2.security_id, book.2.timestamp, book.2.prices, book.2.volumes)) =
      [(1, 7, 5, [10, 11], [1, -1])]

instance (books : List (Nat × QueueEntry ℚ)) : Decidable (OnlyFirst books) :=
  inferInstanceAs (Decidable (List.map _ _ = _))

theorem OnlyFirst.eq {books : List (Nat × QueueEntry ℚ)} (h : OnlyFirst books) :
    books = [(1, firstBook)] := by
  obtain ⟨book, rest, rfl, hbook, hrest⟩ := List.map_eq_cons_iff.mp h
  obtain rfl := List.map_eq_nil_iff.mp hrest
  obtain ⟨id, security_id, timestamp, prices, volumes, hsize⟩ := book
  simp only [Prod.mk.injEq] at hbook
  obtain ⟨rfl, rfl, rfl, rfl, rfl⟩ := hbook
  rfl

theorem OnlyFirst.lasting {books : List (Nat × QueueEntry ℚ)} (h : OnlyFirst books) :
    ∀ book ∈ books, Lasting twoEntries [(7, 7)] book.2 := by
  intro book hbook
  rw [h.eq] at hbook
  rw [List.mem_singleton.mp hbook]
  exact firstBook_lasting

theorem nextProcess_runs :
    ∃ s p s' p', run twoEntriesStep (.init [(7, 7)]) firstProcess = some s ∧ s.process = some p ∧
      run twoEntriesStep s (.exit :: .boot none :: nextProcess) = some s' ∧ s'.process = some p' ∧
      (p.service.ready_ = true ∧ p.writing = true ∧ p.taken = p.service.queuePushes.length ∧
        (∀ c, (p.service.connections c).phase.inFlight.isEmpty = true)) ∧
      OnlyFirst s.stored ∧ OnlyFirst p'.found ∧ p'.service.ready_ = true ∧
      p'.service.live.length = 1 := by
  have hruns : ((run twoEntriesStep (.init [(7, 7)]) firstProcess).any fun s => s.process.any fun p =>
      (run twoEntriesStep s (.exit :: .boot none :: nextProcess)).any fun s' => s'.process.any fun p' =>
        decide ((p.service.ready_ = true ∧ p.writing = true ∧
            p.taken = p.service.queuePushes.length ∧
            (∀ c, (p.service.connections c).phase.inFlight.isEmpty = true)) ∧
          OnlyFirst s.stored ∧ OnlyFirst p'.found ∧ p'.service.ready_ = true ∧
          p'.service.live.length = 1)) = true := by decide +kernel
  obtain ⟨s, hs, hruns⟩ := (Option.any_eq_true _ _).mp hruns
  obtain ⟨p, hp, hruns⟩ := (Option.any_eq_true _ _).mp hruns
  obtain ⟨s', hs', hruns⟩ := (Option.any_eq_true _ _).mp hruns
  obtain ⟨p', hp', hruns⟩ := (Option.any_eq_true _ _).mp hruns
  exact ⟨s, p, s', p', hs, hp, hs', hp', of_decide_eq_true hruns⟩

theorem workset_shows_stored_next_process :
    ∃ (s : State Bool) (p : Process Bool), Reachable (system (.insertion _) (.insertion _) (.insertion _)
        (fun sum volume => sum + |volume|) bidAndAsk twoEntries [(7, 7)]) s ∧
      s.process = some p ∧ p.found.length = 1 ∧ p.service.live.length = 1 ∧
      p.service.ws.workset_.items.map some =
        (p.books.map (HttpServerHandler.worksetEntry (.insertion _) idValue)).drop
          (p.books.length - twoEntries.size.toNat) ∧
      p.StoresFront s.stored := by
  obtain ⟨s, p, s', p', hs, -, hs', hp', -, -, hfound, hready', hlive⟩ := nextProcess_runs
  have hreach := reachable_run (reachable_of_run firstProcess hs) hs'
  exact ⟨s', p', hreach, hp', by rw [hfound.eq]; rfl, hlive,
    workset_shows_stored hreach hp' hfound.lasting hready'⟩

/-- The side condition of `oneAtATime`, for one step. -/
instance (s : State Bool) (a : Act Bool) : Decidable (∀ s',
    twoEntriesStep s a = some s' → s'.AtMostOne) :=
  decidable_of_iff ((twoEntriesStep s a).all fun s' => s'.process.all fun p =>
    decide p.service.AtMostOne) (by simp [Option.all_eq_true, State.AtMostOne])

theorem restart_restores_next_process :
    ∃ s p s' p', run twoEntriesStep (.init [(7, 7)]) firstProcess = some s ∧ s.process = some p ∧
      run twoEntriesStep s (.exit :: .boot none :: nextProcess) = some s' ∧ s'.process = some p' ∧
      p'.service.live.length = 1 ∧
      p'.service.ws.workset_.items =
        (p.service.ws.workset_.items ++ p'.service.live).drop
          ((p.service.ws.workset_.items ++ p'.service.live).length - twoEntries.size.toNat) := by
  obtain ⟨s, p, s', p', hs, hp, hs', hp', ⟨hready, hwriting, htaken, hidle⟩, hstored, -, hready',
    hlive⟩ := nextProcess_runs
  have hreach : Reachable (oneAtATime (.insertion _) (.insertion _) (.insertion _)
      (fun sum volume => sum + |volume|) bidAndAsk twoEntries [(7, 7)]) s :=
    reachable_restrict_run firstProcess (.init rfl)
      (show RunMeets twoEntriesStep (fun s a => ∀ s', twoEntriesStep s a = some s' → s'.AtMostOne)
        (.init [(7, 7)]) firstProcess by decide +kernel) hs
  have hidle : ∀ c, (p.service.connections c).phase.inFlight = [] := fun c =>
    List.isEmpty_iff.mp (hidle c)
  have hacts : Act.exit ∉ nextProcess := by simp [nextProcess]
  exact ⟨s, p, s', p', hs, hp, hs', hp', hlive, restart_restores hreach rfl hstored.lasting hp hready
    hwriting htaken hidle hacts hs' hp' hready'⟩

end Runs

end DemoManager.Restart

import ItexDemo.Quant.Proofs.WorksetProofs
import ItexDemo.Quant.Snapshot

/-!
# The snapshot supplies the drawing loop

While the call copies, what it has popped and what it can still pop are together at least `x_size`:
a push never takes away from the number of entries that a subscriber can still pop, and a pop moves
one of them. The copy holds the last `x_size` entries that were popped, and nothing is pushed to it
while they are drawn.
-/

/-- The number of entries that a cursor can still be given. -/
def Log.left {Entry : Type*} (l : Log Entry) (c : Cursor) : Nat := l.pushed.length - l.position c

namespace Quant.Drawing

open Transition Workset Partial

variable {D : Type*}

/-! ## The subscriber of a workset -/

section Reads

variable {ws : Workset (OrderbookEntry D)} {subscriber : Option Nat} {l : Log (OrderbookEntry D)}
  {c : Cursor}

/-- The subscriber is in use and has the cursor `c` in the log that the workset represents. -/
structure Reads (ws : Workset (OrderbookEntry D)) (subscriber : Option Nat)
    (l : Log (OrderbookEntry D)) (c : Cursor) : Prop where
  refines : Refines ws l
  handle : ∃ h, subscriber = some h ∧ h < l.nextHandle ∧ l.cursors h = some c

theorem Reads.current (hr : Reads ws subscriber l c) :
    ∃ h i, current ws subscriber = some (h, i) := by
  obtain ⟨h, rfl, -, hc⟩ := hr.handle
  obtain ⟨i, hi, -⟩ := hr.refines.index_of_cursor hc
  exact ⟨h, i, by simp [Drawing.current, hi]⟩

/-- The index and the cursor of the subscriber. -/
theorem Reads.of_current (hr : Reads ws subscriber l c) {h : Nat} {i : UInt64}
    (hcur : Drawing.current ws subscriber = some (h, i)) :
    ws.subscribers_ h = some i ∧ subscriber = some h ∧ h < l.nextHandle ∧ l.cursors h = some c ∧
      IndexRel l.base l.pushed.length i c := by
  obtain ⟨k, rfl, hlt, hc⟩ := hr.handle
  have hi : ws.subscribers_ k = some i ∧ k = h := by
    unfold Drawing.current at hcur
    cases hk : ws.subscribers_ k with
    | none => simp [hk] at hcur
    | some i' =>
      simp only [hk, Option.bind_eq_bind, Option.bind_some, Option.pure_def, Option.some.injEq,
        Prod.mk.injEq] at hcur
      exact ⟨by rw [hcur.2], hcur.1⟩
  obtain ⟨hi, rfl⟩ := hi
  obtain ⟨c', hc', hidx⟩ := hr.refines.cursor hi
  obtain rfl : c' = c := Option.some.inj (hc'.symm.trans hc)
  exact ⟨hi, rfl, hlt, hc, hidx⟩

/-- A new subscriber starts at the oldest entry. -/
theorem Reads.start (hr : Refines ws l) :
    Reads ws.getSubscriber (some ws.nextHandle) (l.subscribe l.base) ⟨l.base, l.base⟩ where
  refines := by
    apply subscribe_refines hr
    refine ⟨by simp, ?_⟩
    simp only [Log.base]
    omega
  handle := by
    refine ⟨ws.nextHandle, rfl, ?_, ?_⟩
    · rw [hr.nextHandle]
      exact Nat.lt_succ_self _
    · rw [hr.nextHandle]
      exact Function.update_self ..

/-- Without the lock, and without an entry, `try_pop` does nothing. -/
theorem Reads.tryPop_none (hr : Reads ws subscriber l c) {h : Nat} {i : UInt64}
    (hcur : Drawing.current ws subscriber = some (h, i)) {locked : Bool}
    (hno : ¬ (locked = true ∧ 0 < l.left c)) : ws.tryPop h i locked = (ws, none) := by
  obtain ⟨-, -, -, -, hidx⟩ := hr.of_current hcur
  cases locked with
  | false => rfl
  | true =>
    have hav := available_iff hr.refines hidx
    have hfalse : (!ws.workset_.empty && decide (i < ws.size)) = false := by
      rw [Bool.eq_false_iff]
      intro ht
      have hpos := hav.mp ht
      apply hno
      refine ⟨rfl, ?_⟩
      unfold Log.left
      omega
    simp [tryPop, hfalse]

/-- With the lock and an entry, `try_pop` gives the next entry and moves just behind it. -/
theorem Reads.tryPop_some (hr : Reads ws subscriber l c) {h : Nat} {i : UInt64}
    (hcur : Drawing.current ws subscriber = some (h, i)) (hleft : 0 < l.left c) :
    ∃ ws' e, ws.tryPop h i true = (ws', some e) ∧ l.pushed[l.position c]? = some e ∧
      ws'.capacity_ = ws.capacity_ ∧ ws'.workset_ = ws.workset_ ∧
      Reads ws' subscriber
        { l with cursors := Function.update l.cursors h (some { c with next := l.position c + 1 }) }
        { c with next := l.position c + 1 } := by
  obtain ⟨-, hsub, hlt, -, hidx⟩ := hr.of_current hcur
  have hpos : l.position c < l.pushed.length := by
    unfold Log.left at hleft
    omega
  obtain ⟨hrefines, hentry⟩ := tryPop_refines (s := h) hr.refines hidx true
  simp only [Log.tryPop, hpos, and_self, if_true] at hrefines hentry
  have hwithin := (available_iff hr.refines hidx).mpr hpos
  refine ⟨(ws.tryPop h i true).1, l.pushed[l.position c], ?_, List.getElem?_eq_getElem hpos, ?_,
    ?_, hrefines, h, hsub, hlt, ?_⟩
  · rw [← List.getElem?_eq_getElem hpos, ← hentry]
  · simp [tryPop, hwithin]
  · simp [tryPop, hwithin]
  · exact Function.update_self ..

theorem left_pop (h : Nat) (hleft : 0 < l.left c) :
    Log.left { l with cursors := Function.update l.cursors h (some { c with next := l.position c + 1 }) }
      { c with next := l.position c + 1 } + 1 = l.left c := by
  unfold Log.left at hleft ⊢
  unfold Log.position Log.base at hleft ⊢
  dsimp only
  omega

/-- What others do leaves the cursor where it is, and with at least as many entries as before. -/
theorem left_le_of_foreign {l' : Log (OrderbookEntry D)} {op : Op (OrderbookEntry D)}
    {r : Result (OrderbookEntry D)} {h : Nat} (hop : Foreign (some h) op) (hlt : h < l.nextHandle)
    (hc : l.cursors h = some c) (hs : l.step op = some (l', r)) :
    h < l'.nextHandle ∧ l'.cursors h = some c ∧ l.left c ≤ l'.left c := by
  have hne : h ≠ l.nextHandle := Nat.ne_of_lt hlt
  cases op with
  | getPublisher =>
    cases hs
    exact ⟨Nat.lt_succ_of_lt hlt, hc, le_rfl⟩
  | getSubscriber =>
    cases hs
    exact ⟨Nat.lt_succ_of_lt hlt, (Function.update_of_ne hne ..).trans hc, le_rfl⟩
  | push p e =>
    simp only [Log.step] at hs
    split_ifs at hs
    cases hs
    refine ⟨hlt, hc, ?_⟩
    -- the end of the log moves by one, its oldest entry by at most one
    unfold Log.left Log.position Log.base
    simp only [List.length_append, List.length_singleton]
    omega
  | tryPop s locked =>
    obtain ⟨d, -, heq⟩ := Option.map_eq_some_iff.mp hs
    have hsne : h ≠ s := by
      rintro rfl
      exact hop rfl
    unfold Log.tryPop at heq
    split_ifs at heq
    · cases heq
      exact ⟨hlt, (Function.update_of_ne hsne ..).trans hc, le_rfl⟩
    · cases heq
      exact ⟨hlt, hc, le_rfl⟩
  | numAvailable s =>
    obtain ⟨d, -, heq⟩ := Option.map_eq_some_iff.mp hs
    cases heq
    exact ⟨hlt, hc, le_rfl⟩
  | clone s =>
    obtain ⟨d, -, heq⟩ := Option.map_eq_some_iff.mp hs
    cases heq
    exact ⟨Nat.lt_succ_of_lt hlt, (Function.update_of_ne hne ..).trans hc, le_rfl⟩
  | releasePublisher p =>
    simp only [Log.step] at hs
    split_ifs at hs
    cases hs
    exact ⟨hlt, hc, le_rfl⟩
  | releaseSubscriber s =>
    obtain ⟨d, -, heq⟩ := Option.map_eq_some_iff.mp hs
    cases heq
    have hsne : h ≠ s := by
      rintro rfl
      exact hop rfl
    exact ⟨hlt, (Function.update_of_ne hsne ..).trans hc, le_rfl⟩

end Reads

/-- An operation on a workset is one on the log. -/
theorem refines_of_step {ws ws' : Workset (OrderbookEntry D)} {l : Log (OrderbookEntry D)}
    {op : Op (OrderbookEntry D)} {r : Result (OrderbookEntry D)} (hr : Refines ws l)
    (hs : ws.step op = some (ws', r)) : ∃ l', l.step op = some (l', r) ∧ Refines ws' l' := by
  obtain ⟨⟨l', r'⟩, hy, hxy, heq⟩ := exists_right (step_refines ws l op hr) hs
  cases heq
  exact ⟨l', hy, hxy⟩

/-! ## What the copying loop notes -/

section Notes

variable (a : Arithmetic D) (x_size : Nat)

theorem find_note (sec_map : SecMap D) (e : OrderbookEntry D) (s : Nat) :
    AssocMap.find (note a x_size sec_map e) s =
      (AssocMap.find sec_map s).or (if secId a e = s then some (newData a x_size e) else none) := by
  unfold note
  dsimp only
  split_ifs with hnew hs hs
  · rw [AssocMap.emplace_of_none hnew, AssocMap.find_append, AssocMap.find, if_pos hs]
  · rw [AssocMap.emplace_of_none hnew, AssocMap.find_append, AssocMap.find, if_neg hs,
      AssocMap.find_nil]
  · obtain ⟨swd, hswd⟩ := Option.ne_none_iff_exists'.mp hnew
    rw [← hs, hswd, Option.some_or]
  · rw [Option.or_none]

/-- A security has the data of the first entry that was popped of it. -/
theorem find_noteAll (popped : List (OrderbookEntry D)) (s : Nat) :
    AssocMap.find (noteAll a x_size popped) s =
      (popped.find? fun e => secId a e = s).map (newData a x_size) := by
  suffices hgen : ∀ sec_map, AssocMap.find (popped.foldl (note a x_size) sec_map) s =
      (AssocMap.find sec_map s).or
        ((popped.find? fun e => secId a e = s).map (newData a x_size)) from hgen []
  induction popped with
  | nil =>
    intro sec_map
    exact (Option.or_none ..).symm
  | cons e popped ih =>
    intro sec_map
    rw [List.foldl_cons, ih, find_note, Option.or_assoc, List.find?_cons]
    by_cases hs : secId a e = s
    · simp [hs]
    · simp [hs]

theorem find_noteAll_isSome {popped : List (OrderbookEntry D)} {e : OrderbookEntry D}
    (he : e ∈ popped) : (AssocMap.find (noteAll a x_size popped) (secId a e)).isSome := by
  rw [find_noteAll, Option.isSome_map, List.find?_isSome]
  exact ⟨e, he, decide_eq_true rfl⟩

end Notes

/-! ## The invariant of a call -/

section Invariant

variable (a : Arithmetic D)

/-- The call holds a subscriber that can still pop `n` entries. -/
def CanPop (ows : Workset (OrderbookEntry D)) (subscriber : Option Nat) (n : Nat) : Prop :=
  ∃ l c, Reads ows subscriber l c ∧ l.left c = n

/-- The log has an entry that can still be delivered. -/
def Stocked (l : Log (OrderbookEntry D)) : Prop := 0 < l.pushed.length ∧ 0 < l.capacity

/-- The call holds a subscriber that has been given nothing, on a workset with entries. -/
def AtOldest (ows : Workset (OrderbookEntry D)) (subscriber : Option Nat) : Prop :=
  ∃ l c, Reads ows subscriber l c ∧ c.next ≤ l.base ∧ Stocked l

/-- Nothing has been copied yet. -/
structure Fresh (s : Call D) : Prop where
  sec_map : s.sec_map = []
  popped : s.popped = []
  drawn : s.drawn = []

/-- The copy represents what was popped, and so does `sec_map`. -/
structure Copied (x_size : UInt64) (workset : Workset (OrderbookEntry D)) (sec_map : SecMap D)
    (popped : List (OrderbookEntry D)) : Prop where
  log : ∃ l, Refines workset l ∧ l.pushed = popped
  capacity : workset.capacity_ = x_size
  sec_map : sec_map = noteAll a x_size.toNat popped

/-- The entries that are drawn are the first ones of the copy, and its subscriber is right behind
them. -/
structure Drawn (x_size : UInt64) (workset : Workset (OrderbookEntry D)) (reader : Option Nat)
    (popped drawn : List (OrderbookEntry D)) : Prop where
  log : ∃ l c, Reads workset reader l c ∧ l.pushed = popped ∧ l.capacity = x_size.toNat ∧
    l.position c = l.base + drawn.length
  shown : drawn = (window x_size.toNat popped).take drawn.length
  le : drawn.length ≤ x_size.toNat

/-- The invariant, by the position of the call. -/
inductive Inv (s : Call D) : Prop where
  | start (hpc : s.pc = .entered ∨ s.pc = .checked) (l : Log (OrderbookEntry D))
      (hl : Refines s.ows l) (hstock : s.pc = .checked → Stocked l) (hf : Fresh s)
  | returned (hpc : s.pc = .returned)
  | subscribed (hpc : s.pc = .subscribed) (hold : AtOldest s.ows s.subscriber) (hf : Fresh s)
  | copying (hpc : s.pc = .testing ∨ s.pc = .popping) (n : Nat) (hn : CanPop s.ows s.subscriber n)
      (henough : s.x_size.toNat ≤ s.popped.length + n)
      (hc : Copied a s.x_size s.workset s.sec_map s.popped) (hd : s.drawn = [])
  | copied (hpc : s.pc = .copied) (n : Nat) (hn : CanPop s.ows s.subscriber n)
      (henough : s.x_size.toNat ≤ s.popped.length)
      (hc : Copied a s.x_size s.workset s.sec_map s.popped) (hd : s.drawn = [])
  | drawing (hpc : s.pc = .drawing) (henough : s.x_size.toNat ≤ s.popped.length)
      (hc : Copied a s.x_size s.workset s.sec_map s.popped)
      (hd : Drawn s.x_size s.workset s.reader s.popped s.drawn)

variable {a} {s s' : Call D}

/-- **Others.** -/
theorem CanPop.other {ows ows' : Workset (OrderbookEntry D)} {subscriber : Option Nat} {n : Nat}
    {op : Op (OrderbookEntry D)} {r : Result (OrderbookEntry D)} (h : CanPop ows subscriber n)
    (hop : Foreign subscriber op) (hs : ows.step op = some (ows', r)) :
    ∃ m, n ≤ m ∧ CanPop ows' subscriber m := by
  obtain ⟨l, c, hr, hleft⟩ := h
  obtain ⟨l', hl', hr'⟩ := refines_of_step hr.refines hs
  obtain ⟨h, rfl, hlt, hc⟩ := hr.handle
  obtain ⟨hlt', hc', hle⟩ := left_le_of_foreign hop hlt hc hl'
  exact ⟨l'.left c, by omega, l', c, ⟨hr', h, rfl, hlt', hc'⟩, rfl⟩

/-- No operation takes entries away. -/
theorem grows_of_step {l l' : Log (OrderbookEntry D)} {op : Op (OrderbookEntry D)}
    {r : Result (OrderbookEntry D)} (h : l.step op = some (l', r)) :
    l'.capacity = l.capacity ∧ l.pushed.length ≤ l'.pushed.length := by
  cases op with
  | getPublisher | getSubscriber =>
    cases h
    exact ⟨rfl, le_rfl⟩
  | push p e =>
    simp only [Log.step] at h
    split_ifs at h
    cases h
    exact ⟨rfl, by simp⟩
  | tryPop s locked =>
    obtain ⟨d, -, heq⟩ := Option.map_eq_some_iff.mp h
    unfold Log.tryPop at heq
    split_ifs at heq <;> cases heq <;> exact ⟨rfl, le_rfl⟩
  | numAvailable s | clone s | releaseSubscriber s =>
    obtain ⟨d, -, heq⟩ := Option.map_eq_some_iff.mp h
    cases heq
    exact ⟨rfl, le_rfl⟩
  | releasePublisher p =>
    simp only [Log.step] at h
    split_ifs at h
    cases h
    exact ⟨rfl, le_rfl⟩

theorem Stocked.step {l l' : Log (OrderbookEntry D)} {op : Op (OrderbookEntry D)}
    {r : Result (OrderbookEntry D)} (h : Stocked l) (hs : l.step op = some (l', r)) : Stocked l' := by
  obtain ⟨hcapacity, hpushed⟩ := grows_of_step hs
  exact ⟨Nat.lt_of_lt_of_le h.1 hpushed, hcapacity ▸ h.2⟩

/-- What others push is behind the oldest entry. -/
theorem AtOldest.other {ows ows' : Workset (OrderbookEntry D)} {subscriber : Option Nat}
    {op : Op (OrderbookEntry D)} {r : Result (OrderbookEntry D)} (h : AtOldest ows subscriber)
    (hop : Foreign subscriber op) (hs : ows.step op = some (ows', r)) : AtOldest ows' subscriber := by
  obtain ⟨l, c, hr, hbase, hstock⟩ := h
  obtain ⟨l', hl', hr'⟩ := refines_of_step hr.refines hs
  obtain ⟨h, rfl, hlt, hc⟩ := hr.handle
  obtain ⟨hlt', hc', -⟩ := left_le_of_foreign hop hlt hc hl'
  refine ⟨l', c, ⟨hr', h, rfl, hlt', hc'⟩, ?_, hstock.step hl'⟩
  obtain ⟨hcapacity, hpushed⟩ := grows_of_step hl'
  unfold Log.base at hbase ⊢
  omega

/-- A subscriber that has been given nothing can pop all entries of the workset. -/
theorem AtOldest.canPop {ows : Workset (OrderbookEntry D)} {subscriber : Option Nat}
    (h : AtOldest ows subscriber) : CanPop ows subscriber ows.workset_.size ∧ 0 < ows.workset_.size := by
  obtain ⟨l, c, hr, hbase, hpushed, hcapacity⟩ := h
  have hsize := hr.refines.ring.size_eq
  rw [hr.refines.ring_capacity] at hsize
  refine ⟨⟨l, c, hr, ?_⟩, by omega⟩
  rw [hsize]
  unfold Log.left Log.position
  unfold Log.base at hbase ⊢
  omega

theorem inv_other (h : Inv a s) {op : Op (OrderbookEntry D)}
    (hs : s.step a (.other op) = some s') : Inv a s' := by
  simp only [Call.step] at hs
  split_ifs at hs with hop
  obtain ⟨⟨ows', r⟩, hstep, rfl⟩ := Option.map_eq_some_iff.mp hs
  cases h with
  | start hpc l hl hstock hf =>
    obtain ⟨l', hlog, hl'⟩ := refines_of_step hl hstep
    exact .start hpc l' hl' (fun hchecked => (hstock hchecked).step hlog)
      ⟨hf.sec_map, hf.popped, hf.drawn⟩
  | returned hpc => exact .returned hpc
  | subscribed hpc hold hf =>
    exact .subscribed hpc (hold.other hop hstep) ⟨hf.sec_map, hf.popped, hf.drawn⟩
  | copying hpc n hn henough hc hd =>
    obtain ⟨m, hle, hm⟩ := hn.other hop hstep
    exact .copying hpc m hm (Nat.le_trans henough (Nat.add_le_add_left hle _)) hc hd
  | copied hpc n hn henough hc hd =>
    obtain ⟨m, -, hm⟩ := hn.other hop hstep
    exact .copied hpc m hm henough hc hd
  | drawing hpc henough hc hd => exact .drawing hpc henough hc hd

theorem CanPop.current {ows : Workset (OrderbookEntry D)} {subscriber : Option Nat} {n : Nat}
    (h : CanPop ows subscriber n) :
    ∃ k i, current ows subscriber = some (k, i) ∧ (ows.numAvailable i).toNat = n := by
  obtain ⟨l, c, hr, hleft⟩ := h
  obtain ⟨k, i, hcur⟩ := hr.current
  obtain ⟨hi, -, -, -, hidx⟩ := hr.of_current hcur
  refine ⟨k, i, hcur, ?_⟩
  rw [numAvailable_refines hr.refines hi hidx, ← hleft]
  rfl

/-- A copy before the first entry. -/
theorem copied_new (x_size : UInt64) :
    Copied a x_size (Workset.new x_size : Workset (OrderbookEntry D)).getPublisher [] [] where
  log := by
    have hnew : Refines (Workset.new x_size : Workset (OrderbookEntry D)) (.new x_size.toNat) :=
      refines_new x_size
    have hstep : (Workset.new x_size : Workset (OrderbookEntry D)).step .getPublisher =
      some ((Workset.new x_size).getPublisher, .handle 0) := rfl
    obtain ⟨l, hl, hr⟩ := refines_of_step hnew hstep
    cases hl
    exact ⟨_, hr, rfl⟩
  capacity := rfl
  sec_map := rfl

/-- One entry is copied. -/
theorem Copied.push {x_size : UInt64} {workset : Workset (OrderbookEntry D)} {sec_map : SecMap D}
    {popped : List (OrderbookEntry D)} (h : Copied a x_size workset sec_map popped)
    (e : OrderbookEntry D) :
    Copied a x_size (workset.push e) (note a x_size.toNat sec_map e) (popped ++ [e]) where
  log := by
    obtain ⟨l, hr, hl⟩ := h.log
    exact ⟨_, push_refines hr e, by rw [← hl]⟩
  capacity := h.capacity
  sec_map := by rw [h.sec_map, noteAll, noteAll, List.foldl_append, List.foldl_cons, List.foldl_nil]

theorem inv_popping (hpc : s.pc = .popping) {n : Nat} (hn : CanPop s.ows s.subscriber n)
    (henough : s.x_size.toNat ≤ s.popped.length + n)
    (hc : Copied a s.x_size s.workset s.sec_map s.popped) (hd : s.drawn = []) {locked : Bool}
    (hs : s.own a locked = some s') : Inv a s' := by
  obtain ⟨l, c, hr, hleft⟩ := hn
  obtain ⟨h, i, hcur⟩ := hr.current
  rw [Call.own, hpc] at hs
  simp only [hcur, Option.map_some, Option.some.injEq] at hs
  by_cases hpop : locked = true ∧ 0 < l.left c
  · obtain ⟨rfl, hpos⟩ := hpop
    obtain ⟨ows', e, htry, -, -, -, hr'⟩ := hr.tryPop_some hcur hpos
    have hless := left_pop h hpos
    rw [htry] at hs
    subst hs
    refine .copying (Or.inl rfl) (n - 1) ⟨_, _, hr', by omega⟩ ?_ (hc.push e) hd
    show s.x_size.toNat ≤ (s.popped ++ [e]).length + (n - 1)
    rw [List.length_append, List.length_singleton]
    omega
  · rw [hr.tryPop_none hcur hpop] at hs
    subst hs
    exact .copying (Or.inr rfl) n ⟨l, c, hr, hleft⟩ henough hc hd

/-- The copy is read from its oldest entry on. -/
theorem Copied.read {x_size : UInt64} {workset : Workset (OrderbookEntry D)} {sec_map : SecMap D}
    {popped : List (OrderbookEntry D)} (h : Copied a x_size workset sec_map popped)
    (publisher : Nat) :
    Copied a x_size (workset.removePublisher publisher).getSubscriber sec_map popped ∧
      Drawn x_size (workset.removePublisher publisher).getSubscriber
        (some (workset.removePublisher publisher).nextHandle) popped [] := by
  obtain ⟨l, hr, hl⟩ := h.log
  have hremoved : Refines (workset.removePublisher publisher)
      { l with publishers := Function.update l.publishers publisher false } :=
    ⟨hr.capacity, hr.ring, by simp [removePublisher, hr.publishers], hr.index, hr.nextHandle⟩
  have hstart := Reads.start hremoved
  refine ⟨⟨⟨_, hstart.refines, hl⟩, h.capacity, h.sec_map⟩, ⟨_, _, hstart, hl, ?_, ?_⟩, ?_, ?_⟩
  · rw [← h.capacity]
    exact hr.capacity
  · exact Nat.max_self _
  · rfl
  · exact Nat.zero_le _

theorem inv_drawing (hpc : s.pc = .drawing) (henough : s.x_size.toNat ≤ s.popped.length)
    (hc : Copied a s.x_size s.workset s.sec_map s.popped)
    (hd : Drawn s.x_size s.workset s.reader s.popped s.drawn) {locked : Bool}
    (hs : s.own a locked = some s') : Inv a s' := by
  obtain ⟨l, c, hr, hl, hcap, hpos⟩ := hd.log
  obtain ⟨h, i, hcur⟩ := hr.current
  rw [Call.own, hpc] at hs
  dsimp only at hs
  split_ifs at hs with hlt
  simp only [hcur, Option.map_some, Option.some.injEq] at hs
  by_cases hpop : locked = true ∧ 0 < l.left c
  · obtain ⟨rfl, hleft⟩ := hpop
    obtain ⟨workset', e, htry, he, hcapacity, -, hr'⟩ := hr.tryPop_some hcur hleft
    rw [htry] at hs
    subst hs
    refine .drawing rfl henough ⟨⟨_, hr'.refines, hl⟩, hcapacity.trans hc.capacity, hc.sec_map⟩
      ⟨⟨_, _, hr', hl, hcap, ?_⟩, ?_, ?_⟩
    · -- the cursor is not behind the oldest entry any more
      simp only [Log.position, Log.base, List.length_append, List.length_singleton] at hpos ⊢
      omega
    · have hentry : (window s.x_size.toNat s.popped)[s.drawn.length]? = some e := by
        rw [window, List.getElem?_drop, ← he, hl, hpos, Log.base, hl, hcap]
      dsimp only
      rw [List.length_append, List.length_singleton, List.take_add_one, ← hd.shown, hentry]
      rfl
    · dsimp only
      rw [List.length_append, List.length_singleton]
      exact hlt
  · rw [hr.tryPop_none hcur hpop] at hs
    subst hs
    exact .drawing rfl henough hc hd

theorem stocked_of_not_empty {ows : Workset (OrderbookEntry D)} {l : Log (OrderbookEntry D)}
    (hl : Refines ows l) (hempty : ¬ows.workset_.empty = true) : Stocked l := by
  have hsize := hl.ring.size_eq
  rw [hl.ring_capacity] at hsize
  have hpos : 0 < ows.workset_.size := by
    rw [CircularBuffer.empty, List.isEmpty_iff] at hempty
    exact List.length_pos_iff.mpr hempty
  unfold Stocked
  omega

/-- **The call.** -/
theorem inv_own (h : Inv a s) {locked : Bool} (hs : s.own a locked = some s') : Inv a s' := by
  cases h with
  | start hpc l hl hstock hf =>
    rcases hpc with hpc | hpc
    · rw [Call.own, hpc] at hs
      cases hs
      by_cases hempty : s.ows.workset_.empty
      · exact .returned (if_pos hempty)
      · refine .start (Or.inr (if_neg hempty)) l hl (fun _ => stocked_of_not_empty hl hempty)
          ⟨hf.sec_map, hf.popped, hf.drawn⟩
    · rw [Call.own, hpc] at hs
      cases hs
      exact .subscribed rfl ⟨_, _, Reads.start hl, le_rfl, hstock hpc⟩
        ⟨hf.sec_map, hf.popped, hf.drawn⟩
  | returned hpc =>
    rw [Call.own, hpc] at hs
    cases hs
  | subscribed hpc hold hf =>
    obtain ⟨hn, -⟩ := hold.canPop
    obtain ⟨k, i, hcur, havailable⟩ := hn.current
    rw [Call.own, hpc] at hs
    simp only [hcur, Option.map_some, Option.some.injEq] at hs
    subst hs
    refine .copying (Or.inl rfl) s.ows.workset_.size hn ?_ ?_ hf.drawn
    · dsimp only
      omega
    · dsimp only
      rw [hf.sec_map, hf.popped]
      exact copied_new _
  | copying hpc n hn henough hc hd =>
    rcases hpc with hpc | hpc
    · obtain ⟨k, i, hcur, havailable⟩ := hn.current
      rw [Call.own, hpc] at hs
      simp only [hcur, Option.map_some, Option.some.injEq] at hs
      subst hs
      by_cases hmore : s.ows.numAvailable i > 0
      · exact .copying (Or.inr (if_pos hmore)) n hn henough hc hd
      · -- nothing is left to pop, so enough has been popped
        have hzero : n = 0 := by
          rw [gt_iff_lt, UInt64.lt_iff_toNat_lt, havailable, UInt64.toNat_zero] at hmore
          omega
        refine .copied (if_neg hmore) n hn ?_ hc hd
        dsimp only
        omega
    · exact inv_popping hpc hn henough hc hd hs
  | copied hpc n hn henough hc hd =>
    obtain ⟨k, i, hcur, -⟩ := hn.current
    rw [Call.own, hpc] at hs
    simp only [hcur, Option.map_some, Option.some.injEq] at hs
    subst hs
    obtain ⟨hc', hd'⟩ := hc.read s.publisher
    refine .drawing rfl henough hc' ?_
    dsimp only
    rw [hd]
    exact hd'
  | drawing hpc henough hc hd => exact inv_drawing hpc henough hc hd hs

/-- The invariant holds in every state of a call on a workset that represents a log. -/
theorem inv_of_reachable {ows : Workset (OrderbookEntry D)} {l : Log (OrderbookEntry D)}
    (hl : Refines ows l) (hs : Reachable (calls a ows) s) : Inv a s := by
  refine hs.invariant_ofStep (.start (Or.inl rfl) l hl nofun ⟨rfl, rfl, rfl⟩) ?_
  intro t label t' ht hstep
  cases label with
  | own locked => exact inv_own ht hstep
  | other op => exact inv_other ht hstep

end Invariant

/-! ## The supply of the drawing loop -/

section Supply

variable (a : Arithmetic D)

/-- On its way to `s` the call asked in `s₀` for `x_size`: it is what `num_available` gave then, which
is the number of entries that the workset had, and there were some. -/
structure Sampled (ows : Workset (OrderbookEntry D)) (s s₀ : Call D) : Prop where
  reachable : Reachable (calls a ows) s₀
  asked : s₀.pc = .subscribed
  on_the_way : ∃ locked labels, run (Call.step a) s₀ (.own locked :: labels) = some s
  x_size : ∃ h i, current s₀.ows s₀.subscriber = some (h, i) ∧ s.x_size = s₀.ows.numAvailable i
  entries : s.x_size.toNat = s₀.ows.workset_.items.length
  some : 0 < s.x_size.toNat

/-- What a call has behind its copying loop. In every round of the drawing loop there is an entry to
pop, and `try_pop` gets it unless `reader_try_lock` fails. -/
structure Supplied (ows : Workset (OrderbookEntry D)) (s : Call D) : Prop where
  sampled : ∃ s₀, Sampled a ows s s₀
  enough : s.x_size.toNat ≤ s.popped.length
  capacity : s.workset.capacity_ = s.x_size
  holds : s.workset.workset_.items = s.popped.drop (s.popped.length - s.x_size.toNat)
  known : ∀ e ∈ s.workset.workset_.items, (AssocMap.find s.sec_map (secId a e)).isSome
  drawn : s.drawn = s.workset.workset_.items.take s.drawn.length
  available : s.pc = .drawing → ∃ h i, current s.workset s.reader = some (h, i) ∧
    (s.workset.numAvailable i).toNat = s.x_size.toNat - s.drawn.length
  next : s.pc = .drawing → s.drawn.length < s.x_size.toNat →
    ∃ e s', s.workset.workset_.items[s.drawn.length]? = some e ∧ s.own a true = some s' ∧
      s'.drawn = s.drawn ++ [e]
  rounds : s.pc = .drawing →
    ∃ s', run (Call.step a) s (List.replicate (s.x_size.toNat - s.drawn.length) (.own true)) = some s' ∧
      s'.drawn = s.workset.workset_.items

variable {a} {s : Call D}

theorem Copied.items_eq {x_size : UInt64} {workset : Workset (OrderbookEntry D)}
    {sec_map : SecMap D} {popped : List (OrderbookEntry D)}
    (h : Copied a x_size workset sec_map popped) :
    workset.workset_.items = window x_size.toNat popped := by
  obtain ⟨l, hr, hl⟩ := h.log
  have hring : workset.workset_.items = l.pushed.drop (l.pushed.length - workset.workset_.capacity) :=
    hr.ring
  rw [hring, workset.capacity_eq, h.capacity, hl, window]

theorem Copied.known {x_size : UInt64} {workset : Workset (OrderbookEntry D)} {sec_map : SecMap D}
    {popped : List (OrderbookEntry D)} (h : Copied a x_size workset sec_map popped) :
    ∀ e ∈ workset.workset_.items, (AssocMap.find sec_map (secId a e)).isSome := by
  intro e he
  rw [h.items_eq] at he
  rw [h.sec_map]
  exact find_noteAll_isSome a _ (List.mem_of_mem_drop he)

theorem Inv.of_copied (h : Inv a s) (hpc : s.pc = .copied) :
    s.x_size.toNat ≤ s.popped.length ∧ Copied a s.x_size s.workset s.sec_map s.popped ∧
      s.drawn = [] := by
  cases h with
  | copied _ n hn henough hc hd => exact ⟨henough, hc, hd⟩
  | start hpc' | copying hpc' =>
    rw [hpc] at hpc'
    rcases hpc' with hpc' | hpc' <;> cases hpc'
  | returned hpc' | subscribed hpc' | drawing hpc' =>
    rw [hpc] at hpc'
    cases hpc'

theorem Inv.of_drawing (h : Inv a s) (hpc : s.pc = .drawing) :
    s.x_size.toNat ≤ s.popped.length ∧ Copied a s.x_size s.workset s.sec_map s.popped ∧
      Drawn s.x_size s.workset s.reader s.popped s.drawn := by
  cases h with
  | drawing _ henough hc hd => exact ⟨henough, hc, hd⟩
  | start hpc' | copying hpc' =>
    rw [hpc] at hpc'
    rcases hpc' with hpc' | hpc' <;> cases hpc'
  | returned hpc' | subscribed hpc' | copied hpc' =>
    rw [hpc] at hpc'
    cases hpc'

/-- The next round of the drawing loop gets its entry. -/
theorem own_drawing (hpc : s.pc = .drawing) (henough : s.x_size.toNat ≤ s.popped.length)
    (hd : Drawn s.x_size s.workset s.reader s.popped s.drawn)
    (hlt : s.drawn.length < s.x_size.toNat) :
    ∃ e s', (window s.x_size.toNat s.popped)[s.drawn.length]? = some e ∧ s.own a true = some s' ∧
      s'.drawn = s.drawn ++ [e] ∧ s'.pc = .drawing ∧ s'.x_size = s.x_size ∧ s'.popped = s.popped := by
  obtain ⟨l, c, hr, hl, hcap, hpos⟩ := hd.log
  obtain ⟨h, i, hcur⟩ := hr.current
  have hleft : 0 < l.left c := by
    unfold Log.left
    rw [hpos, Log.base, hl, hcap]
    omega
  obtain ⟨workset', e, htry, he, -⟩ := hr.tryPop_some hcur hleft
  refine ⟨e, { s with workset := workset', drawn := s.drawn ++ [e] }, ?_, ?_, rfl, hpc, rfl, rfl⟩
  · rw [window, List.getElem?_drop, ← he, hl, hpos, Log.base, hl, hcap]
  · rw [Call.own, hpc]
    simp only [if_pos hlt, hcur, Option.map_some, htry]

theorem Drawn.available {x_size : UInt64} {workset : Workset (OrderbookEntry D)}
    {reader : Option Nat} {popped drawn : List (OrderbookEntry D)}
    (hd : Drawn x_size workset reader popped drawn) (henough : x_size.toNat ≤ popped.length) :
    ∃ h i, current workset reader = some (h, i) ∧
      (workset.numAvailable i).toNat = x_size.toNat - drawn.length := by
  obtain ⟨l, c, hr, hl, hcap, hpos⟩ := hd.log
  obtain ⟨h, i, hcur⟩ := hr.current
  obtain ⟨hi, -, -, -, hidx⟩ := hr.of_current hcur
  refine ⟨h, i, hcur, ?_⟩
  rw [numAvailable_refines hr.refines hi hidx, hpos, Log.base, hl, hcap]
  omega

/-- All rounds of the drawing loop get their entries. -/
theorem run_drawing {k : Nat} (h : Inv a s) (hpc : s.pc = .drawing)
    (hk : s.x_size.toNat - s.drawn.length = k) :
    ∃ s', run (Call.step a) s (List.replicate k (.own true)) = some s' ∧
      s'.drawn = window s.x_size.toNat s.popped := by
  induction k generalizing s with
  | zero =>
    obtain ⟨henough, hc, hd⟩ := h.of_drawing hpc
    refine ⟨s, rfl, ?_⟩
    rw [hd.shown]
    apply List.take_of_length_le
    have hle := hd.le
    rw [window, List.length_drop]
    omega
  | succ k ih =>
    obtain ⟨henough, hc, hd⟩ := h.of_drawing hpc
    obtain ⟨e, s₁, -, hown, hdrawn, hpc₁, hx₁, hp₁⟩ :=
      own_drawing (a := a) hpc henough hd (by omega)
    have hlen : s₁.x_size.toNat - s₁.drawn.length = k := by
      rw [hx₁, hdrawn, List.length_append, List.length_singleton]
      omega
    obtain ⟨s', hrun, hs'⟩ := ih (inv_own h hown) hpc₁ hlen
    refine ⟨s', ?_, by rw [hs', hx₁, hp₁]⟩
    rw [List.replicate_succ, run, Call.step, hown, Option.bind_some, hrun]

/-- The call has asked for `x_size`. -/
def Pc.BehindSample (pc : Pc) : Prop :=
  pc = .testing ∨ pc = .popping ∨ pc = .copied ∨ pc = .drawing

/-- Behind the sample a step of the call leaves `x_size` alone. -/
theorem own_behind {locked : Bool} {s' : Call D} (hpc : s.pc.BehindSample)
    (hs : s.own a locked = some s') : s'.x_size = s.x_size ∧ s'.pc.BehindSample := by
  unfold Call.own at hs
  rcases hpc with hpc | hpc | hpc | hpc
  · rw [hpc] at hs
    obtain ⟨r, -, rfl⟩ := Option.map_eq_some_iff.mp hs
    refine ⟨rfl, ?_⟩
    dsimp only
    split_ifs
    · exact Or.inr (Or.inl rfl)
    · exact Or.inr (Or.inr (Or.inl rfl))
  · rw [hpc] at hs
    obtain ⟨r, -, heq⟩ := Option.map_eq_some_iff.mp hs
    dsimp only at heq
    split at heq <;> subst heq
    · exact ⟨rfl, Or.inr (Or.inl rfl)⟩
    · exact ⟨rfl, Or.inl rfl⟩
  · rw [hpc] at hs
    obtain ⟨r, -, rfl⟩ := Option.map_eq_some_iff.mp hs
    exact ⟨rfl, Or.inr (Or.inr (Or.inr rfl))⟩
  · rw [hpc] at hs
    dsimp only at hs
    split_ifs at hs
    obtain ⟨r, -, heq⟩ := Option.map_eq_some_iff.mp hs
    split at heq <;> subst heq
    · exact ⟨rfl, Or.inr (Or.inr (Or.inr rfl))⟩
    · exact ⟨rfl, Or.inr (Or.inr (Or.inr rfl))⟩

/-- What was sampled stays sampled. -/
theorem Sampled.step {ows : Workset (OrderbookEntry D)} {s₀ s' : Call D} {label : Label D}
    (h : Sampled a ows s s₀) (hpc : s.pc.BehindSample) (hs : s.step a label = Option.some s') :
    Sampled a ows s' s₀ := by
  have hx : s'.x_size = s.x_size := by
    cases label with
    | own locked => exact (own_behind hpc hs).1
    | other op =>
      simp only [Call.step] at hs
      split_ifs at hs
      obtain ⟨r, -, rfl⟩ := Option.map_eq_some_iff.mp hs
      rfl
  obtain ⟨locked, labels, hrun⟩ := h.on_the_way
  refine ⟨h.reachable, h.asked, ⟨locked, labels ++ [label], run_snoc hrun hs⟩, ?_, ?_, ?_⟩
  · rw [hx]
    exact h.x_size
  · rw [hx]
    exact h.entries
  · rw [hx]
    exact h.some

/-- The sample is taken by the step that leaves `subscribed`. -/
theorem sampled_own {ows : Workset (OrderbookEntry D)} {s' : Call D} {locked : Bool}
    (hreach : Reachable (calls a ows) s) (hpc : s.pc = .subscribed)
    (hold : AtOldest s.ows s.subscriber) (hs : s.own a locked = some s') :
    Sampled a ows s' s := by
  obtain ⟨hn, hpos⟩ := hold.canPop
  obtain ⟨h, i, hcur, havailable⟩ := hn.current
  have hrun : run (Call.step a) s [.own locked] = some s' := by
    rw [run, Call.step, hs]
    rfl
  rw [Call.own, hpc] at hs
  simp only [hcur, Option.map_some, Option.some.injEq] at hs
  subst hs
  refine ⟨hreach, hpc, ⟨locked, [], hrun⟩, ⟨h, i, hcur, rfl⟩, havailable, ?_⟩
  dsimp only
  omega

/-- A call gets behind the sample from where it asks for it. -/
theorem asked_of_own {s' : Call D} {locked : Bool} (h : Inv a s) (hbefore : ¬s.pc.BehindSample)
    (hs : s.own a locked = some s') (hpc : s'.pc.BehindSample) :
    s.pc = .subscribed ∧ AtOldest s.ows s.subscriber := by
  cases h with
  | start hpc' l hl hstock hf =>
    rcases hpc' with hpc' | hpc'
    · rw [Call.own, hpc'] at hs
      cases hs
      dsimp only at hpc
      split_ifs at hpc <;> rcases hpc with hpc | hpc | hpc | hpc <;> cases hpc
    · rw [Call.own, hpc'] at hs
      cases hs
      rcases hpc with hpc | hpc | hpc | hpc <;> cases hpc
  | returned hpc' =>
    rw [Call.own, hpc'] at hs
    cases hs
  | subscribed hpc' hold hf => exact ⟨hpc', hold⟩
  | copying hpc' =>
    exact absurd (hpc'.imp_right Or.inl) hbefore
  | copied hpc' => exact absurd (Or.inr (Or.inr (Or.inl hpc'))) hbefore
  | drawing hpc' => exact absurd (Or.inr (Or.inr (Or.inr hpc'))) hbefore

/-- A call that is behind the sample has taken it. -/
theorem sampled_of_reachable {ows : Workset (OrderbookEntry D)} {l : Log (OrderbookEntry D)}
    (hl : Refines ows l) (hs : Reachable (calls a ows) s) (hpc : s.pc.BehindSample) :
    ∃ s₀, Sampled a ows s s₀ := by
  induction hs with
  | init hinit =>
    rw [show _ = Call.new ows from hinit] at hpc
    rcases hpc with hpc | hpc | hpc | hpc <;> cases hpc
  | @step t label t' hreach ht ih =>
    by_cases hbehind : t.pc.BehindSample
    · obtain ⟨s₀, h⟩ := ih hbehind
      exact ⟨s₀, h.step hbehind ht⟩
    · cases label with
      | other op =>
        simp only [calls, System.ofStep, Call.step] at ht
        split_ifs at ht
        obtain ⟨r, -, rfl⟩ := Option.map_eq_some_iff.mp ht
        exact absurd hpc hbehind
      | own locked =>
        obtain ⟨htaken, hold⟩ := asked_of_own (inv_of_reachable hl hreach) hbehind ht hpc
        exact ⟨t, sampled_own hreach htaken hold ht⟩

theorem supplied_of_inv {ows : Workset (OrderbookEntry D)} (h : Inv a s)
    (hsampled : ∃ s₀, Sampled a ows s s₀) (hpc : s.pc = .copied ∨ s.pc = .drawing) :
    Supplied a ows s := by
  rcases hpc with hcopied | hdrawing
  · obtain ⟨henough, hc, hd⟩ := h.of_copied hcopied
    have hno : s.pc ≠ .drawing := by
      rw [hcopied]
      exact nofun
    refine ⟨hsampled, henough, hc.capacity, hc.items_eq, hc.known, ?_, ?_, ?_, ?_⟩
    · rw [hd]
      rfl
    · exact fun hdrawing => absurd hdrawing hno
    · exact fun hdrawing => absurd hdrawing hno
    · exact fun hdrawing => absurd hdrawing hno
  · obtain ⟨henough, hc, hd⟩ := h.of_drawing hdrawing
    refine ⟨hsampled, henough, hc.capacity, hc.items_eq, hc.known, ?_, ?_, ?_, ?_⟩
    · rw [hc.items_eq]
      exact hd.shown
    · exact fun _ => hd.available henough
    · intro _ hlt
      obtain ⟨e, s', he, hown, hdrawn, -⟩ := own_drawing (a := a) hdrawing henough hd hlt
      exact ⟨e, s', by rw [hc.items_eq, he], hown, hdrawn⟩
    · intro _
      obtain ⟨s', hrun, hs'⟩ := run_drawing h hdrawing rfl
      exact ⟨s', hrun, by rw [hs', hc.items_eq]⟩

end Supply

/-- Exact numbers for `double`; logarithms are rounded down. -/
def rationals : Arithmetic ℚ where
  literal := id
  ofSize := fun n => n
  toId := fun q => q.floor.toNat
  add := (· + ·)
  sub := (· - ·)
  div := (· / ·)
  neg := (- ·)
  abs := fun q => if q < 0 then -q else q
  log2 := fun q => Nat.log2 q.floor.toNat
  lt := fun p q => decide (p < q)
  ge := fun p q => decide (q ≤ p)

end Quant.Drawing

import Mathlib.Order.Lattice
import ItexDemo.Lib.TransitionSystem
import ItexDemo.Quant.Workset

/-!
# Proofs: workset delivery refines an append-only log

The relation between the two states is `Refines`: the ring holds the last entries of the log, and a
physical index is what its cursor is ahead of the oldest entry in the ring, or `0` when the cursor
has been overtaken. Since a push on a full ring decrements every index down to `0`, this survives
subscribers that are lapped any number of times.
-/

namespace Workset

open Transition Partial

variable {Entry : Type*}

/-! ## The refinement relation -/

/-- An index and its cursor, in a log of length `len` whose oldest deliverable position is `base`. -/
def IndexRel (base len : Nat) (i : UInt64) (c : Cursor) : Prop :=
  i.toNat = c.next - base ∧ c.next ≤ len

/-- The workset `ws` represents the log `l`. -/
structure Refines (ws : Workset Entry) (l : Log Entry) : Prop where
  capacity : l.capacity = ws.capacity_.toNat
  ring : ws.workset_.Holds l.pushed
  publishers : ws.publishers_ = l.publishers
  index : ∀ h, Option.Rel (IndexRel l.base l.pushed.length) (ws.subscribers_ h) (l.cursors h)
  nextHandle : ws.nextHandle = l.nextHandle

theorem refines_new (C : UInt64) : Refines (new C : Workset Entry) (Log.new C.toNat) where
  capacity := rfl
  ring := CircularBuffer.holds_new _
  publishers := rfl
  index := fun _ => .none
  nextHandle := rfl

/-- Updating related maps at one handle with related values keeps them related. -/
theorem rel_update {α β : Type*} {R : α → β → Prop} {f : Nat → Option α} {g : Nat → Option β}
    (h : ∀ k, Option.Rel R (f k) (g k)) (j : Nat) {x : Option α} {y : Option β}
    (hxy : Option.Rel R x y) (k : Nat) :
    Option.Rel R (Function.update f j x k) (Function.update g j y k) := by
  by_cases hk : k = j
  · subst hk
    simpa using hxy
  · simpa [Function.update_of_ne hk] using h k

section

variable {ws : Workset Entry} {l : Log Entry}

theorem Refines.ring_capacity (h : Refines ws l) : ws.workset_.capacity = l.capacity := by
  rw [ws.capacity_eq, h.capacity]

/-- `size()` is the number of entries that can still be delivered; it fits `size_t`. -/
theorem Refines.size_toNat (h : Refines ws l) : ws.size.toNat = l.pushed.length - l.base := by
  have hs := h.ring.size_eq
  have hcap := h.ring_capacity
  have hlt := ws.capacity_.toNat_lt
  have hc := h.capacity
  unfold size Log.base
  rw [UInt64.toNat_ofNat', Nat.mod_eq_of_lt (by omega)]
  omega

theorem Refines.full_iff (h : Refines ws l) :
    ws.workset_.full = true ↔ l.capacity ≤ l.pushed.length := by
  rw [h.ring.full_iff, h.ring_capacity]

theorem shiftIndex_toNat (i : UInt64) : (shiftIndex i).toNat = i.toNat - 1 := by
  unfold shiftIndex
  split_ifs with hi
  · have hlt : 0 < i.toNat := by simpa [UInt64.lt_iff_toNat_lt] using hi
    have hle : (1 : UInt64) ≤ i := by
      rw [UInt64.le_iff_toNat_le, UInt64.toNat_one]
      exact hlt
    rw [UInt64.toNat_sub_of_le _ _ hle]
    rfl
  · have hz : ¬ 0 < i.toNat := by simpa [UInt64.lt_iff_toNat_lt] using hi
    have : i.toNat = 0 := by omega
    simp [this]

/-- The cursor of a subscriber. -/
theorem Refines.cursor (h : Refines ws l) {s : Nat} {i : UInt64} (hs : ws.subscribers_ s = some i) :
    ∃ c, l.cursors s = some c ∧ IndexRel l.base l.pushed.length i c :=
  exists_right (h.index s) hs

/-- The index of a subscriber with this cursor. -/
theorem Refines.index_of_cursor (h : Refines ws l) {s : Nat} {c : Cursor}
    (hc : l.cursors s = some c) :
    ∃ i, ws.subscribers_ s = some i ∧ IndexRel l.base l.pushed.length i c :=
  exists_left (h.index s) hc

/-- An index is at most `size()`: the subtraction of `num_available` does not wrap. -/
theorem Refines.index_le_size (h : Refines ws l) {s : Nat} {i : UInt64}
    (hi : ws.subscribers_ s = some i) : i ≤ ws.size := by
  obtain ⟨c, hc, hidx⟩ := h.cursor hi
  rw [UInt64.le_iff_toNat_le, h.size_toNat, hidx.1]
  have := hidx.2
  omega

/-! ## The operations -/

theorem push_refines (h : Refines ws l) (e : Entry) :
    Refines (ws.push e) { l with pushed := l.pushed ++ [e] } where
  capacity := h.capacity
  ring := h.ring.pushBack e
  publishers := h.publishers
  nextHandle := h.nextHandle
  index := fun s => by
    have hrel := h.index s
    have hfull := h.full_iff
    simp only [push, Log.base] at hrel ⊢
    by_cases hf : ws.workset_.full = true
    · -- the oldest entry goes: `base` grows by one and every index shrinks by one
      have hle := hfull.mp hf
      rw [if_pos hf]
      rcases rel_cases hrel with ⟨hx, hy⟩ | ⟨i, c, hx, hy, hi, hc⟩
      · rw [hx, hy]
        exact .none
      · rw [hx, hy]
        refine .some ⟨?_, ?_⟩
        · rw [shiftIndex_toNat, List.length_append, List.length_singleton]
          omega
        · rw [List.length_append, List.length_singleton]
          omega
    · have hlt : ¬ l.capacity ≤ l.pushed.length := fun hc => hf (hfull.mpr hc)
      rw [if_neg hf]
      rcases rel_cases hrel with ⟨hx, hy⟩ | ⟨i, c, hx, hy, hi, hc⟩
      · rw [hx, hy]
        exact .none
      · rw [hx, hy]
        refine .some ⟨?_, ?_⟩
        · rw [List.length_append, List.length_singleton]
          omega
        · rw [List.length_append, List.length_singleton]
          omega

/-- A new subscriber at a related index and cursor. -/
theorem subscribe_refines (h : Refines ws l) {i : UInt64} {p : Nat}
    (hip : IndexRel l.base l.pushed.length i ⟨p, p⟩) :
    Refines { ws with
      subscribers_ := Function.update ws.subscribers_ ws.nextHandle (some i)
      nextHandle := ws.nextHandle + 1 } (l.subscribe p) where
  capacity := h.capacity
  ring := h.ring
  publishers := h.publishers
  nextHandle := by simp [Log.subscribe, h.nextHandle]
  index := by
    rw [h.nextHandle]
    exact rel_update h.index _ (.some hip)

/-- The test of `try_pop` succeeds exactly when the cursor's position is inside the log. -/
theorem available_iff (h : Refines ws l) {i : UInt64} {c : Cursor}
    (hic : IndexRel l.base l.pushed.length i c) :
    (!ws.workset_.empty && decide (i < ws.size)) = true ↔ l.position c < l.pushed.length := by
  have hsize := h.size_toNat
  have hlen : ws.workset_.size = min l.pushed.length l.capacity := by
    rw [h.ring.size_eq, h.ring_capacity]
  have hempty : ws.workset_.empty = true ↔ ws.workset_.size = 0 := by
    simp [CircularBuffer.empty, CircularBuffer.size, List.isEmpty_iff]
  obtain ⟨hi, hc⟩ := hic
  rw [Bool.and_eq_true, Bool.not_eq_true', decide_eq_true_iff, UInt64.lt_iff_toNat_lt, hsize, hi,
    ← Bool.not_eq_true, hempty, hlen]
  unfold Log.position Log.base
  omega

theorem tryPop_refines (h : Refines ws l) {s : Nat} {i : UInt64} {c : Cursor}
    (hic : IndexRel l.base l.pushed.length i c) (locked : Bool) :
    Refines (ws.tryPop s i locked).1 (l.tryPop s c locked).1 ∧
      (ws.tryPop s i locked).2 = (l.tryPop s c locked).2 := by
  have hav := available_iff h hic
  cases locked with
  | false => simpa [tryPop, Log.tryPop] using h
  | true =>
    by_cases hlt : l.position c < l.pushed.length
    · simp only [tryPop, Log.tryPop, hav.mpr hlt, hlt, Bool.not_true, Bool.false_eq_true, if_false, if_true,
        and_self]
      refine ⟨⟨h.capacity, h.ring, h.publishers, rel_update h.index _ (.some ?_), h.nextHandle⟩, ?_⟩
      · -- the index moves with the cursor, which is not behind `base` any more
        obtain ⟨hi, hc⟩ := hic
        have hcap := ws.capacity_.toNat_lt
        have hc' := h.capacity
        refine ⟨?_, hlt⟩
        have hsucc : (i + 1).toNat = i.toNat + 1 := by
          rw [UInt64.toNat_add, UInt64.toNat_one]
          unfold Log.position Log.base at hlt
          unfold Log.base at hi
          omega
        rw [hsucc, hi]
        unfold Log.position Log.base
        simp only
        omega
      · rw [h.ring.getElem?, h.ring_capacity, hic.1]
        congr 1
        unfold Log.position Log.base
        omega
    · have hfalse : (!ws.workset_.empty && decide (i < ws.size)) = false :=
        Bool.eq_false_iff.mpr fun ht => hlt (hav.mp ht)
      simpa [tryPop, Log.tryPop, hfalse, hlt] using h

/-- `num_available` counts the positions from the cursor's position to the end of the log. -/
theorem numAvailable_refines (h : Refines ws l) {s : Nat} {i : UInt64} {c : Cursor}
    (hs : ws.subscribers_ s = some i) (hic : IndexRel l.base l.pushed.length i c) :
    (ws.numAvailable i).toNat = l.pushed.length - l.position c := by
  unfold numAvailable
  rw [UInt64.toNat_sub_of_le _ _ (h.index_le_size hs), h.size_toNat, hic.1]
  unfold Log.position
  have := hic.2
  omega

/-- **Step simulation.** Every operation has the same result on the workset and on the log, and keeps
the relation. -/
theorem step_refines (ws : Workset Entry) (l : Log Entry) (op : Op Entry) (h : Refines ws l) :
    Option.Rel (fun x y => Refines x.1 y.1 ∧ x.2 = y.2) (ws.step op) (l.step op) := by
  cases op with
  | getPublisher =>
    exact .some ⟨⟨h.capacity, h.ring, by simp [getPublisher, h.publishers, h.nextHandle], h.index,
      by simp [getPublisher, h.nextHandle]⟩, by rw [h.nextHandle]⟩
  | getSubscriber =>
    exact .some ⟨subscribe_refines h ⟨by simp, by simp only [Log.base]; omega⟩, by rw [h.nextHandle]⟩
  | push p e =>
    simp only [step, Log.step, h.publishers]
    split_ifs
    · exact .some ⟨push_refines h e, rfl⟩
    · exact .none
  | tryPop s locked =>
    refine rel_map (h.index s) fun i c hic => ?_
    obtain ⟨hr, he⟩ := tryPop_refines (s := s) h hic locked
    exact ⟨hr, by simp only [he]⟩
  | numAvailable s =>
    simp only [step, Log.step]
    rcases rel_cases (h.index s) with ⟨hx, hy⟩ | ⟨i, c, hx, hy, hic⟩
    · rw [hx, hy]
      exact .none
    · rw [hx, hy]
      refine .some ⟨h, ?_⟩
      simp only [← numAvailable_refines h hx hic, UInt64.ofNat_toNat]
  | clone s =>
    refine rel_map (h.index s) fun i c hic => ?_
    have hsub := subscribe_refines (p := c.next) h hic
    refine ⟨?_, by rw [h.nextHandle]⟩
    simpa [clone, getSubscriber, Function.update_idem] using hsub
  | releasePublisher p =>
    simp only [step, Log.step, h.publishers]
    split_ifs
    · exact .some ⟨⟨h.capacity, h.ring, by simp [removePublisher, h.publishers], h.index,
        h.nextHandle⟩, rfl⟩
    · exact .none
  | releaseSubscriber s =>
    refine rel_map (h.index s) fun i c _ => ?_
    exact ⟨⟨h.capacity, h.ring, h.publishers, rel_update h.index _ .none, h.nextHandle⟩, rfl⟩

end

/-! ## In-order delivery -/

/-- What subscriber `s` has been given by a run that ended in the log `l`: the entries at strictly
increasing positions, all of them from its start up to its cursor, except positions that the ring
has overwritten. -/
def InOrder (l : Log Entry) (c : Cursor) (delivered : List Entry) : Prop :=
  c.start ≤ c.next ∧ c.next ≤ l.pushed.length ∧
  ∃ positions : List Nat, positions.Pairwise (· < ·) ∧
    (∀ p ∈ positions, c.start ≤ p ∧ p < c.next) ∧
    delivered.map some = positions.map (l.pushed[·]?) ∧
    ∀ p, c.start ≤ p → p < c.next → p ∈ positions ∨ p < l.base

/-- The log after a run of operations: its entries, and what its subscribers were given. -/
structure LogInv (ops : List (Op Entry)) (results : List (Result Entry)) (l : Log Entry) : Prop where
  length : ops.length = results.length
  pushed : l.pushed = pushes ops
  inOrder : ∀ s c, l.cursors s = some c → InOrder l c (deliveries s ops results)
  fresh : ∀ s, l.nextHandle ≤ s → l.cursors s = none ∧ deliveries s ops results = []

theorem pushes_append (ops : List (Op Entry)) (op : Op Entry) :
    pushes (ops ++ [op]) = pushes ops ++ pushes [op] := by
  simp [pushes, List.filterMap_append]

theorem deliveries_append {s : Nat} {ops : List (Op Entry)} {results : List (Result Entry)}
    (hlen : ops.length = results.length) (op : Op Entry) (r : Result Entry) :
    deliveries s (ops ++ [op]) (results ++ [r]) =
      deliveries s ops results ++ (delivery s (op, r)).toList := by
  unfold deliveries
  rw [List.zip_append hlen, List.filterMap_append]
  simp only [List.zip_cons_cons, List.zip_nil_right, List.filterMap_cons, List.filterMap_nil]
  cases delivery s (op, r) <;> rfl

/-- Appending entries to the log keeps what was delivered in order. -/
theorem InOrder.mono {l l' : Log Entry} {c : Cursor} {delivered : List Entry}
    (h : InOrder l c delivered) (hcap : l'.capacity = l.capacity) (suffix : List Entry)
    (hp : l'.pushed = l.pushed ++ suffix) : InOrder l' c delivered := by
  obtain ⟨h1, h2, ps, hps, hb, hd, hall⟩ := h
  have hlen : l'.pushed.length = l.pushed.length + suffix.length := by
    rw [hp, List.length_append]
  refine ⟨h1, by omega, ps, hps, hb, ?_, fun p hp1 hp2 => ?_⟩
  · rw [hd]
    refine List.map_congr_left fun p hpmem => ?_
    rw [hp, List.getElem?_append_left]
    have := (hb p hpmem).2
    omega
  · rcases hall p hp1 hp2 with hmem | hlt
    · exact Or.inl hmem
    · right
      unfold Log.base at hlt ⊢
      rw [hcap, hlen]
      omega

/-- A pop at the cursor's position delivers one more entry in order; the positions it skips are
overwritten ones. -/
theorem InOrder.pop {l : Log Entry} {c : Cursor} {delivered : List Entry}
    (h : InOrder l c delivered) (hlt : l.position c < l.pushed.length) {e : Entry}
    (he : l.pushed[l.position c]? = some e) :
    InOrder l { c with next := l.position c + 1 } (delivered ++ [e]) := by
  obtain ⟨h1, h2, ps, hps, hb, hd, hall⟩ := h
  have hpos : c.next ≤ l.position c := le_max_left _ _
  refine ⟨by simp only; omega, hlt, ps ++ [l.position c], ?_, ?_, ?_, ?_⟩
  · rw [List.pairwise_append]
    refine ⟨hps, List.pairwise_singleton _ _, fun p hp q hq => ?_⟩
    rw [List.mem_singleton] at hq
    have := (hb p hp).2
    omega
  · intro p hp
    rcases List.mem_append.mp hp with hp | hp
    · have := hb p hp
      simp only
      omega
    · rw [List.mem_singleton] at hp
      simp only
      omega
  · simp [hd, he]
  · intro p hp1 hp2
    simp only at hp1 hp2
    by_cases hold : p < c.next
    · rcases hall p hp1 hold with hmem | hlt'
      · exact Or.inl (List.mem_append_left _ hmem)
      · exact Or.inr hlt'
    · by_cases hnew : p = l.position c
      · exact Or.inl (by simp [hnew])
      · right
        unfold Log.position at hp2 hnew
        omega

/-- A subscriber that has just started has been given nothing. -/
theorem inOrder_start {l : Log Entry} {p : Nat} (hp : p ≤ l.pushed.length) :
    InOrder l ⟨p, p⟩ [] :=
  ⟨le_rfl, hp, [], List.Pairwise.nil, by simp, rfl, fun q h1 h2 => by simp only at h1 h2; omega⟩

theorem logInv_new (C : Nat) : LogInv [] [] (Log.new C : Log Entry) where
  length := rfl
  pushed := rfl
  inOrder := by simp [Log.new]
  fresh := fun _ _ => ⟨rfl, rfl⟩

/-- A step that neither pushes nor delivers, and changes cursors by `f` and the handles. -/
theorem LogInv.silent {ops : List (Op Entry)} {results : List (Result Entry)} {l l' : Log Entry}
    (h : LogInv ops results l) {op : Op Entry} {r : Result Entry} (hcap : l'.capacity = l.capacity)
    (hpushed : l'.pushed = l.pushed) (hop : pushes [op] = []) (hr : ∀ s, delivery s (op, r) = none)
    (hcur : ∀ s c, l'.cursors s = some c → l.cursors s = some c ∨
      (l.nextHandle ≤ s ∧ c.start = c.next ∧ c.next ≤ l.pushed.length))
    (hfresh : ∀ s, l'.nextHandle ≤ s → l.nextHandle ≤ s ∧ l'.cursors s = none) :
    LogInv (ops ++ [op]) (results ++ [r]) l' := by
  have hdel : ∀ s, deliveries s (ops ++ [op]) (results ++ [r]) = deliveries s ops results :=
    fun s => by rw [deliveries_append h.length, hr]; simp
  refine ⟨by simp [h.length], by rw [hpushed, h.pushed, pushes_append, hop, List.append_nil],
    fun s c hc => ?_, fun s hs => ?_⟩
  · rw [hdel]
    rcases hcur s c hc with hold | ⟨hs, hstart, hle⟩
    · exact (h.inOrder s c hold).mono hcap [] (by simp [hpushed])
    · obtain ⟨start, next⟩ := c
      simp only at hstart hle
      subst hstart
      rw [(h.fresh s hs).2]
      exact inOrder_start (by rw [hpushed]; exact hle)
  · rw [hdel]
    exact ⟨(hfresh s hs).2, (h.fresh s (hfresh s hs).1).2⟩

/-- A subscriber is started at a position of the log. -/
theorem LogInv.subscribed {ops : List (Op Entry)} {results : List (Result Entry)} {l : Log Entry}
    (h : LogInv ops results l) {op : Op Entry} {r : Result Entry} {p : Nat} (hop : pushes [op] = [])
    (hr : ∀ s, delivery s (op, r) = none) (hp : p ≤ l.pushed.length) :
    LogInv (ops ++ [op]) (results ++ [r]) (l.subscribe p) := by
  refine h.silent rfl rfl hop hr (fun s c hc => ?_) fun s hs => ?_
  · by_cases hnew : s = l.nextHandle
    · subst hnew
      simp only [Log.subscribe, Function.update_self, Option.some.injEq] at hc
      subst hc
      exact Or.inr ⟨le_rfl, rfl, hp⟩
    · exact Or.inl (by simpa [Log.subscribe, Function.update_of_ne hnew] using hc)
  · simp only [Log.subscribe] at hs ⊢
    have hne : s ≠ l.nextHandle := by omega
    rw [Function.update_of_ne hne]
    exact ⟨by omega, (h.fresh s (by omega)).1⟩

/-- The next entry is delivered to `s`. -/
theorem LogInv.delivered {ops : List (Op Entry)} {results : List (Result Entry)} {l : Log Entry}
    (h : LogInv ops results l) {s : Nat} {c : Cursor} {locked : Bool} (hc : l.cursors s = some c)
    (hlt : l.position c < l.pushed.length) :
    LogInv (ops ++ [.tryPop s locked]) (results ++ [.popped l.pushed[l.position c]?])
      { l with cursors := Function.update l.cursors s (some { c with next := l.position c + 1 }) } := by
  obtain ⟨e, he⟩ : ∃ e, l.pushed[l.position c]? = some e := ⟨_, List.getElem?_eq_getElem hlt⟩
  have hother : ∀ t, t ≠ s →
      delivery t (.tryPop s locked, .popped l.pushed[l.position c]?) = none := by
    intro t hts
    simp [delivery, Ne.symm hts]
  refine ⟨by simp [h.length], by simp [h.pushed, pushes], fun t d hd => ?_, fun t ht => ?_⟩
  · rw [deliveries_append h.length]
    by_cases hts : t = s
    · subst hts
      simp only [Function.update_self, Option.some.injEq] at hd
      subst hd
      have := (h.inOrder t c hc).pop hlt he
      simpa [delivery, he, InOrder, Log.base] using this
    · simp only [Function.update_of_ne hts] at hd
      rw [hother t hts]
      simpa [InOrder, Log.base] using h.inOrder t d hd
  · have hts : t ≠ s := fun hts => by
      have := (h.fresh t ht).1
      rw [hts, hc] at this
      cases this
    rw [deliveries_append h.length, hother t hts]
    simp only [Function.update_of_ne hts]
    exact ⟨(h.fresh t ht).1, by simp [(h.fresh t ht).2]⟩

theorem logInv_step {ops : List (Op Entry)} {results : List (Result Entry)} {l : Log Entry}
    {op : Op Entry} {l' : Log Entry} {r : Result Entry} (h : LogInv ops results l)
    (hstep : l.step op = some (l', r)) : LogInv (ops ++ [op]) (results ++ [r]) l' := by
  cases op with
  | getPublisher =>
    cases hstep
    exact h.silent rfl rfl rfl (fun _ => rfl) (fun _ _ hc => Or.inl hc)
      (fun s hs => ⟨by simp only at hs; omega, (h.fresh s (by simp only at hs; omega)).1⟩)
  | getSubscriber =>
    cases hstep
    exact h.subscribed rfl (fun _ => rfl) (by simp only [Log.base]; omega)
  | push p e =>
    simp only [Log.step] at hstep
    split_ifs at hstep
    cases hstep
    have hdel : ∀ s, deliveries s (ops ++ [.push p e]) (results ++ [.done]) =
        deliveries s ops results := fun s => by rw [deliveries_append h.length]; simp [delivery]
    refine ⟨by simp [h.length], by simp [h.pushed, pushes], fun s c hc => ?_,
      fun s hs => ?_⟩
    · rw [hdel]
      exact (h.inOrder s c hc).mono rfl [e] rfl
    · rw [hdel]
      exact h.fresh s hs
  | tryPop s locked =>
    obtain ⟨c, hc, heq⟩ := Option.map_eq_some_iff.mp hstep
    by_cases hcond : locked = true ∧ l.position c < l.pushed.length
    · -- an entry is delivered to `s`
      simp only [Log.tryPop, if_pos hcond, Prod.mk.injEq] at heq
      obtain ⟨rfl, rfl⟩ := heq
      exact h.delivered hc hcond.2
    · simp only [Log.tryPop, if_neg hcond, Prod.mk.injEq] at heq
      obtain ⟨rfl, rfl⟩ := heq
      exact h.silent rfl rfl rfl (fun t => by simp [delivery]) (fun _ _ hd => Or.inl hd)
        (fun t ht => ⟨ht, (h.fresh t ht).1⟩)
  | numAvailable s =>
    obtain ⟨c, hc, heq⟩ := Option.map_eq_some_iff.mp hstep
    cases heq
    exact h.silent rfl rfl rfl (fun _ => rfl) (fun _ _ hd => Or.inl hd)
      (fun t ht => ⟨ht, (h.fresh t ht).1⟩)
  | clone s =>
    obtain ⟨c, hc, heq⟩ := Option.map_eq_some_iff.mp hstep
    cases heq
    exact h.subscribed rfl (fun _ => rfl) (h.inOrder s c hc).2.1
  | releasePublisher p =>
    simp only [Log.step] at hstep
    split_ifs at hstep
    cases hstep
    exact h.silent rfl rfl rfl (fun _ => rfl) (fun _ _ hd => Or.inl hd)
      (fun t ht => ⟨ht, (h.fresh t ht).1⟩)
  | releaseSubscriber s =>
    obtain ⟨c, hc, heq⟩ := Option.map_eq_some_iff.mp hstep
    cases heq
    refine h.silent rfl rfl rfl (fun _ => rfl) (fun t d hd => ?_) (fun t ht => ⟨ht, ?_⟩)
    · by_cases hts : t = s
      · subst hts
        simp at hd
      · exact Or.inl (by simpa [Function.update_of_ne hts] using hd)
    · by_cases hts : t = s
      · subst hts
        simp
      · simpa [Function.update_of_ne hts] using (h.fresh t ht).1

/-- **Delivery.** Every run of operations on a workset of any capacity has the results of the same
run on the log, which holds everything that was pushed. The subtraction of `num_available` never
wraps, and every subscriber is given the log's entries in order, without duplicates and without
gaps other than overwritten positions. -/
theorem workset_refines_log (C : UInt64) (ops : List (Op Entry)) :
    Option.Rel (fun x y => Refines x.1 y.1 ∧ x.2 = y.2)
      (runOut step (new C) ops) (runOut Log.step (Log.new C.toNat) ops) ∧
    (∀ ws results, runOut step (new C) ops = some (ws, results) →
      ∀ s i, ws.subscribers_ s = some i → i ≤ ws.size) ∧
    (∀ l results, runOut Log.step (Log.new C.toNat) ops = some (l, results) →
      l.pushed = pushes ops ∧
      ∀ s c, l.cursors s = some c → InOrder l c (deliveries s ops results)) := by
  have hsim := runOut_refines (R := Refines) step_refines
    (refines_new C : Refines (new C : Workset Entry) _) ops
  refine ⟨hsim, fun ws results hrun s i hi => ?_, fun l results hrun => ?_⟩
  · obtain ⟨y, -, hR, -⟩ := exists_right hsim hrun
    exact hR.index_le_size hi
  · have hinv := runOut_history (P := LogInv) (logInv_new C.toNat)
      (fun _ _ _ _ _ _ h hs => logInv_step h hs) hrun
    exact ⟨hinv.pushed, hinv.inOrder⟩

/-- A subscriber of a ring of two entries that is lapped: it gets the two newest of three entries,
through its clone as well. -/
example :
    (runOut step (new 2 : Workset Nat)
      [.getPublisher, .getSubscriber, .push 0 10, .push 0 11, .push 0 12, .numAvailable 1,
        .tryPop 1 true, .clone 1, .tryPop 2 true, .tryPop 1 true]).map
      (fun r => deliveries 1 [.getPublisher, .getSubscriber, .push 0 10, .push 0 11, .push 0 12,
        .numAvailable 1, .tryPop 1 true, .clone 1, .tryPop 2 true, .tryPop 1 true] r.2) =
      some [11, 12] := by decide

end Workset

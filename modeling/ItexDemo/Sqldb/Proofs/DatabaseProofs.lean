import ItexDemo.Sqldb.Database
import ItexDemo.Sqldb.Proofs.LossProofs

/-!
# Ownership of connections

The invariant has two halves. The connections are owned by one place each and what was deleted has
no owner; and what runs on a transaction object is safe for the connections that this object sees. The
triples of the functions give the second half when a call begins, and an operation of one object
leaves alone what the others see.
-/

namespace Sqldb

namespace Database

open Ownership Script Transaction

variable {α : Type}

/-! ## The heap -/

theorem Heap.use_live {h : Heap α} {c : Nat} (hc : c ∉ h.deleted) : h.use c = h := by
  rw [Heap.use, if_neg hc]

theorem Heap.set_live {h : Heap α} {c : Nat} (hc : c ∉ h.deleted) (l : Link α) :
    h.set c l = { h with link := Function.update h.link c l } := by
  rw [Heap.set, Heap.use_live hc]

theorem Heap.link_set (h : Heap α) (c : Nat) (l : Link α) :
    (h.set c l).link = Function.update h.link c l := rfl

theorem Heap.link_use (h : Heap α) (c : Nat) : (h.use c).link = h.link := by
  unfold Heap.use
  split <;> rfl

theorem Heap.deleted_use (h : Heap α) (c : Nat) : (h.use c).deleted = h.deleted := by
  unfold Heap.use
  split <;> rfl

theorem Heap.deleted_set (h : Heap α) (c : Nat) (l : Link α) : (h.set c l).deleted = h.deleted :=
  Heap.deleted_use h c

/-! ## The loops over the pool -/

/-- What `async_get_connection` takes from the pool: the first connections that are `BAD` are deleted,
and the next one is returned if there is one. -/
theorem popLoop_spec (bad : Nat → Bool) {queue : List Nat} {d : Database α} (hnodup : queue.Nodup)
    (hlive : ∀ c ∈ queue, c ∉ d.heap.deleted) :
    ∃ dropped rest stats, (popLoop bad queue d).2 =
        { d with
          heap := { d.heap with deleted := d.heap.deleted ++ dropped }
          pool_queue_ := rest
          pool_stats_per_period_ := stats } ∧
      queue = dropped ++ (popLoop bad queue d).1.toList ++ rest ∧
      (∀ c, (popLoop bad queue d).1 = some c → (d.heap.link c).bad = false) ∧
      dropped = queue.takeWhile fun c => (d.heap.link c).bad || bad c := by
  induction queue generalizing d with
  | nil =>
    exact ⟨[], [], d.pool_stats_per_period_, by simp [popLoop], rfl, fun c h => (nomatch h), rfl⟩
  | cons connection queue ih =>
    obtain ⟨hfresh, hnodup⟩ := List.nodup_cons.mp hnodup
    rw [popLoop, Heap.use_live (hlive connection List.mem_cons_self)]
    split
    · -- the connection is `BAD`
      rename_i hbad
      obtain ⟨dropped, rest, stats, hd, hqueue, hgood, hdropped⟩ := ih (d := { d with
        heap := d.heap.delete connection
        pool_stats_per_period_ := d.pool_stats_per_period_.update queue.length }) hnodup (by
          intro c hc hmem
          rcases List.mem_append.mp hmem with hold | hnew
          · exact hlive c (List.mem_cons_of_mem _ hc) hold
          · exact hfresh (List.mem_singleton.mp hnew ▸ hc))
      refine ⟨connection :: dropped, rest, stats, ?_, ?_, hgood, ?_⟩
      · rw [hd]
        simp [Heap.delete]
      · rw [List.cons_append, List.cons_append]
        exact congrArg _ hqueue
      · rw [hdropped, List.takeWhile_cons, if_pos hbad]
        rfl
    · rename_i hgood
      refine ⟨[], queue, d.pool_stats_per_period_.update queue.length, by simp, rfl, fun c hc => ?_,
        by rw [List.takeWhile_cons, if_neg hgood]⟩
      obtain rfl := Option.some.inj hc
      exact (Bool.or_eq_false_iff.mp (Bool.not_eq_true _ ▸ hgood)).1

theorem shrinkLoop_spec {n : Nat} {d : Database α} (hn : n ≤ d.pool_queue_.length) :
    shrinkLoop n d = { d with
      heap := { d.heap with deleted := d.heap.deleted ++ d.pool_queue_.take n }
      pool_queue_ := d.pool_queue_.drop n } := by
  induction n generalizing d with
  | zero => simp [shrinkLoop]
  | succ n ih =>
    cases hqueue : d.pool_queue_ with
    | nil => simp [hqueue] at hn
    | cons connection queue =>
      rw [hqueue, List.length_cons, Nat.succ_le_succ_iff] at hn
      simp only [shrinkLoop, hqueue]
      rw [ih (d := { d with heap := d.heap.delete connection, pool_queue_ := queue }) hn]
      simp [Heap.delete]

/-- The pool is never asked for more than it has. -/
theorem numToShrink_le (d : Database α) : d.numToShrink.toNat ≤ d.pool_queue_.length := by
  unfold numToShrink
  generalize (if d.pool_stats_per_period_.counter = 0 then (0 : UInt64)
    else d.pool_stats_per_period_.cumulative_size / d.pool_stats_per_period_.counter) = average_size
  have hsize : (UInt64.ofNat d.pool_queue_.length).toNat ≤ d.pool_queue_.length := by
    rw [UInt64.toNat_ofNat']
    exact Nat.mod_le _ _
  show UInt64.toNat (if UInt64.ofNat d.pool_queue_.length > average_size then _ else _) ≤ _
  split
  · rename_i hlt
    rw [UInt64.toNat_div, UInt64.toNat_sub_of_le _ _ (UInt64.le_of_lt hlt),
      show UInt64.toNat 2 = 2 from rfl]
    omega
  · exact Nat.zero_le _

/-! ## What an object sees -/

end Database

namespace Transaction.Instance

open Database Script

variable {α : Type} {x : Instance α} {d d' : Database α}

/-- The connections that an object refers to. -/
def Refers (x : Instance α) (c : Nat) : Prop := x.connection_ = some c ∨ x.pending = some c

/-- The object as its functions see it. -/
def view (x : Instance α) (d : Database α) : View α where
  connection_ := x.connection_.map d.heap.link
  pending := x.pending.map d.heap.link
  trace := x.trace

theorem view_congr (h : ∀ c, x.Refers c → d'.heap.link c = d.heap.link c) :
    x.view d' = x.view d := by
  have hconnection : x.connection_.map d'.heap.link = x.connection_.map d.heap.link :=
    Option.map_congr fun c hc => h c (.inl hc)
  have hpending : x.pending.map d'.heap.link = x.pending.map d.heap.link :=
    Option.map_congr fun c hc => h c (.inr hc)
  simp [view, hconnection, hpending]

/-- What runs on the object is safe, and when nothing runs it is at rest. -/
def Goes (x : Instance α) (d : Database α) : Prop :=
  match x.activity with
  | .idle => AtRest x.mode_ (x.view d)
  | .call p => Safe (semantics x.mode_ False)
      (Ends (fun _ => AtRest x.mode_) fun _ => AtRest x.mode_) p (x.view d)
  | .destructor p => Safe (semantics x.mode_ False)
      (Ends (fun _ => AtRest x.mode_) fun _ => AtRest x.mode_) p (x.view d)

theorem goes_congr (h : x.Goes d) (hlink : ∀ c, x.Refers c → d'.heap.link c = d.heap.link c) :
    x.Goes d' := by
  unfold Goes at h ⊢
  rw [view_congr hlink]
  exact h

theorem goes_lost (h : x.Goes d) (hlost : Lost (x.view d) (x.view d')) : x.Goes d' := by
  have hsafe : ∀ {p : Running α}, Safe (semantics x.mode_ False)
      (Ends (fun _ => AtRest x.mode_) fun _ => AtRest x.mode_) p (x.view d) →
      Safe (semantics x.mode_ False)
        (Ends (fun _ => AtRest x.mode_) fun _ => AtRest x.mode_) p (x.view d') := by
    intro p hp
    refine hp.transfer hlost (fun op v w hvw => hvw.ready op) (fun op v w a w' hvw => hvw.act) ?_
    intro r v w hvw hr
    cases r with
    | ok _ => exact hvw.atRest hr
    | error e => exact hvw.atRest hr
  unfold Goes at h ⊢
  cases hactivity : x.activity with
  | idle =>
    rw [hactivity] at h
    exact hlost.atRest h
  | call p =>
    rw [hactivity] at h
    exact hsafe h
  | destructor p =>
    rw [hactivity] at h
    exact hsafe h

/-- The references of an object are good: they are two different live objects. -/
structure Apart (x : Instance α) (d : Database α) : Prop where
  live : ∀ c, x.Refers c → c < d.heap.next ∧ c ∉ d.heap.deleted
  distinct : ∀ c, x.connection_ = some c → x.pending ≠ some c

/-- What the object sees when the object `c` in its hand is left as `l`. -/
theorem view_set (hx : x.Apart d) {c : Nat} (hc : x.connection_ = some c) (l : Link α) :
    x.view { d with heap := d.heap.set c l } = { x.view d with connection_ := some l } := by
  have hpending : x.pending.map (Function.update d.heap.link c l) = x.pending.map d.heap.link :=
    Option.map_congr fun c' hc' =>
      Function.update_of_ne (fun heq : c' = c => hx.distinct c hc (heq ▸ hc')) ..
  simp [view, Heap.link_set, hc, hpending]

theorem pooled_of_good {l : Link α} (hblock : l.block = .none) (hbad : l.bad = false) :
    l = .pooled l.busy := by
  obtain ⟨block, busy, bad⟩ := l
  subst hblock hbad
  rfl

/-- An operation does what it is to do, as the object sees it. -/
theorem act_of_answer {choice : Choice} {op : Op α} {a : Ans op} {x' : Instance α}
    (h : x.answer d choice op = some (a, x', d')) (hx : x.Apart d) (hnodup : d.pool_queue_.Nodup)
    (hpool : ∀ c ∈ d.pool_queue_, c ∉ d.heap.deleted ∧ (d.heap.link c).block = .none)
    (hready : Ready x.mode_ False op (x.view d)) : Act op (x.view d) a (x'.view d') := by
  cases op with
  | isNull =>
    cases h
    exact ⟨by simp [view], rfl⟩
  | popPool =>
    obtain ⟨dropped, rest, stats, hd', hqueue, hgood, -⟩ :=
      popLoop_spec choice.bad hnodup fun c hc => (hpool c hc).1
    obtain ⟨-, heq⟩ := Option.ite_none_right_eq_some.mp h
    cases hpopped : (popLoop choice.bad d.pool_queue_ d).1 with
    | none =>
      rw [hpopped, hd'] at heq
      cases heq
      have hpending : x.pending = none := by simpa [view] using hready.2
      simp [Act, view, hpending]
    | some c =>
      rw [hpopped, hd'] at heq
      cases heq
      have hmem : c ∈ d.pool_queue_ := by
        rw [hqueue, hpopped]
        simp
      refine ⟨(d.heap.link c).busy, ?_⟩
      rw [← pooled_of_good (hpool c hmem).2 (hgood c hpopped)]
      rfl
  | newConnection =>
    cases h
    have hconnection : x.connection_.map (Function.update d.heap.link d.heap.next .unconnected) =
        x.connection_.map d.heap.link :=
      Option.map_congr fun c hc => Function.update_of_ne (Nat.ne_of_lt (hx.live c (.inl hc)).1) ..
    simp [Act, view, Heap.alloc, hconnection]
  | connect =>
    obtain ⟨c, hc, heq⟩ := Option.map_eq_some_iff.mp h
    cases heq
    have hconnection : x.connection_.map (Function.update d.heap.link c .connected) =
        x.connection_.map d.heap.link :=
      Option.map_congr fun c' hc' =>
        Function.update_of_ne (fun heq : c' = c => hx.distinct c' hc' (heq ▸ hc)) ..
    cases hconnected : choice.connected <;> simp [Act, view, Heap.link_set, hconnection]
  | assign =>
    cases h
    simp [Act, view, View.assign]
  | exec cmd =>
    obtain ⟨c, hc, heq⟩ := Option.map_eq_some_iff.mp h
    cases heq
    refine ⟨d.heap.link c, choice.outcome, by simp [view, hc], answers_answerOf _, ?_⟩
    have hview := view_set hx hc ((d.heap.link c).after cmd choice.outcome)
    show { x.view _ with trace := x.trace.after (d.heap.link c) cmd choice.outcome } = _
    rw [hview]
    rfl
  | isBad =>
    obtain ⟨c, hc, heq⟩ := Option.map_eq_some_iff.mp h
    cases heq
    refine ⟨d.heap.link c, by simp [view, hc], fun hbad => by simp [hbad], ?_⟩
    exact view_set hx hc _
  | deleteConnection =>
    obtain ⟨c, hc, heq⟩ := Option.map_eq_some_iff.mp h
    cases heq
    rfl
  | returnConnection =>
    obtain ⟨-, h⟩ := Option.ite_none_right_eq_some.mp h
    obtain ⟨c, hc, heq⟩ := Option.map_eq_some_iff.mp h
    cases heq
    simp [Act, view, Database.returnConnection, Heap.link_use]

/-- An operation leaves alone what the object does not refer to. -/
theorem link_of_answer {choice : Choice} {op : Op α} {a : Ans op} {x' : Instance α}
    (h : x.answer d choice op = some (a, x', d')) (hnodup : d.pool_queue_.Nodup)
    (hpool : ∀ c ∈ d.pool_queue_, c ∉ d.heap.deleted) {c : Nat} (hc : ¬x.Refers c)
    (hold : c < d.heap.next) : d'.heap.link c = d.heap.link c := by
  have hset : ∀ c' l, x.Refers c' → (d.heap.set c' l).link c = d.heap.link c := by
    intro c' l hc'
    rw [Heap.link_set]
    exact Function.update_of_ne (fun heq : c = c' => hc (heq ▸ hc')) ..
  cases op with
  | isNull =>
    cases h
    rfl
  | popPool =>
    obtain ⟨dropped, rest, stats, hd', -, -, -⟩ := popLoop_spec choice.bad hnodup hpool
    obtain ⟨-, heq⟩ := Option.ite_none_right_eq_some.mp h
    obtain ⟨-, heq⟩ := Prod.mk.inj (Option.some.inj heq)
    rw [← (Prod.mk.inj heq).2, hd']
  | newConnection =>
    cases h
    exact Function.update_of_ne (Nat.ne_of_lt hold) ..
  | connect =>
    obtain ⟨c', hc', heq⟩ := Option.map_eq_some_iff.mp h
    cases heq
    exact hset c' _ (.inr hc')
  | assign =>
    cases h
    rfl
  | exec cmd =>
    obtain ⟨c', hc', heq⟩ := Option.map_eq_some_iff.mp h
    cases heq
    exact hset c' _ (.inl hc')
  | isBad =>
    obtain ⟨c', hc', heq⟩ := Option.map_eq_some_iff.mp h
    cases heq
    exact hset c' _ (.inl hc')
  | deleteConnection =>
    obtain ⟨c', -, heq⟩ := Option.map_eq_some_iff.mp h
    cases heq
    rfl
  | returnConnection =>
    obtain ⟨-, h⟩ := Option.ite_none_right_eq_some.mp h
    obtain ⟨c', -, heq⟩ := Option.map_eq_some_iff.mp h
    cases heq
    rw [Database.returnConnection, Heap.link_use]

end Transaction.Instance

namespace Database

open Ownership Script Transaction

variable {α : Type}

/-! ## Who owns what -/

/-- The connections of a relation of ownership are kept as they should be. -/
structure Kept (d : Database α) (R : Owner → Nat → Prop) : Prop where
  owners : Exclusive R
  live : ∀ q c, R q c → c < d.heap.next ∧ c ∉ d.heap.deleted
  once : d.pool_queue_.Nodup
  deleted : d.heap.deleted.Nodup
  old : ∀ c ∈ d.heap.deleted, c < d.heap.next
  misused : d.heap.misused = []
  emptyPops : d.emptyPops = 0
  blocks : ∀ c ∈ d.pool_queue_, (d.heap.link c).block = .none

/-- A step that deletes the connections `gone` and moves one connection to a new place. -/
theorem Kept.follow {d d' : Database α} {R R' : Owner → Nat → Prop} (h : Kept d R)
    (moved : Option (Owner × Nat)) (gone : List Nat) (hR : Follows R R' moved)
    (hgone : ∀ q c, R' q c → c ∉ gone)
    (howned : ∀ c ∈ gone, ∃ q, R q c) (hnodup : gone.Nodup)
    (hmoved : ∀ q c, moved = some (q, c) → c < d'.heap.next ∧ c ∉ d.heap.deleted)
    (hnext : d.heap.next ≤ d'.heap.next) (hdeleted : d'.heap.deleted = d.heap.deleted ++ gone)
    (hmisused : d'.heap.misused = d.heap.misused) (hpops : d'.emptyPops = d.emptyPops)
    (honce : d'.pool_queue_.Nodup)
    (hblocks : ∀ c ∈ d'.pool_queue_, (d'.heap.link c).block = .none) : Kept d' R' where
  owners := h.owners.follow hR
  live := by
    intro q c hc
    rw [hdeleted, List.mem_append, not_or]
    rcases hR q c hc with ⟨hold, -⟩ | hnew
    · obtain ⟨hlt, hlive⟩ := h.live q c hold
      exact ⟨Nat.lt_of_lt_of_le hlt hnext, hlive, hgone q c hc⟩
    · obtain ⟨hlt, hlive⟩ := hmoved q c hnew
      exact ⟨hlt, hlive, hgone q c hc⟩
  once := honce
  deleted := by
    rw [hdeleted]
    refine List.nodup_append.mpr ⟨h.deleted, hnodup, fun c hc c' hc' heq => ?_⟩
    obtain ⟨q, hq⟩ := howned c' hc'
    exact (h.live q c' hq).2 (heq ▸ hc)
  old := by
    intro c hc
    rw [hdeleted] at hc
    rcases List.mem_append.mp hc with hc | hc
    · exact Nat.lt_of_lt_of_le (h.old c hc) hnext
    · obtain ⟨q, hq⟩ := howned c hc
      exact Nat.lt_of_lt_of_le (h.live q c hq).1 hnext
  misused := hmisused.trans h.misused
  emptyPops := hpops.trans h.emptyPops
  blocks := hblocks

theorem State.set_self (s : State α) (t : Nat) (y : Option (Instance α)) :
    (s.set t y).transactions t = y :=
  Function.update_self ..

theorem State.set_of_ne (s : State α) {t u : Nat} (y : Option (Instance α)) (hu : u ≠ t) :
    (s.set t y).transactions u = s.transactions u :=
  Function.update_of_ne hu ..

/-- The state after a step of the object `t`. -/
def State.after (s : State α) (t : Nat) (y : Instance α) (d : Database α) : State α :=
  { s.set t (some y) with database := d }

theorem State.after_self (s : State α) (t : Nat) (y : Instance α) (d : Database α) :
    (s.after t y d).transactions t = some y :=
  s.set_self t (some y)

theorem State.after_of_ne (s : State α) {t u : Nat} (y : Instance α) (d : Database α) (hu : u ≠ t) :
    (s.after t y d).transactions u = s.transactions u :=
  s.set_of_ne (some y) hu

/-- A step of the object `t` changes only what the pool and `t` own. -/
theorem follows_after {s : State α} {t : Nat} {x y : Instance α} {d : Database α}
    {moved : Option (Owner × Nat)} (hx : s.transactions t = some x)
    (hpool : ∀ c ∈ d.pool_queue_,
      (c ∈ s.database.pool_queue_ ∧ ∀ q, moved ≠ some (q, c)) ∨ moved = some (.pool, c))
    (hconnection : ∀ c, y.connection_ = some c →
      (x.connection_ = some c ∧ ∀ q, moved ≠ some (q, c)) ∨ moved = some (.transaction t, c))
    (hpending : ∀ c, y.pending = some c →
      (x.pending = some c ∧ ∀ q, moved ≠ some (q, c)) ∨ moved = some (.getting t, c))
    (hothers : ∀ q c, moved = some (q, c) → ∀ q', s.Owns q' c →
      q' = .pool ∨ q' = .transaction t ∨ q' = .getting t) :
    Follows s.Owns (s.after t y d).Owns moved := by
  have hother : ∀ q c, s.Owns q c → q ≠ .pool → q ≠ .transaction t → q ≠ .getting t →
      ∀ q', moved ≠ some (q', c) := by
    intro q c hq hne₁ hne₂ hne₃ q' hmoved
    rcases hothers q' c hmoved q hq with h | h | h
    · exact hne₁ h
    · exact hne₂ h
    · exact hne₃ h
  intro q c hq
  cases q with
  | pool => exact hpool c hq
  | transaction u =>
    obtain ⟨z, hz, hc⟩ := hq
    by_cases hu : u = t
    · subst hu
      obtain rfl : y = z := Option.some.inj ((s.after_self u y d).symm.trans hz)
      exact (hconnection c hc).imp (fun h => ⟨⟨x, hx, h.1⟩, h.2⟩) id
    · have hold : s.Owns (.transaction u) c := ⟨z, (s.after_of_ne y d hu).symm.trans hz, hc⟩
      refine .inl ⟨hold, hother (.transaction u) c hold (fun h => nomatch h) (fun heq => ?_)
        fun h => nomatch h⟩
      exact hu (Owner.transaction.inj heq)
  | getting u =>
    obtain ⟨z, hz, hc⟩ := hq
    by_cases hu : u = t
    · subst hu
      obtain rfl : y = z := Option.some.inj ((s.after_self u y d).symm.trans hz)
      exact (hpending c hc).imp (fun h => ⟨⟨x, hx, h.1⟩, h.2⟩) id
    · have hold : s.Owns (.getting u) c := ⟨z, (s.after_of_ne y d hu).symm.trans hz, hc⟩
      refine .inl ⟨hold, hother (.getting u) c hold (fun h => nomatch h) (fun h => nomatch h)
        fun heq => ?_⟩
      exact hu (Owner.getting.inj heq)

section Answer

variable {s : State α} {t : Nat} {x : Instance α} (hx : s.transactions t = some x)
  (h : Kept s.database s.Owns)

include hx h

theorem apart_of_kept : x.Apart s.database where
  live := by
    rintro c (hc | hc)
    · exact h.live (.transaction t) c ⟨x, hx, hc⟩
    · exact h.live (.getting t) c ⟨x, hx, hc⟩
  distinct := fun c hc hc' =>
    nomatch h.owners c (.transaction t) (.getting t) ⟨x, hx, hc⟩ ⟨x, hx, hc'⟩

omit hx in
theorem pool_of_kept : ∀ c ∈ s.database.pool_queue_,
    c ∉ s.database.heap.deleted ∧ (s.database.heap.link c).block = .none :=
  fun c hc => ⟨(h.live .pool c hc).2, h.blocks c hc⟩

/-- Whoever owns what `t` refers to is `t`. -/
theorem owner_of_refers {c : Nat} (hc : x.Refers c) {q : Owner} (hq : s.Owns q c) :
    q = .transaction t ∨ q = .getting t := by
  rcases hc with hc | hc
  · exact .inl (h.owners c q (.transaction t) hq ⟨x, hx, hc⟩)
  · exact .inr (h.owners c q (.getting t) hq ⟨x, hx, hc⟩)

/-- A step of `t` that moves nothing. -/
theorem kept_same {y : Instance α} (hconnection : y.connection_ = x.connection_)
    (hpending : y.pending = x.pending) :
    Kept s.database (s.after t y s.database).Owns :=
  h.follow none [] (follows_after hx (fun c hc => .inl ⟨hc, nofun⟩)
    (fun c hc => .inl ⟨hconnection ▸ hc, nofun⟩) (fun c hc => .inl ⟨hpending ▸ hc, nofun⟩) nofun)
    (fun _ c _ => List.not_mem_nil) nofun List.nodup_nil nofun (Nat.le_refl _) (by simp) rfl rfl
    h.once h.blocks

/-- A call on a connection of `t`. -/
theorem kept_set {y : Instance α} {c : Nat} (hc : x.Refers c) (l : Link α)
    (hconnection : ∀ c, y.connection_ = some c → x.connection_ = some c)
    (hpending : ∀ c, y.pending = some c → x.pending = some c) :
    Kept { s.database with heap := s.database.heap.set c l }
      (s.after t y { s.database with heap := s.database.heap.set c l }).Owns := by
  have hlive := ((apart_of_kept hx h).live c hc).2
  rw [Heap.set_live hlive]
  refine h.follow none [] (follows_after hx (fun c hc => .inl ⟨hc, nofun⟩)
    (fun c hc => .inl ⟨hconnection c hc, nofun⟩) (fun c hc => .inl ⟨hpending c hc, nofun⟩) nofun)
    (fun _ c _ => List.not_mem_nil) nofun List.nodup_nil nofun (Nat.le_refl _) (by simp) rfl rfl h.once
    fun c' hc' => ?_
  have hne : c' ≠ c := by
    rintro rfl
    rcases owner_of_refers hx h hc (q := .pool) hc' with heq | heq <;> cases heq
  show (Function.update s.database.heap.link c l c').block = .none
  rw [Function.update_of_ne hne]
  exact h.blocks c' hc'

/-- What is taken from the pool goes to the `async_get_connection` of `t`. -/
theorem kept_popPool {popped : Option Nat × Database α} {dropped rest : List Nat}
    {stats : PoolStats} (hqueue : s.database.pool_queue_ = dropped ++ popped.1.toList ++ rest)
    (hd : popped.2 = { s.database with
      heap := { s.database.heap with deleted := s.database.heap.deleted ++ dropped }
      pool_queue_ := rest
      pool_stats_per_period_ := stats })
    (hnone : (x.view s.database).connection_ = none) {a : Bool} {x' : Instance α} {d' : Database α}
    (hpopped : some (popped.1.isSome, { x with pending := popped.1 }, popped.2) = some (a, x', d'))
    (activity : Activity α) :
    Kept d' (s.after t { x' with activity := activity } d').Owns := by
  obtain ⟨-, hpopped⟩ := Prod.mk.inj (Option.some.inj hpopped)
  obtain ⟨rfl, rfl⟩ := Prod.mk.inj hpopped
  have hconnection : x.connection_ = none := by simpa [Instance.view] using hnone
  have hnodup := h.once
  rw [hqueue, List.append_assoc, List.nodup_append] at hnodup
  obtain ⟨hdropped, hnodup, hapart⟩ := hnodup
  obtain ⟨-, hrest, hapart'⟩ := List.nodup_append.mp hnodup
  have hmem : ∀ c, c ∈ dropped ∨ popped.1 = some c ∨ c ∈ rest → c ∈ s.database.pool_queue_ := by
    intro c hc
    rw [hqueue]
    simpa [or_assoc] using hc
  have hmoved : ∀ q c, popped.1.map (fun c => (Owner.getting t, c)) = some (q, c) →
      q = .getting t ∧ popped.1 = some c := by
    intro q c heq
    obtain ⟨c', hc', heq⟩ := Option.map_eq_some_iff.mp heq
    obtain ⟨rfl, rfl⟩ := Prod.mk.inj heq
    exact ⟨rfl, hc'⟩
  have hfollows : Follows s.Owns (s.after t { x with pending := popped.1, activity := activity }
      popped.2).Owns (popped.1.map fun c => (.getting t, c)) := by
    rw [hd]
    refine follows_after hx (fun c hc => .inl ⟨hmem c (.inr (.inr hc)), fun q heq => ?_⟩)
      (fun c hc => ?_) (fun c hc => .inr ?_) fun q c heq q' hq' => .inl ?_
    · exact hapart' c (by simp [(hmoved q c heq).2]) c hc rfl
    · rw [hconnection] at hc
      cases hc
    · rw [show popped.1 = some c from hc]
      rfl
    · exact h.owners c q' .pool hq' (hmem c (.inr (.inl (hmoved q c heq).2)))
  refine h.follow _ dropped hfollows (fun q c hq hc => ?_)
    (fun c hc => ⟨.pool, hmem c (.inl hc)⟩) hdropped (fun q c heq => ?_)
    (by rw [hd]) (by rw [hd]) (by rw [hd]) (by rw [hd]) (by rw [hd]; exact hrest) ?_
  · rcases hfollows q c hq with ⟨hold, -⟩ | hnew
    · obtain rfl := h.owners c q .pool hold (hmem c (.inl hc))
      have hq : c ∈ popped.2.pool_queue_ := hq
      rw [hd] at hq
      exact hapart c hc c (List.mem_append_right _ hq) rfl
    · exact hapart c hc c (List.mem_append_left _ (by simp [(hmoved q c hnew).2])) rfl
  · rw [hd]
    exact h.live .pool c (hmem c (.inr (.inl (hmoved q c heq).2)))
  · rw [hd]
    exact fun c hc => h.blocks c (hmem c (.inr (.inr hc)))

/-- A new connection goes to the `async_get_connection` of `t`. -/
theorem kept_newConnection {choice : Instance.Choice} {a : Ans (Op.newConnection : Op α)} {x' : Instance α}
    {d' : Database α} (hanswer : x.answer s.database choice .newConnection = some (a, x', d'))
    (activity : Activity α) : Kept d' (s.after t { x' with activity := activity } d').Owns := by
  cases hanswer
  have hfresh : ∀ q, ¬s.Owns q s.database.heap.next :=
    fun q hq => Nat.lt_irrefl _ (h.live q _ hq).1
  have hstays : ∀ c q, s.Owns q c →
      ∀ q', some (Owner.getting t, s.database.heap.next) ≠ some (q', c) := by
    intro c q hq q' heq
    obtain rfl := (Prod.mk.inj (Option.some.inj heq)).2
    exact hfresh q hq
  refine h.follow (some (.getting t, s.database.heap.next)) []
    (follows_after hx (fun c hc => .inl ⟨hc, hstays c .pool hc⟩)
      (fun c hc => .inl ⟨hc, hstays c (.transaction t) ⟨x, hx, hc⟩⟩) (fun c hc => .inr ?_) ?_)
    (fun _ c _ => List.not_mem_nil) (by simp) List.nodup_nil ?_ (Nat.le_succ _)
    (by simp [Heap.alloc]) rfl rfl h.once fun c hc => ?_
  · rw [Option.some.inj hc]
  · rintro q c heq q' hq'
    obtain rfl := (Prod.mk.inj (Option.some.inj heq)).2
    exact absurd hq' (hfresh q')
  · rintro q c heq
    obtain rfl := (Prod.mk.inj (Option.some.inj heq)).2
    exact ⟨Nat.lt_succ_self _, fun hc => Nat.lt_irrefl _ (h.old _ hc)⟩
  · show (Function.update s.database.heap.link s.database.heap.next .unconnected c).block = .none
    rw [Function.update_of_ne (Nat.ne_of_lt (h.live .pool c hc).1)]
    exact h.blocks c hc

/-- The connection of `async_get_connection` becomes the one of `t`. -/
theorem kept_assign {choice : Instance.Choice} {a : Ans (Op.assign : Op α)} {x' : Instance α}
    {d' : Database α} (hanswer : x.answer s.database choice .assign = some (a, x', d'))
    (hready : Ready x.mode_ False (Op.assign : Op α) (x.view s.database))
    (activity : Activity α) : Kept d' (s.after t { x' with activity := activity } d').Owns := by
  have hapart := apart_of_kept hx h
  cases hanswer
  obtain ⟨c, hc⟩ : ∃ c, x.pending = some c := by
    simpa [Ready, Instance.view, Option.isSome_iff_exists] using hready.2
  have hpool : ∀ c' ∈ s.database.pool_queue_, ∀ q, some (Owner.transaction t, c) ≠ some (q, c') := by
    intro c' hc' q heq
    obtain rfl := (Prod.mk.inj (Option.some.inj heq)).2
    rcases owner_of_refers hx h (.inr hc) (q := .pool) hc' with heq | heq <;> cases heq
  refine h.follow (some (.transaction t, c)) []
    (follows_after hx (fun c' hc' => .inl ⟨hc', hpool c' hc'⟩) (fun c' hc' => .inr ?_)
      (fun c' hc' => by cases hc') ?_)
    (fun _ c _ => List.not_mem_nil) (by simp) List.nodup_nil ?_ (Nat.le_refl _) (by simp) rfl rfl
    h.once h.blocks
  · rw [Option.some.inj (hc.symm.trans hc')]
  · rintro q c' heq q' hq'
    obtain rfl := (Prod.mk.inj (Option.some.inj heq)).2
    exact .inr (owner_of_refers hx h (.inr hc) hq')
  · rintro q c' heq
    obtain rfl := (Prod.mk.inj (Option.some.inj heq)).2
    exact hapart.live _ (.inr hc)

/-- The connection of `t` is deleted. -/
theorem kept_deleteConnection {choice : Instance.Choice} {a : Ans (Op.deleteConnection : Op α)} {x' : Instance α}
    {d' : Database α} (hanswer : x.answer s.database choice .deleteConnection = some (a, x', d'))
    (activity : Activity α) : Kept d' (s.after t { x' with activity := activity } d').Owns := by
  have hapart := apart_of_kept hx h
  obtain ⟨c, hc, heq⟩ := Option.map_eq_some_iff.mp hanswer
  cases heq
  have hfollows : Follows s.Owns (s.after t
      { x with connection_ := none, activity := activity }
      { s.database with heap := s.database.heap.delete c }).Owns none :=
    follows_after hx (fun c hc => .inl ⟨hc, by simp⟩) (by simp) (fun c hc => .inl ⟨hc, by simp⟩)
      (by simp)
  refine h.follow none [c] hfollows (fun q c' hq hmem => ?_) (fun c' hc' => ?_)
    (by simp) (by simp) (Nat.le_refl _) rfl rfl rfl h.once h.blocks
  · obtain rfl := List.mem_singleton.mp hmem
    rcases hfollows q c' hq with ⟨hold, -⟩ | hnew
    · rcases owner_of_refers hx h (.inl hc) hold with rfl | rfl
      · obtain ⟨z, hz, hzc⟩ := hq
        rw [State.after_self] at hz
        cases hz
        cases hzc
      · obtain ⟨z, hz, hzc⟩ := hold
        obtain rfl : x = z := Option.some.inj (hx.symm.trans hz)
        exact hapart.distinct c' hc hzc
    · cases hnew
  · obtain rfl := List.mem_singleton.mp hc'
    exact ⟨.transaction t, x, hx, hc⟩

/-- The connection of `t` goes to the pool, outside of a transaction block. -/
theorem kept_returnConnection {choice : Instance.Choice} {a : Ans (Op.returnConnection : Op α)} {x' : Instance α}
    {d' : Database α} (hanswer : x.answer s.database choice .returnConnection = some (a, x', d'))
    (hready : Ready x.mode_ False (Op.returnConnection : Op α) (x.view s.database))
    (activity : Activity α) : Kept d' (s.after t { x' with activity := activity } d').Owns := by
  have hapart := apart_of_kept hx h
  obtain ⟨-, hanswer⟩ := Option.ite_none_right_eq_some.mp hanswer
  obtain ⟨c, hc, heq⟩ := Option.map_eq_some_iff.mp hanswer
  cases heq
  have hlive := hapart.live c (.inl hc)
  have hpool : c ∉ s.database.pool_queue_ := by
    intro hmem
    rcases owner_of_refers hx h (.inl hc) (q := .pool) hmem with heq | heq <;> cases heq
  have hmoved : ∀ {c'}, c' ≠ c → ∀ q, some (Owner.pool, c) ≠ some (q, c') :=
    fun hne q heq => hne (Prod.mk.inj (Option.some.inj heq)).2.symm
  obtain ⟨l, hl, hblock⟩ := hready
  have hblock : (s.database.heap.link c).block = .none := by
    simp only [Instance.view, hc, Option.map_some, Option.some.injEq] at hl
    rw [hl]
    exact hblock
  rw [returnConnection, Heap.use_live hlive.2]
  refine h.follow (some (.pool, c)) []
    (follows_after hx (fun c' hc' => ?_) (fun c' hc' => by cases hc')
      (fun c' hc' => .inl ⟨hc', hmoved ?_⟩) ?_)
    (fun _ c _ => List.not_mem_nil) (by simp) List.nodup_nil ?_ (Nat.le_refl _) (by simp) rfl rfl
    ?_ fun c' hc' => ?_
  · rcases List.mem_append.mp hc' with hc' | hc'
    · exact .inl ⟨hc', hmoved fun heq => hpool (heq ▸ hc')⟩
    · rw [List.mem_singleton.mp hc']
      exact .inr rfl
  · rintro rfl
    exact hapart.distinct c' hc hc'
  · rintro q c' heq q' hq'
    obtain rfl := (Prod.mk.inj (Option.some.inj heq)).2
    exact .inr (owner_of_refers hx h (.inl hc) hq')
  · rintro q c' heq
    obtain rfl := (Prod.mk.inj (Option.some.inj heq)).2
    exact hlive
  · exact List.nodup_append.mpr ⟨h.once, by simp, fun c' hc' c'' hc'' heq =>
      hpool (List.mem_singleton.mp hc'' ▸ heq ▸ hc')⟩
  · rcases List.mem_append.mp hc' with hc' | hc'
    · exact h.blocks c' hc'
    · rw [List.mem_singleton.mp hc']
      exact hblock

/-- **An operation keeps the connections**, when it may be called. -/
theorem kept_answer {choice : Instance.Choice} {op : Op α} {a : Ans op} {x' : Instance α}
    {d' : Database α} (hanswer : x.answer s.database choice op = some (a, x', d'))
    (hready : Ready x.mode_ False op (x.view s.database)) (activity : Activity α) :
    Kept d' (s.after t { x' with activity := activity } d').Owns := by
  cases op with
  | isNull =>
    cases hanswer
    exact kept_same hx h rfl rfl
  | popPool =>
    obtain ⟨dropped, rest, stats, hd', hqueue, hgood, -⟩ := popLoop_spec choice.bad h.once
      fun c hc => (pool_of_kept h c hc).1
    obtain ⟨-, heq⟩ := Option.ite_none_right_eq_some.mp hanswer
    exact kept_popPool hx h hqueue hd' hready.1 heq activity
  | newConnection => exact kept_newConnection hx h hanswer activity
  | connect =>
    obtain ⟨c, hc, heq⟩ := Option.map_eq_some_iff.mp hanswer
    cases heq
    refine kept_set hx h (.inr hc) _ (fun c hc => hc) fun c' hc' => ?_
    obtain ⟨-, hc'⟩ := Option.ite_none_right_eq_some.mp hc'
    rw [hc, ← hc']
  | assign => exact kept_assign hx h hanswer hready activity
  | exec cmd =>
    obtain ⟨c, hc, heq⟩ := Option.map_eq_some_iff.mp hanswer
    cases heq
    exact kept_set hx h (.inl hc) _ (fun c hc => hc) fun c hc => hc
  | isBad =>
    obtain ⟨c, hc, heq⟩ := Option.map_eq_some_iff.mp hanswer
    cases heq
    exact kept_set hx h (.inl hc) _ (fun c hc => hc) fun c hc => hc
  | deleteConnection => exact kept_deleteConnection hx h hanswer activity
  | returnConnection => exact kept_returnConnection hx h hanswer hready activity

end Answer

/-! ## The invariant -/

/-- The connections are kept, and every object is at rest or runs safely. -/
structure Inv (s : State α) : Prop where
  kept : Kept s.database s.Owns
  goes : ∀ t x, s.transactions t = some x → x.Goes s.database

theorem Inv.setHandlers {s : State α} (h : Inv s) (handlers : List Nat) :
    Inv { s with handlers := handlers } :=
  ⟨h.kept, h.goes⟩

/-- No call of `timeout_handler` is queued for a deleted connection. -/
def Quiet (s : State α) : Prop := ∀ c ∈ s.handlers, c ∉ s.database.heap.deleted

/-- When a function goes on, an operation was answered. -/
theorem resume_cases {x y : Instance α} {d d' : Database α} {choice : Instance.Choice}
    (h : x.resume d choice = some (y, d')) (hgoes : x.Goes d) :
    ∃ op a x', x.answer d choice op = some (a, x', d') ∧ Ready x.mode_ False op (x.view d) ∧
      (∃ activity, y = { x' with activity := activity }) ∧
      (x'.mode_ = x.mode_ → Transaction.Act op (x.view d) a (x'.view d') → y.Goes d') := by
  unfold Instance.Goes at hgoes
  unfold Instance.resume at h
  split at h
  · rename_i op k hactivity
    rw [hactivity] at hgoes
    obtain ⟨⟨a, x', d''⟩, hanswer, heq⟩ := Option.map_eq_some_iff.mp h
    cases heq
    refine ⟨op, a, x', hanswer, hgoes.1, ⟨_, rfl⟩, fun hmode hact => ?_⟩
    show Safe (semantics x'.mode_ False) _ (k a) (x'.view d'')
    rw [hmode]
    exact hgoes.2 a _ hact
  · rename_i op k hactivity
    rw [hactivity] at hgoes
    obtain ⟨⟨a, x', d''⟩, hanswer, heq⟩ := Option.map_eq_some_iff.mp h
    cases heq
    refine ⟨op, a, x', hanswer, hgoes.1, ⟨_, rfl⟩, fun hmode hact => ?_⟩
    show Safe (semantics x'.mode_ False) _ (k a) (x'.view d'')
    rw [hmode]
    exact hgoes.2 a _ hact
  · cases h

theorem mode_of_answer {x x' : Instance α} {d d' : Database α} {choice : Instance.Choice} {op : Op α}
    {a : Ans op} (h : x.answer d choice op = some (a, x', d')) : x'.mode_ = x.mode_ := by
  cases op with
  | isNull => cases h; rfl
  | popPool =>
    obtain ⟨-, heq⟩ := Option.ite_none_right_eq_some.mp h
    cases heq
    rfl
  | newConnection => cases h; rfl
  | assign => cases h; rfl
  | returnConnection =>
    obtain ⟨-, h⟩ := Option.ite_none_right_eq_some.mp h
    obtain ⟨c, -, heq⟩ := Option.map_eq_some_iff.mp h
    cases heq
    rfl
  | connect | exec | isBad | deleteConnection =>
    obtain ⟨c, -, heq⟩ := Option.map_eq_some_iff.mp h
    cases heq
    rfl

theorem inv_answer {s : State α} (h : Inv s) {t : Nat} {x y : Instance α} {d' : Database α}
    {choice : Instance.Choice} (hx : s.transactions t = some x)
    (hresume : x.resume s.database choice = some (y, d')) : Inv (s.after t y d') := by
  obtain ⟨op, a, x', hanswer, hready, ⟨activity, rfl⟩, hgoes⟩ :=
    resume_cases hresume (h.goes t x hx)
  have hpool := pool_of_kept h.kept
  refine ⟨kept_answer hx h.kept hanswer hready activity, fun u z hz => ?_⟩
  by_cases hu : u = t
  · subst hu
    rw [State.after_self] at hz
    cases hz
    exact hgoes (mode_of_answer hanswer) (Instance.act_of_answer hanswer (apart_of_kept hx h.kept)
      h.kept.once hpool hready)
  · rw [State.after_of_ne _ _ _ hu] at hz
    refine Instance.goes_congr (h.goes u z hz) fun c hc => ?_
    refine Instance.link_of_answer hanswer h.kept.once (fun c hc => (hpool c hc).1) (fun hxc => ?_)
      ((apart_of_kept hz h.kept).live c hc).1
    rcases hc with hc | hc
    · rcases owner_of_refers hx h.kept hxc (q := .transaction u) ⟨z, hz, hc⟩ with heq | heq
      · exact hu (Owner.transaction.inj heq)
      · cases heq
    · rcases owner_of_refers hx h.kept hxc (q := .getting u) ⟨z, hz, hc⟩ with heq | heq
      · cases heq
      · exact hu (Owner.getting.inj heq)

theorem idle_of_some {s : State α} {t : Nat} {x : Instance α} (h : s.idle t = some x) :
    s.transactions t = some x ∧ x.activity = .idle := by
  obtain ⟨hx, hidle⟩ := Option.filter_eq_some_iff.mp h
  refine ⟨hx, ?_⟩
  split at hidle
  · assumption
  · cases hidle

theorem atRest_of_idle {x : Instance α} {d : Database α} (h : x.Goes d) (hidle : x.activity = .idle) :
    AtRest x.mode_ (x.view d) := by
  unfold Instance.Goes at h
  rw [hidle] at h
  exact h

/-- A step of `t` that moves nothing keeps the invariant when what runs on `t` then is safe. -/
theorem inv_same {s : State α} (h : Inv s) {t : Nat} {x y : Instance α}
    (hx : s.transactions t = some x) (hconnection : y.connection_ = x.connection_)
    (hpending : y.pending = x.pending) (hgoes : y.Goes s.database) :
    Inv (s.after t y s.database) := by
  refine ⟨kept_same hx h.kept hconnection hpending, fun u z hz => ?_⟩
  by_cases hu : u = t
  · subst hu
    rw [State.after_self] at hz
    cases hz
    exact hgoes
  · rw [State.after_of_ne _ _ _ hu] at hz
    exact h.goes u z hz

theorem allowed_of_plain {mode : ImplicitAutocommit} {t : Nat} {c : Call α}
    (h : PlainSql (.call t c)) : c.Allowed mode := by
  cases c with
  | exec query =>
    intro _
    cases query with
    | data q => exact ⟨q, rfl⟩
    | start => cases h
    | commit => cases h
    | rollback => cases h
    | control text => cases h
  | commit => trivial
  | rollback => trivial

/-- A call begins. -/
theorem inv_call {s : State α} (h : Inv s) {t : Nat} {x : Instance α} (hx : s.idle t = some x)
    {c : Call α} (hplain : PlainSql (.call t c)) :
    Inv (s.after t { x with activity := .call (c.code x.mode_).run } s.database) := by
  obtain ⟨hx, hidle⟩ := idle_of_some hx
  have hrest : AtRest x.mode_ (x.view s.database) := atRest_of_idle (h.goes t x hx) hidle
  exact inv_same h hx rfl rfl (code_spec c (allowed_of_plain hplain) _ ⟨hrest, fun _ hf => hf.elim⟩)

/-- The destructor begins. -/
theorem inv_destruct {s : State α} (h : Inv s) {t : Nat} {x : Instance α} (hx : s.idle t = some x) :
    Inv (s.after t { x with activity := .destructor (Transaction.destruct x.mode_).run }
      s.database) := by
  obtain ⟨hx, hidle⟩ := idle_of_some hx
  have hrest : AtRest x.mode_ (x.view s.database) := atRest_of_idle (h.goes t x hx) hidle
  refine inv_same h hx rfl rfl (Safe.mono (destruct_spec _ hrest) fun r v hv => ?_)
  cases r with
  | ok _ => exact hv.atRest
  | error e => exact hv

/-- Objects come and go without connections. -/
theorem inv_set {s : State α} (h : Inv s) {t : Nat} {y : Option (Instance α)}
    (hy : ∀ z, y = some z → z.connection_ = none ∧ z.pending = none ∧ z.Goes s.database) :
    Inv (s.set t y) := by
  have howns : ∀ q c, (s.set t y).Owns q c → s.Owns q c := by
    intro q c hq
    cases q with
    | pool => exact hq
    | transaction u =>
      obtain ⟨z, hz, hc⟩ := hq
      by_cases hu : u = t
      · subst hu
        rw [(hy z ((s.set_self u y).symm.trans hz)).1] at hc
        cases hc
      · exact ⟨z, (s.set_of_ne y hu).symm.trans hz, hc⟩
    | getting u =>
      obtain ⟨z, hz, hc⟩ := hq
      by_cases hu : u = t
      · subst hu
        rw [(hy z ((s.set_self u y).symm.trans hz)).2.1] at hc
        cases hc
      · exact ⟨z, (s.set_of_ne y hu).symm.trans hz, hc⟩
  refine ⟨h.kept.follow none [] (fun q c hq => .inl ⟨howns q c hq, nofun⟩)
    (fun _ _ _ => List.not_mem_nil) nofun List.nodup_nil nofun (Nat.le_refl _) (List.append_nil _).symm
    rfl rfl h.kept.once h.kept.blocks, fun u z hz => ?_⟩
  by_cases hu : u = t
  · subst hu
    exact (hy z ((s.set_self u y).symm.trans hz)).2.2
  · exact h.goes u z ((s.set_of_ne y hu).symm.trans hz)

/-- A connection goes from `t` to the new object `t'`. -/
theorem inv_moveConstruct {s : State α} (h : Inv s) {t t' : Nat} {x : Instance α}
    (hx : s.idle t = some x) (ht' : s.transactions t' = none) :
    Inv ((s.set t (some x.movedFrom)).set t' (some x)) := by
  obtain ⟨hx, hidle⟩ := idle_of_some hx
  have hgoes := h.goes t x hx
  obtain ⟨hpending, hrest⟩ := atRest_of_idle hgoes hidle
  have hpending : x.pending = none := by simpa [Instance.view] using hpending
  have hne : t ≠ t' := by
    rintro rfl
    rw [hx] at ht'
    cases ht'
  have hcases : ∀ u z, ((s.set t (some x.movedFrom)).set t' (some x)).transactions u = some z →
      (u = t' ∧ z = x) ∨ (u = t ∧ z = x.movedFrom) ∨ (u ≠ t ∧ s.transactions u = some z) := by
    intro u z hz
    by_cases hu' : u = t'
    · subst hu'
      rw [State.set_self] at hz
      exact .inl ⟨rfl, (Option.some.inj hz).symm⟩
    · rw [State.set_of_ne _ _ hu'] at hz
      by_cases hu : u = t
      · subst hu
        rw [State.set_self] at hz
        exact .inr (.inl ⟨rfl, (Option.some.inj hz).symm⟩)
      · rw [State.set_of_ne _ _ hu] at hz
        exact .inr (.inr ⟨hu, hz⟩)
  have hmoved : ∀ q c, x.connection_.map (fun c => (Owner.transaction t', c)) = some (q, c) →
      q = .transaction t' ∧ x.connection_ = some c := by
    intro q c heq
    obtain ⟨c', hc', heq⟩ := Option.map_eq_some_iff.mp heq
    obtain ⟨rfl, rfl⟩ := Prod.mk.inj heq
    exact ⟨rfl, hc'⟩
  have hstays : ∀ q c, s.Owns q c → q ≠ .transaction t → q ≠ .getting t →
      ∀ q', x.connection_.map (fun c => (Owner.transaction t', c)) ≠ some (q', c) := by
    intro q c hq hne₁ hne₂ q' heq
    rcases owner_of_refers hx h.kept (.inl (hmoved q' c heq).2) hq with heq | heq
    · exact hne₁ heq
    · exact hne₂ heq
  refine ⟨h.kept.follow (x.connection_.map fun c => (.transaction t', c)) []
    (fun q c hq => ?_) (fun _ _ _ => List.not_mem_nil) nofun List.nodup_nil (fun q c heq => ?_)
    (Nat.le_refl _) (List.append_nil _).symm rfl rfl h.kept.once h.kept.blocks, fun u z hz => ?_⟩
  · cases q with
    | pool => exact .inl ⟨hq, hstays .pool c hq nofun nofun⟩
    | transaction u =>
      obtain ⟨z, hz, hc⟩ := hq
      rcases hcases u z hz with ⟨rfl, rfl⟩ | ⟨rfl, rfl⟩ | ⟨hu, hz⟩
      · rw [hc]
        exact .inr rfl
      · cases hc
      · have hold : s.Owns (.transaction u) c := ⟨z, hz, hc⟩
        refine .inl ⟨hold, hstays (.transaction u) c hold (fun heq => ?_) fun heq => nomatch heq⟩
        exact hu (Owner.transaction.inj heq)
    | getting u =>
      obtain ⟨z, hz, hc⟩ := hq
      rcases hcases u z hz with ⟨rfl, rfl⟩ | ⟨rfl, rfl⟩ | ⟨hu, hz⟩
      · rw [hpending] at hc
        cases hc
      · rw [show x.movedFrom.pending = none from hpending] at hc
        cases hc
      · have hold : s.Owns (.getting u) c := ⟨z, hz, hc⟩
        refine .inl ⟨hold, hstays (.getting u) c hold (fun heq => nomatch heq) fun heq => ?_⟩
        exact hu (Owner.getting.inj heq)
  · exact (apart_of_kept hx h.kept).live c (.inl (hmoved q c heq).2)
  · rcases hcases u z hz with ⟨rfl, rfl⟩ | ⟨rfl, rfl⟩ | ⟨-, hz⟩
    · exact hgoes
    · have hempty : Empty (x.movedFrom.view s.database) :=
        ⟨rfl, by simp [Instance.view, Instance.movedFrom, hpending]⟩
      have hactivity : x.movedFrom.activity = .idle := hidle
      unfold Instance.Goes
      rw [hactivity]
      exact hempty.atRest
    · exact h.goes u z hz

/-- The timer deletes connections that only the pool owns. -/
theorem inv_shrink {s : State α} (h : Inv s) (aborted : Bool) :
    Inv { s with database := s.database.poolShrinkTimerHandler aborted } := by
  unfold poolShrinkTimerHandler
  split
  · exact h
  · rw [shrinkLoop_spec (numToShrink_le s.database)]
    generalize s.database.numToShrink.toNat = n
    have hnodup := h.kept.once
    rw [← List.take_append_drop n s.database.pool_queue_, List.nodup_append] at hnodup
    refine ⟨h.kept.follow none (s.database.pool_queue_.take n) (fun q c hq => ?_)
      (fun q c hq hc => ?_) (fun c hc => ⟨.pool, List.mem_of_mem_take hc⟩) hnodup.1 nofun
      (Nat.le_refl _) rfl rfl rfl hnodup.2.1 fun c hc => h.kept.blocks c (List.mem_of_mem_drop hc),
      fun t x hx => ?_⟩
    · cases q with
      | pool => exact .inl ⟨List.mem_of_mem_drop hq, nofun⟩
      | transaction u => exact .inl ⟨hq, nofun⟩
      | getting u => exact .inl ⟨hq, nofun⟩
    · cases q with
      | pool => exact hnodup.2.2 c hc c hq rfl
      | transaction u =>
        exact nomatch h.kept.owners c (.transaction u) .pool hq (List.mem_of_mem_take hc)
      | getting u => exact nomatch h.kept.owners c (.getting u) .pool hq (List.mem_of_mem_take hc)
    · exact Instance.goes_congr (h.goes t x hx) fun c _ => rfl

/-- A queued call of `timeout_handler` makes a connection `BAD` that has not been deleted. -/
theorem inv_timeout {s : State α} (h : Inv s) {c : Nat} (hc : c ∉ s.database.heap.deleted) :
    Inv { s with database := s.database.timeoutHandler c } := by
  have hlink : ∀ c', LinkLost (s.database.heap.link c')
      ((s.database.timeoutHandler c).heap.link c') := by
    intro c'
    rw [timeoutHandler, Heap.link_set]
    by_cases hc' : c' = c
    · subst hc'
      rw [Function.update_self]
      exact .inr ⟨rfl, rfl⟩
    · rw [Function.update_of_ne hc']
      exact linkLost_refl _
  have hrel : ∀ q : Option Nat, Option.Rel LinkLost (q.map s.database.heap.link)
      (q.map (s.database.timeoutHandler c).heap.link) := by
    intro q
    cases q with
    | none => exact .none
    | some c' => exact .some (hlink c')
  refine ⟨h.kept.follow none [] (fun q c hq => .inl ⟨?_, nofun⟩) (fun _ _ _ => List.not_mem_nil)
    nofun List.nodup_nil nofun ?_ ?_ ?_ rfl h.kept.once fun c' hc' => ?_, fun t x hx => ?_⟩
  · cases q <;> exact hq
  · simp [timeoutHandler, Heap.set_live hc]
  · simp [timeoutHandler, Heap.set_live hc]
  · simp [timeoutHandler, Heap.set_live hc]
  · exact (hlink c').block_eq.trans (h.kept.blocks c' hc')
  · exact Instance.goes_lost (h.goes t x hx) ⟨hrel x.connection_, hrel x.pending, rfl⟩

/-- **Every step keeps the invariant.** -/
theorem inv_step {s s' : State α} {a : Act α} (h : Inv s) (hquiet : Quiet s)
    (hplain : PlainSql a) (hstep : step s a = some s') : Inv s' := by
  cases a with
  | construct t mode =>
    obtain ⟨-, heq⟩ := Option.ite_none_right_eq_some.mp hstep
    obtain rfl := Option.some.inj heq
    refine inv_set h fun z hz => ?_
    obtain rfl := Option.some.inj hz
    exact ⟨rfl, rfl, Empty.atRest ⟨rfl, rfl⟩⟩
  | moveConstruct t t' =>
    obtain ⟨x, hx, hstep⟩ := Option.bind_eq_some_iff.mp hstep
    obtain ⟨ht', heq⟩ := Option.ite_none_right_eq_some.mp hstep
    obtain rfl := Option.some.inj heq
    exact inv_moveConstruct h hx (Option.isNone_iff_eq_none.mp ht')
  | call t c =>
    obtain ⟨x, hx, rfl⟩ := Option.map_eq_some_iff.mp hstep
    exact inv_call h hx hplain
  | destruct t =>
    obtain ⟨x, hx, rfl⟩ := Option.map_eq_some_iff.mp hstep
    exact inv_destruct h hx
  | answer t choice =>
    obtain ⟨x, hx, hstep⟩ := Option.bind_eq_some_iff.mp hstep
    obtain ⟨⟨y, d⟩, hresume, rfl⟩ := Option.map_eq_some_iff.mp hstep
    exact (inv_answer h hx hresume).setHandlers _
  | finish t =>
    obtain ⟨x, hx, hstep⟩ := Option.bind_eq_some_iff.mp hstep
    have hgoes := h.goes t x hx
    unfold Instance.Goes at hgoes
    split at hstep
    · rename_i r hactivity
      obtain rfl := Option.some.inj hstep
      rw [hactivity] at hgoes
      refine inv_same h hx rfl rfl ?_
      cases r <;> exact hgoes
    · obtain rfl := Option.some.inj hstep
      exact inv_set h fun z hz => nomatch hz
    · cases hstep
  | shrink aborted =>
    obtain rfl := Option.some.inj hstep
    exact inv_shrink h aborted
  | timeout i =>
    obtain ⟨c, hc, rfl⟩ := Option.map_eq_some_iff.mp hstep
    exact (inv_timeout h (hquiet c (List.mem_of_getElem? hc))).setHandlers _

theorem inv_init : Inv (State.init : State α) := by
  refine ⟨⟨fun c p q hp => ?_, fun q c hq => ?_, List.nodup_nil, List.nodup_nil, nofun, rfl, rfl,
    nofun⟩, fun t x hx => nomatch hx⟩
  · rcases p with _ | _ | _
    · cases hp
    · obtain ⟨x, hx, -⟩ := hp
      cases hx
    · obtain ⟨x, hx, -⟩ := hp
      cases hx
  · rcases q with _ | _ | _
    · cases hq
    · obtain ⟨x, hx, -⟩ := hq
      cases hx
    · obtain ⟨x, hx, -⟩ := hq
      cases hx

/-! ## What is deleted and what is queued -/

/-- An operation deletes what `deletes` says. -/
theorem deleted_of_resume {x y : Instance α} {d d' : Database α} {choice : Instance.Choice}
    (h : x.resume d choice = some (y, d')) (hnodup : d.pool_queue_.Nodup)
    (hpool : ∀ c ∈ d.pool_queue_, c ∉ d.heap.deleted) :
    d'.heap.deleted = d.heap.deleted ++ x.deletes d choice := by
  have hanswer : ∀ (op : Op α) a x', x.operation = some op →
      x.answer d choice op = some (a, x', d') →
      d'.heap.deleted = d.heap.deleted ++ x.deletes d choice := by
    intro op a x' hop hanswer
    unfold Instance.deletes
    rw [hop]
    cases op with
    | isNull => cases hanswer; simp
    | assign => cases hanswer; simp
    | newConnection => cases hanswer; simp [Heap.alloc]
    | popPool =>
      obtain ⟨dropped, rest, stats, hd', -, -, hdropped⟩ := popLoop_spec choice.bad hnodup hpool
      obtain ⟨-, heq⟩ := Option.ite_none_right_eq_some.mp hanswer
      obtain ⟨-, heq⟩ := Prod.mk.inj (Option.some.inj heq)
      rw [← (Prod.mk.inj heq).2, hd', hdropped]
    | deleteConnection =>
      obtain ⟨c, hc, heq⟩ := Option.map_eq_some_iff.mp hanswer
      cases heq
      simp [Heap.delete, hc]
    | returnConnection =>
      obtain ⟨-, h⟩ := Option.ite_none_right_eq_some.mp hanswer
      obtain ⟨c, -, heq⟩ := Option.map_eq_some_iff.mp h
      cases heq
      simp [Database.returnConnection, Heap.deleted_use]
    | connect | exec | isBad =>
      obtain ⟨c, -, heq⟩ := Option.map_eq_some_iff.mp hanswer
      cases heq
      simp [Heap.deleted_set]
  unfold Instance.resume at h
  split at h
  · rename_i op k hactivity
    obtain ⟨⟨a, x', d''⟩, ha, heq⟩ := Option.map_eq_some_iff.mp h
    cases heq
    exact hanswer op a x' (by simp [Instance.operation, hactivity]) ha
  · rename_i op k hactivity
    obtain ⟨⟨a, x', d''⟩, ha, heq⟩ := Option.map_eq_some_iff.mp h
    cases heq
    exact hanswer op a x' (by simp [Instance.operation, hactivity]) ha
  · cases h

/-- The timer that an operation arms is that of a connection of its transaction. -/
theorem refers_of_leaves {x : Instance α} {choice : Instance.Choice} {c : Nat}
    (h : c ∈ x.leaves choice) : x.Refers c := by
  unfold Instance.leaves at h
  split at h
  · rename_i connection harmed
    obtain rfl := List.eq_of_mem_replicate h
    unfold Instance.armed at harmed
    split at harmed
    · exact .inr harmed
    · exact .inl harmed
    · cases harmed
  · cases h

/-- What arms a timer does not delete. -/
theorem not_deletes_of_leaves {x : Instance α} {d : Database α} {choice : Instance.Choice} {c : Nat}
    (h : c ∈ x.leaves choice) : c ∉ x.deletes d choice := by
  unfold Instance.leaves Instance.armed at h
  unfold Instance.deletes
  cases hop : x.operation with
  | none => exact List.not_mem_nil
  | some op =>
    rw [hop] at h
    cases op with
    | popPool => cases h
    | deleteConnection => cases h
    | _ => exact List.not_mem_nil

theorem quiet_answer {s : State α} (h : Inv s) (hquiet : Quiet s) {t : Nat} {x y : Instance α}
    {d : Database α} {choice : Instance.Choice} (hx : s.transactions t = some x)
    (hsettled : Settled s (.answer t choice)) (hresume : x.resume s.database choice = some (y, d)) :
    Quiet { s.set t (some y) with database := d, handlers := s.handlers ++ x.leaves choice } := by
  have hpool := fun c hc => (pool_of_kept h.kept c hc).1
  intro c hc
  show c ∉ d.heap.deleted
  rw [deleted_of_resume hresume h.kept.once hpool, List.mem_append, not_or]
  have hdeletes : s.deletes (.answer t choice) = x.deletes s.database choice := by
    simp [State.deletes, hx]
  unfold Settled at hsettled
  rw [hdeletes] at hsettled
  rcases List.mem_append.mp hc with hc | hc
  · exact ⟨hquiet c hc, fun hdel => hsettled c hdel hc⟩
  · refine ⟨((apart_of_kept hx h.kept).live c (refers_of_leaves hc)).2, fun hdel => ?_⟩
    exact not_deletes_of_leaves hc hdel

/-- A settled step leaves no call of `timeout_handler` queued for a deleted connection. -/
theorem quiet_step {s s' : State α} {a : Act α} (h : Inv s) (hquiet : Quiet s)
    (hsettled : Settled s a) (hstep : step s a = some s') : Quiet s' := by
  cases a with
  | construct t mode =>
    obtain ⟨-, heq⟩ := Option.ite_none_right_eq_some.mp hstep
    obtain rfl := Option.some.inj heq
    exact hquiet
  | moveConstruct t t' =>
    obtain ⟨x, -, hstep⟩ := Option.bind_eq_some_iff.mp hstep
    obtain ⟨-, heq⟩ := Option.ite_none_right_eq_some.mp hstep
    obtain rfl := Option.some.inj heq
    exact hquiet
  | call t c =>
    obtain ⟨x, -, rfl⟩ := Option.map_eq_some_iff.mp hstep
    exact hquiet
  | destruct t =>
    obtain ⟨x, -, rfl⟩ := Option.map_eq_some_iff.mp hstep
    exact hquiet
  | answer t choice =>
    obtain ⟨x, hx, hstep⟩ := Option.bind_eq_some_iff.mp hstep
    obtain ⟨⟨y, d⟩, hresume, rfl⟩ := Option.map_eq_some_iff.mp hstep
    exact quiet_answer h hquiet hx hsettled hresume
  | finish t =>
    obtain ⟨x, -, hstep⟩ := Option.bind_eq_some_iff.mp hstep
    split at hstep
    · obtain rfl := Option.some.inj hstep
      exact hquiet
    · obtain rfl := Option.some.inj hstep
      exact hquiet
    · cases hstep
  | shrink aborted =>
    obtain rfl := Option.some.inj hstep
    intro c hc
    unfold poolShrinkTimerHandler
    cases aborted with
    | true => exact hquiet c hc
    | false =>
      simp only [Bool.false_eq_true, if_false]
      rw [shrinkLoop_spec (numToShrink_le s.database), List.mem_append, not_or]
      exact ⟨hquiet c hc, fun hdel => hsettled c hdel hc⟩
  | timeout i =>
    obtain ⟨c, -, rfl⟩ := Option.map_eq_some_iff.mp hstep
    intro c' hc'
    show c' ∉ (s.database.heap.set c _).deleted
    rw [Heap.deleted_set]
    exact hquiet c' (List.mem_of_mem_eraseIdx hc')

/-- **Ownership of connections.** In every run that deletes no connection of which a call of
`timeout_handler` is queued, each connection has at most one owner, is deleted at most once and not
used or put into the pool after that, the timer does not pop an empty queue, and no connection of the
pool is inside a transaction block. -/
theorem sound_of_reachable {s : State α}
    (h : Transition.Reachable (runs.restrict fun s a => PlainSql a ∧ Settled s a) s) : Sound s := by
  have hinv : Inv s ∧ Quiet s := by
    refine h.invariant (I := fun s => Inv s ∧ Quiet s) (fun s hs => ?_) fun s a s' hI ht => ?_
    · rw [show s = .init from hs]
      exact ⟨inv_init, nofun⟩
    · obtain ⟨hstep, hplain, hsettled⟩ := ht
      exact ⟨inv_step hI.1 hI.2 hplain hstep, quiet_step hI.1 hI.2 hsettled hstep⟩
  obtain ⟨hkept, -⟩ := hinv.1
  exact ⟨hkept.owners, hkept.once, hkept.deleted, hkept.misused, hkept.emptyPops, hkept.blocks⟩

/-- An environment that answers. -/
def answering : Instance.Choice where
  bad := fun _ => false
  connected := true
  outcome := { course := .answered, bad := false }
  late := 0

theorem sound_of_committed_transaction :
    ∃ s : State ℕ, s.database.pool_queue_ = [0] ∧ Sound s := by
  have hrun : (Transition.run step .init ([.construct 0 .OFF, .call 0 (.exec (.data 1))] ++
      .replicate 8 (.answer 0 answering) ++ [.finish 0, .moveConstruct 0 1, .call 1 .commit] ++
      .replicate 3 (.answer 1 answering) ++ [.finish 1, .shrink false])).map
        (fun s => s.database.pool_queue_) = some [0] := by decide +kernel
  obtain ⟨s, hs, hpool⟩ := Option.map_eq_some_iff.mp hrun
  refine ⟨s, hpool, sound_of_reachable (Transition.reachable_restrict_run _ (.init rfl) ?_ hs)⟩
  decide +kernel

/-- The time of a command is over before its guard is destroyed, and the call of `timeout_handler` is
queued. The explicit transaction is destroyed, which deletes its connection, and then the call takes
place. -/
theorem timeout_after_delete :
    ¬∀ s : State ℕ, Transition.Reachable (runs.restrict fun _ a => PlainSql a) s → Sound s := by
  intro h
  let acts : List (Act ℕ) := [.construct 0 .OFF, .call 0 (.exec (.data 1))] ++
    .replicate 7 (.answer 0 answering) ++ [.answer 0 { answering with late := 1 }, .finish 0,
      .destruct 0, .answer 0 answering, .answer 0 answering, .finish 0, .timeout 0]
  have hrun : (Transition.run step .init acts).map (fun s => s.database.heap.misused) = some [0] := by
    decide +kernel
  obtain ⟨s, hs, hmisused⟩ := Option.map_eq_some_iff.mp hrun
  have hplain : Transition.RunMeets step (fun _ a => PlainSql a) (.init : State ℕ) acts := by
    decide +kernel
  have hsound := h s (Transition.reachable_restrict_run _ (.init rfl) hplain hs)
  rw [hsound.misused] at hmisused
  cases hmisused

end Database

end Sqldb

import ItexDemo.AuxLib.Spinlock

/-!
# Proofs: mutual exclusion of `aux::spinlock`

`atomicStep_cases` says once what an access can do: nothing, take the flag, or give it back.
-/

namespace Spinlock

open Transition Sections

/-! ## What one step does -/

theorem afterIsLocked_owns (held : Bool) : (Pc.afterIsLocked held).owns = held := by
  cases held <;> rfl

/-- An access leaves the flag and the ownership of its thread alone, or takes the flag, or gives it
back. A thread that has the lock never finds the flag unset. -/
theorem atomicStep_cases {lock_ lock_' : Bool} {pc pc' : Pc} {r : Option Bool}
    (h : atomicStep lock_ pc = some (lock_', pc', r)) (hpc : pc ≠ .isLockedClear true)
    (hflag : pc.owns = true → lock_ = true) :
    pc' ≠ .isLockedClear true ∧
    ((lock_' = lock_ ∧ pc'.owns = pc.owns) ∨
     (lock_ = false ∧ lock_' = true ∧ pc'.owns = true) ∨
     (pc.owns = true ∧ lock_' = false ∧ pc'.owns = false)) := by
  cases pc with
  | idle => cases h
  | locked => cases h
  | lockTestAndSet =>
    cases h
    cases lock_ <;> simp [Pc.owns]
  | unlockClear =>
    cases h
    simp [Pc.owns]
  | isLockedTestAndSet held =>
    cases lock_ with
    | true =>
      cases h
      refine ⟨by cases held <;> simp [Pc.afterIsLocked], Or.inl ⟨rfl, ?_⟩⟩
      rw [afterIsLocked_owns]
      rfl
    | false =>
      have hheld : held = false := by
        cases held with
        | false => rfl
        | true => exact absurd (hflag rfl) (by simp)
      subst hheld
      cases h
      simp [Pc.owns]
  | isLockedClear held =>
    have hheld : held = false := by
      cases held with
      | false => rfl
      | true => exact absurd rfl hpc
    subst hheld
    cases h
    simp [Pc.owns, Pc.afterIsLocked]

/-- A call keeps the ownership of its thread. -/
theorem call_owns {pc pc' : Pc} {op : Op} (h : pc.call op = some pc') :
    pc' ≠ .isLockedClear true ∧ pc'.owns = pc.owns := by
  cases pc <;> cases op <;> cases h <;> simp [Pc.owns]

/-! ## Mutual exclusion -/

variable {T : Type*} [DecidableEq T]

/-- The invariant: the flag excludes, and no thread that has the lock is about to clear the flag for
`is_locked`. -/
structure Inv (c : Config T) : Prop extends Excludes c where
  kept : ∀ t, c.threads t ≠ .isLockedClear true

omit [DecidableEq T] in
theorem inv_new : Inv (Config.new : Config T) where
  flag := by simp [Config.new, Config.Owner, Pc.owns]
  once := by simp [Config.new, Config.Owner, Pc.owns]
  kept := by simp [Config.new]

theorem owner_set_self {c : Config T} {t : T} {lock_ : Bool} {pc : Pc} :
    (c.set t lock_ pc).Owner t ↔ pc.owns = true := by
  simp [Config.Owner, Config.set]

theorem owner_set_of_ne {c : Config T} {t u : T} {lock_ : Bool} {pc : Pc} (hu : u ≠ t) :
    (c.set t lock_ pc).Owner u ↔ c.Owner u := by
  simp [Config.Owner, Config.set, Function.update_of_ne hu]

omit [DecidableEq T] in
/-- Without an owner the flag is not set, and the other way round. -/
theorem Inv.no_owner {c : Config T} (hI : Inv c) (h : c.lock_ = false) (t : T) : ¬c.Owner t := by
  intro ht
  have := hI.flag.mpr ⟨t, ht⟩
  rw [h] at this
  cases this

theorem kept_set {c : Config T} (hI : Inv c) {t : T} {lock_ : Bool} {pc : Pc}
    (hpc : pc ≠ .isLockedClear true) (u : T) : (c.set t lock_ pc).threads u ≠ .isLockedClear true := by
  by_cases hu : u = t
  · subst hu
    simpa [Config.set] using hpc
  · simpa [Config.set, Function.update_of_ne hu] using hI.kept u

/-- Thread `t` goes on and its ownership stays as it is. -/
theorem Inv.same {c : Config T} (hI : Inv c) {t : T} {pc : Pc} (hpc : pc ≠ .isLockedClear true)
    (howns : pc.owns = (c.threads t).owns) : Inv (c.set t c.lock_ pc) := by
  have howner : ∀ u, (c.set t c.lock_ pc).Owner u ↔ c.Owner u := by
    intro u
    by_cases hu : u = t
    · subst hu
      rw [owner_set_self, howns]
      exact Iff.rfl
    · exact owner_set_of_ne hu
  refine ⟨⟨?_, ?_⟩, kept_set hI hpc⟩
  · simp only [howner]
    exact hI.flag
  · intro u v hu hv
    exact hI.once u v ((howner u).mp hu) ((howner v).mp hv)

/-- Thread `t` takes the flag. -/
theorem Inv.take {c : Config T} (hI : Inv c) {t : T} {pc : Pc} (hpc : pc ≠ .isLockedClear true)
    (hfree : c.lock_ = false) (howns : pc.owns = true) : Inv (c.set t true pc) := by
  have howner : ∀ u, (c.set t true pc).Owner u → u = t := by
    intro u hu
    by_contra hne
    exact hI.no_owner hfree u ((owner_set_of_ne hne).mp hu)
  refine ⟨⟨?_, ?_⟩, kept_set hI hpc⟩
  · exact ⟨fun _ => ⟨t, owner_set_self.mpr howns⟩, fun _ => rfl⟩
  · intro u v hu hv
    rw [howner u hu, howner v hv]

/-- Thread `t` gives the flag back. -/
theorem Inv.give {c : Config T} (hI : Inv c) {t : T} {pc : Pc} (hpc : pc ≠ .isLockedClear true)
    (hold : c.Owner t) (howns : pc.owns = false) : Inv (c.set t false pc) := by
  have howner : ∀ u, ¬(c.set t false pc).Owner u := by
    intro u hu
    by_cases hut : u = t
    · subst hut
      rw [owner_set_self, howns] at hu
      cases hu
    · exact hut (hI.once u t ((owner_set_of_ne hut).mp hu) hold)
  refine ⟨⟨?_, ?_⟩, kept_set hI hpc⟩
  · constructor
    · intro h
      cases h
    · rintro ⟨u, hu⟩
      exact absurd hu (howner u)
  · intro u v hu
    exact absurd hu (howner u)

theorem inv_next {c c' : Config T} {a : Act T} {r : Option Bool} (hI : Inv c)
    (h : next c a = some (c', r)) : Inv c' := by
  cases a with
  | call t op =>
    obtain ⟨pc, hpc, heq⟩ := Option.map_eq_some_iff.mp h
    obtain ⟨rfl, -⟩ := Prod.mk.inj heq
    obtain ⟨hkept, howns⟩ := call_owns hpc
    exact hI.same hkept howns
  | step t =>
    obtain ⟨⟨lock_, pc, r'⟩, hstep, heq⟩ := Option.map_eq_some_iff.mp h
    obtain ⟨rfl, -⟩ := Prod.mk.inj heq
    obtain ⟨hkept, hcases⟩ := atomicStep_cases hstep (hI.kept t) fun ht => hI.flag.mpr ⟨t, ht⟩
    rcases hcases with ⟨rfl, howns⟩ | ⟨hfree, rfl, howns⟩ | ⟨hold, rfl, howns⟩
    · exact hI.same hkept howns
    · exact hI.take hkept hfree howns
    · exact hI.give hkept hold howns

theorem inv_reachable {c : Config T} (h : Reachable (system T) c) : Inv c := by
  refine h.invariant_ofStep inv_new ?_
  intro c a c' hI ht
  obtain ⟨⟨c'', r⟩, hnext, rfl⟩ := Option.map_eq_some_iff.mp ht
  exact inv_next hI hnext

/-- What `is_locked` returns, at the access that it returns after. -/
theorem isLocked_result {c c' : Config T} (hI : Inv c) {t : T} {b : Bool}
    (h : next c (.step t) = some (c', some b)) :
    (b = true → ∃ u, c.Owner u) ∧ (b = false → c.Owner t) := by
  obtain ⟨⟨lock_, pc, r⟩, hstep, heq⟩ := Option.map_eq_some_iff.mp h
  obtain ⟨-, rfl⟩ := Prod.mk.inj heq
  cases hpc : c.threads t with
  | idle => simp [hpc, atomicStep] at hstep
  | locked => simp [hpc, atomicStep] at hstep
  | lockTestAndSet => simp [hpc, atomicStep] at hstep
  | unlockClear => simp [hpc, atomicStep] at hstep
  | isLockedTestAndSet held =>
    rw [hpc, atomicStep] at hstep
    by_cases hlock : c.lock_ = true
    · rw [if_pos hlock] at hstep
      cases hstep
      exact ⟨fun _ => hI.flag.mp hlock, by simp⟩
    · rw [if_neg hlock] at hstep
      cases hstep
  | isLockedClear held =>
    rw [hpc] at hstep
    cases hstep
    refine ⟨by simp, fun _ => ?_⟩
    rw [Config.Owner, hpc]
    rfl

/-- **Mutual exclusion.** Whatever order any number of threads call `lock`, `unlock` and `is_locked`
in and make their accesses, at most one of them has the flag, and the flag is set exactly when one
has: `is_locked` takes the flag for a moment and gives back only what it took itself. When it says
`false`, no other thread has the lock; when it says `true`, some thread has the flag, which may be
another `is_locked`. -/
theorem flag_excludes {c : Config T} (h : Reachable (system T) c) :
    Excludes c ∧ ∀ t b c', next c (.step t) = some (c', some b) →
      (b = true → ∃ u, c.Owner u) ∧ (b = false → ∀ u, c.Owner u → u = t) := by
  have hI := inv_reachable h
  refine ⟨hI.toExcludes, fun t b c' hstep => ?_⟩
  obtain ⟨htrue, hfalse⟩ := isLocked_result hI hstep
  exact ⟨htrue, fun hb u hu => hI.once u t hu (hfalse hb)⟩

theorem flag_excludes_contended :
    let acts : List (Act Bool) := [.call false .lock, .call true .isLocked, .step false, .step true]
    ∃ c, Transition.run (fun c a => (next c a).map Prod.fst) Config.new acts = some c ∧
      Excludes c ∧ ∀ t b c', next c (.step t) = some (c', some b) →
        (b = true → ∃ u, c.Owner u) ∧ (b = false → ∀ u, c.Owner u → u = t) :=
  ⟨_, rfl, flag_excludes (reachable_of_run
    [.call false .lock, .call true .isLocked, .step false, .step true] rfl)⟩

/-! ## The lock as sections use it -/

theorem call_in {pc pc' : Pc} {k : LockCall} {op : Op} (hop : opOf k = some op)
    (h : pc.call op = some pc') : In pc' k := by
  cases k with
  | acquire m =>
    cases m <;> cases hop
    cases pc <;> cases h
    rfl
  | tryAcquire m => cases m <;> cases hop
  | release m =>
    cases m <;> cases hop
    cases pc <;> cases h
    rfl
  | probe =>
    cases hop
    cases pc <;> cases h <;> exact ⟨_, Or.inl rfl⟩

theorem sectionCall_some {c c' : Config T} {t : T} {k : LockCall}
    (h : sectionCall c t k = some c') :
    ∃ op pc, opOf k = some op ∧ (c.threads t).call op = some pc ∧ c' = c.set t c.lock_ pc := by
  obtain ⟨op, hop, h⟩ := Option.bind_eq_some_iff.mp h
  obtain ⟨⟨c'', r⟩, hnext, rfl⟩ := Option.map_eq_some_iff.mp h
  obtain ⟨pc, hpc, heq⟩ := Option.map_eq_some_iff.mp hnext
  exact ⟨op, pc, hop, hpc, (Prod.mk.inj heq).1.symm⟩

theorem sectionStep_some {c c' : Config T} {t : T} {b : Option Bool}
    (h : sectionStep c t = some (c', b)) :
    ∃ lock_ pc r, atomicStep c.lock_ (c.threads t) = some (lock_, pc, r) ∧
      c' = c.set t lock_ pc ∧ (b = none ↔ pc ≠ .idle ∧ pc ≠ .locked) := by
  obtain ⟨⟨c'', r⟩, hnext, heq⟩ := Option.map_eq_some_iff.mp h
  obtain ⟨⟨lock_, pc, r'⟩, hstep, heq'⟩ := Option.map_eq_some_iff.mp hnext
  obtain ⟨rfl, rfl⟩ := Prod.mk.inj heq'
  obtain ⟨rfl, rfl⟩ := Prod.mk.inj heq
  refine ⟨lock_, pc, r', hstep, rfl, ?_⟩
  simp only [Config.set, Function.update_self]
  cases pc <;> simp

theorem set_threads_of_ne {c : Config T} {t u : T} {lock_ : Bool} {pc : Pc} (hu : u ≠ t) :
    (c.set t lock_ pc).threads u = c.threads u := Function.update_of_ne hu ..

/-- The spinlock as a lock of sections: it has writers only. -/
def sectionLock (T : Type*) [DecidableEq T] : Lock T (Config T) where
  init := .new
  call := sectionCall
  step := sectionStep
  Holds c t m := m = .write ∧ c.threads t = .locked
  Calling c t k := In (c.threads t) k
  Good := Inv
  good_init := inv_new
  good_call := by
    intro c t k c' hI h
    obtain ⟨op, pc, -, hpc, rfl⟩ := sectionCall_some h
    obtain ⟨hkept, howns⟩ := call_owns hpc
    exact hI.same hkept howns
  good_step := by
    intro c t c' b hI h
    obtain ⟨⟨c'', r⟩, hnext, heq⟩ := Option.map_eq_some_iff.mp h
    obtain ⟨rfl, -⟩ := Prod.mk.inj heq
    exact inv_next hI hnext
  exclusive := by
    rintro c t u m hI ⟨-, ht⟩ ⟨hm, hu⟩
    exact ⟨hI.once u t (by rw [Config.Owner, hu]; rfl) (by rw [Config.Owner, ht]; rfl), hm⟩
  call_self := by
    intro c t k c' h
    obtain ⟨op, pc, hop, hpc, rfl⟩ := sectionCall_some h
    simpa [Config.set] using call_in hop hpc
  call_other := by
    intro c t k c' u h hu
    obtain ⟨op, pc, -, -, rfl⟩ := sectionCall_some h
    simp [set_threads_of_ne hu]
  step_other := by
    intro c t c' b u h hu
    obtain ⟨lock_, pc, r, -, rfl, -⟩ := sectionStep_some h
    simp [set_threads_of_ne hu]
  step_calling := by
    intro c t c' k hin h
    obtain ⟨lock_, pc, r, hstep, rfl, hb⟩ := sectionStep_some h
    have hgo := hb.mp rfl
    simp only [Config.set, Function.update_self]
    cases k with
    | acquire m =>
      cases m with
      | read => exact hin.elim
      | write =>
        rw [show c.threads t = .lockTestAndSet from hin] at hstep
        cases hstep
        by_cases hlock : c.lock_ = true
        · rw [if_pos hlock]
          rfl
        · exact absurd (if_neg hlock) hgo.2
    | tryAcquire m => cases m <;> exact hin.elim
    | release m =>
      cases m with
      | read => exact hin.elim
      | write =>
        rw [show c.threads t = .unlockClear from hin] at hstep
        cases hstep
        exact absurd rfl hgo.1
    | probe =>
      obtain ⟨held, hpc | hpc⟩ := hin
      · rw [hpc, atomicStep] at hstep
        by_cases hlock : c.lock_ = true
        · rw [if_pos hlock] at hstep
          cases hstep
          cases held <;> simp [Pc.afterIsLocked] at hgo
        · rw [if_neg hlock] at hstep
          cases hstep
          exact ⟨held, Or.inr rfl⟩
      · rw [hpc, atomicStep] at hstep
        cases hstep
        cases held <;> simp [Pc.afterIsLocked] at hgo
  step_acquire := by
    intro c t c' b m hin h
    obtain ⟨lock_, pc, r, hstep, rfl, hb⟩ := sectionStep_some h
    cases m with
    | read => exact hin.elim
    | write =>
      rw [show c.threads t = .lockTestAndSet from hin] at hstep
      cases hstep
      refine ⟨rfl, ?_⟩
      simp only [Config.set, Function.update_self] at hb ⊢
      by_cases hlock : c.lock_ = true
      · simp [hlock] at hb
      · rw [if_neg hlock]
  step_tryAcquire := by
    intro c t c' m hin
    cases m <;> exact hin.elim

end Spinlock

import ItexDemo.AuxLib.RwLock

/-!
# Proofs: mutual exclusion and progress of `aux::rw_lock`

The invariant ties the lock word to the holds of the threads. `atomicStep_cases` says once what an
atomic access can do to the word and to the holds of its thread; the invariant is derived from it.
Progress fails in one place only: `reader_lock` retries with the value it loaded on entry.
-/

namespace RwLock

open Transition

variable {T : Type*} [DecidableEq T]

/-! ## What one step does -/

theorem compareExchangeStrong_eq (lock_ expected desired : Int) :
    compareExchangeStrong lock_ expected desired =
      if lock_ = expected then (true, desired) else (false, lock_) := rfl

theorem readerExpected_nonneg (val : Int) : 0 ≤ readerExpected val := by
  unfold readerExpected
  split_ifs <;> omega

theorem readerDesired_eq (val : Int) : readerDesired val = readerExpected val + 1 := by
  unfold readerDesired readerExpected
  split_ifs <;> omega

/-- A thread is not about to make the access of an unlock. -/
def NotUnlocking (th : Thread) : Prop := th.pc ≠ .readerUnlockSub ∧ th.pc ≠ .writerUnlockStore

/-- The effect of one atomic access: it changes neither the word nor the holds, or it takes or gives
back one hold. Afterwards the thread is not before the access of an unlock. -/
theorem atomicStep_cases {lock_ w : Int} {th th' : Thread} (h : atomicStep lock_ th = some (w, th')) :
    NotUnlocking th' ∧
    ((w = lock_ ∧ th'.readHolds = th.readHolds ∧ th'.writeHolds = th.writeHolds) ∨
     (0 ≤ lock_ ∧ w = lock_ + 1 ∧ th'.readHolds = th.readHolds + 1 ∧
        th'.writeHolds = th.writeHolds) ∨
     (th.pc = .readerUnlockSub ∧ w = lock_ - 1 ∧ th'.readHolds = th.readHolds - 1 ∧
        th'.writeHolds = th.writeHolds) ∨
     (lock_ = 0 ∧ w = -1 ∧ th'.readHolds = th.readHolds ∧ th'.writeHolds = th.writeHolds + 1) ∨
     (th.pc = .writerUnlockStore ∧ w = 0 ∧ th'.readHolds = th.readHolds ∧
        th'.writeHolds = th.writeHolds - 1)) := by
  obtain ⟨pc, rh, wh⟩ := th
  cases pc with
  | idle => cases h
  | readerTryLockLoad =>
    cases h
    exact ⟨by simp [NotUnlocking], Or.inl ⟨rfl, rfl, rfl⟩⟩
  | readerTryLockCas val i =>
    have hnn := readerExpected_nonneg val
    have hd := readerDesired_eq val
    simp only [atomicStep, compareExchangeStrong_eq] at h
    by_cases he : lock_ = readerExpected val
    · rw [if_pos he] at h
      cases h
      exact ⟨by simp [NotUnlocking], Or.inr (Or.inl ⟨by omega, by omega, rfl, rfl⟩)⟩
    · rw [if_neg he] at h
      cases h
      refine ⟨?_, Or.inl ⟨rfl, rfl, rfl⟩⟩
      unfold NotUnlocking
      split_ifs <;> simp
  | readerLockLoad =>
    cases h
    exact ⟨by simp [NotUnlocking], Or.inl ⟨rfl, rfl, rfl⟩⟩
  | readerLockCas val =>
    have hnn := readerExpected_nonneg val
    have hd := readerDesired_eq val
    simp only [atomicStep, compareExchangeStrong_eq] at h
    by_cases he : lock_ = readerExpected val
    · rw [if_pos he] at h
      cases h
      exact ⟨by simp [NotUnlocking], Or.inr (Or.inl ⟨by omega, by omega, rfl, rfl⟩)⟩
    · rw [if_neg he] at h
      cases h
      exact ⟨by simp [NotUnlocking], Or.inl ⟨rfl, rfl, rfl⟩⟩
  | readerUnlockSub =>
    cases h
    exact ⟨by simp [NotUnlocking], Or.inr (Or.inr (Or.inl ⟨rfl, rfl, rfl, rfl⟩))⟩
  | writerLockCas =>
    simp only [atomicStep, compareExchangeStrong_eq] at h
    by_cases he : lock_ = 0
    · rw [if_pos he] at h
      cases h
      exact ⟨by simp [NotUnlocking], Or.inr (Or.inr (Or.inr (Or.inl ⟨he, rfl, rfl, rfl⟩)))⟩
    · rw [if_neg he] at h
      cases h
      exact ⟨by simp [NotUnlocking], Or.inl ⟨rfl, rfl, rfl⟩⟩
  | writerUnlockStore =>
    cases h
    exact ⟨by simp [NotUnlocking], Or.inr (Or.inr (Or.inr (Or.inr ⟨rfl, rfl, rfl, rfl⟩)))⟩

/-- A call keeps the holds, and starts an unlock only when its thread has the matching hold. -/
theorem call_cases {th th' : Thread} {op : Op} (h : call th op = some th') :
    th'.readHolds = th.readHolds ∧ th'.writeHolds = th.writeHolds ∧
    (th'.pc = .readerUnlockSub → 0 < th'.readHolds) ∧
    (th'.pc = .writerUnlockStore → 0 < th'.writeHolds) := by
  obtain ⟨pc, rh, wh⟩ := th
  cases pc <;> try (cases op <;> cases h)
  cases op with
  | readerTryLock => cases h; simp
  | readerLock => cases h; simp
  | writerLock => cases h; simp
  | readerUnlock =>
    simp only [call] at h
    split_ifs at h with hr
    cases h
    simpa using hr
  | writerUnlock =>
    simp only [call] at h
    split_ifs at h with hw
    cases h
    simpa using hw

/-! ## Mutual exclusion -/

section MutualExclusion

variable [Fintype T]

/-- Replacing thread `t` changes a sum over the threads by the difference at `t`. -/
theorem sum_set (f : Thread → Nat) (c : Config T) (t : T) (w : Int) (th : Thread) :
    ∑ u, f ((c.set t w th).threads u) + f (c.threads t) = ∑ u, f (c.threads u) + f th := by
  have hrest : ∑ u ∈ Finset.univ.erase t, f (Function.update c.threads t th u) =
      ∑ u ∈ Finset.univ.erase t, f (c.threads u) :=
    Finset.sum_congr rfl fun u hu => by
      rw [Function.update_of_ne (Finset.ne_of_mem_erase hu)]
  have hnew := Finset.add_sum_erase Finset.univ (fun u => f (Function.update c.threads t th u))
    (Finset.mem_univ t)
  have hold := Finset.add_sum_erase Finset.univ (fun u => f (c.threads u)) (Finset.mem_univ t)
  simp only [Function.update_self] at hnew
  simp only [Config.set]
  omega

theorem readers_set (c : Config T) (t : T) (w : Int) (th : Thread) :
    (c.set t w th).readers + (c.threads t).readHolds = c.readers + th.readHolds :=
  sum_set Thread.readHolds c t w th

theorem writers_set (c : Config T) (t : T) (w : Int) (th : Thread) :
    (c.set t w th).writers + (c.threads t).writeHolds = c.writers + th.writeHolds :=
  sum_set Thread.writeHolds c t w th

omit [DecidableEq T] in
theorem readHolds_le (c : Config T) (t : T) : (c.threads t).readHolds ≤ c.readers :=
  Finset.single_le_sum (f := fun u => (c.threads u).readHolds) (fun _ _ => Nat.zero_le _)
    (Finset.mem_univ t)

omit [DecidableEq T] in
theorem writeHolds_le (c : Config T) (t : T) : (c.threads t).writeHolds ≤ c.writers :=
  Finset.single_le_sum (f := fun u => (c.threads u).writeHolds) (fun _ _ => Nat.zero_le _)
    (Finset.mem_univ t)

/-- The invariant: the word is `-1` with one write hold and no read hold, or the number of read
holds with no write hold; and a thread that is about to unlock has the hold it gives back. -/
structure Inv (c : Config T) : Prop where
  word : (c.lock_ = -1 ∧ c.writers = 1 ∧ c.readers = 0) ∨ (c.lock_ = c.readers ∧ c.writers = 0)
  sub : ∀ t, (c.threads t).pc = .readerUnlockSub → 0 < (c.threads t).readHolds
  store : ∀ t, (c.threads t).pc = .writerUnlockStore → 0 < (c.threads t).writeHolds

omit [DecidableEq T] in
theorem inv_new : Inv (Config.new : Config T) where
  word := Or.inr (by simp [Config.new, Config.readers, Config.writers, Thread.new])
  sub := by simp [Config.new, Thread.new]
  store := by simp [Config.new, Thread.new]

/-- Replacing thread `t` keeps the two unlock clauses, when the new thread meets them. -/
theorem Inv.set {c : Config T} (hI : Inv c) {t : T} {w : Int} {th : Thread}
    (hword : ((c.set t w th).lock_ = -1 ∧ (c.set t w th).writers = 1 ∧ (c.set t w th).readers = 0) ∨
      ((c.set t w th).lock_ = (c.set t w th).readers ∧ (c.set t w th).writers = 0))
    (hsub : th.pc = .readerUnlockSub → 0 < th.readHolds)
    (hstore : th.pc = .writerUnlockStore → 0 < th.writeHolds) : Inv (c.set t w th) where
  word := hword
  sub := fun u hu => by
    by_cases h : u = t
    · subst h
      simp only [Config.set, Function.update_self] at hu ⊢
      exact hsub hu
    · simp only [Config.set, Function.update_of_ne h] at hu ⊢
      exact hI.sub u hu
  store := fun u hu => by
    by_cases h : u = t
    · subst h
      simp only [Config.set, Function.update_self] at hu ⊢
      exact hstore hu
    · simp only [Config.set, Function.update_of_ne h] at hu ⊢
      exact hI.store u hu

theorem inv_next {c c' : Config T} {a : Act T} (hI : Inv c) (h : next c a = some c') : Inv c' := by
  have hw := hI.word
  cases a with
  | call t op =>
    obtain ⟨th, hth, rfl⟩ := Option.map_eq_some_iff.mp h
    obtain ⟨hr, hwr, hsub, hstore⟩ := call_cases hth
    have hR := readers_set c t c.lock_ th
    have hW := writers_set c t c.lock_ th
    have hl : (c.set t c.lock_ th).lock_ = c.lock_ := rfl
    refine hI.set ?_ hsub hstore
    omega
  | step t =>
    obtain ⟨⟨w, th⟩, hth, rfl⟩ := Option.map_eq_some_iff.mp h
    obtain ⟨hnot, hcases⟩ := atomicStep_cases hth
    have hR := readers_set c t w th
    have hW := writers_set c t w th
    have hl : (c.set t w th).lock_ = w := rfl
    have hrle := readHolds_le c t
    have hwle := writeHolds_le c t
    refine hI.set ?_ (fun hp => absurd hp hnot.1) (fun hp => absurd hp hnot.2)
    simp only at hR hW hl ⊢
    rcases hcases with h | h | h | h | h
    · omega
    · omega
    · have := hI.sub t h.1
      omega
    · omega
    · have := hI.store t h.1
      omega

theorem inv_reachable {c : Config T} (h : Reachable (system T) c) : Inv c :=
  h.invariant_ofStep inv_new fun _ _ _ hI ht => inv_next hI ht

/-- The word stays between `-1` and the number of read holds, so fewer than `2 ^ 63` holds never
overflow `int64_t`. -/
theorem lock_bounds {c : Config T} (h : Reachable (system T) c) :
    -1 ≤ c.lock_ ∧ c.lock_ ≤ c.readers := by
  have := (inv_reachable h).word
  omega

/-- **Mutual exclusion.** In every reachable state of any number of threads the lock word is `-1`
exactly when one writer holds the lock and no reader does, and otherwise it is the number of readers
that hold it. Two writers, or a writer and a reader, never hold the lock together. -/
theorem lock_word_counts_holders {c : Config T} (h : Reachable (system T) c) :
    (c.lock_ = -1 ↔ c.writers = 1 ∧ c.readers = 0) ∧
    (c.lock_ ≠ -1 → c.lock_ = c.readers ∧ c.writers = 0) ∧
    (∀ t, 0 < (c.threads t).writeHolds →
      (c.threads t).writeHolds = 1 ∧ ∀ u, (c.threads u).readHolds = 0 ∧
        (0 < (c.threads u).writeHolds → u = t)) := by
  have hw := (inv_reachable h).word
  refine ⟨by omega, by omega, fun t ht => ?_⟩
  have htle := writeHolds_le c t
  refine ⟨by omega, fun u => ⟨?_, fun hu => ?_⟩⟩
  · have := readHolds_le c u
    omega
  · -- two different threads with a write hold would make two writers
    by_contra hne
    have hpair := Finset.sum_le_sum_of_subset (f := fun v => (c.threads v).writeHolds)
      (Finset.subset_univ {u, t})
    rw [Finset.sum_pair hne] at hpair
    unfold Config.writers at hw
    omega

end MutualExclusion

/-- A reader and a waiting writer: the word counts the one read hold. -/
theorem lock_word_counts_holders_reader :
    ∃ c : Config (Fin 2), c.lock_ = 1 ∧ c.readers = 1 ∧
      ((c.lock_ = -1 ↔ c.writers = 1 ∧ c.readers = 0) ∧
       (c.lock_ ≠ -1 → c.lock_ = c.readers ∧ c.writers = 0) ∧
       (∀ t, 0 < (c.threads t).writeHolds →
         (c.threads t).writeHolds = 1 ∧ ∀ u, (c.threads u).readHolds = 0 ∧
           (0 < (c.threads u).writeHolds → u = t))) :=
  ⟨_, rfl, by decide, lock_word_counts_holders (reachable_of_run
    [.call 0 .readerLock, .step 0, .step 0, .call 1 .writerLock, .step 1] rfl)⟩

/-! ## Progress -/

/-- The thread is in the retry loop of `reader_lock` with a positive value: it loaded the word while
readers held the lock. -/
def Stale (th : Thread) : Prop := ∃ val, th.pc = .readerLockCas val ∧ 0 < val

theorem set_threads (c : Config T) (t : T) (w : Int) (th : Thread) :
    (c.set t w th).threads t = th := by
  simp [Config.set]

/-- With the word `0`, a stale thread's exchange fails and changes nothing. -/
theorem solo_stale {c : Config T} {t : T} (h0 : c.lock_ = 0) (hs : Stale (c.threads t)) (n : Nat) :
    solo t n c = some c := by
  obtain ⟨val, hpc, hval⟩ := hs
  have hnext : next c (.step t) = some c := by
    have hexp : ¬ (0 : Int) = readerExpected val := by
      unfold readerExpected
      split_ifs <;> omega
    have hstep : atomicStep c.lock_ (c.threads t) = some (c.lock_, c.threads t) := by
      simp [atomicStep, hpc, compareExchangeStrong, h0, hexp]
    simp [next, hstep, Config.set]
  induction n with
  | zero => rfl
  | succ n ih => simp [solo, hnext, ih]

/-- With the word `0`, the exchange of a reader that loaded `0` or less succeeds. -/
theorem solo_reader {c : Config T} {t : T} {val : Int} (h0 : c.lock_ = 0)
    (hpc : (c.threads t).pc = .readerLockCas val) (hval : val ≤ 0) :
    ∃ c', solo t 1 c = some c' ∧ Acquired (c.threads t) (c'.threads t) := by
  have hexp : (0 : Int) = readerExpected val := by
    unfold readerExpected
    split_ifs <;> omega
  have hstep : atomicStep c.lock_ (c.threads t) = some (readerDesired val,
      { c.threads t with pc := .idle, readHolds := (c.threads t).readHolds + 1 }) := by
    simp [atomicStep, hpc, compareExchangeStrong, h0, hexp]
  refine ⟨c.set t (readerDesired val)
    { c.threads t with pc := .idle, readHolds := (c.threads t).readHolds + 1 },
    by simp [solo, next, hstep], ?_⟩
  rw [set_threads]
  exact ⟨rfl, fun _ => ⟨rfl, rfl⟩, fun hw => by simp [InWriterLock, hpc] at hw⟩

/-- **Progress, exactly.** In a reachable state with the lock word `0`, a thread inside `reader_lock`
or `writer_lock` acquires the lock by finitely many steps of its own if and only if it is not in the
retry loop of `reader_lock` with a positive loaded value. -/
theorem acquires_iff_not_stale {c : Config T} (_hr : Reachable (system T) c) (h0 : c.lock_ = 0)
    (t : T) (hin : InReaderLock (c.threads t) ∨ InWriterLock (c.threads t)) :
    (∃ n c', solo t n c = some c' ∧ Acquired (c.threads t) (c'.threads t)) ↔
      ¬ Stale (c.threads t) := by
  constructor
  · rintro ⟨n, c', hn, hacq⟩ hs
    rw [solo_stale h0 hs n] at hn
    cases hn
    obtain ⟨val, hpc, -⟩ := hs
    have hidle := hacq.1
    rw [hpc] at hidle
    cases hidle
  · intro hns
    rcases hin with (hload | ⟨val, hcas⟩) | hwriter
    · -- the load reads `0`, and the exchange of that value succeeds
      have hstep : atomicStep c.lock_ (c.threads t) =
          some (0, { c.threads t with pc := .readerLockCas 0 }) := by
        simp [atomicStep, hload, h0]
      set c₁ := c.set t 0 { c.threads t with pc := .readerLockCas 0 } with hc₁
      have hth : c₁.threads t = { c.threads t with pc := .readerLockCas 0 } := set_threads _ _ _ _
      obtain ⟨c', hrun, hidle, hread, -⟩ :=
        solo_reader (c := c₁) (t := t) rfl (show (c₁.threads t).pc = .readerLockCas 0 by rw [hth]) le_rfl
      refine ⟨2, c', ?_, hidle, fun _ => ?_, fun hw => by simp [InWriterLock, hload] at hw⟩
      · simp only [solo, next, hstep, Option.map_some, Option.bind_some, ← hc₁] at hrun ⊢
        exact hrun
      · simpa [hth] using hread (Or.inr ⟨0, by rw [hth]⟩)
    · have hval : val ≤ 0 := by
        by_contra hpos
        exact hns ⟨val, hcas, by omega⟩
      obtain ⟨c', hrun, hacq⟩ := solo_reader h0 hcas hval
      exact ⟨1, c', hrun, hacq⟩
    · have hpc : (c.threads t).pc = .writerLockCas := hwriter
      have hstep : atomicStep c.lock_ (c.threads t) = some (-1,
          { c.threads t with pc := .idle, writeHolds := (c.threads t).writeHolds + 1 }) := by
        simp [atomicStep, hpc, compareExchangeStrong, h0]
      refine ⟨1, c.set t (-1)
        { c.threads t with pc := .idle, writeHolds := (c.threads t).writeHolds + 1 },
        by simp [solo, next, hstep], ?_⟩
      rw [set_threads]
      exact ⟨rfl, fun hr => by simp [InReaderLock, hpc] at hr, fun _ => ⟨rfl, rfl⟩⟩

/-- A writer that arrives when the lock is free acquires it. -/
theorem acquires_iff_not_stale_writer :
    ∃ c : Config (Fin 2), c.lock_ = 0 ∧ InWriterLock (c.threads 0) ∧
      ((∃ n c', solo 0 n c = some c' ∧ Acquired (c.threads 0) (c'.threads 0)) ↔
        ¬ Stale (c.threads 0)) :=
  ⟨Config.new.set 0 0 { Thread.new with pc := .writerLockCas }, rfl, rfl,
    acquires_iff_not_stale (reachable_of_run [.call 0 .writerLock] rfl) rfl 0 (Or.inr rfl)⟩

/-- Thread `0` holds the lock as a reader while thread `1` loads the word in `reader_lock`. After
thread `0` has unlocked, the word is `0` and thread `1` never acquires the lock. -/
theorem reader_lock_spins_on_free_lock :
    ¬ ∀ (c : Config (Fin 2)) (t : Fin 2), Reachable (system (Fin 2)) c → c.lock_ = 0 →
      InReaderLock (c.threads t) ∨ InWriterLock (c.threads t) →
      ∃ n c', solo t n c = some c' ∧ Acquired (c.threads t) (c'.threads t) := by
  intro hclaim
  have hrun : run next (Config.new : Config (Fin 2))
      [.call 0 .readerLock, .step 0, .step 0, .call 1 .readerLock, .step 1,
        .call 0 .readerUnlock, .step 0] = some _ := rfl
  have hr := reachable_of_run _ hrun
  obtain ⟨n, c', hn, hacq⟩ := hclaim _ 1 hr rfl (Or.inl (Or.inr ⟨1, rfl⟩))
  rw [solo_stale rfl ⟨1, rfl, by decide⟩ n] at hn
  cases hn
  cases hacq.1

end RwLock

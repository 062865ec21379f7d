import ItexDemo.Quant.Cloning
import ItexDemo.Quant.Proofs.WorksetProofs

/-!
# Proofs: what a clone starts with

The index of the parent is read at one time and written to the clone at a later one. A push on a full
ring in between shifts the parent, but not the index that has been read.
-/

namespace Workset

open Transition Partial

variable {Entry : Type*} {ws : Workset Entry} {l : Log Entry} {s h : Nat} {i : UInt64}

/-- Every workset that operations lead to refines a log whose next handles are not in use. -/
theorem exists_log {C : UInt64} {ops : List (Op Entry)} {results : List (Result Entry)}
    (hrun : runOut step (new C) ops = some (ws, results)) :
    ∃ l : Log Entry, Refines ws l ∧ ∀ t, l.nextHandle ≤ t → l.cursors t = none := by
  have hsim := runOut_refines (R := Refines) step_refines
    (refines_new C : Refines (new C : Workset Entry) _) ops
  obtain ⟨y, hy, hR, -⟩ := exists_right hsim hrun
  have hinv := runOut_history (P := LogInv) (logInv_new C.toNat)
    (fun _ _ _ _ _ _ h hs => logInv_step h hs) hy
  exact ⟨y.1, hR, fun t ht => (hinv.fresh t ht).1⟩

theorem cloneStep_push {c c' : Cloning Entry} {p : Nat} {e : Entry} :
    cloneStep s c (.push p e) = some c' ↔ c.ws.publishers_ p = true ∧ { c with ws := c.ws.push e } = c' := by
  show (if c.ws.publishers_ p = true then some { c with ws := c.ws.push e } else none) = some c' ↔ _
  split_ifs with hp
  · simp [hp]
  · simp [hp]

/-! ## Up to the read -/

/-- The clone is registered under a handle of its own. -/
def Registers (s : Nat) (c : Cloning Entry) : Prop :=
  match c.phase with
  | .called => (∃ l : Log Entry, Refines c.ws l ∧ ∀ t, l.nextHandle ≤ t → l.cursors t = none) ∧
      (c.ws.subscribers_ s).isSome
  | .registered h => h ≠ s ∧ ∃ l : Log Entry, Refines c.ws l
  | _ => True

theorem registers_step {c c' : Cloning Entry} {act : CloneAct Entry} (hc : Registers s c)
    (hstep : cloneStep s c act = some c') : Registers s c' := by
  obtain ⟨ws, phase⟩ := c
  cases act with
  | register =>
    cases phase with
    | called =>
      obtain ⟨⟨l, hR, hfresh⟩, hsome⟩ := hc
      cases hstep
      refine ⟨?_, _, subscribe_refines hR (p := l.base) ⟨by simp, by simp only [Log.base]; omega⟩⟩
      rintro rfl
      obtain ⟨i, hi⟩ := Option.isSome_iff_exists.mp hsome
      obtain ⟨c, hcursor, -⟩ := hR.cursor hi
      rw [hfresh _ (Nat.le_of_eq hR.nextHandle.symm)] at hcursor
      cases hcursor
    | _ => cases hstep
  | read =>
    cases phase with
    | registered h =>
      obtain ⟨i, -, rfl⟩ := Option.map_eq_some_iff.mp hstep
      trivial
    | _ => cases hstep
  | write =>
    cases phase with
    | read h i =>
      cases hstep
      trivial
    | _ => cases hstep
  | push p e =>
    obtain ⟨-, rfl⟩ := cloneStep_push.mp hstep
    cases phase with
    | called =>
      obtain ⟨⟨l, hR, hfresh⟩, hsome⟩ := hc
      refine ⟨⟨_, push_refines hR e, hfresh⟩, ?_⟩
      show ((ws.push e).subscribers_ s).isSome
      unfold push
      dsimp only
      split_ifs
      · rw [Option.isSome_map]
        exact hsome
      · exact hsome
    | registered h =>
      obtain ⟨hne, l, hR⟩ := hc
      exact ⟨hne, _, push_refines hR e⟩
    | _ => trivial

/-! ## From the read to the write -/

/-- A clone is written once. -/
theorem run_write_returned {ws : Workset Entry} (acts : List (CloneAct Entry)) {c' : Cloning Entry} :
    run (cloneStep s) ⟨ws, .returned h⟩ (acts ++ [.write]) ≠ some c' := by
  induction acts generalizing ws with
  | nil => exact nofun
  | cons act acts ih =>
    intro hrun
    obtain ⟨c₁, hstep, hrest⟩ := Option.bind_eq_some_iff.mp hrun
    cases act with
    | push p e =>
      obtain ⟨-, rfl⟩ := cloneStep_push.mp hstep
      exact ih hrest
    | _ => cases hstep

/-- While the index is held, only pushes take place. -/
theorem run_to_write {ws : Workset Entry} {l : Log Entry} (hR : Refines ws l)
    {acts : List (CloneAct Entry)} {c' : Cloning Entry}
    (hrun : run (cloneStep s) ⟨ws, .read h i⟩ (acts ++ [.write]) = some c') :
    ∃ (ws' : Workset Entry) (entries : List Entry), entries.length = acts.length ∧
      Refines ws' { l with pushed := l.pushed ++ entries } ∧
      c' = ⟨{ ws' with subscribers_ := Function.update ws'.subscribers_ h (some i) }, .returned h⟩ := by
  induction acts generalizing ws l with
  | nil =>
    refine ⟨ws, [], rfl, by simpa using hR, ?_⟩
    exact (Option.some.inj hrun).symm
  | cons act acts ih =>
    obtain ⟨c₁, hstep, hrest⟩ := Option.bind_eq_some_iff.mp hrun
    cases act with
    | register => cases hstep
    | read => cases hstep
    | write =>
      cases hstep
      exact absurd hrest (run_write_returned acts)
    | push p e =>
      obtain ⟨-, rfl⟩ := cloneStep_push.mp hstep
      obtain ⟨ws', entries, hlen, hR', hc'⟩ := ih (push_refines hR e) hrest
      refine ⟨ws', e :: entries, by rw [List.length_cons, List.length_cons, hlen], ?_, hc'⟩
      simpa using hR'

/-! ## The clone and its parent -/

/-- What is available behind an index counts the entries from it on. -/
theorem numAvailable_toNat {j : UInt64} (hle : j ≤ ws.size) :
    (ws.numAvailable j).toNat = ws.size.toNat - j.toNat := by
  unfold numAvailable
  rw [UInt64.toNat_sub_of_le _ _ hle]

/-- Two subscribers are at the same position when their indices are the same one inside the ring. -/
theorem samePosition_iff {t : Nat} {j : UInt64} (hs : ws.subscribers_ s = some i)
    (ht : ws.subscribers_ t = some j) (hi : i ≤ ws.size) (hj : j ≤ ws.size) :
    SamePosition ws s t ↔ i = j := by
  constructor
  · rintro ⟨i', j', hs', ht', -, -, -, havailable⟩
    obtain rfl : i = i' := Option.some.inj (hs.symm.trans hs')
    obtain rfl : j = j' := Option.some.inj (ht.symm.trans ht')
    have hnat := congrArg UInt64.toNat havailable
    rw [numAvailable_toNat hi, numAvailable_toNat hj] at hnat
    rw [UInt64.le_iff_toNat_le] at hi hj
    exact UInt64.toNat_inj.mp (by omega)
  · rintro rfl
    refine ⟨i, i, hs, ht, hi, hi, ?_, rfl⟩
    unfold tryPop
    split_ifs <;> rfl

/-- A call of `clone`, in any interleaving with pushes, gives the new subscriber the position of its
parent if and only if the parent has index `0` when it is read, or the ring has room for everything
that is pushed from the read to the write. -/
theorem clone_keeps_position_iff {C : UInt64} {ops : List (Op Entry)} {results : List (Result Entry)}
    (hops : runOut step (new C) ops = some (ws, results)) (hs : (ws.subscribers_ s).isSome)
    {before between : List (CloneAct Entry)} {c c' : Cloning Entry}
    (hbefore : run (cloneStep s) ⟨ws, .called⟩ before = some c)
    (hread : c.ws.subscribers_ s = some i) (hphase : c.phase = .registered h)
    (hbetween : run (cloneStep s) c (.read :: (between ++ [.write])) = some c') :
    c'.phase = .returned h ∧
      (SamePosition c'.ws s h ↔
        i = 0 ∨ c.ws.size.toNat + between.length ≤ c.ws.capacity_.toNat) := by
  obtain ⟨l₀, hR₀, hfresh⟩ := exists_log hops
  have hregisters : Registers s c := by
    have hreach := reachable_of_run before hbefore
    exact hreach.invariant_ofStep ⟨⟨l₀, hR₀, hfresh⟩, hs⟩ fun _ _ _ => registers_step
  obtain ⟨ws₁, phase⟩ := c
  obtain rfl : phase = .registered h := hphase
  obtain ⟨hne, l, hR⟩ := hregisters
  obtain ⟨c₁, hstep, hrest⟩ := Option.bind_eq_some_iff.mp hbetween
  obtain ⟨i', hi', rfl⟩ := Option.map_eq_some_iff.mp hstep
  obtain rfl : i = i' := Option.some.inj (hread.symm.trans hi')
  obtain ⟨ws', entries, hlen, hR', rfl⟩ := run_to_write hR hrest
  refine ⟨rfl, ?_⟩
  obtain ⟨cursor, hcursor, hi, hnext⟩ := hR.cursor hread
  obtain ⟨j, hj, hj', -⟩ := hR'.index_of_cursor hcursor
  have hsize := hR.size_toNat
  have hsize' := hR'.size_toNat
  have hcapacity := hR.capacity
  simp only [Log.base, List.length_append, hlen] at hsize hsize' hi hj'
  have hile : i ≤ ws'.size := by
    rw [UInt64.le_iff_toNat_le, hsize', hi]
    omega
  have hposition : ∀ w : Workset Entry, w.subscribers_ s = some j → w.subscribers_ h = some i →
      w.size = ws'.size → (SamePosition w s h ↔
        i = 0 ∨ ws₁.size.toNat + between.length ≤ ws₁.capacity_.toNat) := by
    intro w hparent hclone hw
    rw [samePosition_iff hparent hclone (hw ▸ hR'.index_le_size hj) (hw ▸ hile),
      ← UInt64.toNat_inj, ← UInt64.toNat_inj, hi, hj', hsize, ← hcapacity, UInt64.toNat_zero]
    omega
  refine hposition _ ?_ (Function.update_self _ _ _) rfl
  show Function.update ws'.subscribers_ h (some i) s = some j
  rw [Function.update_of_ne hne.symm, hj]

/-- `clone` without a push between its read and its write. -/
theorem clone_keeps_position_quiet :
    ∃ c : Cloning Nat, c.phase = .returned 2 ∧ SamePosition c.ws 1 2 := by
  have hops : runOut step (new 1 : Workset Nat)
      [.getPublisher, .getSubscriber, .push 0 7, .tryPop 1 true] = some (_, _) := rfl
  have h := clone_keeps_position_iff (s := 1) hops rfl
    (show run (cloneStep 1) _ [.register, .push 0 8] = some _ from rfl) rfl rfl
    (show run (cloneStep 1) _ (.read :: ([] ++ [.write])) = some _ from rfl)
  exact ⟨_, h.1, h.2.mpr (.inr (by decide))⟩

/-- A full ring whose only entry the parent has popped. The push between the read and the write shifts
the parent to the new entry, which the clone does not get. -/
theorem clone_skips_entry :
    ∃ ws c : Workset Nat, ∃ results phase,
      runOut step (new 1) [.getPublisher, .getSubscriber, .push 0 7, .tryPop 1 true] =
        some (ws, results) ∧
      run (cloneStep 1) ⟨ws, .called⟩ [.register, .read, .push 0 8, .write] = some ⟨c, phase⟩ ∧
      phase = .returned 2 ∧ (c.tryPop 1 0 true).2 = some 8 ∧ ¬SamePosition c 1 2 := by
  refine ⟨_, _, _, _, rfl, rfl, rfl, rfl, ?_⟩
  rintro ⟨i, j, hi, hj, -, -, -, havailable⟩
  cases hi
  cases hj
  exact absurd havailable (by decide)

end Workset

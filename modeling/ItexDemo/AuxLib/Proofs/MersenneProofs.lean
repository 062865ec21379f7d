import ItexDemo.AuxLib.Mersenne

/-!
# Proofs: the uniform draws read the stream

`mt_next_state` overwrites a block of the sequence with the next block. Between two calls the object
reads the block in order; `Reads` says where it stands.
-/

namespace RandomNumberGenerator

open Transition Recurrence WordRing

/-! ## The words -/

theorem temper_injective : Function.Injective temper :=
  (xorRight_injective (k := 18) (by decide)).comp <|
    (xorLeft_and_injective (k := 15) (by decide) 0xefc60000).comp <|
      (xorLeft_and_injective (k := 7) (by decide) 0x9d2c5680).comp <|
        xorRight_injective (k := 11) (by decide)

theorem mersenne_follows (start : Nat → BitVec 64) : Follows twist 624 397 (mersenne start) :=
  sequence_follows

theorem mersenne_of_lt {start : Nat → BitVec 64} {k : Nat} (hk : k < 624) :
    mersenne start k = start k :=
  sequence_of_lt hk

/-- `mt_next_state` makes the next block. -/
theorem overwritten_twisted {x : Nat → BitVec 64} (hx : Follows twist 624 397 x) {b : Nat}
    {mt_state : Vector (BitVec 64) 624} (h : Overwritten x b 0 mt_state) :
    Overwritten x (b + 624) 0 (twisted mt_state) := by
  have hfirst : Overwritten x b 227 (Nat.fold 227 (fun p _ mt_state =>
      mt_state.set p (twist mt_state[p + 397] mt_state[p] mt_state[p + 1])) mt_state) :=
    Loop.fold_spec (P := Overwritten x b) (fun p _ _ hp => hx.set_early hp (by omega) (by omega)) h
  have hsecond : Overwritten x b (396 + 227)
      (Nat.fold 396 (fun i _ (mt_state : Vector (BitVec 64) 624) =>
        mt_state.set (i + 227) (twist mt_state[i] mt_state[i + 227] mt_state[i + 228])) _) :=
    Loop.fold_spec (P := fun i => Overwritten x b (i + 227))
      (fun i _ _ hi => hx.set_late hi (q := i) rfl (by decide) (by omega)) hfirst
  have hlast := hx.set_last hsecond (q := 396) rfl (by decide) rfl (by decide)
  exact hlast.next

/-- The words up to number `i` are those of the seed. -/
def Seeded (seed : BitVec 64) (i : Nat) (mt_state : Vector (BitVec 64) 624) : Prop :=
  ∀ k (_ : k < 624), k ≤ i → mt_state[k] = seedWords seed k

/-- `uni_rand_init` makes the first block. -/
theorem overwritten_uni_rand_init (rng : RandomNumberGenerator) (seed : BitVec 64) :
    Overwritten (mersenne (seedWords seed)) 0 0 (rng.uni_rand_init seed).mt_state := by
  have hwords : Seeded seed 623 (rng.uni_rand_init seed).mt_state := by
    refine Loop.fold_spec (P := Seeded seed) ?_ ?_
    · intro i hi mt_state hwords k hk hle
      rw [Vector.getElem_set]
      by_cases hik : i + 1 = k
      · subst hik
        rw [if_pos rfl, hwords i (by omega) (Nat.le_refl i), seedWords]
      · rw [if_neg hik]
        exact hwords k hk (by omega)
    · intro k hk hle
      obtain rfl : k = 0 := by omega
      rw [Vector.getElem_set_self, seedWords]
  intro k hk
  rw [if_neg (Nat.not_lt_zero k), Nat.zero_add, mersenne_of_lt hk]
  exact hwords k hk (by omega)

/-! ## The position -/

/-- The object holds a block of the sequence, and the next word that it draws is `x k`. -/
structure Reads (x : Nat → BitVec 64) (k : Nat) (rng : RandomNumberGenerator) : Prop where
  initf : rng.mt_initf = 1
  block : ∃ b : Nat, k + rng.mt_left = b + 625 ∧ Overwritten x b 0 rng.mt_state
  left : 1 ≤ rng.mt_left
  next : rng.mt_left = 1 ∨ rng.mt_left + rng.mt_next = 625

section Position

variable {x : Nat → BitVec 64} {k : Nat} {rng : RandomNumberGenerator}

/-- `y = *_mt_next++`. -/
theorem Reads.load {b : Nat} (hblock : Overwritten x b 0 rng.mt_state) (hinitf : rng.mt_initf = 1)
    (hk : k = b + rng.mt_next) (hleft : 1 ≤ rng.mt_left) (hnext : rng.mt_left + rng.mt_next = 624) :
    ∃ rng', (rng.mt_state[rng.mt_next]?.map fun y => ({ rng with mt_next := rng.mt_next + 1 }, y)) =
      some (rng', x k) ∧ Reads x (k + 1) rng' := by
  have hlt : rng.mt_next < 624 := by omega
  have hword : rng.mt_state[rng.mt_next] = x k := by
    rw [hblock.old hlt (Nat.zero_le _), hk]
  rw [Vector.getElem?_eq_getElem hlt, hword]
  refine ⟨_, rfl, hinitf, ⟨b, ?_, hblock⟩, hleft, Or.inr ?_⟩
  all_goals
    dsimp only
    omega

/-- **Step lemma.** A draw takes the next word of the sequence. -/
theorem Reads.nextWord (hx : Follows twist 624 397 x) (h : Reads x k rng) :
    ∃ rng', rng.nextWord = some (rng', x k) ∧ Reads x (k + 1) rng' := by
  obtain ⟨b, hk, hblock⟩ := h.block
  have hle := h.left
  unfold RandomNumberGenerator.nextWord
  dsimp only
  by_cases hleft : rng.mt_left - 1 = 0
  · have hinitf : ¬rng.mt_initf = 0 := by
      rw [h.initf]
      decide
    rw [if_pos hleft]
    unfold RandomNumberGenerator.mt_next_state
    rw [if_neg hinitf]
    refine Reads.load (overwritten_twisted hx hblock) h.initf ?_ ?_ rfl
    · dsimp only
      omega
    · dsimp only
      omega
  · have hnext : rng.mt_left + rng.mt_next = 625 := by
      rcases h.next with hone | hnext
      · omega
      · exact hnext
    rw [if_neg hleft]
    refine Reads.load hblock h.initf ?_ ?_ ?_
    all_goals
      dsimp only
      omega

theorem Reads.drawWith {α : Type} (hx : Follows twist 624 397 x) (h : Reads x k rng)
    (result : BitVec 64 → α) :
    ∃ rng', rng.drawWith result = some (rng', result (temper (x k))) ∧ Reads x (k + 1) rng' := by
  obtain ⟨rng', hnext, hreads⟩ := h.nextWord hx
  refine ⟨rng', ?_, hreads⟩
  unfold RandomNumberGenerator.drawWith
  rw [hnext, Option.map_some]

/-- Every draw is a draw from the stream. -/
theorem Reads.uniDraw (hx : Follows twist 624 397 x) (h : Reads x k rng) (a : UniDraw) :
    ∃ rng' k' y, rng.uniDraw a = some (rng', y) ∧
      streamDraw (fun k => temper (x k)) k a = some (k', y) ∧ Reads x k' rng' := by
  cases a with
  | int32 =>
    obtain ⟨rng', hdraw, hreads⟩ := h.drawWith hx id
    exact ⟨rng', _, _, congrArg (Option.map _) hdraw, rfl, hreads⟩
  | int31 =>
    obtain ⟨rng', hdraw, hreads⟩ := h.drawWith hx fun y => (y >>> 1).toInt
    exact ⟨rng', _, _, congrArg (Option.map _) hdraw, rfl, hreads⟩
  | real1 =>
    obtain ⟨rng', hdraw, hreads⟩ := h.drawWith hx fun y => real y * 0.00000000023283064370807973754315
    exact ⟨rng', _, _, congrArg (Option.map _) hdraw, rfl, hreads⟩
  | real2 =>
    obtain ⟨rng', hdraw, hreads⟩ := h.drawWith hx fun y => real y * 0.00000000023283064365386962890625
    exact ⟨rng', _, _, congrArg (Option.map _) hdraw, rfl, hreads⟩
  | real3 =>
    obtain ⟨rng', hdraw, hreads⟩ := h.drawWith hx
      fun y => (real y + 0.5) * 0.00000000023283064365386962890625
    exact ⟨rng', _, _, congrArg (Option.map _) hdraw, rfl, hreads⟩
  | res53 =>
    obtain ⟨rng₁, hfirst, hreads₁⟩ := h.drawWith hx id
    obtain ⟨rng₂, hsecond, hreads₂⟩ := hreads₁.drawWith hx id
    have hfirst : rng.uni_rand_int32 = some (rng₁, temper (x k)) := hfirst
    have hsecond : rng₁.uni_rand_int32 = some (rng₂, temper (x (k + 1))) := hsecond
    refine ⟨rng₂, _, _, ?_, rfl, hreads₂⟩
    unfold RandomNumberGenerator.uniDraw uni_rand_real_res53
    simp only [Option.bind_eq_bind, hfirst, hsecond, Option.bind_some, Option.pure_def,
      Option.map_some]

/-- **Run lemma.** The results of any draws are those of the stream. -/
theorem Reads.outputs (hx : Follows twist 624 397 x) (h : Reads x k rng) (draws : List UniDraw) :
    Transition.outputs RandomNumberGenerator.uniDraw rng draws =
      Transition.outputs (streamDraw fun k => temper (x k)) k draws := by
  refine outputs_refines (R := fun rng k => Reads x k rng) ?_ h draws
  intro rng k a hreads
  obtain ⟨rng', k', y, hdraw, hstream, hreads'⟩ := hreads.uniDraw hx a
  rw [hdraw, hstream]
  exact .some ⟨hreads', rfl⟩

/-- The state after the draws stands further on. -/
theorem Reads.runOut (hx : Follows twist 624 397 x) (h : Reads x k rng) {draws : List UniDraw}
    {rng' : RandomNumberGenerator} {out : List Drawn}
    (hrun : Transition.runOut RandomNumberGenerator.uniDraw rng draws = some (rng', out)) :
    ∃ k', k ≤ k' ∧ Reads x k' rng' := by
  refine runOut_history (P := fun _ _ rng' => ∃ k', k ≤ k' ∧ Reads x k' rng') ⟨k, Nat.le_refl k, h⟩ ?_
    hrun
  rintro _ _ rng a rng' y ⟨k', hle, hreads⟩ hdraw
  obtain ⟨rng'', k'', y', hdraw', hstream, hreads'⟩ := hreads.uniDraw hx a
  rw [hdraw'] at hdraw
  cases hdraw
  refine ⟨k'', Nat.le_trans hle ?_, hreads'⟩
  cases a <;> cases hstream <;> omega

theorem reads_uni_rand_init (rng : RandomNumberGenerator) (seed : BitVec 64) :
    Reads (mersenne (seedWords seed)) 624 (rng.uni_rand_init seed) where
  initf := rfl
  block := ⟨0, rfl, overwritten_uni_rand_init rng seed⟩
  left := Int.le_refl 1
  next := Or.inl rfl

end Position

/-! ## After `uni_rand_init`, and without it -/

/-- The first draw of an object that was not seeded seeds it. -/
theorem nextWord_new (memory : RandomNumberGenerator) :
    (new memory).nextWord = ((new memory).uni_rand_init 5489).nextWord := by
  have hseeded : ((new memory).uni_rand_init 5489).mt_left - 1 = 0 := rfl
  have hnew : (new memory).mt_left - 1 = 0 := rfl
  unfold nextWord
  dsimp only
  rw [if_pos hnew, if_pos hseeded]
  unfold mt_next_state
  rw [if_pos (show (new memory).mt_initf = 0 from rfl),
    if_neg (show ¬((new memory).uni_rand_init 5489).mt_initf = 0 from Int.one_ne_zero)]
  rfl

theorem uniDraw_new (memory : RandomNumberGenerator) (a : UniDraw) :
    (new memory).uniDraw a = ((new memory).uni_rand_init 5489).uniDraw a := by
  cases a <;>
    simp only [uniDraw, uni_rand_int32, uni_rand_int31, uni_rand_real1, uni_rand_real2,
      uni_rand_real3, uni_rand_real_res53, drawWith, nextWord_new]

theorem outputs_new (memory : RandomNumberGenerator) (draws : List UniDraw) :
    outputs uniDraw (new memory) draws = outputs uniDraw ((new memory).uni_rand_init 5489) draws := by
  cases draws with
  | nil => simp only [outputs, runOut, Option.map_some]
  | cons a draws =>
    simp only [outputs, runOut]
    rw [uniDraw_new]

/-- **The Mersenne twister.** Whatever the object did before, all draws after `uni_rand_init` are the
draws from the stream that the seed determines; and without a seeding they are those for the seed
`5489`. -/
theorem uni_draws_eq_stream (rng : RandomNumberGenerator) (seed : BitVec 64) (draws : List UniDraw) :
    outputs uniDraw (rng.uni_rand_init seed) draws = streamed (seedWords seed) draws ∧
      outputs uniDraw (new rng) draws = streamed (seedWords 5489) draws := by
  have hseeded (rng : RandomNumberGenerator) (seed : BitVec 64) :
      outputs uniDraw (rng.uni_rand_init seed) draws = streamed (seedWords seed) draws :=
    (reads_uni_rand_init rng seed).outputs (mersenne_follows _) draws
  exact ⟨hseeded rng seed, (outputs_new rng draws).trans (hseeded _ _)⟩

/-! ## `uni_rand_init_by_array` -/

/-- A word that fits into 32 bits. -/
def Word32 (w : BitVec 64) : Prop := w.toNat < 2 ^ 32

/-- All words fit, and `i` is not the first one. -/
def Mixing (mt_state : Vector (BitVec 64) 624) (i : Nat) : Prop :=
  (∀ k (_ : k < 624), Word32 mt_state[k]) ∧ 1 ≤ i ∧ i < 624

/-- A masked word fits. -/
theorem Word32.and {mask : BitVec 64} (h : Word32 mask) (w : BitVec 64) : Word32 (w &&& mask) := by
  rw [Word32, BitVec.toNat_and]
  exact Nat.and_lt_two_pow _ h

theorem word32_and (w : BitVec 64) : Word32 (w &&& 0xffffffff) :=
  Word32.and (show (0xffffffff : BitVec 64).toNat < 2 ^ 32 by decide) w

theorem mixed_spec {mt_state : Vector (BitVec 64) 624} {i : Nat} (h : Mixing mt_state i)
    (multiplier : BitVec 64) : ∃ word, mixed multiplier mt_state i = some word := by
  obtain ⟨-, hlo, hhi⟩ := h
  unfold mixed
  rw [if_neg (by omega), Vector.getElem?_eq_getElem (by omega), Vector.getElem?_eq_getElem hhi]
  exact ⟨_, rfl⟩

theorem mixing_putMixed {mt_state : Vector (BitVec 64) 624} {i : Nat} (h : Mixing mt_state i)
    (word : BitVec 64) : Mixing (putMixed mt_state i word).1 (putMixed mt_state i word).2 := by
  obtain ⟨hwords, hlo, hhi⟩ := h
  have hset : ∀ k (_ : k < 624), Word32 (mt_state.setIfInBounds i (word &&& 0xffffffff))[k] := by
    intro k hk
    rw [Vector.getElem_setIfInBounds]
    by_cases hik : i = k
    · rw [if_pos hik]
      exact word32_and word
    · rw [if_neg hik]
      exact hwords k hk
  unfold putMixed
  by_cases hwrap : 624 ≤ i + 1
  · rw [if_pos hwrap]
    have hone : (1 : Nat) < 624 := by decide
    refine ⟨?_, Nat.le_refl 1, hone⟩
    intro k hk
    dsimp only
    rw [Vector.getElem_set]
    by_cases hk0 : 0 = k
    · rw [if_pos hk0]
      exact hset 623 (by decide)
    · rw [if_neg hk0]
      exact hset k hk
  · rw [if_neg hwrap]
    exact ⟨hset, by omega, by omega⟩

/-- The index of the key after `j`. -/
def nextKey (key_length : Int) (j : Nat) : Nat := if key_length ≤ (j : Int) + 1 then 0 else j + 1

/-- A round of the first loop fails where the key is too short, and nowhere else. -/
theorem mixKey_eq {mt_state : Vector (BitVec 64) 624} {i : Nat} (h : Mixing mt_state i)
    (init_key : List (BitVec 64)) (key_length : Int) (j : Nat) :
    ∃ word : BitVec 64, mixKey init_key key_length (mt_state, i, j) = init_key[j]?.map fun key =>
      ((putMixed mt_state i (word + key + BitVec.ofNat 64 j)).1,
        (putMixed mt_state i (word + key + BitVec.ofNat 64 j)).2, nextKey key_length j) := by
  obtain ⟨word, hword⟩ := mixed_spec h 1664525
  refine ⟨word, ?_⟩
  rw [mixKey, hword]
  cases init_key[j]? with
  | none => rfl
  | some key => rfl

theorem mixIndex_eq {mt_state : Vector (BitVec 64) 624} {i : Nat} (h : Mixing mt_state i) :
    ∃ word : BitVec 64, mixIndex (mt_state, i) = some (putMixed mt_state i word) := by
  obtain ⟨word, hword⟩ := mixed_spec h 1566083941
  refine ⟨word - BitVec.ofNat 64 i, ?_⟩
  rw [mixIndex, hword]
  rfl

/-- The state of the first loop: its index and the index of the key. -/
def Keyed (key_length : Int) (s : Vector (BitVec 64) 624 × Nat × Nat) : Prop :=
  Mixing s.1 s.2.1 ∧ (s.2.2 = 0 ∨ (s.2.2 : Int) < key_length)

theorem nextKey_lt (key_length : Int) (j : Nat) :
    nextKey key_length j = 0 ∨ (nextKey key_length j : Int) < key_length := by
  unfold nextKey
  by_cases h : key_length ≤ (j : Int) + 1
  · exact Or.inl (if_pos h)
  · rw [if_neg h]
    exact Or.inr (by push_cast; omega)

/-- Every round of the first loop succeeds when the key is as long as `key_length` says, and has a
word when it does not say so. -/
theorem Keyed.mixKey {init_key : List (BitVec 64)} {key_length : Int}
    (hkey : 1 ≤ init_key.length ∧ key_length ≤ init_key.length)
    {s : Vector (BitVec 64) 624 × Nat × Nat} (h : Keyed key_length s) :
    ∃ s', mixKey init_key key_length s = some s' ∧ Keyed key_length s' := by
  obtain ⟨mt_state, i, j⟩ := s
  obtain ⟨hmix, hj⟩ := h
  obtain ⟨word, hround⟩ := mixKey_eq hmix init_key key_length j
  have hlt : j < init_key.length := by
    dsimp only at hj
    omega
  rw [List.getElem?_eq_getElem hlt, Option.map_some] at hround
  exact ⟨_, hround, mixing_putMixed hmix _, nextKey_lt key_length j⟩

theorem mixing_uni_rand_init (rng : RandomNumberGenerator) (seed : BitVec 64) :
    Mixing (rng.uni_rand_init seed).mt_state 1 := by
  refine ⟨?_, Nat.le_refl 1, by decide⟩
  intro k hk
  rw [(overwritten_uni_rand_init rng seed).old hk (Nat.zero_le k), Nat.zero_add, mersenne_of_lt hk]
  cases k with
  | zero => exact word32_and seed
  | succ k => exact word32_and _

/-- The second loop keeps the words inside 32 bits. -/
theorem mixing_mixIndex {s : Vector (BitVec 64) 624 × Nat} (h : Mixing s.1 s.2) :
    ∃ s', Loop.forRange 0 623 (fun _ => mixIndex) s = some s' ∧ Mixing s'.1 s'.2 := by
  refine Loop.forRange_spec (P := fun _ (s : Vector (BitVec 64) 624 × Nat) => Mixing s.1 s.2) (Nat.zero_le 623) ?_ h
  intro _ s _ _ hmix
  obtain ⟨word, hround⟩ := mixIndex_eq hmix
  exact ⟨_, hround, mixing_putMixed hmix word⟩

/-- The seeding that returns. -/
theorem uni_rand_init_by_array_spec (rng : RandomNumberGenerator) {init_key : List (BitVec 64)}
    {key_length : Int} (hkey : 1 ≤ init_key.length ∧ key_length ≤ init_key.length) :
    ∃ rng', rng.uni_rand_init_by_array init_key key_length = some rng' ∧ rng'.mt_initf = 1 ∧
      rng'.mt_left = 1 ∧ (∀ k (_ : k < 624), Word32 rng'.mt_state[k]) ∧
      rng'.mt_state[0] = 0x80000000 := by
  have hloop : ∃ s', Loop.forRange 0 (max 624 key_length).toNat (fun _ => mixKey init_key key_length)
      ((rng.uni_rand_init 19650218).mt_state, 1, 0) = some s' ∧ Keyed key_length s' :=
    Loop.forRange_spec (P := fun _ => Keyed key_length) (Nat.zero_le _)
      (fun _ _ _ _ h => h.mixKey hkey) ⟨mixing_uni_rand_init rng 19650218, Or.inl rfl⟩
  obtain ⟨⟨mt_state, i, j⟩, hfirst, hkeyed⟩ := hloop
  obtain ⟨⟨mt_state', i'⟩, hsecond, hmix⟩ := mixing_mixIndex (s := (mt_state, i)) hkeyed.1
  refine ⟨{ rng.uni_rand_init 19650218 with
    mt_state := mt_state'.set 0 0x80000000, mt_left := 1, mt_initf := 1 }, ?_, rfl, rfl, ?_, ?_⟩
  · simp only [uni_rand_init_by_array, Option.bind_eq_bind, hfirst, Option.bind_some, hsecond,
      Option.pure_def]
  · intro k hk
    dsimp only
    rw [Vector.getElem_set]
    by_cases hk0 : 0 = k
    · rw [if_pos hk0]
      exact show (0x80000000 : BitVec 64).toNat < 2 ^ 32 by decide
    · rw [if_neg hk0]
      exact hmix.1 k hk
  · dsimp only
    rw [Vector.getElem_set_self]

/-- Before round `r`, the first time through the key. -/
def FirstPass (key_length : Int) (r : Nat) (s : Vector (BitVec 64) 624 × Nat × Nat) : Prop :=
  Mixing s.1 s.2.1 ∧ ((r : Int) < max key_length 1 → s.2.2 = r)

theorem FirstPass.mixKey {init_key : List (BitVec 64)} {key_length : Int} {r : Nat}
    {s s' : Vector (BitVec 64) 624 × Nat × Nat} (h : FirstPass key_length r s)
    (hround : mixKey init_key key_length s = some s') : FirstPass key_length (r + 1) s' := by
  obtain ⟨mt_state, i, j⟩ := s
  obtain ⟨hmix, hj⟩ := h
  obtain ⟨word, heq⟩ := mixKey_eq hmix init_key key_length j
  rw [heq] at hround
  obtain ⟨key, -, rfl⟩ := Option.map_eq_some_iff.mp hround
  refine ⟨mixing_putMixed hmix _, ?_⟩
  intro hlt
  dsimp only at hj hlt ⊢
  unfold nextKey
  rw [if_neg (by omega), hj (by omega)]

/-- The key is read behind its end. -/
theorem uni_rand_init_by_array_eq_none (rng : RandomNumberGenerator) {init_key : List (BitVec 64)}
    {key_length : Int} (hkey : (init_key.length : Int) < max key_length 1) :
    rng.uni_rand_init_by_array init_key key_length = none := by
  have hfirst : Loop.forRange 0 (max 624 key_length).toNat
      (fun _ => RandomNumberGenerator.mixKey init_key key_length)
      ((rng.uni_rand_init 19650218).mt_state, 1, 0) = none := by
    refine Loop.forRange_eq_none_of (P := FirstPass key_length) (i := init_key.length)
      (fun _ _ _ h => h.mixKey) ⟨mixing_uni_rand_init rng 19650218, fun _ => rfl⟩
      (Nat.zero_le _) (by omega) ?_
    rintro ⟨mt_state, i, j⟩ ⟨hmix, hj⟩
    obtain ⟨word, heq⟩ := mixKey_eq hmix init_key key_length j
    have hj : j = init_key.length := hj hkey
    rw [heq, List.getElem?_eq_none (Nat.le_of_eq hj.symm), Option.map_none]
  simp only [uni_rand_init_by_array, Option.bind_eq_bind, hfirst, Option.bind_none]

/-! ## Zeros -/

/-- The part of a word that `MIXBITS` takes from its first argument is zero. -/
def Upper (w : BitVec 64) : Prop := w &&& UMASK = 0

/-- The other part is zero. -/
def Lower (w : BitVec 64) : Prop := w &&& LMASK = 0

theorem eq_zero_of_parts {w : BitVec 64} (hw : Word32 w) (hupper : Upper w) (hlower : Lower w) :
    w = 0 := by
  have hmask : UMASK ||| LMASK = 0xffffffff := by decide
  have hword : w &&& 0xffffffff = w := by
    apply BitVec.eq_of_toNat_eq
    rw [BitVec.toNat_and, show (0xffffffff : BitVec 64).toNat = 2 ^ 32 - 1 from rfl,
      Nat.and_two_pow_sub_one_eq_mod, Nat.mod_eq_of_lt hw]
  rw [← hword, ← hmask, BitVec.and_or_distrib_left, hupper, hlower]
  rfl

theorem getLsbD_mixbits_zero (u v : BitVec 64) : (MIXBITS u v).getLsbD 0 = v.getLsbD 0 := by
  have humask : UMASK.getLsbD 0 = false := by decide
  have hlmask : LMASK.getLsbD 0 = true := by decide
  rw [MIXBITS, BitVec.getLsbD_or, BitVec.getLsbD_and, BitVec.getLsbD_and, humask, hlmask,
    Bool.and_false, Bool.false_or, Bool.and_true]

theorem getLsbD_mixbits_high (u v : BitVec 64) : (MIXBITS u v).getLsbD 32 = false := by
  have humask : UMASK.getLsbD 32 = false := by decide
  have hlmask : LMASK.getLsbD 32 = false := by decide
  rw [MIXBITS, BitVec.getLsbD_or, BitVec.getLsbD_and, BitVec.getLsbD_and, humask, hlmask,
    Bool.and_false, Bool.and_false, Bool.false_or]

/-- The highest bit of `MATRIX_A` is that of no shifted word, so the last bit of `v` is zero, and then
no bit is lost. -/
theorem parts_of_twist {u v : BitVec 64} (h : TWIST u v = 0) : Upper u ∧ Lower v := by
  have hshift : MIXBITS u v >>> 1 = if v &&& 1 ≠ 0 then MATRIX_A else 0 := BitVec.xor_eq_zero_iff.mp h
  by_cases hodd : v &&& 1 ≠ 0
  · rw [if_pos hodd] at hshift
    have hbit := congrArg (fun w => w.getLsbD 31) hshift
    simp only [BitVec.getLsbD_ushiftRight] at hbit
    rw [getLsbD_mixbits_high] at hbit
    exact absurd hbit (by decide)
  · rw [if_neg hodd] at hshift
    have hlast : v.getLsbD 0 = false := by
      have hbit := congrArg (fun w => w.getLsbD 0) (not_not.mp hodd)
      simpa using hbit
    have hmix : MIXBITS u v = 0 := by
      apply BitVec.eq_of_getLsbD_eq
      intro i _
      cases i with
      | zero => exact (getLsbD_mixbits_zero u v).trans hlast
      | succ i =>
        have hbit := congrArg (fun w => w.getLsbD i) hshift
        simpa [BitVec.getLsbD_ushiftRight, Nat.add_comm] using hbit
    exact BitVec.or_eq_zero_iff.mp hmix

/-- A twist makes words of 32 bits of such words. -/
theorem word32_twist {far u v : BitVec 64} (hfar : Word32 far) : Word32 (twist far u v) := by
  have hmix : Word32 (MIXBITS u v) := by
    rw [Word32, MIXBITS, BitVec.toNat_or]
    exact Nat.or_lt_two_pow (Word32.and (show UMASK.toNat < 2 ^ 32 by decide) u)
      (Word32.and (show LMASK.toNat < 2 ^ 32 by decide) v)
  have hshift : Word32 (MIXBITS u v >>> 1) := by
    rw [Word32, BitVec.toNat_ushiftRight]
    exact Nat.lt_of_le_of_lt (Nat.shiftRight_le _ 1) hmix
  have hmatrix : Word32 (if v &&& 1 ≠ 0 then MATRIX_A else 0) := by
    split
    · exact show MATRIX_A.toNat < 2 ^ 32 by decide
    · exact show (0 : BitVec 64).toNat < 2 ^ 32 by decide
  rw [Word32, twist, TWIST, BitVec.toNat_xor, BitVec.toNat_xor]
  exact Nat.xor_lt_two_pow hfar (Nat.xor_lt_two_pow hshift hmatrix)

/-- All words of the sequence fit. -/
theorem word32_mersenne {start : Nat → BitVec 64} (h : ∀ k < 624, Word32 (start k)) (k : Nat) :
    Word32 (mersenne start k) := by
  induction k using Nat.strong_induction_on with
  | _ k ih =>
    by_cases hk : k < 624
    · rw [mersenne_of_lt hk]
      exact h k hk
    · obtain ⟨j, rfl⟩ := Nat.exists_eq_add_of_le (Nat.le_of_not_lt hk)
      rw [Nat.add_comm, mersenne_follows]
      exact word32_twist (ih (j + 397) (by omega))

/-- Draws with `uni_rand_int32` show the words in a row. -/
theorem outputs_int32 (words : Nat → BitVec 64) (k n : Nat) :
    outputs (streamDraw words) k (List.replicate n .int32) =
      some ((List.range n).map fun i => .unsigned (words (k + i))) := by
  induction n generalizing k with
  | zero => rfl
  | succ n ih =>
    have hrest := ih (k + 1)
    unfold outputs at hrest ⊢
    obtain ⟨⟨k', bs⟩, hrun, hbs⟩ := Option.map_eq_some_iff.mp hrest
    dsimp only at hbs
    rw [List.replicate_succ, runOut, streamDraw, Option.bind_some]
    dsimp only
    rw [hrun, Option.map_some, Option.map_some, hbs, List.range_succ_eq_map, List.map_cons,
      List.map_map]
    simp only [Function.comp_def, Nat.add_zero, Nat.succ_eq_add_one, Nat.add_assoc, Nat.add_comm 1]

/-- What a seeding leaves: words that fit, and not all of them zero where they are read. -/
theorem reads_seedWith {rng rng' : RandomNumberGenerator} {seeding : UniSeeding}
    (h : rng.seedWith seeding = some rng') :
    ∃ start, Reads (mersenne start) 624 rng' ∧ (∀ k < 624, Word32 (start k)) ∧
      ¬(Upper (start 0) ∧ start 1 = 0 ∧ start 2 = 0) := by
  cases seeding with
  | init seed =>
    obtain rfl : rng.uni_rand_init seed = rng' := Option.some.inj h
    refine ⟨seedWords seed, reads_uni_rand_init rng seed, ?_, ?_⟩
    · intro k _
      cases k with
      | zero => exact word32_and seed
      | succ k => exact word32_and _
    · rintro ⟨-, hone, htwo⟩
      -- a word that is zero is followed by its number
      rw [seedWords, hone] at htwo
      exact absurd htwo (by decide)
  | init_by_array init_key key_length =>
    have h : rng.uni_rand_init_by_array init_key key_length = some rng' := h
    by_cases hkey : (init_key.length : Int) < max key_length 1
    · rw [uni_rand_init_by_array_eq_none rng hkey] at h
      cases h
    · have hlength : 1 ≤ init_key.length ∧ key_length ≤ init_key.length := by omega
      obtain ⟨rng'', hseed, hinitf, hleft, hwords, hfirst⟩ :=
        uni_rand_init_by_array_spec rng hlength
      rw [h] at hseed
      cases hseed
      have hstart {k : Nat} (hk : k < 624) : rng'.mt_state[k]?.getD 0 = rng'.mt_state[k] := by
        rw [Vector.getElem?_eq_getElem hk, Option.getD_some]
      refine ⟨fun k => rng'.mt_state[k]?.getD 0, ⟨hinitf, ⟨0, ?_, ?_⟩, ?_, Or.inl hleft⟩, ?_, ?_⟩
      · rw [hleft]
        rfl
      · intro k hk
        rw [if_neg (Nat.not_lt_zero k), Nat.zero_add, mersenne_of_lt hk, hstart hk]
      · rw [hleft]
      · intro k hk
        dsimp only
        rw [hstart hk]
        exact hwords k hk
      · rintro ⟨hupper, -, -⟩
        dsimp only at hupper
        rw [hstart (by decide), hfirst] at hupper
        exact absurd hupper (show ¬(0x80000000 : BitVec 64) &&& UMASK = 0 by decide)

/-- A sequence with such a start has no block of zeros. -/
theorem mersenne_no_zero_block {start : Nat → BitVec 64} (hwords : ∀ k < 624, Word32 (start k))
    (hstart : ¬(Upper (start 0) ∧ start 1 = 0 ∧ start 2 = 0)) {k : Nat} (hk : 1 ≤ k) :
    ∃ i < 624, mersenne start (k + i) ≠ 0 := by
  by_contra hno
  push Not at hno
  obtain ⟨j, rfl⟩ := Nat.exists_eq_add_of_le' hk
  have hwindow : Upper (mersenne start 0) ∧ ∀ i, 0 < i → i ≤ 624 → mersenne start i = 0 :=
    (mersenne_follows start).eq_zero_of_window (by decide) (by decide)
      (fun u v huv => parts_of_twist (by simpa [twist] using huv))
      (fun i => eq_zero_of_parts (word32_mersenne hwords i)) hno
  obtain ⟨hupper, hzero⟩ := hwindow
  have hword (i : Nat) (hlo : 0 < i) (hhi : i < 624) : start i = 0 := by
    rw [← show mersenne start i = start i from mersenne_of_lt hhi]
    exact hzero i hlo (Nat.le_of_lt hhi)
  rw [mersenne_of_lt (by decide)] at hupper
  exact hstart ⟨hupper, hword 1 (by decide) (by decide), hword 2 (by decide) (by decide)⟩

/-- **No collapse.** After a seeding and any draws, 624 words in a row are never all zero. -/
theorem seeded_block_ne_zero {rng rng₁ rng₂ : RandomNumberGenerator} {seeding : UniSeeding}
    {draws : List UniDraw} {out : List Drawn} (hseed : rng.seedWith seeding = some rng₁)
    (hrun : runOut uniDraw rng₁ draws = some (rng₂, out)) :
    outputs uniDraw rng₂ (List.replicate 624 .int32) ≠ some (List.replicate 624 (.unsigned 0)) := by
  obtain ⟨start, hreads, hwords, hstart⟩ := reads_seedWith hseed
  obtain ⟨k, hk, hreads₂⟩ := hreads.runOut (mersenne_follows start) hrun
  obtain ⟨i, hi, hne⟩ := mersenne_no_zero_block hwords hstart (k := k) (by omega)
  rw [hreads₂.outputs (mersenne_follows start), outputs_int32]
  intro heq
  have hword := congrArg (fun bs => bs[i]?) (Option.some.inj heq)
  simp only [List.getElem?_map, List.getElem?_range hi, Option.map_some, List.getElem?_replicate,
    if_pos hi, Option.some.injEq, Drawn.unsigned.injEq] at hword
  exact hne (temper_injective hword)

/-- A memory in which all words are `w`. -/
def filled (w : BitVec 64) : RandomNumberGenerator where
  mt_state := .replicate 624 w
  mt_left := 0
  mt_initf := 0
  mt_next := 0
  ran2_idum2 := 0
  ran2_iy := 0
  ran2_iv := .replicate 32 0
  ran2_idum := 0

theorem seeded_block_ne_zero_by_array :
    ∃ rng₁, (filled 0).seedWith (.init_by_array [0x123, 0x234] 2) = some rng₁ ∧
      outputs uniDraw rng₁ (List.replicate 624 .int32) ≠ some (List.replicate 624 (.unsigned 0)) := by
  have hlength : 1 ≤ ([0x123, 0x234] : List (BitVec 64)).length ∧
      (2 : Int) ≤ ([0x123, 0x234] : List (BitVec 64)).length := by decide
  obtain ⟨rng₁, hseed, -⟩ := uni_rand_init_by_array_spec (filled 0) hlength
  have hseed : (filled 0).seedWith (.init_by_array [0x123, 0x234] 2) = some rng₁ := hseed
  have hrun : runOut uniDraw rng₁ [] = some (rng₁, []) := rfl
  exact ⟨rng₁, hseed, seeded_block_ne_zero hseed hrun⟩

/-! ## The words determine the state -/

/-- Whatever is called on an object, its draws are those from a stream. -/
theorem outputs_of_reachable {rng : RandomNumberGenerator} (h : Reachable uniHistory rng) :
    ∃ x k, Follows twist 624 397 x ∧ ∀ draws, outputs uniDraw rng draws =
      outputs (streamDraw fun k => temper (x k)) k draws := by
  have hinv : (∃ x k, Follows twist 624 397 x ∧ Reads x k rng) ∨ ∃ memory, rng = new memory := by
    refine h.invariant (I := fun rng =>
      (∃ x k, Follows twist 624 397 x ∧ Reads x k rng) ∨ ∃ memory, rng = new memory) ?_ ?_
    · rintro _ ⟨memory, rfl⟩
      exact Or.inr ⟨memory, rfl⟩
    · intro rng call rng' hinv htr
      left
      cases call with
      | seed seeding =>
        obtain ⟨start, hreads, -, -⟩ := reads_seedWith htr
        exact ⟨_, _, mersenne_follows start, hreads⟩
      | draw a =>
        have htr : (rng.uniDraw a).map Prod.fst = some rng' := htr
        rcases hinv with ⟨x, k, hx, hreads⟩ | ⟨memory, rfl⟩
        · obtain ⟨rng'', k', y, hdraw, -, hreads'⟩ := hreads.uniDraw hx a
          rw [hdraw] at htr
          cases htr
          exact ⟨x, k', hx, hreads'⟩
        · have hx := mersenne_follows (seedWords 5489)
          obtain ⟨rng'', k', y, hdraw, -, hreads'⟩ :=
            (reads_uni_rand_init (new memory) 5489).uniDraw hx a
          rw [uniDraw_new, hdraw] at htr
          cases htr
          exact ⟨_, k', hx, hreads'⟩
  rcases hinv with ⟨x, k, hx, hreads⟩ | ⟨memory, rfl⟩
  · exact ⟨x, k, hx, hreads.outputs hx⟩
  · have hx := mersenne_follows (seedWords 5489)
    exact ⟨_, 624, hx, fun draws =>
      (outputs_new memory draws).trans ((reads_uni_rand_init _ _).outputs hx draws)⟩

/-- Two streams with the same words from their positions on. -/
theorem outputs_streamDraw_congr {x y : Nat → BitVec 64} {k l : Nat}
    (h : ∀ i, x (k + i) = y (l + i)) (draws : List UniDraw) :
    outputs (streamDraw x) k draws = outputs (streamDraw y) l draws := by
  refine outputs_refines (R := fun a b => ∃ i, a = k + i ∧ b = l + i) ?_ ⟨0, rfl, rfl⟩ draws
  rintro _ _ a ⟨i, rfl, rfl⟩
  have hnext : x (k + i + 1) = y (l + i + 1) := h (i + 1)
  cases a with
  | res53 =>
    simp only [streamDraw, h i, hnext]
    exact .some ⟨⟨i + 2, rfl, rfl⟩, rfl⟩
  | int32 =>
    simp only [streamDraw, h i]
    exact .some ⟨⟨i + 1, rfl, rfl⟩, rfl⟩
  | int31 =>
    simp only [streamDraw, h i]
    exact .some ⟨⟨i + 1, rfl, rfl⟩, rfl⟩
  | real1 =>
    simp only [streamDraw, h i]
    exact .some ⟨⟨i + 1, rfl, rfl⟩, rfl⟩
  | real2 =>
    simp only [streamDraw, h i]
    exact .some ⟨⟨i + 1, rfl, rfl⟩, rfl⟩
  | real3 =>
    simp only [streamDraw, h i]
    exact .some ⟨⟨i + 1, rfl, rfl⟩, rfl⟩

/-- **Prediction.** Two objects, whatever was called on them before, that give the same 624 words with
`uni_rand_int32` give the same results from there on, and from the start of these words. -/
theorem determined_by_block {rng rng' : RandomNumberGenerator} (h : Reachable uniHistory rng)
    (h' : Reachable uniHistory rng')
    (hblock : outputs uniDraw rng (List.replicate 624 .int32) =
      outputs uniDraw rng' (List.replicate 624 .int32)) (draws : List UniDraw) :
    outputs uniDraw rng draws = outputs uniDraw rng' draws := by
  obtain ⟨x, k, hx, hout⟩ := outputs_of_reachable h
  obtain ⟨y, l, hy, hout'⟩ := outputs_of_reachable h'
  rw [hout, hout', outputs_int32, outputs_int32] at hblock
  have hwindow : ∀ i < 624, x (k + i) = y (l + i) := by
    intro i hi
    have hword := congrArg (fun bs => bs[i]?) (Option.some.inj hblock)
    simp only [List.getElem?_map, List.getElem?_range hi, Option.map_some, Option.some.injEq,
      Drawn.unsigned.injEq] at hword
    exact temper_injective hword
  rw [hout, hout']
  refine outputs_streamDraw_congr ?_ draws
  intro i
  rw [hx.eq_of_window hy (by decide) (by decide) hwindow i]

/-- Objects in different memories that are seeded alike. -/
theorem determined_by_block_seeded :
    outputs uniDraw ((new (filled 0)).uni_rand_init 1) [.res53, .int31] =
      outputs uniDraw ((new (filled 7)).uni_rand_init 1) [.res53, .int31] := by
  have hreachable (w : BitVec 64) : Reachable uniHistory ((new (filled w)).uni_rand_init 1) := by
    have hseed : uniHistory.Tr (new (filled w)) (.seed (.init 1)) ((new (filled w)).uni_rand_init 1) :=
      rfl
    exact (Reachable.init (S := uniHistory) ⟨filled w, rfl⟩).step hseed
  refine determined_by_block (hreachable 0) (hreachable 7) ?_ _
  exact outputs_eq (R := MtAgree) (fun _ _ a h => h.uniDraw a) (MtAgree.uni_rand_init _ _ 1) _

end RandomNumberGenerator

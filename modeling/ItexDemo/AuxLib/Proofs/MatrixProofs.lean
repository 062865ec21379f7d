import Mathlib.Algebra.BigOperators.Intervals
import Mathlib.Tactic.LinearCombination
import Mathlib.Tactic.Ring
import ItexDemo.AuxLib.Matrix
import ItexDemo.Lib.Grid

/-!
# The views and the products of `aux::matrix`

The row views run down the columns and the column views along the rows. A product by either method
needs an inner dimension of at least two.
-/

namespace AuxMatrix

/-! ## Views -/

section Views

variable {T : Type*} (m : AuxMatrix T)

/-- Number `i` of the row views denotes the elements of column `i`. -/
theorem getRow_ref (i k : Nat) : (m.getRow i).ref k = m.index k i := by
  show sizeT (i + k * m.dCol) = sizeT (k * m.dCol + i)
  rw [Nat.add_comm]

/-- Number `i` of the column views denotes the elements of row `i`. -/
theorem getColumn_ref (i k : Nat) : (m.getColumn i).ref k = m.index i k := by
  show sizeT (sizeT (i * m.dCol) + k * 1) = sizeT (i * m.dCol + k)
  rw [sizeT_add_left, Nat.mul_one]

/-- The views denote the elements that `operator()(row, col)` denotes, and stay in the storage. -/
structure ViewsAgree : Prop where
  getRow : ∀ i < m.dRow, ∀ j < m.dCol, (m.getRow i).ref j = m.index i j
  subscript : ∀ i < m.dRow, ∀ j < m.dCol, (m.subscript i).ref j = m.index i j
  call : ∀ i < m.dRow, ∀ j < m.dCol, (m.call i).ref j = m.index i j
  getColumn : ∀ i < m.dRow, ∀ j < m.dCol, (m.getColumn j).ref i = m.index i j
  row_inside : ∀ i < m.dRow, ∀ k < m.dCol, (m.getRow i).ref k < m.v.length
  column_inside : ∀ j < m.dCol, ∀ k < m.dRow, (m.getColumn j).ref k < m.v.length

/-- Where swapping the coordinates changes no element, the views agree with the accesses. -/
theorem viewsAgree_of_index (hswap : ∀ i < m.dRow, ∀ j < m.dCol, m.index j i = m.index i j)
    (hinside : ∀ i < m.dRow, ∀ j < m.dCol, m.index i j < m.v.length) : ViewsAgree m := by
  have hrow : ∀ i < m.dRow, ∀ j < m.dCol, (m.getRow i).ref j = m.index i j := by
    intro i hi j hj
    rw [getRow_ref, hswap i hi j hj]
  have hcolumn : ∀ i < m.dRow, ∀ j < m.dCol, (m.getColumn j).ref i = m.index i j := by
    intro i hi j hj
    rw [getColumn_ref, hswap i hi j hj]
  refine ⟨hrow, hrow, hrow, hcolumn, ?_, ?_⟩
  · intro i hi k hk
    rw [hrow i hi k hk]
    exact hinside i hi k hk
  · intro j hj k hk
    rw [hcolumn k hk j hj]
    exact hinside k hk j hj

theorem not_viewsAgree (hrow : 0 < m.dRow) (hcol : 1 < m.dCol) : ¬ ViewsAgree m := by
  intro h
  have hcross := h.getRow 0 hrow 1 hcol
  rw [getRow_ref, index, index, Nat.one_mul, Nat.zero_mul, Nat.add_zero, Nat.zero_add,
    sizeT_of_lt m.dCol_lt, sizeT_of_lt (by decide)] at hcross
  omega

/-- The views of a matrix agree with its accesses only when it has a single column (or nothing at
all). -/
theorem viewsAgree_iff : ViewsAgree m ↔ m.dCol ≤ 1 ∨ m.dRow = 0 := by
  constructor
  · intro h
    by_contra hshape
    exact not_viewsAgree m (by omega) (by omega) h
  · intro hshape
    have hcol : ∀ i < m.dRow, ∀ j < m.dCol, m.dCol = 1 ∧ j = 0 := by
      intro i hi j hj
      omega
    apply viewsAgree_of_index
    · intro i hi j hj
      obtain ⟨hone, rfl⟩ := hcol i hi j hj
      rw [index, index, hone, Nat.zero_mul, Nat.mul_one, Nat.zero_add, Nat.add_zero]
    · intro i hi j hj
      obtain ⟨hone, rfl⟩ := hcol i hi j hj
      have hlt := m.dRow_lt
      rw [m.size_eq, index, hone, Nat.mul_one, Nat.mul_one, Nat.add_zero, sizeT_of_lt hlt,
        sizeT_of_lt (by omega)]
      exact hi

/-- A matrix with two rows and three columns: `get_row(0)[1]` is `m(1, 0)`. -/
theorem views_disagree : ¬ ∀ m : AuxMatrix Int, ViewsAgree m :=
  fun h => not_viewsAgree (new 2 3) (by decide) (by decide) (h _)

end Views

/-! ## Entries -/

section Entries

variable {T : Type*} {m : AuxMatrix T} {a c : Nat} {f g : Nat → Nat → T}

/-- The matrix is `a` by `c` and has the entries of `f`. -/
structure Entries (m : AuxMatrix T) (a c : Nat) (f : Nat → Nat → T) : Prop where
  numRows_eq : m.numRows = a
  numCols_eq : m.numCols = c
  read : ∀ i < a, ∀ j < c, m.read i j = some (f i j)

/-- `f` with another value at one entry. -/
def put (f : Nat → Nat → T) (i j : Nat) (value : T) : Nat → Nat → T :=
  fun i' j' => if i' = i ∧ j' = j then value else f i' j'

theorem put_self (f : Nat → Nat → T) (i j : Nat) (value : T) : put f i j value i j = value :=
  if_pos ⟨rfl, rfl⟩

theorem put_put (f : Nat → Nat → T) (i j : Nat) (old value : T) :
    put (put f i j old) i j value = put f i j value := by
  funext i' j'
  unfold put
  split <;> simp [*]

theorem put_eq_self (f : Nat → Nat → T) (i j : Nat) : put f i j (f i j) = f := by
  funext i' j'
  unfold put
  split
  · rename_i h
    rw [h.1, h.2]
  · rfl

theorem Entries.congr (h : Entries m a c f) (hfg : ∀ i < a, ∀ j < c, f i j = g i j) :
    Entries m a c g where
  numRows_eq := h.numRows_eq
  numCols_eq := h.numCols_eq
  read i hi j hj := by rw [h.read i hi j hj, hfg i hi j hj]

/-- All entries are in the storage, so it has `a * c` elements and `size_t` counts them. -/
theorem Entries.size_lt (h : Entries m a c f) : a * c < 2 ^ 64 := by
  by_contra hbig
  -- the index behind the storage is that of an entry when the size has wrapped
  have hlen : m.v.length < 2 ^ 64 := m.size_eq ▸ sizeT_lt _
  have hc : 0 < c := Nat.pos_of_ne_zero fun hc => by simp [hc] at hbig
  have hi : m.v.length / c < a := Nat.div_lt_of_lt_mul (by rw [Nat.mul_comm]; omega)
  have hread := h.read _ hi _ (Nat.mod_lt m.v.length hc)
  have hcols : m.dCol = c := h.numCols_eq
  rw [AuxMatrix.read, index, hcols, Nat.div_add_mod', sizeT_of_lt hlen,
    List.getElem?_eq_none (Nat.le_refl _)] at hread
  cases hread

theorem index_eq {i j : Nat} (hcols : m.dCol = c) (hsize : a * c < 2 ^ 64) (hi : i < a)
    (hj : j < c) : m.index i j = i * c + j := by
  rw [index, hcols, sizeT_of_lt (Nat.lt_trans (Grid.cell_lt hi hj) hsize)]

theorem length_eq (hrows : m.dRow = a) (hcols : m.dCol = c) (hsize : a * c < 2 ^ 64) :
    m.v.length = a * c := by
  rw [m.size_eq, hrows, hcols, sizeT_of_lt hsize]

theorem assign_eq {i j : Nat} {value : T} {v : List T}
    (h : Loop.store m.v (m.index i j) value = some v) :
    ∃ m', m.assign i j value = some m' ∧ m'.v = v ∧ m'.dRow = m.dRow ∧ m'.dCol = m.dCol := by
  unfold assign
  split
  · rename_i hnone
    rw [hnone] at h
    cases h
  · rename_i v' hsome
    rw [hsome] at h
    cases h
    exact ⟨_, rfl, rfl, rfl, rfl⟩

theorem Entries.assign (h : Entries m a c f) {i j : Nat} (hi : i < a) (hj : j < c) (value : T) :
    ∃ m', m.assign i j value = some m' ∧ Entries m' a c (put f i j value) := by
  have hsize := h.size_lt
  have hindex := index_eq h.numCols_eq hsize hi hj
  have hlen := length_eq h.numRows_eq h.numCols_eq hsize
  have hstore : Loop.store m.v (m.index i j) value = some (m.v.set (i * c + j) value) := by
    rw [hindex]
    exact if_pos (hlen ▸ Grid.cell_lt hi hj)
  obtain ⟨m', hm', hv, hrows, hcols⟩ := assign_eq hstore
  refine ⟨m', hm', hrows.trans h.numRows_eq, hcols.trans h.numCols_eq, ?_⟩
  intro i' hi' j' hj'
  have hold := h.read i' hi' j' hj'
  rw [AuxMatrix.read, index_eq h.numCols_eq hsize hi' hj'] at hold
  rw [AuxMatrix.read, index_eq (hcols.trans h.numCols_eq) hsize hi' hj', hv, List.getElem?_set, hold]
  by_cases hcell : i' = i ∧ j' = j
  · obtain ⟨rfl, rfl⟩ := hcell
    rw [if_pos rfl, if_pos (hlen ▸ Grid.cell_lt hi hj), put_self]
  · have hne : i * c + j ≠ i' * c + j' := fun heq =>
      hcell ⟨(Grid.cell_inj hj hj' heq).1.symm, (Grid.cell_inj hj hj' heq).2.symm⟩
    rw [if_neg hne, put, if_neg hcell]

theorem Entries.addAssign [Add T] (h : Entries m a c f) {i j : Nat} (hi : i < a) (hj : j < c)
    (value : T) :
    ∃ m', m.addAssign i j value = some m' ∧ Entries m' a c (put f i j (f i j + value)) := by
  obtain ⟨m', hm', hentries⟩ := h.assign hi hj (f i j + value)
  refine ⟨m', ?_, hentries⟩
  rw [AuxMatrix.addAssign, h.read i hi j hj]
  exact hm'

/-- A pass over the rows and their elements that changes one element in each round changes all. -/
theorem Entries.sweep (h : Entries m a c f)
    {body : Nat → Nat → AuxMatrix T → Option (AuxMatrix T)} (cell : Nat → Nat → T → T)
    (hbody : ∀ i < a, ∀ j < c, ∀ m f, Entries m a c f →
      ∃ m', body i j m = some m' ∧ Entries m' a c (put f i j (cell i j (f i j)))) :
    ∃ m', Loop.nested a c body m = some m' ∧
      Entries m' a c fun i j => cell i j (f i j) := by
  -- the elements before `(i, j)` are done, the others untouched
  let done (i j : Nat) : Nat → Nat → T := fun i' j' =>
    if i' < i ∨ i' = i ∧ j' < j then cell i' j' (f i' j') else f i' j'
  have hnext (i j : Nat) : put (done i j) i j (cell i j (done i j i j)) = done i (j + 1) := by
    funext i' j'
    by_cases hcell : i' = i ∧ j' = j
    · obtain ⟨rfl, rfl⟩ := hcell
      simp [put, done]
    · have hsame : (i' < i ∨ i' = i ∧ j' < j) ↔ (i' < i ∨ i' = i ∧ j' < j + 1) := by omega
      simp only [put, if_neg hcell, done, hsame]
  have hrow : ∀ i m, 0 ≤ i → i < a → Entries m a c (done i 0) →
      ∃ m', Loop.forRange 0 c (body i) m = some m' ∧ Entries m' a c (done (i + 1) 0) := by
    intro i m _ hi hm
    obtain ⟨m', hm', hdone⟩ := Loop.forRange_spec (P := fun j m => Entries m a c (done i j))
      (Nat.zero_le c) (fun j m _ hj hm => hnext i j ▸ hbody i hi j hj m _ hm) hm
    refine ⟨m', hm', hdone.congr ?_⟩
    intro i' _ j' hj'
    have hsame : (i' < i ∨ i' = i ∧ j' < c) ↔ (i' < i + 1 ∨ i' = i + 1 ∧ j' < 0) := by omega
    simp only [done, hsame]
  have hstart : Entries m a c (done 0 0) := h.congr fun i _ j _ => by simp [done]
  obtain ⟨m', hm', hdone⟩ := Loop.forRange_spec (P := fun i m => Entries m a c (done i 0))
    (Nat.zero_le a) hrow hstart
  exact ⟨m', hm', hdone.congr fun i hi j _ => if_pos (.inl hi)⟩

theorem Entries.accumulate [AddCommMonoid T] (h : Entries m a c f)
    {body : Nat → AuxMatrix T → Option (AuxMatrix T)} (term : Nat → T) {n i j : Nat} (hi : i < a)
    (hj : j < c) (hbody : ∀ k < n, ∀ m, body k m = m.addAssign i j (term k)) :
    ∃ m', Loop.forRange 0 n body m = some m' ∧
      Entries m' a c (put f i j (f i j + ∑ k ∈ Finset.range n, term k)) := by
  apply Loop.forRange_spec
    (P := fun k m => Entries m a c (put f i j (f i j + ∑ k ∈ Finset.range k, term k)))
    (Nat.zero_le n)
  · intro k m _ hk hm
    rw [hbody k hk]
    obtain ⟨m', hm', hentries⟩ := hm.addAssign hi hj (term k)
    refine ⟨m', hm', ?_⟩
    rwa [put_put, put_self, add_assoc, ← Finset.sum_range_succ] at hentries
  · rwa [Finset.range_zero, Finset.sum_empty, add_zero, put_eq_self]

end Entries

/-! ## Products -/

section Products

open Loop Finset

variable {T : Type*} [CommRing T] {mG mH mR : AuxMatrix T} {a b c : Nat} {g h : Nat → Nat → T}

theorem new_entries (hsize : a * c < 2 ^ 64) (ha : a < 2 ^ 64) (hc : c < 2 ^ 64) :
    Entries (new a c : AuxMatrix T) a c fun _ _ => 0 := by
  refine ⟨sizeT_of_lt ha, sizeT_of_lt hc, ?_⟩
  intro i hi j hj
  have hcell := Grid.cell_lt hi hj
  show (List.replicate (sizeT (sizeT a * sizeT c)) (0 : T))[sizeT (i * sizeT c + j)]? = some 0
  rw [sizeT_of_lt ha, sizeT_of_lt hc, sizeT_of_lt hsize, sizeT_of_lt (by omega),
    List.getElem?_replicate, if_pos hcell]

/-- A matrix has the entries that its storage has. -/
theorem entries_of_size (m : AuxMatrix T) (hsize : m.dRow * m.dCol < 2 ^ 64) :
    Entries m m.dRow m.dCol fun i j => m.v[i * m.dCol + j]?.getD 0 := by
  refine ⟨rfl, rfl, ?_⟩
  intro i hi j hj
  have hlt : i * m.dCol + j < m.v.length := by
    rw [length_eq rfl rfl hsize]
    exact Grid.cell_lt hi hj
  rw [AuxMatrix.read, index_eq rfl hsize hi hj, List.getElem?_eq_getElem hlt, Option.getD_some]

theorem multRegular_spec (hG : Entries mG a b g) (hH : Entries mH b c h) {f : Nat → Nat → T}
    (hR : Entries mR a c f) :
    ∃ mR', multRegular mG mH mR = some mR' ∧
      Entries mR' a c fun i j => ∑ k ∈ range b, g i k * h k j := by
  rw [multRegular, hG.numRows_eq, hH.numCols_eq]
  apply hR.sweep fun i j _ => ∑ k ∈ range b, g i k * h k j
  intro i hi j hj m f hm
  rw [regularElement, hG.numCols_eq]
  obtain ⟨m₁, hm₁, hzero⟩ := hm.assign hi hj 0
  rw [hm₁]
  have hterm : ∀ k < b, ∀ m : AuxMatrix T,
      (do m.addAssign i j ((← mG.read i k) * (← mH.read k j))) =
        m.addAssign i j (g i k * h k j) := by
    intro k hk m
    rw [hG.read i hi k hk, hH.read k hk j hj]
    rfl
  obtain ⟨m₂, hm₂, hsum⟩ := hzero.accumulate (fun k => g i k * h k j) hi hj hterm
  rw [put_put, put_self, zero_add] at hsum
  exact ⟨m₂, hm₂, hsum⟩

section Factors

variable {n d : Nat} {entry : Nat → Nat → Option T} {e : Nat → Nat → T}

theorem factorElement_spec (hd : 1 ≤ d) {i : Nat} (hi : i < n)
    (hentry : ∀ k < 2 * d, entry i k = some (e i k)) {factor : List T} {f : Nat → T}
    (hfactor : Filled factor n f) :
    ∃ factor', factorElement d entry i factor = some factor' ∧
      Filled factor' n
        (Function.update f i (∑ j ∈ range d, e i (2 * j) * e i (2 * j + 1))) := by
  rw [factorElement, hentry 0 (by omega), hentry 1 (by omega)]
  obtain ⟨factor₁, hstore, hfirst⟩ := hfactor.store hi (e i 0 * e i 1)
  show ∃ factor', (store factor i (e i 0 * e i 1) >>= _) = some factor' ∧ _
  rw [hstore]
  apply forRange_spec (P := fun j factor => Filled factor n
    (Function.update f i (∑ j ∈ range j, e i (2 * j) * e i (2 * j + 1)))) hd
  · intro j factor _ hj hfilled
    obtain ⟨factor', hstore', hfilled'⟩ := hfilled.store hi
      (∑ j ∈ range j, e i (2 * j) * e i (2 * j + 1) + e i (2 * j) * e i (2 * j + 1))
    have hload := hfilled.load i hi
    rw [Function.update_self] at hload
    rw [Function.update_idem, ← sum_range_succ] at hfilled'
    rw [hload, hentry (2 * j) (by omega), hentry (2 * j + 1) (by omega)]
    exact ⟨factor', hstore', hfilled'⟩
  · simpa using hfirst

theorem factors_spec (hd : 1 ≤ d) (hentry : ∀ i < n, ∀ k < 2 * d, entry i k = some (e i k)) :
    ∃ factor, factors n d entry = some factor ∧
      Filled factor n fun i => ∑ j ∈ range d, e i (2 * j) * e i (2 * j + 1) := by
  -- the elements before `i` are computed, the others still `0`
  let computed (i i' : Nat) : T :=
    if i' < i then ∑ j ∈ range d, e i' (2 * j) * e i' (2 * j + 1) else 0
  have hstep : ∀ i factor, 0 ≤ i → i < n → Filled factor n (computed i) →
      ∃ factor', factorElement d entry i factor = some factor' ∧
        Filled factor' n (computed (i + 1)) := by
    intro i factor _ hi hfactor
    obtain ⟨factor', hfactor', hfilled⟩ := factorElement_spec hd hi (hentry i hi) hfactor
    refine ⟨factor', hfactor', hfilled.congr ?_⟩
    intro i' _
    rcases lt_trichotomy i' i with hlt | rfl | hgt
    · rw [Function.update_of_ne (by omega)]
      simp only [computed, if_pos hlt, if_pos (Nat.lt_succ_of_lt hlt)]
    · rw [Function.update_self]
      simp only [computed, if_pos (Nat.lt_succ_self i')]
    · rw [Function.update_of_ne (by omega)]
      simp only [computed, if_neg (show ¬ i' < i by omega), if_neg (show ¬ i' < i + 1 by omega)]
  obtain ⟨factor, hfactor, hfilled⟩ := forRange_spec (Nat.zero_le n) hstep
    ((Filled.replicate n 0).congr fun i _ => by simp [computed])
  exact ⟨factor, hfactor, hfilled.congr fun i hi => if_pos hi⟩

end Factors

/-- Winograd's inner product of two vectors of even length. -/
theorem winograd (x y : Nat → T) (d : Nat) :
    -(∑ k ∈ range d, x (2 * k) * x (2 * k + 1)) - ∑ k ∈ range d, y (2 * k) * y (2 * k + 1) +
        ∑ k ∈ range d, (x (2 * k) + y (2 * k + 1)) * (x (2 * k + 1) + y (2 * k)) =
      ∑ k ∈ range (2 * d), x k * y k := by
  induction d with
  | zero => simp
  | succ d ih =>
    rw [Nat.mul_succ, sum_range_succ (fun k => x k * y k), sum_range_succ (fun k => x k * y k),
      ← ih, sum_range_succ, sum_range_succ, sum_range_succ]
    ring

theorem fastElement_spec (hG : Entries mG a b g) (hH : Entries mH b c h) {rows columns : List T}
    (hrows : Filled rows a fun i => ∑ k ∈ range (b / 2), g i (2 * k) * g i (2 * k + 1))
    (hcolumns : Filled columns c fun j => ∑ k ∈ range (b / 2), h (2 * k) j * h (2 * k + 1) j)
    {i j : Nat} (hi : i < a) (hj : j < c) {f : Nat → Nat → T} {m : AuxMatrix T}
    (hm : Entries m a c f) :
    ∃ m', fastElement mG mH rows columns i j m = some m' ∧
      Entries m' a c (put f i j (∑ k ∈ range (2 * (b / 2)), g i k * h k j)) := by
  rw [fastElement, hrows.load i hi, hcolumns.load j hj, hG.numCols_eq]
  obtain ⟨m₁, hm₁, hfirst⟩ := hm.assign hi hj
    (-(∑ k ∈ range (b / 2), g i (2 * k) * g i (2 * k + 1)) -
      ∑ k ∈ range (b / 2), h (2 * k) j * h (2 * k + 1) j)
  show ∃ m', (m.assign i j _ >>= _) = some m' ∧ _
  rw [hm₁]
  have hterm : ∀ k < b / 2, ∀ m : AuxMatrix T,
      (do m.addAssign i j (((← mG.read i (2 * k)) + (← mH.read (2 * k + 1) j)) *
        ((← mG.read i (2 * k + 1)) + (← mH.read (2 * k) j)))) =
      m.addAssign i j
        ((g i (2 * k) + h (2 * k + 1) j) * (g i (2 * k + 1) + h (2 * k) j)) := by
    intro k hk m
    rw [hG.read i hi (2 * k) (by omega), hG.read i hi (2 * k + 1) (by omega),
      hH.read (2 * k) (by omega) j hj, hH.read (2 * k + 1) (by omega) j hj]
    rfl
  obtain ⟨m₂, hm₂, hsum⟩ := hfirst.accumulate
    (fun k => (g i (2 * k) + h (2 * k + 1) j) * (g i (2 * k + 1) + h (2 * k) j)) hi hj hterm
  rw [put_put, put_self, winograd (g i) (fun k => h k j)] at hsum
  exact ⟨m₂, hm₂, hsum⟩

theorem oddElement_spec (hb : 1 ≤ b) (hG : Entries mG a b g) (hH : Entries mH b c h) {i j : Nat}
    (hi : i < a) (hj : j < c) {f : Nat → Nat → T} {m : AuxMatrix T} (hm : Entries m a c f) :
    ∃ m', oddElement mG mH i j m = some m' ∧
      Entries m' a c (put f i j (f i j + g i (b - 1) * h (b - 1) j)) := by
  rw [oddElement, hG.numCols_eq, hG.read i hi (b - 1) (by omega), hH.read (b - 1) (by omega) j hj]
  exact hm.addAssign hi hj _

theorem multFast_spec (hb : 2 ≤ b) (hG : Entries mG a b g) (hH : Entries mH b c h)
    {f : Nat → Nat → T} (hR : Entries mR a c f) :
    ∃ mR', multFast mG mH mR = some mR' ∧
      Entries mR' a c fun i j => ∑ k ∈ range b, g i k * h k j := by
  have hd : 1 ≤ b / 2 := by omega
  have hrowEntry : ∀ i < a, ∀ k < 2 * (b / 2), mG.read i k = some (g i k) :=
    fun i hi k hk => hG.read i hi k (by omega)
  have hcolumnEntry : ∀ j < c, ∀ k < 2 * (b / 2), mH.read k j = some (h k j) :=
    fun j hj k hk => hH.read k (by omega) j hj
  obtain ⟨rows, hrows, hrowFilled⟩ := factors_spec hd hrowEntry
  obtain ⟨columns, hcolumns, hcolumnFilled⟩ :=
    factors_spec (e := fun j k => h k j) hd hcolumnEntry
  obtain ⟨mR₁, hmR₁, heven⟩ := hR.sweep (fun i j _ => ∑ k ∈ range (2 * (b / 2)), g i k * h k j)
    fun i hi j hj m f hm => fastElement_spec hG hH hrowFilled hcolumnFilled hi hj hm
  rw [multFast, hG.numRows_eq, hG.numCols_eq, hH.numCols_eq, rowFactor, columnFactor,
    hG.numRows_eq, hG.numCols_eq, hH.numCols_eq, hrows]
  show ∃ mR', (factors c (b / 2) (fun i k => mH.read k i) >>= _) = some mR' ∧ _
  rw [hcolumns]
  show ∃ mR', (nested a c (fastElement mG mH rows columns) mR >>= _) = some mR' ∧ _
  rw [hmR₁]
  show ∃ mR', (if 2 * (b / 2) ≠ b then nested a c (oddElement mG mH) mR₁ else some mR₁) =
    some mR' ∧ _
  by_cases hodd : 2 * (b / 2) = b
  · rw [if_neg (not_not.mpr hodd)]
    rw [hodd] at heven
    exact ⟨mR₁, rfl, heven⟩
  · rw [if_pos hodd]
    obtain ⟨mR₂, hmR₂, hall⟩ := heven.sweep (fun i j old => old + g i (b - 1) * h (b - 1) j)
      fun i hi j hj m f hm => oddElement_spec (by omega) hG hH hi hj hm
    refine ⟨mR₂, hmR₂, hall.congr fun i _ j _ => ?_⟩
    have hlast : 2 * (b / 2) = b - 1 := by omega
    show ∑ k ∈ range (2 * (b / 2)), g i k * h k j + _ = _
    rw [hlast, ← sum_range_succ (fun k => g i k * h k j), Nat.sub_add_cancel (by omega)]

/-- With an inner dimension of one, the first product of a row reads behind it: in the last row,
behind the storage. -/
theorem multFast_eq_none (ha : 1 ≤ a) (hG : Entries mG a 1 g) (mH mR : AuxMatrix T) :
    multFast mG mH mR = none := by
  have hlt := mG.dRow_lt
  have hrows : mG.dRow = a := hG.numRows_eq
  have houtside : mG.read (a - 1) 1 = none := by
    have hindex : mG.index (a - 1) 1 = a := by
      rw [index, show mG.dCol = 1 from hG.numCols_eq, Nat.mul_one, Nat.sub_add_cancel ha,
        sizeT_of_lt (by omega)]
    have hlen : mG.v.length = a := by
      rw [length_eq hrows hG.numCols_eq (by omega), Nat.mul_one]
    rw [AuxMatrix.read, hindex, List.getElem?_eq_none (by omega)]
  have hfactor : mG.rowFactor = none := by
    rw [rowFactor, factors, hG.numRows_eq]
    apply forRange_eq_none (i := a - 1) (by omega) (by omega)
    intro factor
    rw [factorElement, houtside]
    cases mG.read (a - 1) 0 <;> rfl
  rw [multFast, hfactor]
  rfl

/-- The destination that the loops of `mult` start from. -/
def destination (mR : AuxMatrix T) (a c : Nat) : AuxMatrix T :=
  if mR.numRows ≠ a ∨ mR.numCols ≠ c then mR.resize a c else mR

theorem destination_entries (mR : AuxMatrix T) (ha : a < 2 ^ 64) (hc : c < 2 ^ 64)
    (hsize : a * c < 2 ^ 64) : ∃ f, Entries (mR.destination a c) a c f := by
  unfold destination
  split
  · exact ⟨_, new_entries hsize ha hc⟩
  · rename_i hshape
    have hrows : mR.dRow = a := by_contra fun h => hshape (.inl h)
    have hcols : mR.dCol = c := by_contra fun h => hshape (.inr h)
    subst hrows hcols
    exact ⟨_, mR.entries_of_size hsize⟩

theorem mult_eq (hG : Entries mG a b g) (hH : Entries mH b c h) (mR : AuxMatrix T)
    (mulMethod : MultMethod) :
    mR.mult mG mH mulMethod =
      match mulMethod with
      | .multRegular => multRegular mG mH (mR.destination a c) >>= multFast mG mH
      | .multFast => multFast mG mH (mR.destination a c) := by
  rw [mult, hG.numRows_eq, hG.numCols_eq, hH.numCols_eq, hH.numRows_eq]
  exact if_neg (not_not.mpr rfl)

/-- `mult` leaves the product in the destination and reads only elements of its operands. -/
def Multiplies (mulMethod : MultMethod) (mR mG mH : AuxMatrix T) (a b c : Nat)
    (g h : Nat → Nat → T) : Prop :=
  ∃ mR', mR.mult mG mH mulMethod = some mR' ∧
    Entries mR' a c fun i j => ∑ k ∈ range b, g i k * h k j

theorem multiplies_of_two_le (hb : 2 ≤ b) (hsize : a * c < 2 ^ 64) (hG : Entries mG a b g)
    (hH : Entries mH b c h) (mR : AuxMatrix T) (mulMethod : MultMethod) :
    Multiplies mulMethod mR mG mH a b c g h := by
  have ha : a < 2 ^ 64 := hG.numRows_eq ▸ mG.dRow_lt
  have hc : c < 2 ^ 64 := hH.numCols_eq ▸ mH.dCol_lt
  obtain ⟨f, hdestination⟩ := mR.destination_entries ha hc hsize
  rw [Multiplies, mult_eq hG hH]
  cases mulMethod with
  | multRegular =>
    obtain ⟨mR₁, hmR₁, hproduct⟩ := multRegular_spec hG hH hdestination
    obtain ⟨mR₂, hmR₂, hagain⟩ := multFast_spec hb hG hH hproduct
    refine ⟨mR₂, ?_, hagain⟩
    show (multRegular mG mH _ >>= _) = _
    rw [hmR₁]
    exact hmR₂
  | multFast => exact multFast_spec hb hG hH hdestination

theorem not_multiplies_one (ha : 1 ≤ a) (hG : Entries mG a 1 g) (hH : Entries mH 1 c h)
    (mR : AuxMatrix T) (mulMethod : MultMethod) :
    ¬ Multiplies mulMethod mR mG mH a 1 c g h := by
  rintro ⟨mR', hmult, -⟩
  rw [mult_eq hG hH] at hmult
  cases mulMethod with
  | multRegular =>
    simp only at hmult
    cases hregular : multRegular mG mH (mR.destination a c) with
    | none =>
      rw [hregular] at hmult
      cases hmult
    | some mR₁ =>
      rw [hregular] at hmult
      have : multFast mG mH mR₁ = some mR' := hmult
      rw [multFast_eq_none ha hG] at this
      cases this
  | multFast =>
    simp only [multFast_eq_none ha hG] at hmult
    cases hmult

/-- Both methods multiply when the inner dimension is at least two and the product has a size. -/
theorem multiplies_iff (ha : 1 ≤ a) (hb : 1 ≤ b) (hG : Entries mG a b g) (hH : Entries mH b c h)
    (mR : AuxMatrix T) (mulMethod : MultMethod) :
    Multiplies mulMethod mR mG mH a b c g h ↔ 2 ≤ b ∧ a * c < 2 ^ 64 := by
  constructor
  · intro hmult
    refine ⟨?_, ?_⟩
    · by_contra hlt
      obtain rfl : b = 1 := by omega
      exact not_multiplies_one ha hG hH mR mulMethod hmult
    · obtain ⟨mR', -, hentries⟩ := hmult
      exact hentries.size_lt
  · rintro ⟨htwo, hsize⟩
    exact multiplies_of_two_le htwo hsize hG hH mR mulMethod

/-- A matrix with these elements, row after row. -/
def ofElements (v : List Int) (row col : Nat) (hv : v.length = sizeT (sizeT row * sizeT col)) :
    AuxMatrix Int :=
  { (new row col : AuxMatrix Int) with v := v, size_eq := hv }

theorem multiplies_row_column :
    Multiplies .multRegular (new 1 1) (ofElements [2, 3] 1 2 rfl) (ofElements [5, 7] 2 1 rfl) 1 2 1
        (fun i j => [2, 3][i * 2 + j]?.getD 0) (fun i j => [5, 7][i * 1 + j]?.getD 0) ↔
      2 ≤ 2 ∧ 1 * 1 < 2 ^ 64 :=
  multiplies_iff (by decide) (by decide) (entries_of_size (ofElements [2, 3] 1 2 rfl) (by decide))
    (entries_of_size (ofElements [5, 7] 2 1 rfl) (by decide)) _ _

/-- Two matrices with one element each: `mG(0, 1)` is outside. -/
theorem single_elements_not_multiplied :
    ¬ ∀ (mulMethod : MultMethod) (mR mG mH : AuxMatrix Int) (a b c : Nat) (g h : Nat → Nat → Int),
      1 ≤ a → 1 ≤ b → 1 ≤ c → Entries mG a b g → Entries mH b c h →
        Multiplies mulMethod mR mG mH a b c g h := by
  intro hall
  have hnew : Entries (new 1 1 : AuxMatrix Int) 1 1 0 :=
    new_entries (by decide) (by decide) (by decide)
  exact not_multiplies_one (by decide) hnew hnew (new 1 1) .multFast
    (hall _ _ _ _ 1 1 1 0 0 (by decide) (by decide) (by decide) hnew hnew)

end Products

end AuxMatrix

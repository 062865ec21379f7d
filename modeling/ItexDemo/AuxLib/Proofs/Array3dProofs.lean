import Mathlib.Data.Int.ConditionallyCompleteOrder
import Mathlib.Data.Set.Function
import Mathlib.Tactic.Linarith
import ItexDemo.AuxLib.Array3d

/-!
# The indices of `aux::Array3d`

An index is moved by at most one period along every axis, and the fixed indices are numbered without
gaps. What the memory holds is another matter: the byte count of `allocate_buffer` can wrap.
-/

namespace Array3d

/-! ## One component -/

/-- The value of `fix_index` for one component, in unbounded integers. -/
def wrap (index size : Int) : Int :=
  let idx := if index ≥ 0 then index else size + index
  if idx ≥ size then idx - size else idx

/-- The component is an `int64_t`. -/
def IsInt64 (n : Int) : Prop := -2 ^ 63 ≤ n ∧ n < 2 ^ 63

/-- More than one period away from the range of the axis. -/
def Beyond (index size : Int) : Prop := index < -size ∨ 2 * size ≤ index

theorem int64_of_isInt64 {n : Int} (h : IsInt64 n) : int64 n = .ok n := if_pos h

section Component

variable {index size : Int}

theorem fixComponent_eq (hsize : IsInt64 size) (hpos : 0 < size) (hindex : IsInt64 index) :
    fixComponent index size = .ok (wrap index size) := by
  unfold IsInt64 at hsize hindex
  have hadd : index < 0 → int64 (size + index) = .ok (size + index) := by
    intro hneg
    apply int64_of_isInt64
    constructor <;> omega
  have hsub : size ≤ index → int64 (index - size) = .ok (index - size) := by
    intro hle
    apply int64_of_isInt64
    constructor <;> omega
  unfold fixComponent wrap
  by_cases hneg : index ≥ 0
  · simp only [if_pos hneg]
    show (if index ≥ size then int64 (index - size) else pure index) = _
    split
    · exact hsub (by assumption)
    · rfl
  · simp only [if_neg hneg]
    rw [hadd (by omega)]
    show (if size + index ≥ size then int64 (size + index - size) else pure (size + index)) = _
    rw [if_neg (by omega), if_neg (by omega)]
    rfl

/-- The value is in the range of the axis unless the component was too far away. -/
theorem wrap_bounds_iff (hpos : 0 < size) :
    (wrap index size < 0 ∨ wrap index size ≥ size) ↔ Beyond index size := by
  unfold wrap Beyond
  dsimp only
  split <;> split <;> omega

theorem wrap_modEq (index size : Int) : wrap index size ≡ index [ZMOD size] := by
  have hsub (n : Int) : n - size ≡ n [ZMOD size] := by simp [Int.ModEq]
  have hadd : size + index ≡ index [ZMOD size] := by simp [Int.ModEq]
  unfold wrap
  dsimp only
  split
  · split
    · exact hsub index
    · rfl
  · split
    · exact (hsub _).trans hadd
    · exact hadd

theorem wrap_of_mem (hlo : 0 ≤ index) (hhi : index < size) : wrap index size = index := by
  unfold wrap
  dsimp only
  rw [if_pos hlo, if_neg (by omega)]

end Component

/-! ## Triples -/

/-- The components are `int64_t`. -/
structure Fits (v : Vector3) : Prop where
  x : IsInt64 v.x
  y : IsInt64 v.y
  z : IsInt64 v.z

/-- The indices that `fix_index` returns for a size. -/
structure InBox (size v : Vector3) : Prop where
  x : 0 ≤ v.x ∧ v.x < size.x
  y : 0 ≤ v.y ∧ v.y < size.y
  z : 0 ≤ v.z ∧ v.z < size.z

/-- Some component is too far away. -/
def OutOfReach (index size : Vector3) : Prop :=
  Beyond index.x size.x ∨ Beyond index.y size.y ∨ Beyond index.z size.z

instance (index size : Vector3) : Decidable (OutOfReach index size) :=
  inferInstanceAs (Decidable ((_ ∨ _) ∨ (_ ∨ _) ∨ (_ ∨ _)))

/-- Congruent modulo the size, component by component. -/
structure Congruent (size v w : Vector3) : Prop where
  x : v.x ≡ w.x [ZMOD size.x]
  y : v.y ≡ w.y [ZMOD size.y]
  z : v.z ≡ w.z [ZMOD size.z]

/-- The number of indices in the box. -/
def volume (size : Vector3) : Int := size.x * size.y * size.z

/-- A size whose components are positive and whose product is an `int64_t`. -/
structure Sized (size : Vector3) : Prop where
  x : 0 < size.x
  y : 0 < size.y
  z : 0 < size.z
  volume_lt : volume size < 2 ^ 63

/-- The component-wise value of `fix_index`. -/
def wrapped (index size : Vector3) : Vector3 where
  x := wrap index.x size.x
  y := wrap index.y size.y
  z := wrap index.z size.z

/-- A digit below `s` and a number below `n` make a number below `s * n`. -/
theorem digit_lt {d s q n : Int} (hd : 0 ≤ d ∧ d < s) (hq : 0 ≤ q ∧ q < n) :
    0 ≤ s * q ∧ d + s * q < s * n := by
  have hnonneg : 0 ≤ s * q := Int.mul_nonneg (by omega) hq.1
  have hle : s * (q + 1) ≤ s * n := Int.mul_le_mul_of_nonneg_left (by omega) (by omega)
  rw [Int.mul_add, Int.mul_one] at hle
  omega

/-- The digit and the number are determined. -/
theorem digit_inj {d d' s q q' : Int} (hd : 0 ≤ d ∧ d < s) (hd' : 0 ≤ d' ∧ d' < s)
    (h : d + s * q = d' + s * q') : d = d' ∧ q = q' := by
  have hs : s ≠ 0 := by omega
  have hq : q = q' := by
    have := congrArg (· / s) h
    simpa only [Int.add_mul_ediv_left _ _ hs, Int.ediv_eq_zero_of_lt hd.1 hd.2,
      Int.ediv_eq_zero_of_lt hd'.1 hd'.2, Int.zero_add] using this
  subst hq
  exact ⟨by omega, rfl⟩

section Sized

variable {size : Vector3}

theorem volume_eq (size : Vector3) : volume size = size.x * (size.y * size.z) := Int.mul_assoc ..

/-- A box has at least as many indices as one of its sides. -/
theorem Sized.fits (h : Sized size) : Fits size := by
  have hx := h.x
  have hy := h.y
  have hz := h.z
  have hvolume := h.volume_lt
  rw [volume_eq] at hvolume
  have hyz : 0 < size.y * size.z := Int.mul_pos hy hz
  have hxle : size.x ≤ size.x * (size.y * size.z) := by nlinarith only [hx, hyz]
  have hyzle : size.y * size.z ≤ size.x * (size.y * size.z) := by nlinarith only [hx, hyz]
  have hyle : size.y ≤ size.y * size.z := by nlinarith only [hy, hz]
  have hzle : size.z ≤ size.y * size.z := by nlinarith only [hy, hz]
  refine ⟨⟨?_, ?_⟩, ⟨?_, ?_⟩, ⟨?_, ?_⟩⟩ <;> omega

theorem fixIndex_eq (h : Sized size) {index : Vector3} (hindex : Fits index) :
    fixIndex index size =
      if OutOfReach index size then .error (.runtimeError "Array3d - invalid index")
      else .ok (wrapped index size) := by
  have hfits := h.fits
  have hprint (n : Int) (hn : IsInt64 n) (hpos : 0 < n) : int64 (n - 1) = .ok (n - 1) := by
    unfold IsInt64 at hn
    apply int64_of_isInt64
    constructor <;> omega
  have hreach : (wrap index.x size.x < 0 ∨ wrap index.x size.x ≥ size.x ∨
      wrap index.y size.y < 0 ∨ wrap index.y size.y ≥ size.y ∨
      wrap index.z size.z < 0 ∨ wrap index.z size.z ≥ size.z) ↔ OutOfReach index size := by
    rw [OutOfReach, ← wrap_bounds_iff h.x, ← wrap_bounds_iff h.y, ← wrap_bounds_iff h.z]
    simp only [or_assoc]
  rw [fixIndex, fixComponent_eq hfits.x h.x hindex.x, fixComponent_eq hfits.y h.y hindex.y,
    fixComponent_eq hfits.z h.z hindex.z, hprint _ hfits.x h.x, hprint _ hfits.y h.y,
    hprint _ hfits.z h.z]
  by_cases hbad : OutOfReach index size
  · rw [if_pos hbad]
    exact if_pos (hreach.mpr hbad)
  · rw [if_neg hbad]
    exact if_neg (fun hor => hbad (hreach.mp hor))

theorem wrapped_inBox (h : Sized size) {index : Vector3} (hindex : ¬ OutOfReach index size) :
    InBox size (wrapped index size) := by
  unfold OutOfReach at hindex
  rw [← wrap_bounds_iff h.x, ← wrap_bounds_iff h.y, ← wrap_bounds_iff h.z] at hindex
  refine ⟨⟨?_, ?_⟩, ⟨?_, ?_⟩, ⟨?_, ?_⟩⟩ <;> simp only [wrapped] <;> omega

theorem wrapped_congruent (index size : Vector3) : Congruent size (wrapped index size) index :=
  ⟨wrap_modEq _ _, wrap_modEq _ _, wrap_modEq _ _⟩

theorem InBox.fits (h : Sized size) {v : Vector3} (hv : InBox size v) : Fits v := by
  obtain ⟨⟨-, hx⟩, ⟨-, hy⟩, ⟨-, hz⟩⟩ := h.fits
  have hbox := hv
  obtain ⟨⟨hx0, hx1⟩, ⟨hy0, hy1⟩, ⟨hz0, hz1⟩⟩ := hbox
  refine ⟨⟨?_, ?_⟩, ⟨?_, ?_⟩, ⟨?_, ?_⟩⟩ <;> omega

/-- The fixed indices are those of the box. -/
theorem fixed_iff (h : Sized size) {v : Vector3} :
    (∃ index, Fits index ∧ fixIndex index size = .ok v) ↔ InBox size v := by
  constructor
  · rintro ⟨index, hindex, hfix⟩
    rw [fixIndex_eq h hindex] at hfix
    split at hfix
    · cases hfix
    · cases hfix
      exact wrapped_inBox h (by assumption)
  · intro hv
    have hwrapped : wrapped v size = v :=
      Vector3.ext (wrap_of_mem hv.x.1 hv.x.2) (wrap_of_mem hv.y.1 hv.y.2) (wrap_of_mem hv.z.1 hv.z.2)
    have hreach : ¬ OutOfReach v size := by
      obtain ⟨⟨hx0, hx1⟩, ⟨hy0, hy1⟩, ⟨hz0, hz1⟩⟩ := hv
      unfold OutOfReach Beyond
      omega
    exact ⟨v, hv.fits h, by rw [fixIndex_eq h (hv.fits h), if_neg hreach, hwrapped]⟩

/-! ## Offsets -/

theorem offset_eq (h : Sized size) {v : Vector3} (hv : InBox size v) :
    offset size v = .ok (v.x + size.x * (v.y + size.y * v.z)) ∧
      0 ≤ v.x + size.x * (v.y + size.y * v.z) ∧
      v.x + size.x * (v.y + size.y * v.z) < volume size := by
  have hvolume := h.volume_lt
  have hfits := hv.fits h
  have hx := hv.x
  have hy := hv.y
  obtain ⟨hplanes, hrows⟩ := digit_lt hv.y hv.z
  have hnonneg : 0 ≤ v.y + size.y * v.z := by omega
  obtain ⟨hcells, hlt⟩ := digit_lt hv.x ⟨hnonneg, hrows⟩
  have hyz : size.y * size.z ≤ size.x * (size.y * size.z) := by
    have hpos := Int.mul_pos h.y h.z
    have hone := h.x
    nlinarith only [hpos, hone]
  rw [← volume_eq] at hlt hyz
  have hint {n : Int} (hlo : 0 ≤ n) (hhi : n < volume size) : int64 n = .ok n := by
    apply int64_of_isInt64
    constructor <;> omega
  refine ⟨?_, by omega, hlt⟩
  rw [offset, hint hplanes (by omega)]
  show (int64 (v.y + size.y * v.z) >>= _) = _
  rw [hint hnonneg (by omega)]
  show (int64 (size.x * (v.y + size.y * v.z)) >>= _) = _
  rw [hint hcells (by omega)]
  exact hint (by omega) hlt

theorem offset_injOn (h : Sized size) {v w : Vector3} (hv : InBox size v) (hw : InBox size w)
    (heq : offset size v = offset size w) : v = w := by
  rw [(offset_eq h hv).1, (offset_eq h hw).1] at heq
  obtain ⟨hx, hrows⟩ := digit_inj hv.x hw.x (Except.ok.inj heq)
  obtain ⟨hy, hz⟩ := digit_inj hv.y hw.y hrows
  exact Vector3.ext hx hy hz

theorem offset_surjOn (h : Sized size) {n : Int} (hlo : 0 ≤ n) (hhi : n < volume size) :
    ∃ v, InBox size v ∧ offset size v = .ok n := by
  rw [volume_eq] at hhi
  let v : Vector3 :=
    { x := n % size.x, y := n / size.x % size.y, z := n / size.x / size.y }
  have hrows : n / size.x < size.y * size.z :=
    Int.ediv_lt_of_lt_mul h.x (by rwa [Int.mul_comm])
  have hplane : n / size.x / size.y < size.z :=
    Int.ediv_lt_of_lt_mul h.y (by rwa [Int.mul_comm])
  have hnonneg : 0 ≤ n / size.x := Int.ediv_nonneg hlo h.x.le
  have hv : InBox size v := by
    refine ⟨⟨?_, ?_⟩, ⟨?_, ?_⟩, ⟨?_, hplane⟩⟩
    · exact Int.emod_nonneg _ h.x.ne'
    · exact Int.emod_lt_of_pos _ h.x
    · exact Int.emod_nonneg _ h.y.ne'
    · exact Int.emod_lt_of_pos _ h.y
    · exact Int.ediv_nonneg hnonneg h.y.le
  refine ⟨v, hv, ?_⟩
  rw [(offset_eq h hv).1]
  show Except.ok (n % size.x + size.x * (n / size.x % size.y + size.y * (n / size.x / size.y))) = _
  rw [Int.emod_add_mul_ediv, Int.emod_add_mul_ediv]

/-! ## The storage -/

theorem arraySize_eq (h : Sized size) : arraySize size = .ok (volume size).toNat := by
  have hvolume := h.volume_lt
  have hpos : 0 < volume size := Int.mul_pos (Int.mul_pos h.x h.y) h.z
  have hplane : 0 < size.x * size.y := Int.mul_pos h.x h.y
  have hle : size.x * size.y ≤ volume size := by
    have hone := h.z
    unfold volume
    nlinarith only [hplane, hone]
  rw [arraySize, int64_of_isInt64 ⟨by omega, by omega⟩]
  have hproduct : int64 (volume size) = .ok (volume size) :=
    int64_of_isInt64 ⟨by omega, hvolume⟩
  unfold volume at hproduct
  show (int64 (size.x * size.y * size.z) >>= _) = _
  rw [hproduct]
  show Except.ok (volume size % 2 ^ 64).toNat = _
  rw [Int.emod_eq_of_lt hpos.le (by omega)]

/-- The memory of `allocate_buffer` has room for all elements when their byte count does not wrap. -/
theorem allocateBuffer_eq_iff (type : ElementType) (n : Nat) :
    allocateBuffer type n = n ↔ n * type.sizeof < 2 ^ 64 := by
  unfold allocateBuffer
  constructor
  · intro heq
    by_contra hbig
    have hlt : n * type.sizeof % 2 ^ 64 < n * type.sizeof :=
      Nat.lt_of_lt_of_le (Nat.mod_lt _ (by decide)) (Nat.le_of_not_lt hbig)
    have hroom : n * type.sizeof % 2 ^ 64 / type.sizeof < n := by
      apply Nat.div_lt_of_lt_mul
      rwa [Nat.mul_comm type.sizeof]
    omega
  · intro hlt
    rw [Nat.mod_eq_of_lt hlt, Nat.mul_div_cancel _ type.sizeof_pos]

end Sized

/-! ## Wrapped indices onto the storage -/

/-- `fix_index` wraps every index or throws, and the fixed indices number the allocated elements. -/
structure WrapsOnto (type : ElementType) (size : Vector3) : Prop where
  throws : ∀ index, Fits index →
    (fixIndex index size = .error (.runtimeError "Array3d - invalid index") ↔
      OutOfReach index size)
  fixes : ∀ index, Fits index → ¬ OutOfReach index size →
    ∃ fixedIdx, fixIndex index size = .ok fixedIdx ∧ InBox size fixedIdx ∧
      Congruent size fixedIdx index
  offset_ok : ∀ fixedIdx, InBox size fixedIdx →
    offset size fixedIdx = .ok (fixedIdx.x + size.x * (fixedIdx.y + size.y * fixedIdx.z))
  bijOn : Set.BijOn (offset size)
    {fixedIdx | ∃ index, Fits index ∧ fixIndex index size = .ok fixedIdx}
    (Except.ok '' Set.Ico 0 (volume size))
  arraySize_eq : arraySize size = .ok (volume size).toNat
  allocates : ∀ room, allocate type (volume size).toNat = .ok room → room = (volume size).toNat

theorem offset_bijOn {size : Vector3} (h : Sized size) :
    Set.BijOn (offset size)
      {fixedIdx | ∃ index, Fits index ∧ fixIndex index size = .ok fixedIdx}
      (Except.ok '' Set.Ico 0 (volume size)) := by
  refine ⟨?_, ?_, ?_⟩
  · intro v hv
    obtain ⟨hoffset, hlo, hhi⟩ := offset_eq h ((fixed_iff h).mp hv)
    exact ⟨_, ⟨hlo, hhi⟩, hoffset.symm⟩
  · intro v hv w hw heq
    exact offset_injOn h ((fixed_iff h).mp hv) ((fixed_iff h).mp hw) heq
  · rintro _ ⟨n, ⟨hlo, hhi⟩, rfl⟩
    obtain ⟨v, hv, hoffset⟩ := offset_surjOn h hlo hhi
    exact ⟨v, (fixed_iff h).mpr hv, hoffset⟩

theorem allocate_eq_iff (type : ElementType) (n : Nat) :
    (∀ room, allocate type n = .ok room → room = n) ↔
      (type.isArithmetic → n * type.sizeof < 2 ^ 64) := by
  unfold allocate
  cases type.isArithmetic with
  | true =>
    simp only [if_pos, Except.ok.injEq, forall_eq', forall_const]
    exact allocateBuffer_eq_iff type n
  | false =>
    simp only [Bool.false_eq_true, if_false, false_implies, iff_true]
    intro room hroom
    split at hroom
    · exact (Except.ok.inj hroom).symm
    · cases hroom

/-- The indices wrap onto the storage exactly when the byte count of the storage is a `size_t`. -/
theorem wrapsOnto_iff (type : ElementType) {size : Vector3} (h : Sized size) :
    WrapsOnto type size ↔
      (type.isArithmetic → (volume size).toNat * type.sizeof < 2 ^ 64) := by
  rw [← allocate_eq_iff]
  refine ⟨WrapsOnto.allocates, fun hroom => ⟨?_, ?_, ?_, ?_, ?_, hroom⟩⟩
  · intro index hindex
    rw [fixIndex_eq h hindex]
    split <;> simp [*]
  · intro index hindex hreach
    rw [fixIndex_eq h hindex, if_neg hreach]
    exact ⟨_, rfl, wrapped_inBox h hreach, wrapped_congruent index size⟩
  · intro fixedIdx hbox
    exact (offset_eq h hbox).1
  · exact offset_bijOn h
  · exact arraySize_eq h

theorem length_of_new {T : Type} {type : ElementType} {size : Vector3} (h : Sized size)
    {default_value : T} {data : Option (List T)} {array : Array3d T}
    (hnew : new type size default_value data = .ok array) :
    array.size_ = size ∧ array.data_.length = (volume size).toNat := by
  rw [new, arraySize_eq h] at hnew
  change (allocate type (volume size).toNat >>= _) = _ at hnew
  cases hallocate : allocate type (volume size).toNat with
  | error fault =>
    rw [hallocate] at hnew
    cases hnew
  | ok room =>
    rw [hallocate] at hnew
    change (if room < (volume size).toNat then _ else _) = _ at hnew
    split at hnew
    · cases hnew
    · cases data with
      | none =>
        cases hnew
        exact ⟨rfl, List.length_replicate⟩
      | some data =>
        simp only at hnew
        split at hnew
        · cases hnew
        · cases hnew
          exact ⟨rfl, List.length_take_of_le (by omega)⟩

/-- `operator()` of a constructed array stays in its memory. -/
theorem element_of_new {T : Type} {type : ElementType} {size : Vector3} (h : Sized size)
    {default_value : T} {data : Option (List T)} {array : Array3d T}
    (hnew : new type size default_value data = .ok array) {i j k : Int}
    (hindex : Fits { x := i, y := j, z := k })
    (hreach : ¬ OutOfReach { x := i, y := j, z := k } size) :
    ∃ n, array.element i j k = .ok n ∧ n < array.data_.length := by
  obtain ⟨hsize, hlength⟩ := length_of_new h hnew
  obtain ⟨hoffset, hlo, hhi⟩ := offset_eq h (wrapped_inBox h hreach)
  rw [element, hsize, fixIndex_eq h hindex, if_neg hreach]
  change ∃ n, (offset size _ >>= _) = _ ∧ _
  rw [hoffset]
  exact ⟨_, if_pos ⟨hlo, by omega⟩, by omega⟩

/-- `double`. -/
def double : ElementType := { isArithmetic := true, sizeof := 8, sizeof_pos := by decide }

theorem wrapsOnto_cube :
    WrapsOnto double { x := 2, y := 2, z := 2 } ↔
      (double.isArithmetic → (volume { x := 2, y := 2, z := 2 }).toNat * double.sizeof < 2 ^ 64) :=
  wrapsOnto_iff double ⟨by decide, by decide, by decide, by decide⟩

/-- `2^61` doubles are `2^64` bytes, for which `allocate_buffer` asks for none. -/
theorem long_row_not_allocated :
    ¬ ∀ (type : ElementType) (size : Vector3), Sized size → WrapsOnto type size := by
  intro hall
  have hsized : Sized { x := 2 ^ 61, y := 1, z := 1 } :=
    ⟨by decide, by decide, by decide, by decide⟩
  have hroom := (hall double _ hsized).allocates 0 rfl
  revert hroom
  decide

end Array3d

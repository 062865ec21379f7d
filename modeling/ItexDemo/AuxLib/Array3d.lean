import Mathlib.Data.Int.ModEq

/-!
# `aux::Array3d`

Components and offsets are `int64_t`: an operation whose result does not fit is a fault, as is an
access outside the allocated memory. The memory is never exhausted. `Array3d` frees with `free` what
`allocate_buffer` gave; copies and moves are left out.
-/

/-- `aux::Vector3`. -/
@[ext] structure Array3d.Vector3 where
  x : Int
  y : Int
  z : Int
  deriving DecidableEq, Repr

/-- Why an operation of an array has no result. -/
inductive Array3dFault where
  /-- Signed overflow. -/
  | overflow
  /-- An access outside the allocated memory. -/
  | outside
  /-- `std::bad_array_new_length`, thrown by `new T[n]`. -/
  | badArrayNewLength
  /-- `std::runtime_error`. -/
  | runtimeError (what : String)
  deriving DecidableEq, Repr

/-- The element type: `std::is_arithmetic<T>::value` and `sizeof(T)`. -/
structure ElementType where
  isArithmetic : Bool
  sizeof : Nat
  sizeof_pos : 0 < sizeof

namespace Array3d

/-- The result of an `int64_t` operation. -/
def int64 (n : Int) : Except Array3dFault Int :=
  if -2 ^ 63 ≤ n ∧ n < 2 ^ 63 then .ok n else .error .overflow

/-- `idx_i`, `idx_j` and `idx_k` of `fix_index`, from one component of `index` and of `size`. -/
def fixComponent (index size : Int) : Except Array3dFault Int := do
  let idx ← if index ≥ 0 then pure index else int64 (size + index)
  if idx ≥ size then int64 (idx - size) else pure idx

/-- `fix_index`. The line that it prints takes `1` from every component of `size`. -/
def fixIndex (index size : Vector3) : Except Array3dFault Vector3 := do
  let idxI ← fixComponent index.x size.x
  let idxJ ← fixComponent index.y size.y
  let idxK ← fixComponent index.z size.z
  if idxI < 0 ∨ idxI ≥ size.x ∨ idxJ < 0 ∨ idxJ ≥ size.y ∨ idxK < 0 ∨ idxK ≥ size.z then
    let _ ← int64 (size.x - 1)
    let _ ← int64 (size.y - 1)
    let _ ← int64 (size.z - 1)
    throw (.runtimeError "Array3d - invalid index")
  else
    return { x := idxI, y := idxJ, z := idxK }

/-- `fixed_idx.x + size_.x * (fixed_idx.y + size_.y * fixed_idx.z)` in `operator()`. -/
def offset (size fixedIdx : Vector3) : Except Array3dFault Int := do
  let planes ← int64 (size.y * fixedIdx.z)
  let rows ← int64 (fixedIdx.y + planes)
  let cells ← int64 (size.x * rows)
  int64 (fixedIdx.x + cells)

/-- `size_t array_size = size_.x * size_.y * size_.z`. -/
def arraySize (size : Vector3) : Except Array3dFault Nat := do
  let plane ← int64 (size.x * size.y)
  let product ← int64 (plane * size.z)
  return (product % 2 ^ 64).toNat

/-- `aux::allocate_buffer<T>(size)`: the number of elements that the memory holds which
`posix_memalign` returns for `size * sizeof(T)` bytes. -/
def allocateBuffer (type : ElementType) (size : Nat) : Nat :=
  size * type.sizeof % 2 ^ 64 / type.sizeof

/-- The allocation in the constructors: the number of elements that `data_` has room for. -/
def allocate (type : ElementType) (arraySize : Nat) : Except Array3dFault Nat :=
  if type.isArithmetic then .ok (allocateBuffer type arraySize)
  else if arraySize * type.sizeof < 2 ^ 64 then .ok arraySize
  else .error .badArrayNewLength

end Array3d

/-- `aux::Array3d<T>`; no `data_` is the empty list. -/
structure Array3d (T : Type) where
  size_ : Array3d.Vector3
  data_ : List T

namespace Array3d

variable {T : Type}

/-- `Array3d(size, default_value, data)`. -/
def new (type : ElementType) (size : Vector3) (default_value : T) (data : Option (List T)) :
    Except Array3dFault (Array3d T) := do
  let array_size ← arraySize size
  let room ← allocate type array_size
  if room < array_size then throw .outside
  else
    match data with
    | some data =>
      if data.length < array_size then throw .outside
      else return { size_ := size, data_ := data.take array_size }
    | none => return { size_ := size, data_ := List.replicate array_size default_value }

/-- `operator()(i, j, k)`: the element that the reference denotes. -/
def element (array : Array3d T) (i j k : Int) : Except Array3dFault Nat := do
  let fixed_idx ← fixIndex { x := i, y := j, z := k } array.size_
  let n ← offset array.size_ fixed_idx
  if 0 ≤ n ∧ n.toNat < array.data_.length then return n.toNat else throw .outside

end Array3d

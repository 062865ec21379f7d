import Mathlib.Algebra.Ring.Basic
import ItexDemo.Lib.Loop
import ItexDemo.Lib.MachineInt

/-!
# `aux::matrix` and `aux::slice_iter`

A matrix keeps its elements in one `std::valarray`; `size_t` arithmetic wraps at `2^64`. An element
is named by its index in the storage, and an access outside the storage has no result.

The default constructor, `operator*=`, `max_abs`, `sum` and `mean` are left out.
-/

/-- `std::slice`. -/
structure Slice where
  start : Nat
  size : Nat
  stride : Nat

/-- `aux::slice_iter<T>` on a storage. The current element `curr` is left out. -/
structure SliceIter where
  s : Slice

/-- `ref(i)`, which `operator[]` and `operator()` return: the index of the element. The size of the
slice is not looked at. -/
def SliceIter.ref (it : SliceIter) (i : Nat) : Nat := sizeT (it.s.start + i * it.s.stride)

/-- `aux::matrix<T>`. -/
structure AuxMatrix (T : Type*) where
  v : List T
  dRow : Nat
  dCol : Nat
  dRow_lt : dRow < 2 ^ 64
  dCol_lt : dCol < 2 ^ 64
  /-- `new std::valarray<T>(dRow*dCol)`. -/
  size_eq : v.length = sizeT (dRow * dCol)

namespace AuxMatrix

variable {T : Type*}

/-- `MultMethod`. -/
inductive MultMethod where
  | multRegular
  | multFast
  deriving DecidableEq, Repr

/-- `matrix(size_t row, size_t col)`; `resize(row, col)` leaves the same matrix. -/
def new [Zero T] (row col : Nat) : AuxMatrix T where
  v := List.replicate (sizeT (sizeT row * sizeT col)) 0
  dRow := sizeT row
  dCol := sizeT col
  dRow_lt := Nat.mod_lt _ (by decide)
  dCol_lt := Nat.mod_lt _ (by decide)
  size_eq := List.length_replicate

/-- `resize(row, col)`: a new storage, nothing of the old one is kept. -/
def resize [Zero T] (_ : AuxMatrix T) (row col : Nat) : AuxMatrix T := new row col

/-- `numRows()`. -/
def numRows (m : AuxMatrix T) : Nat := m.dRow

/-- `numCols()`. -/
def numCols (m : AuxMatrix T) : Nat := m.dCol

/-- `get_row(i)`: `std::slice(i, dRow, dCol)`. -/
def getRow (m : AuxMatrix T) (i : Nat) : SliceIter :=
  { s := { start := i, size := m.dRow, stride := m.dCol } }

/-- `get_column(i)`: `std::slice(i*dCol, dCol, 1)`. -/
def getColumn (m : AuxMatrix T) (i : Nat) : SliceIter :=
  { s := { start := sizeT (i * m.dCol), size := m.dCol, stride := 1 } }

/-- The element that `operator()(row, col)` denotes: `v->operator[](row*dCol + col)`. -/
def index (m : AuxMatrix T) (row col : Nat) : Nat := sizeT (row * m.dCol + col)

/-- `operator()(i)`. -/
def call (m : AuxMatrix T) (i : Nat) : SliceIter := m.getRow i

/-- `operator[](i)`. -/
def subscript (m : AuxMatrix T) (i : Nat) : SliceIter := m.getRow i

/-- The value of `m(row, col)`. -/
def read (m : AuxMatrix T) (row col : Nat) : Option T := m.v[m.index row col]?

/-- `m(row, col) = value`. -/
def assign (m : AuxMatrix T) (row col : Nat) (value : T) : Option (AuxMatrix T) :=
  match h : Loop.store m.v (m.index row col) value with
  | none => none
  | some v => some { m with v := v, size_eq := by rw [Loop.length_of_store h, m.size_eq] }

/-- `m(row, col) += value`. -/
def addAssign [Add T] (m : AuxMatrix T) (row col : Nat) (value : T) : Option (AuxMatrix T) := do
  let old ← m.read row col
  m.assign row col (old + value)

section Mult

open Loop

variable [CommRing T]

/-- The element `(i, j)` in `case MULT_REGULAR`. -/
def regularElement (mG mH : AuxMatrix T) (i j : Nat) (mR : AuxMatrix T) :
    Option (AuxMatrix T) := do
  let mR ← mR.assign i j 0
  forRange 0 mG.numCols (fun k mR => do
    mR.addAssign i j ((← mG.read i k) * (← mH.read k j))) mR

/-- `case MULT_REGULAR`, which has no `break`. -/
def multRegular (mG mH mR : AuxMatrix T) : Option (AuxMatrix T) :=
  nested mG.numRows mH.numCols (regularElement mG mH) mR

/-- The element `i` of `rowFactor` and of `columnFactor`: the first product is always formed. -/
def factorElement (d : Nat) (entry : Nat → Nat → Option T) (i : Nat) (factor : List T) :
    Option (List T) := do
  let factor ← store factor i ((← entry i 0) * (← entry i 1))
  forRange 1 d (fun j factor => do
    let old ← factor[i]?
    store factor i (old + (← entry i (2 * j)) * (← entry i (2 * j + 1)))) factor

/-- The loops that compute `rowFactor` and `columnFactor`. -/
def factors (n d : Nat) (entry : Nat → Nat → Option T) : Option (List T) :=
  forRange 0 n (factorElement d entry) (List.replicate n 0)

/-- `rowFactor`. -/
def rowFactor (mG : AuxMatrix T) : Option (List T) :=
  factors mG.numRows (mG.numCols / 2) fun i k => mG.read i k

/-- `columnFactor`. -/
def columnFactor (mG mH : AuxMatrix T) : Option (List T) :=
  factors mH.numCols (mG.numCols / 2) fun i k => mH.read k i

/-- The element `(i, j)` under "Calculating matrix R". -/
def fastElement (mG mH : AuxMatrix T) (rowFactor columnFactor : List T) (i j : Nat)
    (mR : AuxMatrix T) : Option (AuxMatrix T) := do
  let mR ← mR.assign i j (-(← rowFactor[i]?) - (← columnFactor[j]?))
  forRange 0 (mG.numCols / 2) (fun k mR => do
    mR.addAssign i j (((← mG.read i (2 * k)) + (← mH.read (2 * k + 1) j)) *
      ((← mG.read i (2 * k + 1)) + (← mH.read (2 * k) j)))) mR

/-- The element `(i, j)` under "Additional in case of odd common dimension". -/
def oddElement (mG mH : AuxMatrix T) (i j : Nat) (mR : AuxMatrix T) : Option (AuxMatrix T) := do
  mR.addAssign i j ((← mG.read i (mG.numCols - 1)) * (← mH.read (mG.numCols - 1) j))

/-- `case MULT_FAST`: Winograd's method. -/
def multFast (mG mH mR : AuxMatrix T) : Option (AuxMatrix T) := do
  let a := mG.numRows
  let b := mG.numCols
  let c := mH.numCols
  let rowFactor ← mG.rowFactor
  let columnFactor ← columnFactor mG mH
  let mR ← nested a c (fastElement mG mH rowFactor columnFactor) mR
  if 2 * (b / 2) ≠ b then nested a c (oddElement mG mH) mR else some mR

/-- `mult(mG, mH, mulMethod)` on a destination that is neither of the operands. -/
def mult (mR mG mH : AuxMatrix T) (mulMethod : MultMethod) : Option (AuxMatrix T) :=
  let a := mG.numRows
  let b := mG.numCols
  let c := mH.numCols
  if b ≠ mH.numRows then some mR
  else
    let mR := if mR.numRows ≠ a ∨ mR.numCols ≠ c then mR.resize a c else mR
    match mulMethod with
    | .multRegular => multRegular mG mH mR >>= multFast mG mH
    | .multFast => multFast mG mH mR

end Mult

end AuxMatrix

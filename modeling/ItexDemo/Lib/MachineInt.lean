import Mathlib.Algebra.Group.Nat.Defs
import Mathlib.Data.Int.Init

/-!
# Machine integers

Values of the C++ integer types are numbers; a conversion reduces them. An operation of an unsigned
type is the operation on numbers followed by the conversion.
-/

/-- `size_t`, and arithmetic in it. -/
def sizeT (n : Nat) : Nat := n % 2 ^ 64

/-- `unsigned int`, and arithmetic in it. -/
def uint (n : Nat) : Nat := n % 2 ^ 32

/-- `int` from a value of a wider unsigned type. -/
def cInt (n : Nat) : Int := Int.bmod n (2 ^ 32)

theorem sizeT_of_lt {n : Nat} (h : n < 2 ^ 64) : sizeT n = n := Nat.mod_eq_of_lt h

theorem sizeT_lt (n : Nat) : sizeT n < 2 ^ 64 := Nat.mod_lt _ (by decide)

theorem sizeT_add_left (n k : Nat) : sizeT (sizeT n + k) = sizeT (n + k) := Nat.mod_add_mod ..

theorem uint_of_lt {n : Nat} (h : n < 2 ^ 32) : uint n = n := Nat.mod_eq_of_lt h

theorem uint_lt (n : Nat) : uint n < 2 ^ 32 := Nat.mod_lt _ (by decide)

theorem cInt_of_lt {n : Nat} (h : n < 2 ^ 31) : cInt n = n := by
  have hmod : (n : Int) % (2 ^ 32 : Nat) = n := by
    apply Int.emod_eq_of_lt <;> omega
  unfold cInt Int.bmod
  rw [hmod]
  dsimp only
  rw [if_pos (by omega)]

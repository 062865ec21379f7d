import Mathlib.Data.Int.Bitwise

/-!
# `aux::Xorshift64star` and `aux::Xorshift1024star`

A word is a `uint64_t`. The index `p` of `Xorshift1024star` is an `int`; an access outside `s` has no
result. A constructor is given the value of the clock and the address of the object.
-/

/-- `aux::Xorshift64star`. -/
@[ext] structure Xorshift64star where
  x : BitVec 64
  deriving DecidableEq, Repr

namespace Xorshift64star

/-- `Xorshift64star()`. -/
def new (count this : BitVec 64) : Xorshift64star := { x := count + this }

/-- `seed(seed)`. -/
def seed (rng : Xorshift64star) (seed : BitVec 64) : Xorshift64star := { rng with x := seed }

/-- `generate()`. -/
def generate (rng : Xorshift64star) : Xorshift64star × BitVec 64 :=
  let x := rng.x ^^^ (rng.x >>> 12)
  let x := x ^^^ (x <<< 25)
  let x := x ^^^ (x >>> 27)
  ({ rng with x := x }, x * 2685821657736338717)

end Xorshift64star

/-- `aux::Xorshift1024star`. -/
@[ext] structure Xorshift1024star where
  s : Vector (BitVec 64) 16
  p : Int
  deriving DecidableEq, Repr

namespace Xorshift1024star

/-- The loop `s[i] = seed_rng.generate()`: what the calls from the `i`-th on store. -/
def generated : (count : Nat) → Xorshift64star → Vector (BitVec 64) count
  | 0, _ => #v[]
  | count + 1, seed_rng =>
    (generated count seed_rng.generate.1).insertIdx 0 seed_rng.generate.2

/-- `Xorshift1024star()`. Its `seed_rng` reads the clock on its own and stands at another address. -/
def new (count seed_rng : BitVec 64) : Xorshift1024star :=
  { s := generated 16 (Xorshift64star.new count seed_rng), p := 0 }

/-- `seed(seed)`: all words are copied. -/
def seed (rng : Xorshift1024star) (seed : Vector (BitVec 64) 16) : Xorshift1024star :=
  { rng with s := seed }

/-- The place of `s[i]`. -/
def place (i : Int) : Option (Fin 16) :=
  if h : 0 ≤ i ∧ i < 16 then some ⟨i.toNat, by omega⟩ else none

/-- `generate()`. -/
def generate (rng : Xorshift1024star) : Option (Xorshift1024star × BitVec 64) := do
  let i ← place rng.p
  let s0 := rng.s.get i
  let p := Int.land (rng.p + 1) 15
  let j ← place p
  let s1 := rng.s.get j
  let s1 := s1 ^^^ (s1 <<< 31)
  let s1 := s1 ^^^ (s1 >>> 11)
  let s0 := s0 ^^^ (s0 >>> 30)
  return ({ s := rng.s.set j (s0 ^^^ s1), p := p }, (s0 ^^^ s1) * 1181783497276652981)

end Xorshift1024star

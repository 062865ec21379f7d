import Mathlib.Algebra.Group.Nat.Defs
import Mathlib.Algebra.Group.Int.Defs
import ItexDemo.Lib.Loop

/-!
# `aux::RandomNumberGenerator`

The uniform generators: the Mersenne twister and `ran2`. An `unsigned long` is a word of 64 bits, a
`long` is a number, and `REAL` is `double`. A signed operation that does not fit, and an access
outside `_ran2_iv` or `_mt_state`, have no result. The members of the Ziggurat generator are left
out.
-/

/-- `aux::RandomNumberGenerator`. `_mt_next` points at `_mt_state[mt_next]`. -/
structure RandomNumberGenerator where
  mt_state : Vector (BitVec 64) 624
  mt_left : Int
  mt_initf : Int
  mt_next : Nat
  ran2_idum2 : Int
  ran2_iy : Int
  ran2_iv : Vector Int 32
  ran2_idum : Int

namespace RandomNumberGenerator

/-- `RandomNumberGenerator()`: the other members keep what the memory holds. -/
def new (memory : RandomNumberGenerator) : RandomNumberGenerator :=
  { memory with mt_left := 1, mt_initf := 0, ran2_idum2 := 123456789, ran2_iy := 0, ran2_idum := 0 }

/-! ## Mersenne twister -/

/-- `MATRIX_A`. -/
def MATRIX_A : BitVec 64 := 0x9908b0df

/-- `UMASK`. -/
def UMASK : BitVec 64 := 0x80000000

/-- `LMASK`. -/
def LMASK : BitVec 64 := 0x7fffffff

/-- `MIXBITS(u, v)`. -/
def MIXBITS (u v : BitVec 64) : BitVec 64 := (u &&& UMASK) ||| (v &&& LMASK)

/-- `TWIST(u, v)`. -/
def TWIST (u v : BitVec 64) : BitVec 64 :=
  (MIXBITS u v >>> 1) ^^^ (if v &&& 1 ≠ 0 then MATRIX_A else 0)

/-- `_mt_state[j]`, from the word before it. -/
def initWord (before : BitVec 64) (j : Nat) : BitVec 64 :=
  (1812433253 * (before ^^^ (before >>> 30)) + BitVec.ofNat 64 j) &&& 0xffffffff

/-- `uni_rand_init(seed)`. -/
def uni_rand_init (rng : RandomNumberGenerator) (seed : BitVec 64) : RandomNumberGenerator :=
  let mt_state := Nat.fold 623 (fun i _ mt_state => mt_state.set (i + 1) (initWord mt_state[i] (i + 1)))
    (rng.mt_state.set 0 (seed &&& 0xffffffff))
  { rng with mt_state := mt_state, mt_left := 1, mt_initf := 1 }

/-- `_mt_state[i] ^ ((_mt_state[i-1] ^ (_mt_state[i-1] >> 30)) * multiplier)`. -/
def mixed (multiplier : BitVec 64) (mt_state : Vector (BitVec 64) 624) (i : Nat) :
    Option (BitVec 64) := do
  let before ← if i = 0 then none else mt_state[i - 1]?
  let word ← mt_state[i]?
  return word ^^^ ((before ^^^ (before >>> 30)) * multiplier)

/-- The store of the masked word in the loops of `uni_rand_init_by_array`, then `i++` and
`if (i>=N) { _mt_state[0] = _mt_state[N-1]; i=1; }`. -/
def putMixed (mt_state : Vector (BitVec 64) 624) (i : Nat) (word : BitVec 64) :
    Vector (BitVec 64) 624 × Nat :=
  let mt_state := mt_state.setIfInBounds i (word &&& 0xffffffff)
  if 624 ≤ i + 1 then (mt_state.set 0 mt_state[623], 1) else (mt_state, i + 1)

/-- A round of the first loop in `uni_rand_init_by_array`. -/
def mixKey (init_key : List (BitVec 64)) (key_length : Int) :
    Vector (BitVec 64) 624 × Nat × Nat → Option (Vector (BitVec 64) 624 × Nat × Nat)
  | (mt_state, i, j) => do
    let word ← mixed 1664525 mt_state i
    let key ← init_key[j]?
    let (mt_state, i) := putMixed mt_state i (word + key + BitVec.ofNat 64 j)
    return (mt_state, i, if key_length ≤ (j : Int) + 1 then 0 else j + 1)

/-- A round of the second loop. -/
def mixIndex : Vector (BitVec 64) 624 × Nat → Option (Vector (BitVec 64) 624 × Nat)
  | (mt_state, i) => do
    let word ← mixed 1566083941 mt_state i
    return putMixed mt_state i (word - BitVec.ofNat 64 i)

/-- `uni_rand_init_by_array(init_key, key_length)`. -/
def uni_rand_init_by_array (rng : RandomNumberGenerator) (init_key : List (BitVec 64))
    (key_length : Int) : Option RandomNumberGenerator := do
  let rng := rng.uni_rand_init 19650218
  let (mt_state, i, _) ← Loop.forRange 0 (max 624 key_length).toNat
    (fun _ => mixKey init_key key_length) (rng.mt_state, 1, 0)
  let (mt_state, _) ← Loop.forRange 0 623 (fun _ => mixIndex) (mt_state, i)
  return { rng with mt_state := mt_state.set 0 0x80000000, mt_left := 1, mt_initf := 1 }

/-- The loops and the last assignment of `mt_next_state`, with `p - _mt_state` for `p`. -/
def twisted (mt_state : Vector (BitVec 64) 624) : Vector (BitVec 64) 624 :=
  let mt_state := Nat.fold 227 (fun p _ mt_state =>
    mt_state.set p (mt_state[p + 397] ^^^ TWIST mt_state[p] mt_state[p + 1])) mt_state
  let mt_state := Nat.fold 396 (fun i _ mt_state =>
    mt_state.set (i + 227) (mt_state[i] ^^^ TWIST mt_state[i + 227] mt_state[i + 228])) mt_state
  mt_state.set 623 (mt_state[396] ^^^ TWIST mt_state[623] mt_state[0])

/-- `mt_next_state()`. -/
def mt_next_state (rng : RandomNumberGenerator) : RandomNumberGenerator :=
  let rng := if rng.mt_initf = 0 then rng.uni_rand_init 5489 else rng
  { rng with mt_state := twisted rng.mt_state, mt_left := 624, mt_next := 0 }

/-- What every draw begins with: `if (--_mt_left == 0) this->mt_next_state()` and
`y = *_mt_next++`. -/
def nextWord (rng : RandomNumberGenerator) : Option (RandomNumberGenerator × BitVec 64) :=
  let rng := { rng with mt_left := rng.mt_left - 1 }
  let rng := if rng.mt_left = 0 then rng.mt_next_state else rng
  rng.mt_state[rng.mt_next]?.map fun y => ({ rng with mt_next := rng.mt_next + 1 }, y)

/-- The lines under `Tempering`. -/
def temper (y : BitVec 64) : BitVec 64 :=
  let y := y ^^^ (y >>> 11)
  let y := y ^^^ ((y <<< 7) &&& 0x9d2c5680)
  let y := y ^^^ ((y <<< 15) &&& 0xefc60000)
  y ^^^ (y >>> 18)

/-- A draw that turns the tempered word into its result. -/
def drawWith {α : Type} (result : BitVec 64 → α) (rng : RandomNumberGenerator) :
    Option (RandomNumberGenerator × α) :=
  rng.nextWord.map fun (rng, y) => (rng, result (temper y))

/-- `uni_rand_int32()`. -/
def uni_rand_int32 : RandomNumberGenerator → Option (RandomNumberGenerator × BitVec 64) :=
  drawWith id

/-- `uni_rand_int31()`. -/
def uni_rand_int31 : RandomNumberGenerator → Option (RandomNumberGenerator × Int) :=
  drawWith fun y => (y >>> 1).toInt

/-- `(REAL)y`. -/
def real (y : BitVec 64) : Float := Float.ofNat y.toNat

/-- `uni_rand_real1()`. -/
def uni_rand_real1 : RandomNumberGenerator → Option (RandomNumberGenerator × Float) :=
  drawWith fun y => real y * 0.00000000023283064370807973754315

/-- `uni_rand_real2()`. -/
def uni_rand_real2 : RandomNumberGenerator → Option (RandomNumberGenerator × Float) :=
  drawWith fun y => real y * 0.00000000023283064365386962890625

/-- `uni_rand_real3()`. -/
def uni_rand_real3 : RandomNumberGenerator → Option (RandomNumberGenerator × Float) :=
  drawWith fun y => (real y + 0.5) * 0.00000000023283064365386962890625

/-- `uni_rand_real_res53()`. -/
def uni_rand_real_res53 (rng : RandomNumberGenerator) : Option (RandomNumberGenerator × Float) := do
  let (rng, a) ← rng.uni_rand_int32
  let (rng, b) ← rng.uni_rand_int32
  return (rng, (real (a >>> 5) * 67108864.0 + real (b >>> 6)) *
    1.1102230246251566636831481088739e-16)

/-! ## `ran2` -/

/-- `IM1`. -/
def IM1 : Int := 2147483563

/-- `IM2`. -/
def IM2 : Int := 2147483399

/-- `AM`. -/
def AM : Float := 1.0 / Float.ofInt IM1

/-- `IMM1`. -/
def IMM1 : Int := IM1 - 1

/-- `IA1`. -/
def IA1 : Int := 40014

/-- `IA2`. -/
def IA2 : Int := 40692

/-- `IQ1`. -/
def IQ1 : Int := 53668

/-- `IQ2`. -/
def IQ2 : Int := 52774

/-- `IR1`. -/
def IR1 : Int := 12211

/-- `IR2`. -/
def IR2 : Int := 3791

/-- `NTAB`. -/
def NTAB : Int := 32

/-- `NDIV`. -/
def NDIV : Int := 1 + IMM1.tdiv NTAB

/-- `EPS`. -/
def EPS : Float := 1.2e-7

/-- `RNMX`. -/
def RNMX : Float := 1.0 - EPS

/-- The result of an operation on `long`. -/
def long (n : Int) : Option Int := if -2 ^ 63 ≤ n ∧ n < 2 ^ 63 then some n else none

/-- `k = x / IQ; x = IA * (x - k * IQ) - k * IR; if (x < 0) x += IM`. -/
def advance (IA IQ IR IM x : Int) : Option Int := do
  let k := x.tdiv IQ
  let period ← long (k * IQ)
  let rest ← long (x - period)
  let product ← long (IA * rest)
  let excess ← long (k * IR)
  let x ← long (product - excess)
  if x < 0 then long (x + IM) else return x

/-- The lines about `_ran2_idum` in `ran2_rand_init` and `ran2_rand_real`. -/
def advanceIdum (idum : Int) : Option Int := advance IA1 IQ1 IR1 IM1 idum

/-- The lines about `_ran2_idum2` in `ran2_rand_real`. -/
def advanceIdum2 (idum2 : Int) : Option Int := advance IA2 IQ2 IR2 IM2 idum2

/-- One round of the loop in `ran2_rand_init`; `j` goes down from `NTAB + 7`. -/
def warm (round : Nat) (rng : RandomNumberGenerator) : Option RandomNumberGenerator := do
  let j := NTAB.toNat + 7 - round
  let idum ← advanceIdum rng.ran2_idum
  let rng := { rng with ran2_idum := idum }
  return if h : j < 32 then { rng with ran2_iv := rng.ran2_iv.set j idum } else rng

/-- `_ran2_idum` before the loop in `ran2_rand_init`. -/
def startIdum (seed : BitVec 64) : Option Int :=
  let idum := seed.toInt
  let idum := if idum = 0 then 1 else idum
  if idum < 0 then long (-idum) else some idum

/-- `ran2_rand_init(seed)`. -/
def ran2_rand_init (rng : RandomNumberGenerator) (seed : BitVec 64) :
    Option RandomNumberGenerator := do
  let idum ← startIdum seed
  let rng := { rng with ran2_idum := idum, ran2_idum2 := idum }
  let rng ← Loop.forRange 0 40 warm rng
  return { rng with ran2_iy := rng.ran2_iv[0] }

/-- `_ran2_iv[j]`, when `j` is an index of it. -/
def iv_index (j : Int) : Option (Fin 32) :=
  if h : 0 ≤ j ∧ j < 32 then some ⟨j.toNat, by omega⟩ else none

/-- The conversion of a `long` to `int`. -/
def toInt32 (n : Int) : Int := n.bmod (2 ^ 32)

/-- The new `_ran2_iy`, from the entry of `_ran2_iv`. -/
def nextIy (entry idum2 : Int) : Option Int := do
  let iy ← long (entry - idum2)
  if iy < 1 then long (iy + IMM1) else return iy

/-- `ran2_rand_real()`. -/
def ran2_rand_real (rng : RandomNumberGenerator) : Option (RandomNumberGenerator × Float) := do
  let idum ← advanceIdum rng.ran2_idum
  let idum2 ← advanceIdum2 rng.ran2_idum2
  let j ← iv_index (toInt32 (rng.ran2_iy.tdiv NDIV))
  let iy ← nextIy (rng.ran2_iv.get j) idum2
  let rng := { rng with
    ran2_idum := idum, ran2_idum2 := idum2, ran2_iv := rng.ran2_iv.set j idum, ran2_iy := iy }
  let temp := AM * Float.ofInt iy
  return (rng, if temp > RNMX then RNMX else temp)

end RandomNumberGenerator

import ItexDemo.AuxLib.Proofs.SeedingProofs
import ItexDemo.Lib.Recurrence

/-!
# The stream of the Mersenne twister

What the uniform draws of `aux::RandomNumberGenerator` are for: they read one infinite sequence of
words, each draw as many as it needs. The sequence is given by the first 624 words and a recurrence;
`_mt_state`, `_mt_left` and `_mt_next` do not occur in it.
-/

namespace RandomNumberGenerator

open Transition Recurrence

/-- Word `k + 624`, from the words `k + 397`, `k` and `k + 1`. -/
def twist (far u v : BitVec 64) : BitVec 64 := far ^^^ TWIST u v

/-- The sequence of words behind the first 624 words. -/
def mersenne (start : Nat → BitVec 64) : Nat → BitVec 64 :=
  sequence twist 624 397 (by decide) (by decide) start

/-- The first words after `uni_rand_init(seed)`. -/
def seedWords (seed : BitVec 64) : Nat → BitVec 64
  | 0 => seed &&& 0xffffffff
  | j + 1 => initWord (seedWords seed j) (j + 1)

/-- A call of a seeding function. -/
inductive UniSeeding where
  | init (seed : BitVec 64)
  | init_by_array (init_key : List (BitVec 64)) (key_length : Int)

/-- The call on an object. -/
def seedWith (rng : RandomNumberGenerator) : UniSeeding → Option RandomNumberGenerator
  | .init seed => some (rng.uni_rand_init seed)
  | .init_by_array init_key key_length => rng.uni_rand_init_by_array init_key key_length

/-- A call on an object. -/
inductive UniCall where
  | seed (seeding : UniSeeding)
  | draw (a : UniDraw)

/-- The lives of an object, from its construction on. -/
def uniHistory : System RandomNumberGenerator UniCall where
  Init rng := ∃ memory, rng = new memory
  Tr
    | rng, .seed seeding, rng' => rng.seedWith seeding = some rng'
    | rng, .draw a, rng' => (rng.uniDraw a).map Prod.fst = some rng'

/-- A draw from a stream of tempered words, at position `k`. -/
def streamDraw (words : Nat → BitVec 64) (k : Nat) : UniDraw → Option (Nat × Drawn)
  | .int32 => some (k + 1, .unsigned (words k))
  | .int31 => some (k + 1, .signed (words k >>> 1).toInt)
  | .real1 => some (k + 1, .real (real (words k) * 0.00000000023283064370807973754315))
  | .real2 => some (k + 1, .real (real (words k) * 0.00000000023283064365386962890625))
  | .real3 => some (k + 1, .real ((real (words k) + 0.5) * 0.00000000023283064365386962890625))
  | .res53 => some (k + 2, .real ((real (words k >>> 5) * 67108864.0 + real (words (k + 1) >>> 6)) *
      1.1102230246251566636831481088739e-16))

/-- The results of draws from the stream with the first words `start`. -/
def streamed (start : Nat → BitVec 64) (draws : List UniDraw) : Option (List Drawn) :=
  outputs (streamDraw fun k => temper (mersenne start k)) 624 draws

end RandomNumberGenerator

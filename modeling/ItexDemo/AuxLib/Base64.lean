import Mathlib.Data.List.DropRight

/-!
# `aux::base64`

A `std::string` is a list of bytes. The iterator chains of `boost::archive::iterators` are third-party
code: they are given by what a string that is built from them holds.
-/

namespace Base64

/-- The iterator chains over a string. -/
structure Iterators where
  /-- `base64_from_binary<transform_width<std::string::const_iterator, 6, 8>>`. -/
  base64_from_binary : List UInt8 → List UInt8
  /-- `transform_width<binary_from_base64<std::string::const_iterator>, 8, 6>`. -/
  binary_from_base64 : List UInt8 → List UInt8

/-- `'='`. -/
def pad : UInt8 := 61

/-- `encode(val)`. -/
def encode (it : Iterators) (val : List UInt8) : List UInt8 :=
  it.base64_from_binary val ++ List.replicate ((3 - val.length % 3) % 3) pad

/-- `decode(val)`. -/
def decode (it : Iterators) (val : List UInt8) : List UInt8 :=
  (it.binary_from_base64 val).rdropWhile (· = 0)

end Base64

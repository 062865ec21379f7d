import ItexDemo.Lib.MachineInt

/-!
# `sqldb::Parameter`, `ParametersList` and `PostgresqlParametersList`

`C` is the type of the characters of `std::string`. `received` is what libpq passes on to the server
for one entry of the arrays: the given number of characters in binary format, the C string in text
format.
-/

namespace Sqldb

/-- `sqldb::Parameter`. -/
structure Parameter (C : Type) where
  is_null_ : Bool
  is_binary_ : Bool
  data_ : List C
  deriving DecidableEq, Repr

namespace Parameter

variable {C : Type}

/-- `Parameter()`, which `Parameter(const null_t&)` delegates to. -/
def null : Parameter C := { is_null_ := true, is_binary_ := false, data_ := [] }

/-- `Parameter(const T& value)` with the text of `to_string(value)`. -/
def ofText (text : List C) : Parameter C := { is_null_ := false, is_binary_ := false, data_ := text }

/-- `Parameter(const bytea& value)`. -/
def ofBytea (value : List C) : Parameter C :=
  { is_null_ := false, is_binary_ := true, data_ := value }

/-- `is_null()`. -/
def isNull (p : Parameter C) : Bool := p.is_null_

/-- `is_binary()`. -/
def isBinary (p : Parameter C) : Bool := p.is_binary_

/-- `data()`. -/
def data (p : Parameter C) : List C := p.data_

/-- `c_str()`. -/
def cStr (p : Parameter C) : Option (List C) := if p.is_null_ then none else some p.data_

end Parameter

/-- `sqldb::ParametersList`. -/
abbrev ParametersList (C : Type) : Type := List (Parameter C)

/-- `operator<<`. -/
def ParametersList.push {C : Type} (parameters_ : ParametersList C) (value : Parameter C) :
    ParametersList C :=
  parameters_ ++ [value]

/-- One entry of the arrays of `PostgresqlParametersList`. -/
structure BoundParameter (C : Type) where
  value : Option (List C)
  length : Int
  format : Int
  deriving DecidableEq, Repr

namespace BoundParameter

variable {C : Type}

/-- The loop body of the constructor. -/
def new (param : Parameter C) : BoundParameter C where
  value := if param.isNull then none
    else if param.isBinary then some param.data else param.cStr
  length := if param.isBinary then cInt (sizeT param.data.length) else 0
  format := if param.isBinary then 1 else 0

/-- What the server receives for the entry; `none` is SQL `NULL`. -/
def received [Zero C] [DecidableEq C] (param : BoundParameter C) : Option (List C) :=
  param.value.map fun value =>
    if param.format = 1 then value.take param.length.toNat else value.takeWhile (· ≠ 0)

end BoundParameter

end Sqldb

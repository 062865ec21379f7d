import ItexDemo.Lib.Loop
import ItexDemo.Lib.Prog
import ItexDemo.Lib.TransitionSystem
import ItexDemo.Sqldb.Connection
import ItexDemo.Sqldb.Parameter

/-!
# `sqldb::QueryResult`

A result of libpq is given by what its functions answer: `PQntuples`, `PQnfields`, `PQfnumber` and
`PQgetvalue`, which answers with a null pointer outside of the result. `from_string<T>` is a
parameter of the functions that are templates over `T`, and the calls of `PQgetvalue` are recorded.

`is_null`, `status` and the assignment and moves of `Row` are left out, as is `Results`.
-/

namespace Sqldb

/-! ## `from_string<bytea>` -/

/-- `(int)str[i]`: `char` is signed. -/
def charInt (c : UInt8) : Int := if c.toNat < 128 then c.toNat else c.toNat - 256

/-- `decfromhex`. -/
def decfromhex (x : Int) : Int :=
  if x < 58 then x - 48 else if x < 71 then x - 55 else x - 87

/-- The conversion of an `int` to `char`. -/
def toChar (x : Int) : UInt8 := UInt8.ofNat (x % 256).toNat

/-- `std::string::max_size()`. -/
def maxSize : Nat := 2 ^ 62 - 1

/-- `(str_size - 2) / 2`. -/
def dataSize (str_size : Nat) : Nat := sizeT (str_size + 2 ^ 64 - 2) / 2

/-- `from_string<bytea>`; no result where `std::string` refuses the size and where the text is
left. -/
def fromStringBytea (str : List UInt8) : Option (List UInt8) :=
  let data_size := dataSize str.length
  if maxSize < data_size then none
  else
    Loop.forRange 0 data_size (fun i data => do
      let high ← str[2 + 2 * i]?
      let low ← str[2 + 2 * i + 1]?
      Loop.store data i
        (toChar (decfromhex (charInt high) * 2 ^ 4 + decfromhex (charInt low))))
      (List.replicate data_size 0)

/-! ## libpq -/

/-- A text that libpq returns. -/
abbrev Text : Type := List UInt8

/-- `PGresult`. -/
structure PgResult where
  ntuples : Nat
  nfields : Nat
  /-- The functions of libpq return `int`. -/
  ntuples_lt : ntuples < 2 ^ 31
  nfields_lt : nfields < 2 ^ 31
  /-- The column that a name denotes. -/
  fnumber : String → Option Nat
  fnumber_lt : ∀ name n, fnumber name = some n → n < nfields
  value : Nat → Nat → Text

/-- `PQntuples`. -/
def pqNtuples : Option PgResult → Nat
  | none => 0
  | some res => res.ntuples

/-- `PQnfields`. -/
def pqNfields : Option PgResult → Nat
  | none => 0
  | some res => res.nfields

/-- `PQfnumber`. -/
def pqFnumber (res : Option PgResult) (column_name : String) : Int :=
  match res.bind fun res => res.fnumber column_name with
  | none => -1
  | some n => n

/-- The row and the column are those of a value of the result. -/
def Within (res : Option PgResult) (tup_num field_num : Int) : Prop :=
  (0 ≤ tup_num ∧ tup_num < pqNtuples res) ∧ 0 ≤ field_num ∧ field_num < pqNfields res

instance (res : Option PgResult) (tup_num field_num : Int) :
    Decidable (Within res tup_num field_num) := inferInstanceAs (Decidable (_ ∧ _))

/-- `PQgetvalue`. -/
def pqGetvalue (res : Option PgResult) (tup_num field_num : Int) : Option Text :=
  if Within res tup_num field_num then
    res.map fun res => res.value tup_num.toNat field_num.toNat
  else none

/-! ## The result object -/

/-- `sqldb::QueryResult`. -/
structure QueryResult where
  pg_result_ : Option PgResult
  result_size_ : Nat × Nat
  /-- `load_result_size_value` stores two values of type `int`. -/
  rows_lt : result_size_.1 < 2 ^ 31
  columns_lt : result_size_.2 < 2 ^ 31

/-- What leaves an access to a result. -/
inductive AccessFault where
  | exception (e : Exception)
  /-- `std::string` made from a null pointer. -/
  | nullString
  /-- An exception of `from_string<T>`. -/
  | conversion (what : String)
  deriving DecidableEq, Repr

/-- An access: the state is the list of the calls of `PQgetvalue` so far. -/
abbrev AccessProg (α : Type) : Type := Prog (List (Int × Int)) AccessFault α

/-- `from_string<T>`. -/
abbrev Conversion (T : Type) : Type := Text → Except String T

namespace QueryResult

variable {T : Type}

theorem pqNtuples_lt (pg_result : Option PgResult) : pqNtuples pg_result < 2 ^ 31 := by
  cases pg_result with
  | none => decide
  | some res => exact res.ntuples_lt

theorem pqNfields_lt (pg_result : Option PgResult) : pqNfields pg_result < 2 ^ 31 := by
  cases pg_result with
  | none => decide
  | some res => exact res.nfields_lt

/-- `QueryResult(PGresult*)` with `load_result_size_value`. -/
def new (pg_result : Option PgResult) : QueryResult where
  pg_result_ := pg_result
  result_size_ := (pqNtuples pg_result, pqNfields pg_result)
  rows_lt := pqNtuples_lt pg_result
  columns_lt := pqNfields_lt pg_result

/-- An object whose `PGresult` was moved to another one. -/
def release (query_result : QueryResult) : QueryResult := { query_result with pg_result_ := none }

/-- `operator=(QueryResult&&)` on the left side. -/
def assign (q query_result : QueryResult) : QueryResult :=
  { q with pg_result_ := query_result.pg_result_ }

/-- `num_rows()`. -/
def numRows (q : QueryResult) : Nat := q.result_size_.1

/-- `num_columns()`. -/
def numColumns (q : QueryResult) : Nat := q.result_size_.2

/-- `get_column_index(column_name)`. -/
def getColumnIndex (q : QueryResult) (column_name : String) : AccessProg Nat :=
  let index := pqFnumber q.pg_result_ column_name
  if index = -1 then
    throw (.exception (.result ("Column name " ++ column_name ++ " does not exist")))
  else pure index.toNat

/-- `get_raw_value(row_index, column_index)`. -/
def getRawValue (q : QueryResult) (row_index column_index : Nat) : AccessProg (Option Text) := do
  if row_index > q.result_size_.1 then
    throw (.exception (.result "Row index is out of bound"))
  if column_index > q.result_size_.2 then
    throw (.exception (.result "Column index is out of bound"))
  modify (· ++ [(cInt row_index, cInt column_index)])
  return pqGetvalue q.pg_result_ (cInt row_index) (cInt column_index)

/-- `from_string<T>` of a C string: its argument is a `std::string`. -/
def convert (from_string : Conversion T) : Option Text → AccessProg T
  | none => throw .nullString
  | some text =>
    match from_string text with
    | .ok value => pure value
    | .error what => throw (.conversion what)

/-- `get_value<T>(row_index, column_index)`. -/
def getValue (q : QueryResult) (from_string : Conversion T) (row_index column_index : Nat) :
    AccessProg T := do
  convert from_string (← q.getRawValue row_index column_index)

/-- `get_value<T>(row_index, column_name)`. -/
def getValueNamed (q : QueryResult) (from_string : Conversion T) (row_index : Nat)
    (column_name : String) : AccessProg T := do
  convert from_string (← q.getRawValue row_index (← q.getColumnIndex column_name))

end QueryResult

/-- `QueryResult::Row`. -/
structure Row where
  query_result_ : QueryResult
  row_index_ : Nat

namespace Row

variable {T : Type}

/-- `get<T>(column_index)`, and `operator[]`. -/
def get (row : Row) (from_string : Conversion T) (column_index : Nat) : AccessProg T :=
  row.query_result_.getValue from_string row.row_index_ column_index

/-- `get<T>(column_name)`, and `operator[]`. -/
def getNamed (row : Row) (from_string : Conversion T) (column_name : String) : AccessProg T :=
  row.query_result_.getValueNamed from_string row.row_index_ column_name

/-- `size()`. -/
def size (row : Row) : Nat := row.query_result_.numColumns

/-- `copy_column_value(column_index, args...)`, one conversion for each argument. -/
def copyColumnValue (row : Row) : Nat → List (Conversion T) → AccessProg (List T)
  | _, [] => pure []
  | column_index, from_string :: args => do
    let var ← row.get from_string column_index
    let vars ← copyColumnValue row (column_index + 1) args
    pure (var :: vars)

/-- `copy_to(args...)`. -/
def copyTo (row : Row) (args : List (Conversion T)) : AccessProg (List T) :=
  if args.length > row.size then
    throw (.exception (.result
      "QueryResult::Row::copy_to() - number of parameters is greater then row size"))
  else row.copyColumnValue 0 args

end Row

/-! ## Objects that are made and moved -/

/-- What a program does with its results; the objects are numbered as they are constructed. -/
inductive ResultStep where
  /-- `QueryResult q(pg_result)`. -/
  | construct (pg_result : Option PgResult)
  /-- `QueryResult q(std::move(source))`. -/
  | moveConstruct (source : Nat)
  /-- `target = std::move(source)`. -/
  | moveAssign (target source : Nat)

/-- The objects after a step. The left side of an assignment is written before the right side is
released, also where they are one object. -/
def resultStep (objects : List QueryResult) : ResultStep → Option (List QueryResult)
  | .construct pg_result => some (objects ++ [.new pg_result])
  | .moveConstruct source => do
    let query_result ← objects[source]?
    pure (objects.set source query_result.release ++ [query_result])
  | .moveAssign target source => do
    let q ← objects[target]?
    let query_result ← objects[source]?
    let objects := objects.set target (q.assign query_result)
    let query_result ← objects[source]?
    pure (objects.set source query_result.release)

/-- The objects that a program has after any number of steps. -/
def resultSystem : Transition.System (List QueryResult) ResultStep :=
  Transition.System.ofStep [] resultStep

end Sqldb

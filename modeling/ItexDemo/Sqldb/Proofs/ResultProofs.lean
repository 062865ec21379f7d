import Mathlib.Data.List.Basic
import Mathlib.Data.UInt
import ItexDemo.Sqldb.Result

/-!
# Reading the values of a result

A `bytea` that is not `NULL` is decoded from its text. An access to a result stays inside of it when
no move assignment has changed its shape and the index is not the one behind the last row or column.
-/

namespace Sqldb

/-! ## `bytea` -/

section Bytea

/-- `c` is the hex digit `n`, in one of the letter cases. -/
def HexDigit (c : UInt8) (n : Nat) : Prop :=
  n < 10 ∧ c.toNat = 48 + n ∨
    (10 ≤ n ∧ n < 16) ∧ (c.toNat = 55 + n ∨ c.toNat = 87 + n)

/-- Two hex digits for each byte. -/
inductive HexDigits : List UInt8 → List UInt8 → Prop where
  | nil : HexDigits [] []
  | cons {byte high low : UInt8} {b digits : List UInt8} (hhigh : HexDigit high (byte.toNat / 16))
      (hlow : HexDigit low (byte.toNat % 16)) (hrest : HexDigits b digits) :
      HexDigits (byte :: b) (high :: low :: digits)

/-- The text that `PQgetvalue` returns for a value of type `bytea`: the hex format, or the empty
text for `NULL`. The length of a text is an `int` in libpq. -/
inductive ByteaOutput : Option (List UInt8) → List UInt8 → Prop where
  | null : ByteaOutput none []
  | value {b digits : List UInt8} (hdigits : HexDigits b digits)
      (hlength : digits.length + 2 < 2 ^ 31) : ByteaOutput (some b) (92 :: 120 :: digits)

/-- The parameter that a program sends for a value. -/
def byteaParameter : Option (List UInt8) → Parameter UInt8
  | none => .null
  | some b => .ofBytea b

/-- The value is decoded from its text, with a size that has not wrapped, and the server had received
it from the parameter. -/
structure ReadBack (value : Option (List UInt8)) (text : List UInt8) : Prop where
  decoded : fromStringBytea text = some (value.getD [])
  size_eq : dataSize text.length * 2 + 2 = text.length
  sent : (BoundParameter.new (byteaParameter value)).received = value

theorem decfromhex_of_hexDigit {c : UInt8} {n : Nat} (h : HexDigit c n) :
    decfromhex (charInt c) = n := by
  have hascii : charInt c = c.toNat := by
    apply if_pos
    rcases h with ⟨hn, hc⟩ | ⟨hn, hc | hc⟩ <;> omega
  rw [hascii, decfromhex]
  rcases h with ⟨hn, hc⟩ | ⟨hn, hc | hc⟩
  · rw [hc, if_pos (by omega)]
    omega
  · rw [hc, if_neg (by omega), if_pos (by omega)]
    omega
  · rw [hc, if_neg (by omega), if_neg (by omega)]
    omega

theorem toChar_digits (byte : UInt8) :
    toChar ((byte.toNat / 16 : Nat) * 2 ^ 4 + (byte.toNat % 16 : Nat)) = byte := by
  have hlt := byte.toNat_lt
  have hbyte : ((byte.toNat / 16 : Nat) * 2 ^ 4 + (byte.toNat % 16 : Nat) : Int) % 256 =
      byte.toNat := by
    omega
  rw [toChar, hbyte, Int.toNat_natCast, UInt8.ofNat_toNat]

namespace HexDigits

variable {b digits : List UInt8}

theorem length_eq (h : HexDigits b digits) : digits.length = 2 * b.length := by
  induction h with
  | nil => rfl
  | cons _ _ _ ih =>
    simp only [List.length_cons]
    omega

/-- The digits of the byte number `i`. -/
theorem get (h : HexDigits b digits) {i : Nat} (hi : i < b.length) :
    ∃ high low, digits[2 * i]? = some high ∧ digits[2 * i + 1]? = some low ∧
      HexDigit high (b[i].toNat / 16) ∧ HexDigit low (b[i].toNat % 16) := by
  induction h generalizing i with
  | nil => cases hi
  | @cons byte high low b digits hhigh hlow _ ih =>
    cases i with
    | zero => exact ⟨high, low, rfl, rfl, hhigh, hlow⟩
    | succ i => exact ih (Nat.lt_of_succ_lt_succ hi)

end HexDigits

theorem dataSize_of_two_le {n : Nat} (hlo : 2 ≤ n) (hhi : n < 2 ^ 64) :
    dataSize n = (n - 2) / 2 := by
  have hsize : n + 2 ^ 64 - 2 = n - 2 + 2 ^ 64 := by omega
  rw [dataSize, hsize, sizeT, Nat.add_mod_right, Nat.mod_eq_of_lt (by omega)]

theorem fromStringBytea_hex {b digits : List UInt8} (h : HexDigits b digits)
    (hlength : digits.length + 2 < 2 ^ 31) :
    fromStringBytea (92 :: 120 :: digits) = some b := by
  have hlen := h.length_eq
  have hsize : dataSize (92 :: 120 :: digits : List UInt8).length = b.length := by
    simp only [List.length_cons]
    rw [dataSize_of_two_le (by omega) (by omega)]
    omega
  -- the bytes before `i` are decoded, the others still `0`
  have hstep : ∀ i data, 0 ≤ i → i < b.length →
      Loop.Filled data b.length (fun k => if k < i then b.getD k 0 else 0) →
      ∃ data', (do
        let high ← (92 :: 120 :: digits : List UInt8)[2 + 2 * i]?
        let low ← (92 :: 120 :: digits : List UInt8)[2 + 2 * i + 1]?
        Loop.store data i
          (toChar (decfromhex (charInt high) * 2 ^ 4 + decfromhex (charInt low)))) = some data' ∧
        Loop.Filled data' b.length fun k => if k < i + 1 then b.getD k 0 else 0 := by
    intro i data _ hi hdata
    obtain ⟨high, low, hhigh, hlow, hdigit, hdigit'⟩ := h.get hi
    have hindex : 2 + 2 * i = 2 * i + 2 := Nat.add_comm ..
    obtain ⟨data', hstore, hdata'⟩ := hdata.store hi b[i]
    refine ⟨data', ?_, hdata'.congr ?_⟩
    · rw [hindex, List.getElem?_cons_succ, List.getElem?_cons_succ, hhigh,
        show 2 * i + 2 + 1 = 2 * i + 1 + 1 + 1 by omega, List.getElem?_cons_succ,
        List.getElem?_cons_succ, hlow]
      show Loop.store data i _ = _
      rw [decfromhex_of_hexDigit hdigit, decfromhex_of_hexDigit hdigit', toChar_digits, hstore]
    · intro k hk
      rcases Nat.lt_trichotomy k i with hlt | rfl | hgt
      · rw [Function.update_of_ne (by omega), if_pos hlt, if_pos (by omega)]
      · rw [Function.update_self, if_pos (by omega), List.getD_eq_getElem?_getD,
          List.getElem?_eq_getElem hk, Option.getD_some]
      · rw [Function.update_of_ne (by omega), if_neg (by omega), if_neg (by omega)]
  obtain ⟨data, hdata, hfilled⟩ := Loop.forRange_spec (Nat.zero_le b.length) hstep
    ((Loop.Filled.replicate b.length 0).congr fun i _ => by simp)
  have heq : data = b := by
    apply List.ext_getElem?
    intro k
    by_cases hk : k < b.length
    · rw [hfilled.load k hk, if_pos hk, List.getD_eq_getElem?_getD, List.getElem?_eq_getElem hk,
        Option.getD_some]
    · rw [List.getElem?_eq_none (by have := hfilled.length_eq; omega),
        List.getElem?_eq_none (by omega)]
  have hmax : ¬ maxSize < b.length := by
    unfold maxSize
    omega
  rw [fromStringBytea, hsize, if_neg hmax]
  exact hdata.trans (congrArg some heq)

/-- The size of the empty text wraps, and no string is that long. -/
theorem fromStringBytea_nil : fromStringBytea [] = none := by
  have hsize : maxSize < dataSize ([] : List UInt8).length := by decide
  rw [fromStringBytea]
  exact if_pos hsize

theorem received_byteaParameter (value : Option (List UInt8))
    (h : ∀ b, value = some b → b.length < 2 ^ 31) :
    (BoundParameter.new (byteaParameter value)).received = value := by
  cases value with
  | none => rfl
  | some b =>
    have hlen := h b rfl
    have hcount : (cInt (sizeT b.length)).toNat = b.length := by
      rw [sizeT_of_lt (by omega), cInt_of_lt hlen, Int.toNat_natCast]
    simp only [byteaParameter, Parameter.ofBytea, BoundParameter.new, Parameter.isNull,
      Parameter.isBinary, Parameter.data, BoundParameter.received, Bool.false_eq_true, if_false,
      if_true, Option.map_some, hcount, List.take_length]

/-- A value is read back when it is not `NULL`. -/
theorem readBack_iff {value : Option (List UInt8)} {text : List UInt8}
    (h : ByteaOutput value text) : ReadBack value text ↔ value ≠ none := by
  cases h with
  | null =>
    refine ⟨fun hread => ?_, fun hne => absurd rfl hne⟩
    have := hread.decoded
    rw [fromStringBytea_nil] at this
    cases this
  | @value b digits hdigits hlength =>
    refine ⟨fun _ => Option.some_ne_none b, fun _ => ?_⟩
    have hlen := hdigits.length_eq
    refine ⟨fromStringBytea_hex hdigits hlength, ?_, ?_⟩
    · simp only [List.length_cons]
      rw [dataSize_of_two_le (by omega) (by omega)]
      omega
    · apply received_byteaParameter
      rintro _ ⟨⟩
      omega

theorem byteaOutput_newline : ByteaOutput (some [10, 255]) [92, 120, 48, 65, 102, 70] := by
  refine .value (.cons ?_ ?_ (.cons ?_ ?_ .nil)) (by decide) <;> simp [HexDigit]

theorem readBack_newline :
    ReadBack (some [10, 255]) [92, 120, 48, 65, 102, 70] ↔ some [(10 : UInt8), 255] ≠ none :=
  readBack_iff byteaOutput_newline

/-- `NULL` is not read back as the empty value. -/
theorem null_not_read_back : ¬ ∀ value text, ByteaOutput value text → ReadBack value text := by
  intro hall
  have := (hall none [] .null).decoded
  rw [fromStringBytea_nil] at this
  cases this

end Bytea

/-! ## Accesses -/

section Accesses

open Prog

variable {T : Type}

/-- What a program can ask of a result. -/
inductive Access (T : Type) where
  | getValue (from_string : Conversion T) (row_index column_index : Nat)
  | getValueNamed (from_string : Conversion T) (row_index : Nat) (column_name : String)
  | rowGet (from_string : Conversion T) (row_index column_index : Nat)
  | rowGetNamed (from_string : Conversion T) (row_index : Nat) (column_name : String)
  /-- `copy_to` has at least one argument. -/
  | copyTo (row_index : Nat) (arg : Conversion T) (args : List (Conversion T))

namespace Access

/-- The access on an object. -/
def prog (q : QueryResult) : Access T → AccessProg (List T)
  | .getValue from_string row column => do return [← q.getValue from_string row column]
  | .getValueNamed from_string row name => do return [← q.getValueNamed from_string row name]
  | .rowGet from_string row column => do
    return [← (Row.mk q row).get from_string column]
  | .rowGetNamed from_string row name => do
    return [← (Row.mk q row).getNamed from_string name]
  | .copyTo row arg args => (Row.mk q row).copyTo (arg :: args)

/-- The access asks for values that the result has. -/
def InRange (res : Option PgResult) : Access T → Prop
  | .getValue _ row column | .rowGet _ row column => row < pqNtuples res ∧ column < pqNfields res
  | .getValueNamed _ row name | .rowGetNamed _ row name =>
    row < pqNtuples res ∧ pqFnumber res name ≠ -1
  | .copyTo row _ args => row < pqNtuples res ∧ args.length + 1 ≤ pqNfields res

/-- The access asks for what stands right behind the last row or the last column. -/
def Boundary (res : Option PgResult) : Access T → Prop
  | .getValue _ row column | .rowGet _ row column =>
    row = pqNtuples res ∧ column ≤ pqNfields res ∨ row ≤ pqNtuples res ∧ column = pqNfields res
  | .getValueNamed _ row name | .rowGetNamed _ row name =>
    row = pqNtuples res ∧ pqFnumber res name ≠ -1
  | .copyTo row _ args => row = pqNtuples res ∧ args.length + 1 ≤ pqNfields res

end Access

/-- The program calls `PQgetvalue` only inside of the result, and throws a `ResultException` exactly
when it asks for something else. -/
structure StaysInside {α : Type} (res : Option PgResult) (x : AccessProg α) (inRange : Prop) :
    Prop where
  calls : ∀ call ∈ (exec x []).2, Within res call.1 call.2
  throws : (∃ text, (exec x []).1 = .error (.exception (.result text))) ↔ ¬ inRange

/-- An access to an object stays inside of its result. -/
def Inside (q : QueryResult) (a : Access T) : Prop :=
  StaysInside q.pg_result_ (a.prog q) (a.InRange q.pg_result_)

/-- `num_rows` and `num_columns` are those of the held `PGresult`. -/
structure SizeMatches (q : QueryResult) : Prop where
  numRows_eq : q.numRows = pqNtuples q.pg_result_
  numColumns_eq : q.numColumns = pqNfields q.pg_result_

/-- A result that is no `ResultException`. -/
def Other {α : Type} (r : Except AccessFault α) : Prop :=
  ∀ text, r ≠ .error (.exception (.result text))

theorem StaysInside.of_thrown {α : Type} {res : Option PgResult} {x : AccessProg α} {inRange : Prop}
    {text : String} (h : exec x [] = (.error (.exception (.result text)), [])) (hout : ¬ inRange) :
    StaysInside res x inRange := by
  refine ⟨?_, ⟨fun _ => hout, fun _ => ⟨text, congrArg Prod.fst h⟩⟩⟩
  intro call hcall
  rw [h] at hcall
  cases hcall

theorem StaysInside.of_calls {α : Type} {res : Option PgResult} {x : AccessProg α} {inRange : Prop}
    {r : Except AccessFault α} {log : List (Int × Int)} (h : exec x [] = (r, log)) (hother : Other r)
    (hcalls : ∀ call ∈ log, Within res call.1 call.2) (hin : inRange) :
    StaysInside res x inRange := by
  refine ⟨?_, ⟨?_, fun hout => absurd hin hout⟩⟩
  · rwa [h]
  · rintro ⟨text, htext⟩
    rw [h] at htext
    exact absurd htext (hother text)

theorem not_staysInside {α : Type} {res : Option PgResult} {x : AccessProg α} {inRange : Prop}
    {call : Int × Int} (h : call ∈ (exec x []).2) (hout : ¬ Within res call.1 call.2) :
    ¬ StaysInside res x inRange :=
  fun hinside => hout (hinside.calls call h)

theorem other_ok {α : Type} (value : α) : Other (.ok value) := fun _ h => by cases h

theorem exec_convert (from_string : Conversion T) (text : Option Text) (log : List (Int × Int)) :
    ∃ r, exec (QueryResult.convert from_string text) log = (r, log) ∧ Other r := by
  cases text with
  | none => exact ⟨_, rfl, fun _ h => by cases h⟩
  | some text =>
    simp only [QueryResult.convert]
    cases from_string text with
    | ok value => exact ⟨_, rfl, other_ok value⟩
    | error what => exact ⟨_, rfl, fun _ h => by cases h⟩

theorem exec_return {x : AccessProg T} {log log' : List (Int × Int)} {r : Except AccessFault T}
    (h : exec x log = (r, log')) :
    exec (do return [← x]) log = (r.map fun value => [value], log') := by
  cases r with
  | ok value => exact exec_bind_ok h
  | error fault => exact exec_bind_error h

theorem Other.map {r : Except AccessFault T} (h : Other r) :
    Other (r.map fun value => [value]) := by
  intro text heq
  cases r with
  | ok value => cases heq
  | error fault => exact h text (congrArg Except.error (Except.error.inj heq))

section Object

variable {q : QueryResult}

theorem exec_getRawValue_thrown {row column : Nat}
    (h : q.numRows < row ∨ q.numColumns < column) (log : List (Int × Int)) :
    ∃ text, exec (q.getRawValue row column) log = (.error (.exception (.result text)), log) := by
  unfold QueryResult.getRawValue
  by_cases hrow : row > q.result_size_.1
  · rw [if_pos hrow]
    exact ⟨_, rfl⟩
  · have hcolumn : column > q.result_size_.2 := by
      rcases h with hlt | hlt
      · exact absurd hlt hrow
      · exact hlt
    rw [if_neg hrow, if_pos hcolumn]
    exact ⟨_, rfl⟩

theorem exec_getRawValue_called {row column : Nat} (hrow : row ≤ q.numRows)
    (hcolumn : column ≤ q.numColumns) (log : List (Int × Int)) :
    exec (q.getRawValue row column) log =
      (.ok (pqGetvalue q.pg_result_ row column), log ++ [((row : Int), (column : Int))]) := by
  have hrows := q.rows_lt
  have hcolumns := q.columns_lt
  unfold QueryResult.numRows at hrow
  unfold QueryResult.numColumns at hcolumn
  unfold QueryResult.getRawValue
  rw [if_neg (by omega), if_neg (by omega), cInt_of_lt (by omega), cInt_of_lt (by omega)]
  rfl

theorem exec_getValue_thrown (from_string : Conversion T) {row column : Nat}
    (h : q.numRows < row ∨ q.numColumns < column) (log : List (Int × Int)) :
    ∃ text, exec (q.getValue from_string row column) log =
      (.error (.exception (.result text)), log) := by
  obtain ⟨text, hthrown⟩ := exec_getRawValue_thrown h log
  exact ⟨text, exec_bind_error hthrown⟩

theorem exec_getValue_called (from_string : Conversion T) {row column : Nat}
    (hrow : row ≤ q.numRows) (hcolumn : column ≤ q.numColumns) (log : List (Int × Int)) :
    ∃ r, exec (q.getValue from_string row column) log =
      (r, log ++ [((row : Int), (column : Int))]) ∧ Other r := by
  obtain ⟨r, hr, hother⟩ := exec_convert from_string (pqGetvalue q.pg_result_ row column)
    (log ++ [((row : Int), (column : Int))])
  exact ⟨r, (exec_bind_ok (exec_getRawValue_called hrow hcolumn log)).trans hr, hother⟩

/-! ### One value -/

theorem within_iff (res : Option PgResult) (row column : Nat) :
    Within res row column ↔ row < pqNtuples res ∧ column < pqNfields res := by
  unfold Within
  omega

/-- A value that is asked for by its row and column. -/
theorem value_inside_iff (h : SizeMatches q) (from_string : Conversion T) (row column : Nat) :
    StaysInside q.pg_result_ (do return [← q.getValue from_string row column])
        (row < pqNtuples q.pg_result_ ∧ column < pqNfields q.pg_result_) ↔
      ¬ (row = pqNtuples q.pg_result_ ∧ column ≤ pqNfields q.pg_result_ ∨
        row ≤ pqNtuples q.pg_result_ ∧ column = pqNfields q.pg_result_) := by
  have hrows := h.numRows_eq
  have hcolumns := h.numColumns_eq
  by_cases hout : q.numRows < row ∨ q.numColumns < column
  · obtain ⟨text, hexec⟩ := exec_getValue_thrown from_string hout []
    exact ⟨fun _ => by omega, fun _ => .of_thrown (exec_return hexec) (by omega)⟩
  · have hrow : row ≤ q.numRows := by omega
    have hcolumn : column ≤ q.numColumns := by omega
    obtain ⟨r, hexec, hother⟩ := exec_getValue_called from_string hrow hcolumn []
    constructor
    · intro hinside
      have hcall : ((row : Int), (column : Int)) ∈
          (exec (do return [← q.getValue from_string row column] : AccessProg (List T)) []).2 := by
        rw [exec_return hexec]
        exact List.mem_singleton.mpr rfl
      have hwithin := (within_iff ..).mp (hinside.calls _ hcall)
      omega
    · intro hnot
      have hin : row < pqNtuples q.pg_result_ ∧ column < pqNfields q.pg_result_ := by omega
      apply StaysInside.of_calls (exec_return hexec) hother.map _ hin
      intro call hcall
      rw [List.mem_singleton.mp hcall]
      exact (within_iff ..).mpr hin

/-- A value that is asked for by its row and the name of its column. -/
theorem named_inside_iff (h : SizeMatches q) (from_string : Conversion T) (row : Nat) (name : String) :
    StaysInside q.pg_result_ (do return [← q.getValueNamed from_string row name])
        (row < pqNtuples q.pg_result_ ∧ pqFnumber q.pg_result_ name ≠ -1) ↔
      ¬ (row = pqNtuples q.pg_result_ ∧ pqFnumber q.pg_result_ name ≠ -1) := by
  have hnamed : q.getValueNamed from_string row name =
      (q.getColumnIndex name >>= fun column => q.getValue from_string row column) := rfl
  by_cases hname : pqFnumber q.pg_result_ name = -1
  · have hexec : exec (q.getValueNamed from_string row name) [] =
        (.error (.exception (.result ("Column name " ++ name ++ " does not exist"))), []) := by
      rw [hnamed]
      apply exec_bind_error
      rw [QueryResult.getColumnIndex]
      exact congrArg (fun x => exec x []) (if_pos hname)
    exact ⟨fun _ hboundary => hboundary.2 hname,
      fun _ => .of_thrown (exec_return hexec) fun hin => hin.2 hname⟩
  · obtain ⟨column, hcolumn, hlt⟩ : ∃ column : Nat, pqFnumber q.pg_result_ name = column ∧
        column < pqNfields q.pg_result_ := by
      revert hname
      unfold pqFnumber pqNfields
      cases q.pg_result_ with
      | none => exact fun hname => absurd rfl hname
      | some res =>
        intro hname
        simp only [Option.bind_some] at hname ⊢
        cases hnumber : res.fnumber name with
        | none =>
          rw [hnumber] at hname
          exact absurd rfl hname
        | some n => exact ⟨n, rfl, res.fnumber_lt name n hnumber⟩
    have hindex : q.getValueNamed from_string row name = q.getValue from_string row column := by
      rw [hnamed, QueryResult.getColumnIndex]
      simp only [if_neg hname]
      rw [hcolumn]
      rfl
    have hvalue := value_inside_iff h from_string row column
    rw [hindex]
    constructor
    · rintro hinside ⟨hrow, -⟩
      refine hvalue.mp ⟨hinside.calls, hinside.throws.trans (not_congr ?_)⟩ (.inl ⟨hrow, hlt.le⟩)
      simp only [hlt, hname, ne_eq, not_false_eq_true]
    · intro hnot
      have hinside := hvalue.mpr (by omega)
      refine ⟨hinside.calls, hinside.throws.trans (not_congr ?_)⟩
      simp only [hlt, hname, ne_eq, not_false_eq_true]

/-! ### `copy_to` -/

/-- The calls for the columns from `column` on, of a row of the result. -/
theorem exec_copyColumnValue (h : SizeMatches q) {row : Nat} (hrow : row < pqNtuples q.pg_result_)
    (args : List (Conversion T)) {column : Nat}
    (hcolumn : column + args.length ≤ pqNfields q.pg_result_) (log : List (Int × Int)) :
    ∃ r calls, exec ((Row.mk q row).copyColumnValue column args) log = (r, log ++ calls) ∧
      Other r ∧ ∀ call ∈ calls, Within q.pg_result_ call.1 call.2 := by
  have hrows := h.numRows_eq
  have hcolumns := h.numColumns_eq
  induction args generalizing column log with
  | nil =>
    refine ⟨.ok [], [], ?_, other_ok [], ?_⟩
    · rw [List.append_nil]
      rfl
    · intro call hcall
      cases hcall
  | cons arg args ih =>
    simp only [List.length_cons] at hcolumn
    have hrow' : row ≤ q.numRows := by omega
    have hcolumn' : column ≤ q.numColumns := by omega
    obtain ⟨r, hexec, hother⟩ := exec_getValue_called arg hrow' hcolumn' log
    have hwithin : Within q.pg_result_ row column := (within_iff ..).mpr (by omega)
    cases r with
    | error fault =>
      refine ⟨.error fault, [((row : Int), (column : Int))], exec_bind_error hexec, ?_, ?_⟩
      · exact fun text heq => hother text (congrArg Except.error (Except.error.inj heq))
      · intro call hcall
        rwa [List.mem_singleton.mp hcall]
    | ok value =>
      have hnext : column + 1 + args.length ≤ pqNfields q.pg_result_ := by omega
      obtain ⟨r, calls, hrest, hother, hcalls⟩ := ih hnext
        (log ++ [((row : Int), (column : Int))])
      rw [List.append_assoc, List.singleton_append] at hrest
      have hmem : ∀ call ∈ ((row : Int), (column : Int)) :: calls,
          Within q.pg_result_ call.1 call.2 := by
        intro call hcall
        rcases List.mem_cons.mp hcall with rfl | hcall
        · exact hwithin
        · exact hcalls call hcall
      cases r with
      | error fault =>
        refine ⟨.error fault, _, (exec_bind_ok hexec).trans (exec_bind_error hrest), ?_, hmem⟩
        exact fun text heq => hother text (congrArg Except.error (Except.error.inj heq))
      | ok values =>
        exact ⟨.ok (value :: values), _, (exec_bind_ok hexec).trans (exec_bind_ok hrest),
          other_ok _, hmem⟩

/-- No call is taken back. -/
theorem exec_copyColumnValue_log (row : Row) (column : Nat) (args : List (Conversion T))
    {call : Int × Int} {log : List (Int × Int)} (hcall : call ∈ log) :
    call ∈ (exec (row.copyColumnValue column args) log).2 := by
  induction args generalizing column log with
  | nil => exact hcall
  | cons arg args ih =>
    rw [Row.copyColumnValue, exec_bind]
    have hget : call ∈ (exec (row.get arg column) log).2 := by
      by_cases hout : row.query_result_.numRows < row.row_index_ ∨
          row.query_result_.numColumns < column
      · obtain ⟨text, hexec⟩ := exec_getValue_thrown arg hout log
        rw [Row.get, hexec]
        exact hcall
      · have hrow : row.row_index_ ≤ row.query_result_.numRows := by omega
        have hcolumn : column ≤ row.query_result_.numColumns := by omega
        obtain ⟨r, hexec, -⟩ := exec_getValue_called arg hrow hcolumn log
        rw [Row.get, hexec]
        exact List.mem_append_left _ hcall
    rcases hexec : exec (row.get arg column) log with ⟨r, log'⟩
    rw [hexec] at hget
    cases r with
    | error fault => exact hget
    | ok value =>
      have hrest := ih (column + 1) hget
      simp only
      rw [exec_bind]
      rcases hexec' : exec (row.copyColumnValue (column + 1) args) log' with ⟨r, log''⟩
      rw [hexec'] at hrest
      cases r <;> exact hrest

theorem copyTo_inside_iff (h : SizeMatches q) (row : Nat) (arg : Conversion T)
    (args : List (Conversion T)) :
    StaysInside q.pg_result_ ((Row.mk q row).copyTo (arg :: args))
        (row < pqNtuples q.pg_result_ ∧ args.length + 1 ≤ pqNfields q.pg_result_) ↔
      ¬ (row = pqNtuples q.pg_result_ ∧ args.length + 1 ≤ pqNfields q.pg_result_) := by
  have hrows := h.numRows_eq
  have hcolumns := h.numColumns_eq
  have hsize : (Row.mk q row).size = pqNfields q.pg_result_ := hcolumns
  rw [Row.copyTo, hsize, List.length_cons]
  by_cases hlong : args.length + 1 > pqNfields q.pg_result_
  · rw [if_pos hlong]
    exact ⟨fun _ => by omega, fun _ => .of_thrown rfl (by omega)⟩
  · rw [if_neg hlong]
    rcases Nat.lt_trichotomy row (pqNtuples q.pg_result_) with hlt | heq | hgt
    · have hfits : 0 + (arg :: args).length ≤ pqNfields q.pg_result_ := by
        rw [List.length_cons]
        omega
      obtain ⟨r, calls, hexec, hother, hcalls⟩ := exec_copyColumnValue h hlt (arg :: args) hfits []
      refine ⟨fun _ => by omega, fun _ => .of_calls hexec hother ?_ (by omega)⟩
      rwa [List.nil_append]
    · -- the first column of the row behind the last one is asked for
      have hrow : row ≤ q.numRows := by omega
      obtain ⟨r, hexec, -⟩ := exec_getValue_called arg hrow (Nat.zero_le _) []
      have hcall : ((row : Int), ((0 : Nat) : Int)) ∈
          (exec ((Row.mk q row).copyColumnValue 0 (arg :: args)) []).2 := by
        rw [Row.copyColumnValue, exec_bind, Row.get, hexec]
        cases r with
        | error fault => exact List.mem_singleton.mpr rfl
        | ok value =>
          have hrest := exec_copyColumnValue_log (Row.mk q row) 1 args
            (List.mem_append_right [] (List.mem_singleton.mpr rfl) :
              ((row : Int), ((0 : Nat) : Int)) ∈ [] ++ [((row : Int), ((0 : Nat) : Int))])
          simp only
          rw [exec_bind]
          rcases hexec' : exec ((Row.mk q row).copyColumnValue 1 args)
            ([] ++ [((row : Int), ((0 : Nat) : Int))]) with ⟨r, log''⟩
          rw [hexec'] at hrest
          cases r <;> exact hrest
      have hnot : ¬ Within q.pg_result_ row (0 : Nat) := by
        rw [within_iff]
        omega
      exact ⟨fun hinside => absurd hinside (not_staysInside hcall hnot),
        fun hbad => absurd ⟨heq, by omega⟩ hbad⟩
    · have hout : q.numRows < row ∨ q.numColumns < 0 := by omega
      obtain ⟨text, hexec⟩ := exec_getValue_thrown arg hout []
      exact ⟨fun _ => by omega, fun _ => .of_thrown (exec_bind_error hexec) (by omega)⟩

/-- An access to an object in step with its result stays inside of it when it does not ask for what
stands right behind the last row or column. -/
theorem inside_iff (h : SizeMatches q) (a : Access T) : Inside q a ↔ ¬ a.Boundary q.pg_result_ := by
  cases a with
  | getValue from_string row column => exact value_inside_iff h from_string row column
  | rowGet from_string row column => exact value_inside_iff h from_string row column
  | getValueNamed from_string row name => exact named_inside_iff h from_string row name
  | rowGetNamed from_string row name => exact named_inside_iff h from_string row name
  | copyTo row arg args => exact copyTo_inside_iff h row arg args

end Object

end Accesses

/-! ## Runs -/

section Runs

open Transition

/-- A move assignment takes a result over only into an object that was made for as many rows and
columns. -/
def KeepsShape (objects : List QueryResult) : ResultStep → Prop
  | .construct _ | .moveConstruct _ => True
  | .moveAssign target source =>
    ∀ q ∈ objects[target]?, ∀ query_result ∈ objects[source]?, query_result.pg_result_.isSome →
      q.numRows = pqNtuples query_result.pg_result_ ∧
        q.numColumns = pqNfields query_result.pg_result_

/-- Every object that holds a `PGresult` is in step with it. -/
def AllSizesMatch (objects : List QueryResult) : Prop :=
  ∀ q ∈ objects, q.pg_result_.isSome → SizeMatches q

theorem sizeMatches_new (pg_result : Option PgResult) : SizeMatches (.new pg_result) := ⟨rfl, rfl⟩

theorem AllSizesMatch.append {objects : List QueryResult} (h : AllSizesMatch objects) {q : QueryResult}
    (hq : q.pg_result_.isSome → SizeMatches q) : AllSizesMatch (objects ++ [q]) := by
  intro x hx
  rcases List.mem_append.mp hx with hx | hx
  · exact h x hx
  · rw [List.mem_singleton.mp hx]
    exact hq

theorem AllSizesMatch.set {objects : List QueryResult} (h : AllSizesMatch objects) (n : Nat)
    {q : QueryResult} (hq : q.pg_result_.isSome → SizeMatches q) : AllSizesMatch (objects.set n q) := by
  intro x hx
  rcases List.mem_or_eq_of_mem_set hx with hx | rfl
  · exact h x hx
  · exact hq

theorem release_not_isSome (q : QueryResult) : q.release.pg_result_.isSome → SizeMatches q.release :=
  nofun

/-- One step keeps the objects in step. -/
theorem allSizesMatch_step {objects objects' : List QueryResult} {step : ResultStep}
    (h : AllSizesMatch objects) (hstep : resultStep objects step = some objects')
    (hshape : KeepsShape objects step) : AllSizesMatch objects' := by
  cases step with
  | construct pg_result =>
    obtain rfl := Option.some.inj hstep
    exact h.append fun _ => sizeMatches_new pg_result
  | moveConstruct source =>
    obtain ⟨query_result, hsource, hrest⟩ := Option.bind_eq_some_iff.mp hstep
    obtain rfl := Option.some.inj hrest
    apply AllSizesMatch.append (h.set source (release_not_isSome query_result))
    exact h query_result (List.mem_of_getElem? hsource)
  | moveAssign target source =>
    obtain ⟨q, htarget, hrest⟩ := Option.bind_eq_some_iff.mp hstep
    obtain ⟨query_result, hsource, hrest⟩ := Option.bind_eq_some_iff.mp hrest
    obtain ⟨released, -, hrest⟩ := Option.bind_eq_some_iff.mp hrest
    obtain rfl := Option.some.inj hrest
    apply AllSizesMatch.set _ source (release_not_isSome released)
    apply h.set target
    intro hheld
    obtain ⟨hrows, hcolumns⟩ := hshape q htarget query_result hsource hheld
    exact ⟨hrows, hcolumns⟩

theorem allSizesMatch_of_run {objects : List QueryResult}
    (h : Reachable (resultSystem.restrict KeepsShape) objects) : AllSizesMatch objects := by
  apply h.invariant
  · rintro _ rfl q hq
    cases hq
  · rintro s a s' hs ⟨hstep, hshape⟩
    exact allSizesMatch_step hs hstep hshape

/-- In a run whose move assignments keep the shapes, the size of an object is that of its result,
and an access stays inside of it unless it asks for what stands right behind the last row or
column. -/
theorem access_inside_of_run {T : Type} {objects : List QueryResult}
    (h : Reachable (resultSystem.restrict KeepsShape) objects) {q : QueryResult} (hq : q ∈ objects)
    (hheld : q.pg_result_.isSome) :
    q.numRows = pqNtuples q.pg_result_ ∧ q.numColumns = pqNfields q.pg_result_ ∧
      ∀ a : Access T, Inside q a ↔ ¬ a.Boundary q.pg_result_ := by
  have hstep := allSizesMatch_of_run h q hq hheld
  exact ⟨hstep.numRows_eq, hstep.numColumns_eq, inside_iff hstep⟩

/-- Conversely, a move assignment that does not keep the shape leaves an object out of step. -/
theorem not_allSizesMatch_of_moveAssign {objects objects' : List QueryResult} {target source : Nat}
    (hne : target ≠ source) (hstep : resultStep objects (.moveAssign target source) = some objects')
    (hshape : ¬ KeepsShape objects (.moveAssign target source)) : ¬ AllSizesMatch objects' := by
  intro hall
  apply hshape
  intro q htarget query_result hsource hheld
  obtain ⟨q', htarget', hrest⟩ := Option.bind_eq_some_iff.mp hstep
  obtain ⟨query_result', hsource', hrest⟩ := Option.bind_eq_some_iff.mp hrest
  obtain ⟨released, -, hrest⟩ := Option.bind_eq_some_iff.mp hrest
  obtain rfl := Option.some.inj hrest
  obtain rfl : q = q' := Option.some.inj (htarget.symm.trans htarget')
  obtain rfl : query_result = query_result' := Option.some.inj (hsource.symm.trans hsource')
  have hlt := (List.getElem?_eq_some_iff.mp htarget).1
  have hget : ((objects.set target (q.assign query_result)).set source released.release)[target]? =
      some (q.assign query_result) := by
    rw [List.getElem?_set_ne hne.symm, List.getElem?_set_self hlt]
  have hin := hall _ (List.mem_of_getElem? hget) hheld
  exact ⟨hin.numRows_eq, hin.numColumns_eq⟩

/-- A result with one row and one column. -/
def oneValue : PgResult where
  ntuples := 1
  nfields := 1
  ntuples_lt := by decide
  nfields_lt := by decide
  fnumber := fun name => if name = "id" then some 0 else none
  fnumber_lt := by
    intro name n h
    split at h
    · cases h
      exact Nat.one_pos
    · cases h
  value := fun _ _ => [49]

/-- The conversion to `std::string`. -/
def asText : Conversion Text := fun text => .ok text

theorem oneValue_reachable :
    Reachable (resultSystem.restrict KeepsShape) [.new (some oneValue)] := by
  apply Reachable.step (a := .construct (some oneValue)) (.init rfl)
  refine ⟨?_, trivial⟩
  show resultStep [] (.construct (some oneValue)) = some [.new (some oneValue)]
  rfl

theorem access_inside_oneValue :
    (QueryResult.new (some oneValue)).numRows = 1 ∧ (QueryResult.new (some oneValue)).numColumns = 1 ∧
      ∀ a : Access Text, Inside (.new (some oneValue)) a ↔ ¬ a.Boundary (some oneValue) :=
  access_inside_of_run oneValue_reachable (List.mem_singleton.mpr rfl) rfl

/-- Row `1` of a result with one row is asked for. -/
theorem last_row_overrun :
    ¬ ∀ objects : List QueryResult, Reachable resultSystem objects →
      ∀ q ∈ objects, q.pg_result_.isSome →
        q.numRows = pqNtuples q.pg_result_ ∧ q.numColumns = pqNfields q.pg_result_ ∧
          ∀ a : Access Text, Inside q a := by
  intro hall
  have hinside := (hall _ oneValue_reachable.of_restrict _ (List.mem_singleton.mpr rfl) rfl).2.2
    (.getValue asText 1 0)
  have hbehind : ¬ Within (some oneValue) (1 : Nat) (0 : Nat) := by decide
  exact not_staysInside (List.mem_singleton.mpr rfl) hbehind hinside

end Runs

end Sqldb

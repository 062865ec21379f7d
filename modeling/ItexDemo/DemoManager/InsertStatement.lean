import ItexDemo.DemoManager.OrderbookQueueWriter
import ItexDemo.Lib.Loop
import ItexDemo.Sqldb.Parameter

/-!
# The `INSERT` of `OrderbookQueueWriter::start`, character by character

The text of the statement and its parameter list, which the same loop builds in `unsigned int`
arithmetic, and a reader for statements of this kind.
-/

namespace DemoManager.OrderbookQueueWriter

open Sqldb

/-- `insert_statement` and `pl`. -/
structure Insert where
  insert_statement : List Char
  pl : ParametersList Char

/-- The text that `insert_statement` starts with. -/
def insertInto : List Char :=
  "INSERT INTO orderbook_log_details (orderbook_log_id, price, volume) VALUES ".toList

/-- The text of one tuple. -/
def tupleText (first second third : Nat) : List Char :=
  ['(', '$'] ++ Decimal.digits first ++ [',', ' ', '$'] ++ Decimal.digits second ++
    [',', ' ', '$'] ++ Decimal.digits third ++ [')']

/-- `Parameter(const unsigned long long&)`. -/
def idParameter (orderbook_log_id : Nat) : Parameter Char :=
  .ofText (Decimal.digits orderbook_log_id)

/-- `Parameter(const double&)`. -/
def doubleParameter (value : ℚ) : Parameter Char := .ofText (toString value)

/-- The loop body: `i` and `orderbook_size` are of type `unsigned int`. -/
def insertTuple (orderbook_log_id : Nat) (entry : QueueEntry ℚ) (orderbook_size i : Nat)
    (insert : Insert) : Option Insert := do
  let price ← entry.prices[i]?
  let volume ← entry.volumes[i]?
  let text := insert.insert_statement ++
    tupleText (uint (i * 3 + 1)) (uint (i * 3 + 2)) (uint (i * 3 + 3))
  let text := if i < uint (orderbook_size + 2 ^ 32 - 1) then text ++ [',', ' '] else text
  let pl := ((insert.pl.push (idParameter orderbook_log_id)).push (doubleParameter price)).push
    (doubleParameter volume)
  pure { insert_statement := text, pl := pl }

/-- The statement and its parameters. -/
def insertStatement (orderbook_log_id : Nat) (entry : QueueEntry ℚ) : Option Insert :=
  let orderbook_size := uint entry.prices.length
  Loop.forRange 0 orderbook_size (insertTuple orderbook_log_id entry orderbook_size)
    { insert_statement := insertInto, pl := [] }

/-! ## Reading a statement -/

/-- The text behind `word`. -/
def expect (word s : List Char) : Option (List Char) :=
  if word.isPrefixOf s then some (s.drop word.length) else none

/-- A placeholder `$n`. -/
def readPlaceholder (s : List Char) : Option (Nat × List Char) := do
  let s ← expect ['$'] s
  if s.takeWhile Char.isDigit = [] then none
  else pure (Decimal.value (s.takeWhile Char.isDigit), s.dropWhile Char.isDigit)

/-- A tuple of three placeholders. -/
def readTuple (s : List Char) : Option ((Nat × Nat × Nat) × List Char) := do
  let s ← expect ['('] s
  let (first, s) ← readPlaceholder s
  let s ← expect [',', ' '] s
  let (second, s) ← readPlaceholder s
  let s ← expect [',', ' '] s
  let (third, s) ← readPlaceholder s
  let s ← expect [')'] s
  pure ((first, second, third), s)

/-- Tuples with commas between them, at most `fuel` of them. -/
def readTuples : Nat → List Char → Option (List (Nat × Nat × Nat))
  | 0, _ => none
  | fuel + 1, s => do
    let (tuple, s) ← readTuple s
    if s = [] then pure [tuple]
    else
      let s ← expect [',', ' '] s
      let tuples ← readTuples fuel s
      pure (tuple :: tuples)

/-- The tuples of a well-formed statement; there is at least one. -/
def readInsert (s : List Char) : Option (List (Nat × Nat × Nat)) := do
  let s ← expect insertInto s
  readTuples s.length s

/-- What a placeholder stands for; the parameters are numbered from 1. -/
def evaluate (pl : ParametersList Char) (placeholder : Nat) : Option (Parameter Char) :=
  if placeholder = 0 then none else pl[placeholder - 1]?

/-- The values of a tuple. -/
def evaluateTuple (pl : ParametersList Char) (tuple : Nat × Nat × Nat) :
    Option (Parameter Char × Parameter Char × Parameter Char) := do
  let first ← evaluate pl tuple.1
  let second ← evaluate pl tuple.2.1
  let third ← evaluate pl tuple.2.2
  pure (first, second, third)

/-- The placeholders of a list of tuples, from left to right. -/
def placeholders (tuples : List (Nat × Nat × Nat)) : List Nat :=
  tuples.flatMap fun tuple => [tuple.1, tuple.2.1, tuple.2.2]

end DemoManager.OrderbookQueueWriter

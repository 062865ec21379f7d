import ItexDemo.DemoManager.OrderbookQueueLoop
import ItexDemo.DemoManager.Proofs.ReloadProofs
import ItexDemo.DemoManager.Service

/-!
# The demo manager over its restarts

One process after another on the same tables. A process may end at any moment, and with it the
workset and whatever is still in the queue of the order-book writer; the next one preloads its
workset from the tables. Until the flag is set the queue is empty, so the tables that the preloading
reads are those that the process was started with. A round of the writer is one step: in between, no
other coroutine reaches the tables. Timestamps, prices and volumes are exact, as in `Tables`.
-/

namespace DemoManager.Restart

open Quant OrderbookQueueWriter

/-- What `main` reads of `demo-manager.cfg`. The query of the preloading takes the size as a
`DOUBLE PRECISION`, which holds it. -/
structure Config where
  persist_to_database : Bool
  size : UInt64
  size_le : size.toNat ≤ 2 ^ 53

/-- A process. -/
structure Process (C : Type*) where
  setup : Service.Setup ℚ
  service : Service.State C ℚ
  /-- How many entries the writer has taken from its queue. -/
  taken : Nat
  /-- No exception has left the coroutine of the writer. -/
  writing : Bool
  /-- What was stored before the process. -/
  found : List (Nat × QueueEntry ℚ)

/-- A process before its first step. -/
def Process.start {C : Type*} (setup : Service.Setup ℚ) (found : List (Nat × QueueEntry ℚ)) :
    Process C where
  setup := setup
  service := .init setup
  taken := 0
  writing := true
  found := found

/-- The tables and the process, if there is one. `stored` are the books that were made durable so
far, with their log ids. -/
structure State (C : Type*) where
  tables : Tables
  process : Option (Process C)
  stored : List (Nat × QueueEntry ℚ)

/-- The steps. -/
inductive Act (C : Type*) where
  /-- `main`. There is a number where a query of the preloading fails, after as many records. -/
  | boot (read : Option Nat)
  | serve (a : Service.Act C ℚ)
  /-- A round of the writer; `skips` says whether a round that is rolled back has used up an id. -/
  | write (calls : Calls) (skips : Bool)
  | exit

theorem first_id_le : 1 ≤ 2 ^ 63 := by decide

theorem no_log_row : ∀ row ∈ ([] : List LogRow), row.id < 1 := fun _ h => absurd h List.not_mem_nil

theorem no_detail_row : ∀ row ∈ ([] : List DetailRow), ∃ id, id < 1 ∧
    row.orderbook_log_id = Decimal.digits id := fun _ h => absurd h List.not_mem_nil

/-- The tables after `init-demo.sql`. -/
def created (securities : List (Nat × Nat)) : Tables where
  securities := securities
  orderbook_log := []
  orderbook_log_details := []
  next_id := 1
  next_id_le := first_id_le
  log_below := no_log_row
  details_below := no_detail_row

/-- Before the first process. -/
def State.init {C : Type*} (securities : List (Nat × Nat)) : State C where
  tables := created securities
  process := none
  stored := []

/-- The server carries out a statement. -/
def execute (t : Tables) : Statement → Option Tables
  | .insertLog params => (t.insertLog params).map Prod.snd
  | .insertDetails groups params => t.insertDetails groups params

variable {C : Type*} [DecidableEq C]

section Step

variable (logSorter : StdSort Tables.LogResult) (detailSorter : StdSort DetailRow)
  (sorter : StdSort (ℚ × ℚ)) (addAbs : ℚ → ℚ → ℚ) (parse : Http.Str → Option (List ℚ × List ℚ))
  (cfg : Config) (securities : List (Nat × Nat))

/-- What a process is started with. -/
def setupOf (t : Tables) (read : Option Nat) : Service.Setup ℚ :=
  let preloaded := Utils.preloadWorksetAsync logSorter detailSorter sorter addAbs t cfg.size.toNat 0 0
  { persist_workset_to_database := cfg.persist_to_database
    capacity := cfg.size
    rows := match read with
      | none => preloaded.pushed.map Prod.snd
      | some n => (preloaded.pushed.take n).map Prod.snd
    completed := read.isNone && preloaded.completed }

/-- A round for the oldest entry of the queue. The server answers as if it had carried out a statement
only where it can. -/
def writeRound (s : State C) (p : Process C) (calls : Calls) (skips : Bool) : Option (State C) :=
  match p.writing, p.service.queuePushes[p.taken]? with
  | true, some (_, entry) =>
    if calls.orderbook_log_id = s.tables.next_id then
      ((round entry calls.orderbook_log_id).run.run calls.handler .new).bind fun ended =>
        let made := ended.2.trace.made
        (made.foldlM execute s.tables).map fun tables =>
          { tables := if made = [] ∧ skips then tables.skipId else tables
            process := some { p with taken := p.taken + 1, writing := ended.1.isOk }
            stored := if made = [] then s.stored
              else s.stored ++ [(calls.orderbook_log_id, entry)] }
    else none
  | _, _ => none

/-- One step. -/
def step (s : State C) : Act C → Option (State C)
  | .boot read =>
    match s.process with
    | some _ => none
    | none =>
      let setup := setupOf logSorter detailSorter sorter addAbs cfg s.tables read
      some { s with process := some (.start setup s.stored) }
  | .serve a => s.process.bind fun p =>
      (Service.step parse sorter idValue p.setup p.service a).map fun service =>
        { s with process := some { p with service := service } }
  | .write calls skips => s.process.bind fun p => writeRound s p calls skips
  | .exit => s.process.map fun _ => { s with process := none }

/-- Processes on the tables of `init-demo.sql`. -/
def system : Transition.System (State C) (Act C) :=
  .ofStep (.init securities) (step logSorter detailSorter sorter addAbs parse cfg)

/-- No two books are between their pushes. -/
def State.AtMostOne (s : State C) : Prop := ∀ p ∈ s.process, p.service.AtMostOne

/-- Runs with one server thread. -/
def oneAtATime : Transition.System (State C) (Act C) :=
  (system logSorter detailSorter sorter addAbs parse cfg securities).restrict fun s a =>
    ∀ s', step logSorter detailSorter sorter addAbs parse cfg s a = some s' → s'.AtMostOne

end Step

/-! ## What should outlast a process -/

/-- A book that is read back as it was: the security is known and its own alias, the numbers have six
decimals, no price occurs twice, each half has room for its side, and the timestamp is above the bound
that the query compares it with, the size of the workset. -/
structure Lasting (cfg : Config) (securities : List (Nat × Nat)) (entry : QueueEntry ℚ) : Prop where
  known : ∃ security ∈ securities, security.1 = entry.security_id.toNat
  own_alias : ∀ security ∈ securities, security.1 = entry.security_id.toNat →
    security.2 = entry.security_id.toNat
  late : (cfg.size.toNat : ℚ) < entry.timestamp
  levels : 2 ≤ entry.levels.length
  distinct : (entry.levels.map Prod.fst).Nodup
  fits : Fits entry.levels
  decimals : SixDecimals entry

/-- The books that the workset of a process should show. -/
def Process.books (p : Process C) : List (QueueEntry ℚ) :=
  p.found.map Prod.snd ++ p.service.worksetPushes.map fun push => push.2.1

end DemoManager.Restart

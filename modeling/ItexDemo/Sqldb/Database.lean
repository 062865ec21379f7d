import ItexDemo.Lib.Ownership
import ItexDemo.Sqldb.TransactionObject

/-!
# `sqldb::Database` and its transactions

The pool of connections as the transactions of all threads and the timer of the pool use it. A step
goes from one point where the lock of the pool is taken, or where a coroutine waits, to the next. The
`Connection` objects are numbered in the order of their creation, so that a number is not used again
after the object is deleted; what happens to deleted objects is recorded. A timer of a connection
that expires before its guard is destroyed leaves a call of `timeout_handler` queued, which takes
place at any time later; a call that was aborted returns at once, and is left out.
-/

namespace Sqldb

variable {α : Type}

/-- `PoolStats`. -/
structure PoolStats where
  cumulative_size : UInt64
  counter : UInt64
  deriving DecidableEq, Repr

/-- `PoolStats::update`. -/
def PoolStats.update (stats : PoolStats) (value : Nat) : PoolStats where
  cumulative_size := stats.cumulative_size + UInt64.ofNat value
  counter := stats.counter + 1

/-- The `Connection` objects. -/
structure Heap (α : Type) where
  link : Nat → Link α
  /-- The number of the next object. -/
  next : Nat
  /-- The objects that `delete` was called on. -/
  deleted : List Nat
  /-- The objects that were used or put into the pool after they were deleted. -/
  misused : List Nat

namespace Heap

/-- The object is used or put into the pool. -/
def use (h : Heap α) (c : Nat) : Heap α :=
  if c ∈ h.deleted then { h with misused := h.misused ++ [c] } else h

/-- A call on the object leaves it in this state. -/
def set (h : Heap α) (c : Nat) (l : Link α) : Heap α :=
  { h.use c with link := Function.update h.link c l }

/-- `delete`. -/
def delete (h : Heap α) (c : Nat) : Heap α := { h with deleted := h.deleted ++ [c] }

/-- `new Connection`. -/
def alloc (h : Heap α) : Heap α :=
  { h with link := Function.update h.link h.next .unconnected, next := h.next + 1 }

end Heap

/-- `Database`. -/
structure Database (α : Type) where
  heap : Heap α
  pool_queue_ : List Nat
  pool_stats_per_period_ : PoolStats
  /-- How often the front of an empty queue was deleted and popped. -/
  emptyPops : Nat

namespace Database

/-- `Database::Database`. -/
def new : Database α where
  heap := { link := fun _ => .unconnected, next := 0, deleted := [], misused := [] }
  pool_queue_ := []
  pool_stats_per_period_ := { cumulative_size := 0, counter := 0 }
  emptyPops := 0

/-- The loop of `async_get_connection` over the pool, which is left with a connection that is
`CONNECTED`. An established connection is otherwise `BAD`; `bad` says which ones turn out to be. -/
def popLoop (bad : Nat → Bool) : List Nat → Database α → Option Nat × Database α
  | [], d => (none, { d with pool_queue_ := [] })
  | connection :: queue, d =>
    let d := { d with
      heap := d.heap.use connection
      pool_stats_per_period_ := d.pool_stats_per_period_.update queue.length }
    if (d.heap.link connection).bad || bad connection then
      popLoop bad queue { d with heap := d.heap.delete connection }
    else (some connection, { d with pool_queue_ := queue })

/-- `Database::return_connection`. -/
def returnConnection (d : Database α) (connection : Nat) : Database α :=
  { d with
    heap := d.heap.use connection
    pool_queue_ := d.pool_queue_ ++ [connection]
    pool_stats_per_period_ :=
      d.pool_stats_per_period_.update (d.pool_queue_ ++ [connection]).length }

/-- The loop of `pool_shrink_timer_handler`. -/
def shrinkLoop : Nat → Database α → Database α
  | 0, d => d
  | n + 1, d =>
    match d.pool_queue_ with
    | [] => shrinkLoop n { d with emptyPops := d.emptyPops + 1 }
    | connection :: queue =>
      shrinkLoop n { d with heap := d.heap.delete connection, pool_queue_ := queue }

/-- `num_to_shrink` of `pool_shrink_timer_handler`. -/
def numToShrink (d : Database α) : UInt64 :=
  let current_size := UInt64.ofNat d.pool_queue_.length
  let average_size :=
    if d.pool_stats_per_period_.counter = 0 then 0
    else d.pool_stats_per_period_.cumulative_size / d.pool_stats_per_period_.counter
  if current_size > average_size then (current_size - average_size) / 2 else 0

/-- `Database::pool_shrink_timer_handler`. -/
def poolShrinkTimerHandler (d : Database α) (aborted : Bool) : Database α :=
  if aborted then d
  else
    { d.shrinkLoop d.numToShrink.toNat with
      pool_stats_per_period_ := { cumulative_size := 0, counter := 0 } }

/-- `Connection::timeout_handler` of the connection, which the handler has as a plain pointer. -/
def timeoutHandler (d : Database α) (connection : Nat) : Database α :=
  { d with heap := d.heap.set connection { d.heap.link connection with bad := true } }

end Database

namespace Transaction

/-- What a transaction is doing. -/
inductive Activity (α : Type) where
  | idle
  | call (p : Running α)
  | destructor (p : Running α)

/-- A transaction object. `pending` is the variable `connection` of `async_get_connection`. -/
structure Instance (α : Type) where
  mode_ : ImplicitAutocommit
  /-- `db_` is not null. -/
  db_ : Bool
  connection_ : Option Nat
  pending : Option Nat
  trace : Trace α
  activity : Activity α

namespace Instance

/-- `Transaction::Transaction`. -/
def new (mode : ImplicitAutocommit) : Instance α where
  mode_ := mode
  db_ := true
  connection_ := none
  pending := none
  trace := { made := [], outside := [], spoiled := false, undone := false }
  activity := .idle

/-- An object after it was moved from. -/
def movedFrom (x : Instance α) : Instance α := { x with db_ := false, connection_ := none }

/-- What the environment decides when an operation is answered: which connections are found to be
`BAD`, whether connecting succeeds, how a command goes, and how many expired calls of
`timeout_handler` are queued when its guards are destroyed. -/
structure Choice where
  bad : Nat → Bool
  connected : Bool
  outcome : Outcome
  late : Nat

/-- An operation of a transaction. There is no answer where the code uses a null pointer. -/
def answer (x : Instance α) (d : Database α) (choice : Choice) :
    (op : Op α) → Option (Ans op × Instance α × Database α)
  | .isNull => some (x.connection_.isNone, x, d)
  | .popPool =>
    if x.db_ then
      let popped := d.popLoop choice.bad d.pool_queue_
      some (popped.1.isSome, { x with pending := popped.1 }, popped.2)
    else none
  | .newConnection =>
    some ((), { x with pending := some d.heap.next }, { d with heap := d.heap.alloc })
  | .connect => x.pending.map fun connection =>
      (choice.connected, { x with pending := if choice.connected then some connection else none },
        { d with heap := d.heap.set connection .connected })
  | .assign => some ((), { x with
      connection_ := x.pending
      pending := none
      trace := { x.trace with spoiled := false, undone := false } }, d)
  | .exec cmd => x.connection_.map fun connection =>
      let l := d.heap.link connection
      (answerOf (l.Returns cmd choice.outcome), { x with trace := x.trace.after l cmd choice.outcome },
        { d with heap := d.heap.set connection (l.after cmd choice.outcome) })
  | .isBad => x.connection_.map fun connection =>
      let l := d.heap.link connection
      (l.bad || choice.bad connection, x,
        { d with heap := d.heap.set connection { l with bad := l.bad || choice.bad connection } })
  | .deleteConnection => x.connection_.map fun connection =>
      ((), { x with connection_ := none }, { d with heap := d.heap.delete connection })
  | .returnConnection =>
    if x.db_ then x.connection_.map fun connection =>
      ((), { x with connection_ := none }, d.returnConnection connection)
    else none

/-- The operation that the object waits for. -/
def operation (x : Instance α) : Option (Op α) :=
  match x.activity with
  | .call (.call op _) => some op
  | .destructor (.call op _) => some op
  | _ => none

/-- The connection whose timer the operation arms. -/
def armed (x : Instance α) : Option Nat :=
  match x.operation with
  | some .connect => x.pending
  | some (.exec _) => x.connection_
  | _ => none

/-- The calls of `timeout_handler` that the operation leaves queued, by their connections. -/
def leaves (x : Instance α) (choice : Choice) : List Nat :=
  match x.armed with
  | some connection => List.replicate choice.late connection
  | none => []

/-- The connections that the operation deletes. -/
def deletes (x : Instance α) (d : Database α) (choice : Choice) : List Nat :=
  match x.operation with
  | some .popPool => d.pool_queue_.takeWhile fun c => (d.heap.link c).bad || choice.bad c
  | some .deleteConnection => x.connection_.toList
  | _ => []

/-- The function that runs on an object goes on after an answer. -/
def resume (x : Instance α) (d : Database α) (choice : Choice) :
    Option (Instance α × Database α) :=
  match x.activity with
  | .call (.call op k) => (x.answer d choice op).map fun r =>
      ({ r.2.1 with activity := .call (k r.1) }, r.2.2)
  | .destructor (.call op k) => (x.answer d choice op).map fun r =>
      ({ r.2.1 with activity := .destructor (k r.1) }, r.2.2)
  | _ => none

end Instance

end Transaction

namespace Database

open Transaction

/-- A database with its transaction objects, and the calls of `timeout_handler` that are queued in the
`io_service`, by their connections. -/
structure State (α : Type) where
  database : Database α
  transactions : Nat → Option (Instance α)
  handlers : List Nat

/-- The object `t` becomes this one, or is gone. -/
def State.set (s : State α) (t : Nat) (x : Option (Instance α)) : State α :=
  { s with transactions := Function.update s.transactions t x }

/-- A database without transactions. -/
def State.init : State α where
  database := .new
  transactions := fun _ => none
  handlers := []

/-- The steps. A transaction object is used by one caller at a time: a call, the destructor and a
move begin when nothing runs on it. -/
inductive Act (α : Type) where
  | construct (t : Nat) (mode : ImplicitAutocommit)
  /-- `t'` is constructed from `t`. -/
  | moveConstruct (t t' : Nat)
  | call (t : Nat) (c : Call α)
  | destruct (t : Nat)
  /-- The operation that `t` waits for takes place. -/
  | answer (t : Nat) (choice : Instance.Choice)
  /-- The function that runs on `t` ends. -/
  | finish (t : Nat)
  | shrink (aborted : Bool)
  /-- A queued call of `timeout_handler` takes place. -/
  | timeout (i : Nat)

/-- The object `t` when nothing runs on it. -/
def State.idle (s : State α) (t : Nat) : Option (Instance α) :=
  (s.transactions t).filter fun x => match x.activity with
    | .idle => true
    | _ => false

/-- One step. -/
def step (s : State α) : Act α → Option (State α)
  | .construct t mode =>
    if (s.transactions t).isNone then some (s.set t (some (.new mode))) else none
  | .moveConstruct t t' => (s.idle t).bind fun x =>
      if (s.transactions t').isNone then some ((s.set t (some x.movedFrom)).set t' (some x)) else none
  | .call t c => (s.idle t).map fun x =>
      s.set t (some { x with activity := .call (c.code x.mode_).run })
  | .destruct t => (s.idle t).map fun x =>
      s.set t (some { x with activity := .destructor (Transaction.destruct x.mode_).run })
  | .answer t choice => (s.transactions t).bind fun x => (x.resume s.database choice).map fun r =>
      { s.set t (some r.1) with database := r.2, handlers := s.handlers ++ x.leaves choice }
  | .finish t => (s.transactions t).bind fun x =>
      match x.activity with
      | .call (.ret _) => some (s.set t (some { x with activity := .idle }))
      | .destructor (.ret _) => some (s.set t none)
      | _ => none
  | .shrink aborted =>
    some { s with database := s.database.poolShrinkTimerHandler aborted }
  | .timeout i => s.handlers[i]?.map fun c =>
      { s with database := s.database.timeoutHandler c, handlers := s.handlers.eraseIdx i }

/-- The runs of a database with any number of transactions. -/
def runs : Transition.System (State α) (Act α) := .ofStep .init step

/-- Who owns a connection. -/
inductive Owner where
  | pool
  | transaction (t : Nat)
  /-- The `async_get_connection` that runs for `t`. -/
  | getting (t : Nat)
  deriving DecidableEq, Repr

/-- The connections of an owner. -/
def State.Owns (s : State α) : Owner → Nat → Prop
  | .pool, c => c ∈ s.database.pool_queue_
  | .transaction t, c => ∃ x, s.transactions t = some x ∧ x.connection_ = some c
  | .getting t, c => ∃ x, s.transactions t = some x ∧ x.pending = some c

/-- The connections are owned and used as they should be. -/
structure Sound (s : State α) : Prop where
  owners : Ownership.Exclusive s.Owns
  once : s.database.pool_queue_.Nodup
  deleted : s.database.heap.deleted.Nodup
  misused : s.database.heap.misused = []
  emptyPops : s.database.emptyPops = 0
  blocks : ∀ c ∈ s.database.pool_queue_, (s.database.heap.link c).block = .none

/-- The texts of the users contain no transaction control. -/
def PlainSql : Act α → Prop
  | .call _ (.exec query) => query.data?.isSome = true
  | _ => True

instance : (a : Act α) → Decidable (PlainSql a)
  | .call _ (.exec query) => inferInstanceAs (Decidable (query.data?.isSome = true))
  | .call _ .commit => .isTrue trivial
  | .call _ .rollback => .isTrue trivial
  | .construct _ _ => .isTrue trivial
  | .moveConstruct _ _ => .isTrue trivial
  | .destruct _ => .isTrue trivial
  | .answer _ _ => .isTrue trivial
  | .finish _ => .isTrue trivial
  | .shrink _ => .isTrue trivial
  | .timeout _ => .isTrue trivial

/-- The connections that a step deletes. -/
def State.deletes (s : State α) : Act α → List Nat
  | .answer t choice =>
    match s.transactions t with
    | some x => x.deletes s.database choice
    | none => []
  | .shrink false => s.database.pool_queue_.take s.database.numToShrink.toNat
  | _ => []

/-- No step deletes a connection of which a call of `timeout_handler` is queued. -/
def Settled (s : State α) (a : Act α) : Prop := ∀ c ∈ s.deletes a, c ∉ s.handlers

instance (s : State α) (a : Act α) : Decidable (Settled s a) :=
  inferInstanceAs (Decidable (∀ c ∈ s.deletes a, c ∉ s.handlers))

end Database

end Sqldb

import Mathlib.Logic.Function.Basic
import ItexDemo.Lib.AssocMap
import ItexDemo.Lib.Ownership
import ItexDemo.Lib.TransitionSystem

/-!
# `http::Server` and the life of its `Connection` objects

The acceptors, the coroutines of the connections, the periodic deletion and `Server::stop` take
their steps in any order; a step that holds a lock is taken as one, and `Server::stop` keeps the
lock of the pool over several steps. Objects are named by numbers that are never used twice. A
deleted object keeps its last values, which is what a late access to it would read at best.
-/

namespace Http.Server

/-- The fields of a `Connection` that its server depends on. -/
structure Connection (E : Type*) where
  /-- The object has not been deleted. -/
  live : Bool
  /-- The remote endpoint of the socket, while it is open. -/
  socket_ : Option E
  running_ : Bool
  timeout_occurred_ : Bool
  deletion_sheduled_ : Bool
  id_ : Nat

namespace Connection

variable {E : Type*} (idGen : E → Nat)

/-- `Connection::reinit`. The id is a hash of the remote endpoint. -/
def reinit (c : Connection E) (socket : E) : Connection E :=
  { c with
    socket_ := some socket
    running_ := false
    timeout_occurred_ := false
    deletion_sheduled_ := false
    id_ := idGen socket }

/-- The constructor, which ends with `reinit`. -/
def new (socket : E) : Connection E :=
  reinit idGen { live := true, socket_ := none, running_ := false, timeout_occurred_ := false,
                 deletion_sheduled_ := false, id_ := 0 } socket

/-- `Connection::stop`. -/
def stop (c : Connection E) : Connection E := { c with running_ := false, socket_ := none }

/-- `delete`. -/
def delete (c : Connection E) : Connection E := { c with live := false }

end Connection

/-- Where the coroutine of `Connection::start` stands: in its request loop, or before a step of
`kill`. -/
inductive Pc where
  | loop
  | killCheck
  | killStop
  | killSchedule
  | killFlag
  | done
  deriving DecidableEq, Repr

/-- The coroutine may still call `schedule_connection_delete`. -/
def Pc.ScheduleAhead (pc : Pc) : Prop :=
  pc = .loop ∨ pc = .killCheck ∨ pc = .killStop ∨ pc = .killSchedule

/-- A coroutine started on the object `conn`. -/
structure Coroutine where
  conn : Nat
  pc : Pc
  deriving DecidableEq, Repr

/-- Where an acceptor of `Server::start` stands, with its local variables. -/
inductive AcceptorPc (E : Type*) where
  | loop
  | accepting
  | reusing (socket : E) (conn : Nat)
  | creating (socket : E)
  | inserting (conn : Nat)
  | starting (conn : Nat)
  | finished

/-- The object that the local variable of an acceptor refers to: from the time it is popped or
created until it is started. -/
def AcceptorPc.conn {E : Type*} : AcceptorPc E → Option Nat
  | .reusing _ conn => some conn
  | .inserting conn => some conn
  | .starting conn => some conn
  | _ => none

/-- Where `Server::stop` stands. In `draining` and `moving` it holds the lock of the pool. -/
inductive StopPc where
  | idle
  | called
  | draining
  | moving (conn : Nat)
  deriving DecidableEq, Repr

/-- The lock of the pool is taken by `Server::stop`. -/
def StopPc.locksPool : StopPc → Bool
  | .draining => true
  | .moving _ => true
  | _ => false

/-- A server with acceptors `A` and sockets of remote endpoints `E`. -/
structure State (A E : Type*) where
  running_ : Bool
  connection_pool_ : List (Nat × Nat)
  connections_to_delete_ : List Nat
  heap : Nat → Option (Connection E)
  acceptors : A → AcceptorPc E
  coroutines : Nat → Option Coroutine
  stopper : StopPc

/-- The steps. `k` names a coroutine, `conn` a new object. -/
inductive Act (A E : Type*) where
  | check (a : A)
  | acceptFails (a : A)
  | accept (a : A) (socket : E)
  | reinit (a : A)
  | create (a : A) (conn : Nat)
  | insert (a : A)
  | start (a : A) (k : Nat)
  | serve (k : Nat)
  | leave (k : Nat)
  | kill (k : Nat)
  | sweep
  | stopCall
  | stopLock
  | stopNext (id : Nat)
  | stopMove
  | stopUnlock

variable {A E : Type*} [DecidableEq A]

namespace State

/-- Before `Server::start` has run anything. -/
def new : State A E where
  running_ := true
  connection_pool_ := []
  connections_to_delete_ := []
  heap := fun _ => none
  acceptors := fun _ => .loop
  coroutines := fun _ => none
  stopper := .idle

/-- An access to the object `o`. -/
def modify (s : State A E) (o : Nat) (f : Connection E → Connection E) : State A E :=
  { s with heap := Function.update s.heap o ((s.heap o).map f) }

/-- Acceptor `a` goes on to `pc`. -/
def setAcceptor (s : State A E) (a : A) (pc : AcceptorPc E) : State A E :=
  { s with acceptors := Function.update s.acceptors a pc }

/-- Coroutine `k` goes on to `pc`. -/
def setCoroutine (s : State A E) (k : Nat) (co : Coroutine) : State A E :=
  { s with coroutines := Function.update s.coroutines k (some co) }

/-- `move_connection_to_delete_queue_nolock`. -/
def moveConnectionToDeleteQueueNolock (s : State A E) (id : Nat) : State A E :=
  match AssocMap.find s.connection_pool_ id with
  | some conn =>
    { s with
      connections_to_delete_ := s.connections_to_delete_ ++ [conn]
      connection_pool_ := AssocMap.erase s.connection_pool_ id }
  | none => s

/-- `process_sheduled_connection_delete`. -/
def processSheduledConnectionDelete (s : State A E) : State A E :=
  { s with
    connections_to_delete_ := []
    heap := fun o => if o ∈ s.connections_to_delete_ then (s.heap o).map .delete else s.heap o }

end State

variable (idGen : E → Nat)

/-- The next step of `kill` by the coroutine `co`, which has the name `k`. -/
def killStep (s : State A E) (k : Nat) (co : Coroutine) (c : Connection E) : Option (State A E) :=
  match co.pc with
  | .killCheck =>
    some (s.setCoroutine k { co with pc := if c.deletion_sheduled_ then .done else .killStop })
  | .killStop => some ((s.modify co.conn .stop).setCoroutine k { co with pc := .killSchedule })
  | .killSchedule =>
    -- the id is passed by reference, so it is read with the locks held
    if s.stopper.locksPool then none
    else some ((s.moveConnectionToDeleteQueueNolock c.id_).setCoroutine k
      { co with pc := .killFlag })
  | .killFlag =>
    some ((s.modify co.conn fun c => { c with deletion_sheduled_ := true }).setCoroutine k
      { co with pc := .done })
  | _ => none

/-- One step of the server, when it is enabled. -/
def next (s : State A E) : Act A E → Option (State A E)
  | .check a =>
    match s.acceptors a with
    | .loop => some (s.setAcceptor a (if s.running_ then .accepting else .finished))
    | _ => none
  | .acceptFails a =>
    match s.acceptors a with
    | .accepting => some (s.setAcceptor a .loop)
    | _ => none
  | .accept a socket =>
    match s.acceptors a with
    | .accepting =>
      match s.connections_to_delete_ with
      | conn :: rest =>
        some ({ s with connections_to_delete_ := rest }.setAcceptor a (.reusing socket conn))
      | [] => some (s.setAcceptor a (.creating socket))
    | _ => none
  | .reinit a =>
    match s.acceptors a with
    | .reusing socket conn =>
      some ((s.modify conn fun c => c.reinit idGen socket).setAcceptor a (.inserting conn))
    | _ => none
  | .create a conn =>
    match s.acceptors a, s.heap conn with
    | .creating socket, none =>
      some ({ s with heap := Function.update s.heap conn (some (.new idGen socket)) }.setAcceptor a
        (.inserting conn))
    | _, _ => none
  | .insert a =>
    match s.acceptors a with
    | .inserting conn =>
      match s.heap conn with
      | some c =>
        if s.stopper.locksPool then none
        else some ({ s with connection_pool_ := AssocMap.assign s.connection_pool_ c.id_ conn
                   }.setAcceptor a (.starting conn))
      | none => none
    | _ => none
  | .start a k =>
    match s.acceptors a, s.coroutines k with
    | .starting conn, none =>
      some (((s.modify conn fun c => { c with running_ := true }).setCoroutine k
        { conn := conn, pc := .loop }).setAcceptor a .loop)
    | _, _ => none
  | .serve k =>
    match s.coroutines k with
    | some co =>
      match co.pc, s.heap co.conn with
      | .loop, some c =>
        if c.socket_.isSome ∧ c.running_ then
          some (s.modify co.conn fun c => { c with timeout_occurred_ := false })
        else none
      | _, _ => none
    | none => none
  | .leave k =>
    match s.coroutines k with
    | some co => if co.pc = .loop then some (s.setCoroutine k { co with pc := .killCheck }) else none
    | none => none
  | .kill k =>
    match s.coroutines k with
    | some co => (s.heap co.conn).bind (killStep s k co)
    | none => none
  | .sweep => some s.processSheduledConnectionDelete
  | .stopCall =>
    if s.stopper = .idle then some { s with running_ := false, stopper := .called } else none
  | .stopLock => if s.stopper = .called then some { s with stopper := .draining } else none
  | .stopNext id =>
    match s.stopper, AssocMap.find s.connection_pool_ id with
    | .draining, some conn => some { s.modify conn .stop with stopper := .moving conn }
    | _, _ => none
  | .stopMove =>
    match s.stopper with
    | .moving conn =>
      (s.heap conn).map fun c =>
        { s.moveConnectionToDeleteQueueNolock c.id_ with stopper := .draining }
    | _ => none
  | .stopUnlock =>
    if s.stopper = .draining ∧ s.connection_pool_ = [] then some { s with stopper := .idle }
    else none

/-- Any interleaving of the steps. -/
def system (A : Type*) [DecidableEq A] {E : Type*} (idGen : E → Nat) :
    Transition.System (State A E) (Act A E) :=
  Transition.System.ofStep State.new (next idGen)

/-! ## Who refers to an object -/

/-- The places that refer to objects. -/
inductive Place (A : Type*) where
  | pool (id : Nat)
  | queue
  | acceptor (a : A)

/-- The pool has the object. -/
def Pooled (s : State A E) (o : Nat) : Prop := ∃ id, AssocMap.find s.connection_pool_ id = some o

/-- The place refers to the object. The insertion hands the object of an acceptor over to the pool;
the acceptor still starts it, and counts as soon as the pool has it no more. -/
def RefersTo (s : State A E) : Place A → Nat → Prop
  | .pool id, o => AssocMap.find s.connection_pool_ id = some o
  | .queue, o => o ∈ s.connections_to_delete_
  | .acceptor a, o => (s.acceptors a).conn = some o ∧ (s.acceptors a = .starting o → ¬Pooled s o)

/-- The object has not been deleted. -/
def Live (s : State A E) (o : Nat) : Prop := ∃ c, s.heap o = some c ∧ c.live = true

/-- `start` has been called on the object. -/
def Started (s : State A E) (o : Nat) : Prop := ∃ k co, s.coroutines k = some co ∧ co.conn = o

/-- Connection `o` was in the pool in `s` and no longer is in `s'`. -/
def MovedFromPool (s s' : State A E) (o : Nat) : Prop :=
  Pooled s o ∧ ¬Pooled s' o

/-- What the bookkeeping has to guarantee in a state. -/
structure IdentitiesApart (s : State A E) : Prop where
  /-- A live object is referred to at most once. -/
  once : ∀ o, Live s o → s.connections_to_delete_.count o ≤ 1 ∧
    ∀ p q, RefersTo s p o → RefersTo s q o → p = q
  /-- The variables of two acceptors do not refer to one live object. -/
  variablesApart : ∀ o, Live s o → ∀ a b, (s.acceptors a).conn = some o →
    (s.acceptors b).conn = some o → a = b
  /-- The pool has it under its current id. -/
  keyed : ∀ id o c, RefersTo s (.pool id) o → s.heap o = some c → c.live = true → c.id_ = id
  /-- A live object that was started is not dropped. -/
  kept : ∀ o, Live s o → Started s o → ∃ p, RefersTo s p o
  /-- `schedule_connection_delete` called by a connection moves this connection to the queue when
  the pool has it, and no other one. -/
  schedulesItself : ∀ k co s', s.coroutines k = some co → co.pc = .killSchedule →
    next idGen s (.kill k) = some s' →
      (∀ o, MovedFromPool s s' o → o = co.conn) ∧
      (Pooled s co.conn → MovedFromPool s s' co.conn ∧ RefersTo s' .queue co.conn)

/-- The object is in the pool, or is being inserted or started, or has a coroutine that may still
schedule its deletion. -/
def InUse (s : State A E) (o : Nat) : Prop :=
  Pooled s o ∨
  (∃ a, s.acceptors a = .inserting o ∨ s.acceptors a = .starting o) ∨
  ∃ k co, s.coroutines k = some co ∧ co.conn = o ∧ co.pc.ScheduleAhead

/-- No other object in use has the id of the socket. -/
def FreshSocket (s : State A E) (conn : Nat) (socket : E) : Prop :=
  ∀ o c, o ≠ conn → InUse s o → s.heap o = some c → c.id_ ≠ idGen socket

/-- The accepted socket that a step gives to an object is fresh. -/
def AcceptsFresh (s : State A E) : Act A E → Prop
  | .reinit a => ∀ socket conn, s.acceptors a = .reusing socket conn → FreshSocket idGen s conn socket
  | .create a conn => ∀ socket, s.acceptors a = .creating socket → FreshSocket idGen s conn socket
  | _ => True

/-- The step does not put an object in the queue that an acceptor is about to start. -/
def QueuesStarted (s : State A E) : Act A E → Prop
  | .kill k => ∀ co, s.coroutines k = some co → co.pc = .killSchedule →
      ∀ a, s.acceptors a ≠ .starting co.conn
  | .stopNext id => ∀ conn, AssocMap.find s.connection_pool_ id = some conn →
      ∀ a, s.acceptors a ≠ .starting conn
  | _ => True

/-- The condition under which a step keeps the identities apart. -/
def KeepsApart (s : State A E) (act : Act A E) : Prop :=
  AcceptsFresh idGen s act ∧ QueuesStarted s act

end Http.Server

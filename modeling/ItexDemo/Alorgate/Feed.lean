import ItexDemo.Alorgate.Gate
import ItexDemo.DemoManager.Service

/-!
# The gate and the manager

The handlers of the gate run one after the other, and one that posts a book waits for the response or
gives up. A request reaches the manager once at most, on any connection and at any time. All other
clients ask for something else than to add a book.
-/

namespace Alorgate.Feed

open DemoManager

variable {C D : Type*}

/-- A call of `rest_client_.Execute`: what is sent, and the number of events before that of the frame. -/
structure Call where
  resource : List Char
  body : Http.Str
  time : Nat

/-- The request that the manager reads; the client is on the same host. -/
def Call.toRequest (call : Call) (port : Nat) : ApiRequest where
  method := .post
  path := '/' :: call.resource
  address := "127.0.0.1".toList
  port := port
  body := call.body

/-- The events of the slot so far, the gate and the manager. `calling` is the call that the gate waits
for, `arrived` are the calls whose requests have been read, `carries` is the one that a connection is
about, `pushed` are those whose books have been pushed and `answers` the responses of the handlers. -/
structure State (C D : Type*) where
  events : List (SlotEvent D)
  gate : Securities D
  calls : List Call
  calling : Option Nat
  arrived : List Nat
  carries : C → Option Nat
  manager : Service.State C D
  pushed : List Nat
  answers : List (Nat × Reply)

inductive Act (C D : Type*) where
  | slot (event : SlotEvent D)
  /-- The request of call `n` is read on connection `c`. -/
  | deliver (c : C) (n port : Nat)
  /-- The gate waits no longer. -/
  | giveUp
  | manager (a : Service.Act C D)

/-- Both have been started. -/
def State.init (setup : Service.Setup D) : State C D where
  events := []
  gate := .new
  calls := []
  calling := none
  arrived := []
  carries := fun _ => none
  manager := .init setup
  pushed := []
  answers := []

/-- The request asks for `add_orderbook`. -/
def addsBook (req : ApiRequest) : Bool :=
  match router.get req.path req.method with
  | .ok (.addOrderbook, _) => true
  | _ => false

/-- A request to add a book. -/
def asksToAdd : Service.Act C D → Bool
  | .request _ req => addsBook req
  | _ => false

variable [DecidableEq C]

/-- The manager goes on to `m` by a step of connection `c`. -/
def State.observe (s : State C D) (c : C) (m : Service.State C D) : State C D :=
  match s.carries c with
  | none => { s with manager := m }
  | some n =>
    let s' := { s with
      manager := m
      pushed := s.pushed ++ (m.worksetPushes.drop s.manager.worksetPushes.length).map fun _ => n }
    match m.replies.drop s.manager.replies.length with
    | [] => s'
    | reply :: _ => { s' with
        carries := Function.update s.carries c none
        calling := if s.calling = some n then none else s.calling
        answers := s.answers ++ [(n, reply.2.1)] }

variable [LinearOrder D] [Zero D] [MulOneClass D] [HasDistribNeg D] [IntCast D]
  (StartsWith : List Char → List Char → Bool) (SerializeObject : Data D → Http.Str)
  (parse : Http.Str → Option (List D × List D)) (sorter : StdSort (D × D)) (ofId : UInt64 → D)
  (setup : Service.Setup D)

/-- One step. -/
def step (s : State C D) : Act C D → Option (State C D)
  | .slot event =>
    if s.calling.isSome then none
    else (s.gate.handle StartsWith SerializeObject event).map fun r =>
      let s' := { s with events := s.events ++ [event], gate := r.1 }
      match r.2 with
      | .posted resource body => { s' with
          calls := s.calls ++ [⟨resource, body, s.events.length⟩]
          calling := some s.calls.length }
      | _ => s'
  | .deliver c n port =>
    if n ∈ s.arrived then none
    else (s.calls[n]?).bind fun call =>
      (Service.step parse sorter ofId setup s.manager (.request c (call.toRequest port))).map
        fun m => { s with
          manager := m
          arrived := s.arrived ++ [n]
          carries := Function.update s.carries c (some n) }
  | .giveUp => if s.calling.isSome then some { s with calling := none } else none
  | .manager a =>
    if asksToAdd a then none
    else (Service.step parse sorter ofId setup s.manager a).map fun m =>
      match a.connection with
      | none => { s with manager := m }
      | some c => s.observe c m

/-- The slot, the network, the clients and the manager in any order. -/
def system : Transition.System (State C D) (Act C D) :=
  .ofStep (.init setup) (step StartsWith SerializeObject parse sorter ofId setup)

end Alorgate.Feed

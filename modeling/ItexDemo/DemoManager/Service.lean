import ItexDemo.DemoManager.HttpServerHandler
import ItexDemo.Http.Router
import ItexDemo.Lib.Decimal
import ItexDemo.Lib.TransitionSystem
import ItexDemo.Quant.Workset

/-!
# The demo manager

The requests of all connections and the coroutine that preloads the workset. Whatever they share is
reached in one step at a time: the flag of `RequestHandlerFactory`, the queue of the order-book writer
and the workset. `parse` stands for `rapidjson`: the arrays `prices` and `volumes` of a body, or
nothing where an assertion of it fails, which ends the process. The pictures of `get_workset_png` are
left out, and of a subscriber the workset sees nothing here.
-/

namespace DemoManager

open Http Quant

/-! ## One request -/

/-- The functions that `HTTPServerHandler::HTTPServerHandler` sets. -/
inductive Action where
  | addOrderbook
  | getWorksetPng
  deriving DecidableEq, Repr

/-- `router_`. -/
def router : Router Action :=
  ((Router.new.set "/itex-demo/securities/:id/orderbook".toList .post .addOrderbook).set
    "/itex-demo/workset.png".toList .get .getWorksetPng).set
    "/itex-demo/workset.png/:limit/:offset".toList .get .getWorksetPng

/-- What the handler reads of an `http::Request`. -/
structure ApiRequest where
  method : Method
  path : Str
  address : Str
  port : Nat
  body : Str

/-- What a request is answered with. -/
inductive Reply where
  /-- The response of `add_orderbook`. -/
  | added
  | png
  | forbidden (address : Str) (port : Nat)
  | notFound (e : RouterException)
  /-- There is no handler yet. -/
  | notReady
  /-- `std::stoull` threw. -/
  | failed (e : Decimal.Failure)
  /-- `check_timeout_occurred` threw. -/
  | timeout
  deriving DecidableEq

/-- The status code of the response. -/
def Reply.statusCode : Reply → StatusCode
  | added => .code200Ok
  | png => .code200Ok
  | forbidden _ _ => .code403Forbidden
  | notFound _ => .code404NotFound
  | notReady => .code500InternalServerError
  | failed _ => .code500InternalServerError
  | timeout => .code500InternalServerError

/-- The body of the response, where it is neither a picture nor the text of a library. -/
def Reply.body : Reply → Option Str
  | added => some []
  | png => none
  | forbidden address port => some ("Request from ".toList ++ address ++ ":".toList ++
      Decimal.digits port ++ " forbidden".toList)
  | notFound e => some e.what.toList
  | notReady => some "HTTP: Request handler not ready yet. Please try again later.".toList
  | failed _ => none
  | timeout => some "HTTP: Processing timeout".toList

/-- How a handler goes on once it has read the request. -/
inductive Handled (D : Type*) where
  | respond (reply : Reply)
  | throw (e : Decimal.Failure)
  /-- The copied book. -/
  | book (entry : QueueEntry D)
  /-- The limit and the offset, where the URL has them. -/
  | draw (window : Option (Nat × Nat))

/-- `url_parameters[name]`. -/
def urlParameter (params : List (Str × Str)) (name : String) : Str :=
  (AssocMap.find params name.toList).getD []

section Request

variable {D : Type*} (parse : Str → Option (List D × List D))

/-- `add_orderbook` up to the copy of the rows. -/
def readOrderbook (params : List (Str × Str)) (req : ApiRequest) (timestamp : D) :
    Option (Handled D) :=
  if isLocalNetAddress req.address then
    match Decimal.stoull (urlParameter params "id") with
    | .error e => some (.throw e)
    | .ok security_id => (parse req.body).bind fun arrays =>
        (HttpServerHandler.readBook (UInt64.ofNat security_id) timestamp arrays.1 arrays.2).map .book
  else some (.respond (.forbidden req.address req.port))

/-- `get_workset_png` up to the choice of the workset. -/
def readWindow (params : List (Str × Str)) : Handled D :=
  if (AssocMap.find params "limit".toList).isSome && (AssocMap.find params "offset".toList).isSome then
    match Decimal.stoull (urlParameter params "limit"), Decimal.stoull (urlParameter params "offset") with
    | .ok limit, .ok offset => .draw (some (limit, offset))
    | .error e, _ => .throw e
    | _, .error e => .throw e
  else .draw none

/-- `Router::route_request`. -/
def routeRequest (req : ApiRequest) (timestamp : D) : Option (Handled D) :=
  match router.get req.path req.method with
  | .ok (.addOrderbook, params) => readOrderbook parse params req timestamp
  | .ok (.getWorksetPng, params) => some (readWindow params)
  | .error e => some (.respond (.notFound e))

end Request

/-! ## The API -/

/-- What the segments of a path and a method ask for, with the parameters. -/
def dispatch (segments : List Str) (method : Method) : Option (Action × List (Str × Str)) :=
  match segments with
  | [root, workset] =>
    if root = "itex-demo".toList ∧ workset = "workset.png".toList ∧ method = .get then
      some (.getWorksetPng, [])
    else none
  | [root, resource, third, fourth] =>
    if root = "itex-demo".toList ∧ resource = "securities".toList ∧ fourth = "orderbook".toList ∧
        method = .post then
      some (.addOrderbook, [("id".toList, third)])
    else if root = "itex-demo".toList ∧ resource = "workset.png".toList ∧ method = .get then
      some (.getWorksetPng, [("limit".toList, third), ("offset".toList, fourth)])
    else none
  | _ => none

/-! ## All connections -/

namespace Service

variable {C D : Type*}

/-- Where the coroutine of a connection stands. -/
inductive Phase (D : Type*) where
  | reading
  | requested (req : ApiRequest)
  /-- `create_handler` has found the flag set. -/
  | constructing (req : ApiRequest)
  /-- Before `deps_.oqw->push`. -/
  | accepted (entry : QueueEntry D)
  /-- Before `ws_publisher_->push`. -/
  | queued (entry : QueueEntry D)
  | drawing (window : Option (Nat × Nat))
  /-- Before `check_timeout_occurred`. -/
  | answering (reply : Reply)

/-- A connection. Of its handler there is the publisher. -/
structure Conn (D : Type*) where
  handler_ : Option Nat
  phase : Phase D

/-- The coroutine that calls `preload_workset_async`. -/
inductive Preload (D : Type*) where
  | start
  | loading (publisher : Nat) (rest : List (OrderbookEntry D))
  /-- The call has returned. Where there was no row the publisher was not released. -/
  | returned (unreleased : Option Nat)
  | finished (unreleased : Option Nat)
  /-- The call has ended with an exception. -/
  | failed (unreleased : Nat)

/-- The publisher that the coroutine has. -/
def Preload.publisher : Preload D → Option Nat
  | start => none
  | loading publisher _ => some publisher
  | returned unreleased => unreleased
  | finished unreleased => unreleased
  | failed unreleased => some unreleased

/-- The state of the process. `deleted` are the connections that were deleted while their coroutine
was about a request. `accepted` are the books that were copied from requests so far, `queuePushes` and
`worksetPushes` the pushes of the handlers, `loaded` those of the coroutine, `replies` the responses,
each with the response of the handler. -/
structure State (C D : Type*) where
  ws : Workset (OrderbookEntry D)
  ready_ : Bool
  preload : Preload D
  connections : C → Conn D
  deleted : C → Bool
  loaded : List (OrderbookEntry D)
  accepted : List (C × ApiRequest × QueueEntry D)
  queuePushes : List (C × QueueEntry D)
  worksetPushes : List (C × QueueEntry D × OrderbookEntry D)
  replies : List (C × Reply × Reply)

/-- The steps. `timedOut` says whether the timeout has occurred. -/
inductive Act (C D : Type*) where
  | request (c : C) (req : ApiRequest)
  | createHandler (c : C)
  | getPublisher (c : C)
  | route (c : C) (timestamp : D)
  | pushQueue (c : C)
  | pushWorkset (c : C)
  | draw (c : C)
  | answer (c : C) (timedOut : Bool)
  /-- The connection is deleted, with its handler. -/
  | close (c : C)
  | preloadStart
  | preloadPush
  | preloadEnd
  | setReady

/-- What the process is started with: the setting of `Workset.persist_to_database`, the size of the
workset, and the entries of the rows to preload, with whether all rows come to an entry. -/
structure Setup (D : Type*) where
  persist_workset_to_database : Bool
  capacity : UInt64
  rows : List (OrderbookEntry D)
  completed : Bool

/-- Before the first step; `set_ready(false)` has been called. -/
def State.init (setup : Setup D) : State C D where
  ws := .new setup.capacity
  ready_ := false
  preload := .start
  connections := fun _ => { handler_ := none, phase := .reading }
  deleted := fun _ => false
  loaded := []
  accepted := []
  queuePushes := []
  worksetPushes := []
  replies := []

variable [DecidableEq C]

/-- Connection `c` goes on to phase `p`. -/
def State.setPhase (s : State C D) (c : C) (p : Phase D) : State C D :=
  { s with connections := Function.update s.connections c { s.connections c with phase := p } }

/-- The response is sent: `reply`, for the response `response` of the handler. -/
def State.send (s : State C D) (c : C) (response reply : Reply) : State C D :=
  { s.setPhase c .reading with replies := s.replies ++ [(c, response, reply)] }

/-- The book of a request is copied. -/
def State.accept (s : State C D) (c : C) (req : ApiRequest) (entry : QueueEntry D) : State C D :=
  { s.setPhase c (.accepted entry) with accepted := s.accepted ++ [(c, req, entry)] }

/-- The step after an outcome. -/
def State.goOn (s : State C D) (c : C) (req : ApiRequest) : Handled D → State C D
  | .respond reply => s.setPhase c (.answering reply)
  | .throw e => s.send c (.failed e) (.failed e)
  | .book entry => s.accept c req entry
  | .draw window => s.setPhase c (.drawing window)

/-- The workset after `~HTTPServerHandler` of the handler of `c`. -/
def State.released (s : State C D) (c : C) : Workset (OrderbookEntry D) :=
  match (s.connections c).handler_ with
  | none => s.ws
  | some publisher => s.ws.removePublisher publisher

/-- The books of the requests of connection `c`, in their order. -/
def State.acceptedBy (s : State C D) (c : C) : List (QueueEntry D) :=
  s.accepted.filterMap fun book => if book.1 = c then some book.2.2 else none

/-- The books of connection `c` in the queue pushes, in their order. -/
def State.queuedBy (s : State C D) (c : C) : List (QueueEntry D) :=
  s.queuePushes.filterMap fun push => if push.1 = c then some push.2 else none

/-- The books of connection `c` in the workset pushes. -/
def State.pushedBy (s : State C D) (c : C) : List (QueueEntry D) :=
  s.worksetPushes.filterMap fun push => if push.1 = c then some push.2.1 else none

/-- The book that has not been pushed to the workset. -/
def Phase.pending : Phase D → List (QueueEntry D)
  | accepted entry => [entry]
  | queued entry => [entry]
  | _ => []

/-- The book between the two pushes. -/
def Phase.inFlight : Phase D → List (QueueEntry D)
  | queued entry => [entry]
  | _ => []

/-- The requests of connection `c` that `add_orderbook` came to the end of and that were answered. -/
def State.addedBy (s : State C D) (c : C) : Nat :=
  s.replies.countP fun reply => reply.1 = c ∧ reply.2.1 = .added

/-- The response of `add_orderbook` has not been sent. -/
def Phase.owed : Phase D → Nat
  | answering .added => 1
  | _ => 0

variable [LinearOrder D] [Zero D] (parse : Str → Option (List D × List D)) (sorter : StdSort (D × D))
  (ofId : UInt64 → D) (setup : Setup D)

/-- A step of connection `c`. A publisher that is not in use has been deleted, and a push on it, as
an access outside of an entry, has no defined behaviour. A connection that is deleted between two
requests may be followed by another one. -/
def connectionStep (s : State C D) (c : C) : Act C D → Option (State C D)
  | .request _ req =>
    match (s.connections c).phase with
    | .reading => some (s.setPhase c (.requested req))
    | _ => none
  | .createHandler _ =>
    match s.connections c with
    | { handler_ := none, phase := .requested req } =>
      some (if s.ready_ then s.setPhase c (.constructing req) else s.send c .notReady .notReady)
    | _ => none
  | .getPublisher _ =>
    match (s.connections c).phase with
    | .constructing req => some { s with
        ws := s.ws.getPublisher
        connections := Function.update s.connections c
          { handler_ := some s.ws.nextHandle, phase := .requested req } }
    | _ => none
  | .route _ timestamp =>
    match s.connections c with
    | { handler_ := some _, phase := .requested req } =>
      (routeRequest parse req timestamp).map (s.goOn c req)
    | _ => none
  | .pushQueue _ =>
    match (s.connections c).phase with
    | .accepted entry => some { s.setPhase c (.queued entry) with
        queuePushes := if setup.persist_workset_to_database then s.queuePushes ++ [(c, entry)]
          else s.queuePushes }
    | _ => none
  | .pushWorkset _ =>
    match s.connections c with
    | { handler_ := some publisher, phase := .queued entry } =>
      if s.ws.publishers_ publisher then
        (HttpServerHandler.worksetEntry sorter ofId entry).map fun workset_entry =>
          { s.setPhase c (.answering .added) with
            ws := s.ws.push workset_entry
            worksetPushes := s.worksetPushes ++ [(c, entry, workset_entry)] }
      else none
    | _ => none
  | .draw _ =>
    match (s.connections c).phase with
    | .drawing _ => some (s.setPhase c (.answering .png))
    | _ => none
  | .answer _ timedOut =>
    match (s.connections c).phase with
    | .answering reply => some (s.send c reply (if timedOut then .timeout else reply))
    | _ => none
  | .close _ =>
    match s.connections c with
    | { handler_ := none, phase := .reading } => some s
    | { handler_ := some publisher, phase := .reading } => some { s with
        ws := s.ws.removePublisher publisher
        connections := Function.update s.connections c { handler_ := none, phase := .reading } }
    | _ => some { s with ws := s.released c, deleted := Function.update s.deleted c true }
  | _ => none

/-- A step of the coroutine. -/
def preloadStep (s : State C D) : Act C D → Option (State C D)
  | .preloadStart =>
    match s.preload with
    | .start => some { s with
        ws := s.ws.getPublisher
        preload := .loading s.ws.nextHandle setup.rows }
    | _ => none
  | .preloadPush =>
    match s.preload with
    | .loading publisher (entry :: rest) =>
      if s.ws.publishers_ publisher then some { s with
        ws := s.ws.push entry
        preload := .loading publisher rest
        loaded := s.loaded ++ [entry] }
      else none
    | _ => none
  | .preloadEnd =>
    match s.preload with
    | .loading publisher [] =>
      if !setup.completed then some { s with preload := .failed publisher }
      else if setup.rows = [] then some { s with preload := .returned (some publisher) }
      else some { s with ws := s.ws.removePublisher publisher, preload := .returned none }
    | _ => none
  | .setReady =>
    match s.preload with
    | .returned unreleased => some { s with ready_ := true, preload := .finished unreleased }
    | _ => none
  | _ => none

/-- The connection that makes a step. -/
def Act.connection : Act C D → Option C
  | request c _ => some c
  | createHandler c => some c
  | getPublisher c => some c
  | route c _ => some c
  | pushQueue c => some c
  | pushWorkset c => some c
  | draw c => some c
  | answer c _ => some c
  | close c => some c
  | _ => none

/-- One step. What the coroutine of a deleted connection does has no defined behaviour. -/
def step (s : State C D) (a : Act C D) : Option (State C D) :=
  match a.connection with
  | some c => if s.deleted c then none else connectionStep parse sorter ofId setup s c a
  | none => preloadStep setup s a

/-- The connections and the coroutine in any order. -/
def system : Transition.System (State C D) (Act C D) :=
  .ofStep (.init setup) (step parse sorter ofId setup)

/-- The coroutine is about no request. -/
def Phase.idle : Phase D → Bool
  | reading => true
  | _ => false

/-- Runs in which a connection is deleted between two requests only, as with no call of `Server::stop`
and ids that tell the connections apart. -/
def deletedIdle : Transition.System (State C D) (Act C D) :=
  (system parse sorter ofId setup).restrict fun s a =>
    ∀ c, a = .close c → (s.connections c).phase.idle = true

/-- No two books are between their pushes. -/
def State.AtMostOne (s : State C D) : Prop :=
  ∀ c d, (s.connections c).phase.inFlight ≠ [] → (s.connections d).phase.inFlight ≠ [] → c = d

/-- Runs in which no two books are ever between their pushes, as with one thread, since a handler does
not yield there. -/
def oneAtATime : Transition.System (State C D) (Act C D) :=
  (system parse sorter ofId setup).restrict fun s a =>
    ∀ s', step parse sorter ofId setup s a = some s' → s'.AtMostOne

end Service

end DemoManager

import Mathlib.Logic.Function.Basic
import ItexDemo.Lib.CircularBuffer

/-!
# `itex::quant::Workset`

A ring of entries with any number of publishers and subscribers. Every subscriber keeps an index
into the ring, and a push on a full ring shifts all of them. Each operation holds `workset_lock_`
from its first to its last access, so it is one step here; `clone` takes the lock only for its first
half and is one step as well.

Publishers and subscribers are named by the handles (pointers) that the workset gives out.
-/

/-- The workset. `current_index_` of a subscriber is kept under its handle; the handles that are not
in use have no index. -/
structure Workset (Entry : Type*) where
  capacity_ : UInt64
  workset_ : CircularBuffer Entry
  publishers_ : Nat → Bool
  subscribers_ : Nat → Option UInt64
  /-- The next handle that `new` returns. -/
  nextHandle : Nat
  /-- `set_capacity(capacity_)` in the constructor. -/
  capacity_eq : workset_.capacity = capacity_.toNat

namespace Workset

variable {Entry : Type*}

/-- `Workset(size_t capacity)`. -/
def new (capacity : UInt64) : Workset Entry where
  capacity_ := capacity
  workset_ := CircularBuffer.new capacity.toNat
  publishers_ := fun _ => false
  subscribers_ := fun _ => none
  nextHandle := 0
  capacity_eq := rfl

/-- `size()`. -/
def size (ws : Workset Entry) : UInt64 := UInt64.ofNat ws.workset_.size

/-- `get_publisher()`: the new handle is `nextHandle`. -/
def getPublisher (ws : Workset Entry) : Workset Entry :=
  { ws with
    publishers_ := Function.update ws.publishers_ ws.nextHandle true
    nextHandle := ws.nextHandle + 1 }

/-- `get_subscriber()`: a subscriber starts with index `0`; its handle is `nextHandle`. -/
def getSubscriber (ws : Workset Entry) : Workset Entry :=
  { ws with
    subscribers_ := Function.update ws.subscribers_ ws.nextHandle (some 0)
    nextHandle := ws.nextHandle + 1 }

/-- The shift of an index when the ring drops its oldest entry. -/
def shiftIndex (current_index_ : UInt64) : UInt64 :=
  if current_index_ > 0 then current_index_ - 1 else 0

/-- `Publisher::push`. -/
def push (ws : Workset Entry) (entry : Entry) : Workset Entry :=
  { ws with
    subscribers_ :=
      if ws.workset_.full then fun h => (ws.subscribers_ h).map shiftIndex else ws.subscribers_
    workset_ := ws.workset_.pushBack entry
    capacity_eq := by rw [CircularBuffer.pushBack_capacity, ws.capacity_eq] }

/-- `Subscriber::try_pop` on the subscriber `h` with index `current_index_`. `locked` is the result
of `reader_try_lock`. The popped entry, if any, is the second component. -/
def tryPop (ws : Workset Entry) (h : Nat) (current_index_ : UInt64) (locked : Bool) :
    Workset Entry × Option Entry :=
  if !locked then (ws, none)
  else if !ws.workset_.empty && current_index_ < ws.size then
    ({ ws with subscribers_ := Function.update ws.subscribers_ h (some (current_index_ + 1)) },
      ws.workset_.items[current_index_.toNat]?)
  else (ws, none)

/-- `Subscriber::num_available`. -/
def numAvailable (ws : Workset Entry) (current_index_ : UInt64) : UInt64 :=
  ws.size - current_index_

/-- `Subscriber::clone` of a subscriber with index `current_index_`. -/
def clone (ws : Workset Entry) (current_index_ : UInt64) : Workset Entry :=
  let ws' := ws.getSubscriber
  { ws' with subscribers_ := Function.update ws'.subscribers_ ws.nextHandle (some current_index_) }

/-- `remove_publisher`. -/
def removePublisher (ws : Workset Entry) (h : Nat) : Workset Entry :=
  { ws with publishers_ := Function.update ws.publishers_ h false }

/-- `remove_subscriber`. -/
def removeSubscriber (ws : Workset Entry) (h : Nat) : Workset Entry :=
  { ws with subscribers_ := Function.update ws.subscribers_ h none }

/-- The lock-protected operations. -/
inductive Op (Entry : Type*) where
  | getPublisher
  | getSubscriber
  | push (publisher : Nat) (entry : Entry)
  | tryPop (subscriber : Nat) (locked : Bool)
  | numAvailable (subscriber : Nat)
  | clone (subscriber : Nat)
  | releasePublisher (publisher : Nat)
  | releaseSubscriber (subscriber : Nat)

/-- What an operation returns to its caller: a handle, whether and what was popped, a count. -/
inductive Result (Entry : Type*) where
  | handle (h : Nat)
  | popped (entry : Option Entry)
  | available (n : UInt64)
  | done

/-- One operation. It is called on handles in use only. -/
def step (ws : Workset Entry) : Op Entry → Option (Workset Entry × Result Entry)
  | .getPublisher => some (ws.getPublisher, .handle ws.nextHandle)
  | .getSubscriber => some (ws.getSubscriber, .handle ws.nextHandle)
  | .push p e => if ws.publishers_ p then some (ws.push e, .done) else none
  | .tryPop s locked =>
    (ws.subscribers_ s).map fun i =>
      let r := ws.tryPop s i locked
      (r.1, .popped r.2)
  | .numAvailable s => (ws.subscribers_ s).map fun i => (ws, .available (ws.numAvailable i))
  | .clone s => (ws.subscribers_ s).map fun i => (ws.clone i, .handle ws.nextHandle)
  | .releasePublisher p => if ws.publishers_ p then some (ws.removePublisher p, .done) else none
  | .releaseSubscriber s => (ws.subscribers_ s).map fun _ => (ws.removeSubscriber s, .done)

end Workset

/-!
## The abstract view

An append-only log of everything that was pushed, and a cursor per subscriber.
-/

/-- The cursor of a subscriber: the position it started at, and the next position it asks for. -/
structure Cursor where
  start : Nat
  next : Nat

/-- The log. Only its last `capacity` entries can still be delivered. -/
structure Log (Entry : Type*) where
  capacity : Nat
  pushed : List Entry
  publishers : Nat → Bool
  cursors : Nat → Option Cursor
  nextHandle : Nat

namespace Log

variable {Entry : Type*}

/-- A log without entries. -/
def new (capacity : Nat) : Log Entry where
  capacity := capacity
  pushed := []
  publishers := fun _ => false
  cursors := fun _ => none
  nextHandle := 0

/-- The oldest position that can still be delivered. -/
def base (l : Log Entry) : Nat := l.pushed.length - l.capacity

/-- The position that a cursor delivers next: it skips what was overwritten. -/
def position (l : Log Entry) (c : Cursor) : Nat := max c.next l.base

/-- Start a subscriber at position `p`. -/
def subscribe (l : Log Entry) (p : Nat) : Log Entry :=
  { l with
    cursors := Function.update l.cursors l.nextHandle (some ⟨p, p⟩)
    nextHandle := l.nextHandle + 1 }

/-- An uncontended pop of subscriber `s` delivers the entry at the cursor's position, if there is one,
and moves the cursor just past it. -/
def tryPop (l : Log Entry) (s : Nat) (c : Cursor) (locked : Bool) : Log Entry × Option Entry :=
  if locked = true ∧ l.position c < l.pushed.length then
    ({ l with cursors := Function.update l.cursors s (some { c with next := l.position c + 1 }) },
      l.pushed[l.position c]?)
  else (l, none)

/-- The operations of the workset on the log. -/
def step (l : Log Entry) : Workset.Op Entry → Option (Log Entry × Workset.Result Entry)
  | .getPublisher =>
    some ({ l with
      publishers := Function.update l.publishers l.nextHandle true
      nextHandle := l.nextHandle + 1 }, .handle l.nextHandle)
  | .getSubscriber => some (l.subscribe l.base, .handle l.nextHandle)
  | .push p e => if l.publishers p then some ({ l with pushed := l.pushed ++ [e] }, .done) else none
  | .tryPop s locked =>
    (l.cursors s).map fun c =>
      let r := l.tryPop s c locked
      (r.1, .popped r.2)
  | .numAvailable s =>
    (l.cursors s).map fun c => (l, .available (UInt64.ofNat (l.pushed.length - l.position c)))
  | .clone s => (l.cursors s).map fun c => (l.subscribe c.next, .handle l.nextHandle)
  | .releasePublisher p =>
    if l.publishers p then
      some ({ l with publishers := Function.update l.publishers p false }, .done)
    else none
  | .releaseSubscriber s =>
    (l.cursors s).map fun _ => ({ l with cursors := Function.update l.cursors s none }, .done)

end Log

namespace Workset

variable {Entry : Type*}

/-- The entries pushed by a list of operations. -/
def pushes (ops : List (Op Entry)) : List Entry :=
  ops.filterMap fun
    | .push _ e => some e
    | _ => none

/-- The entry that an operation with its result delivers to subscriber `s`. -/
def delivery (s : Nat) : Op Entry × Result Entry → Option Entry
  | (.tryPop s' _, .popped entry) => if s' = s then entry else none
  | _ => none

/-- The entries delivered to subscriber `s` by a run with the given results. -/
def deliveries (s : Nat) (ops : List (Op Entry)) (results : List (Result Entry)) : List Entry :=
  (ops.zip results).filterMap (delivery s)

end Workset

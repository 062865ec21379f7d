import Mathlib.Algebra.Ring.Rat
import ItexDemo.Lib.TransitionSystem
import ItexDemo.Quant.Drawing
import ItexDemo.Quant.Workset

/-!
# The snapshot of `Utils::draw_workset_png`

A call copies the entries of a workset into a workset of its own while other threads go on with the
shared one, and then takes them from the copy. Its steps are its accesses to the shared workset and
to the copy; what it does in between is part of the step before. What a round of the second loop
draws is not part of the state.
-/

namespace Quant.Drawing

variable {D : Type*}

/-- Where a call is: what it does next. -/
inductive Pc where
  /-- `ows.empty()`. -/
  | entered
  /-- Nothing: it has returned an empty string. -/
  | returned
  /-- `ows.get_subscriber()`. -/
  | checked
  /-- `subscriber->num_available()` for `x_size`. -/
  | subscribed
  /-- `subscriber->num_available()` in the condition of the copying loop. -/
  | testing
  /-- `subscriber->try_pop(e)` in the copying loop. -/
  | popping
  /-- Both releases and `workset.get_subscriber()`. -/
  | copied
  /-- `subscriber->try_pop(e)` in the drawing loop, unless it is at its end. -/
  | drawing
  deriving DecidableEq

/-- The shared workset and the variables of a call. The variable `subscriber` is `subscriber` in the
first half and `reader` in the second. -/
structure Call (D : Type*) where
  ows : Workset (OrderbookEntry D)
  pc : Pc
  subscriber : Option Nat
  x_size : UInt64
  workset : Workset (OrderbookEntry D)
  publisher : Nat
  sec_map : SecMap D
  reader : Option Nat
  /-- What the copying loop has popped. -/
  popped : List (OrderbookEntry D)
  /-- What the drawing loop has popped. -/
  drawn : List (OrderbookEntry D)

/-- A call on a workset. -/
def Call.new (ows : Workset (OrderbookEntry D)) : Call D where
  ows := ows
  pc := .entered
  subscriber := none
  x_size := 0
  workset := .new 0
  publisher := 0
  sec_map := []
  reader := none
  popped := []
  drawn := []

/-- The index of a subscriber that is in use. -/
def current (ws : Workset (OrderbookEntry D)) (subscriber : Option Nat) : Option (Nat × UInt64) := do
  let h ← subscriber
  let current_index_ ← ws.subscribers_ h
  pure (h, current_index_)

variable (a : Arithmetic D)

/-- The next step of the call. `locked` is the result of `reader_try_lock`, if it is a `try_pop`. -/
def Call.own (s : Call D) (locked : Bool) : Option (Call D) :=
  match s.pc with
  | .entered => some { s with pc := if s.ows.workset_.empty then .returned else .checked }
  | .returned => none
  | .checked =>
    some { s with
      ows := s.ows.getSubscriber
      subscriber := some s.ows.nextHandle
      pc := .subscribed }
  | .subscribed =>
    (current s.ows s.subscriber).map fun (_, current_index_) =>
      let x_size := s.ows.numAvailable current_index_
      { s with
        x_size := x_size
        workset := (Workset.new x_size).getPublisher
        publisher := (Workset.new x_size : Workset (OrderbookEntry D)).nextHandle
        pc := .testing }
  | .testing =>
    (current s.ows s.subscriber).map fun (_, current_index_) =>
      { s with pc := if s.ows.numAvailable current_index_ > 0 then .popping else .copied }
  | .popping =>
    (current s.ows s.subscriber).map fun (h, current_index_) =>
      match s.ows.tryPop h current_index_ locked with
      | (ows, none) => { s with ows := ows }
      | (ows, some e) =>
        { s with
          ows := ows
          workset := s.workset.push e
          sec_map := note a s.x_size.toNat s.sec_map e
          popped := s.popped ++ [e]
          pc := .testing }
  | .copied =>
    (current s.ows s.subscriber).map fun (h, _) =>
      let workset := s.workset.removePublisher s.publisher
      { s with
        workset := workset.getSubscriber
        ows := s.ows.removeSubscriber h
        subscriber := none
        reader := some workset.nextHandle
        pc := .drawing }
  | .drawing =>
    if s.drawn.length < s.x_size.toNat then
      (current s.workset s.reader).map fun (h, current_index_) =>
        match s.workset.tryPop h current_index_ locked with
        | (workset, none) => { s with workset := workset }
        | (workset, some e) => { s with workset := workset, drawn := s.drawn ++ [e] }
    else none

/-- The operation is not one on the subscriber of the call: nobody else knows it. -/
def Foreign (subscriber : Option Nat) : Workset.Op (OrderbookEntry D) → Prop
  | .tryPop s _ => subscriber ≠ some s
  | .numAvailable s => subscriber ≠ some s
  | .clone s => subscriber ≠ some s
  | .releaseSubscriber s => subscriber ≠ some s
  | _ => True

instance (subscriber : Option Nat) (op : Workset.Op (OrderbookEntry D)) :
    Decidable (Foreign subscriber op) :=
  match op with
  | .tryPop s _ => inferInstanceAs (Decidable (subscriber ≠ some s))
  | .numAvailable s => inferInstanceAs (Decidable (subscriber ≠ some s))
  | .clone s => inferInstanceAs (Decidable (subscriber ≠ some s))
  | .releaseSubscriber s => inferInstanceAs (Decidable (subscriber ≠ some s))
  | .getPublisher | .getSubscriber | .push _ _ | .releasePublisher _ =>
    inferInstanceAs (Decidable True)

/-- A step of the call, or an operation of another thread on the shared workset. -/
inductive Label (D : Type*) where
  | own (locked : Bool)
  | other (op : Workset.Op (OrderbookEntry D))

/-- The steps of a call and of everything around it. -/
def Call.step (s : Call D) : Label D → Option (Call D)
  | .own locked => Call.own a s locked
  | .other op =>
    if Foreign s.subscriber op then (s.ows.step op).map fun r => { s with ows := r.1 } else none

/-- The calls on a workset. -/
def calls (ows : Workset (OrderbookEntry D)) : Transition.System (Call D) (Label D) :=
  .ofStep (Call.new ows) (Call.step a)

end Quant.Drawing

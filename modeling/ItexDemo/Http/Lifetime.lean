import ItexDemo.Http.Server

/-!
# The lifetime of `http::Connection` objects

An object is published in `connections_to_delete_` by the coroutine that runs on it, or by
`Server::stop`, and is then deleted or given to a new session by others. Here is what has to hold of
its old coroutines at that time.
-/

namespace Http.Server

variable {A E : Type*}

/-- A coroutine that was started on the object has a step left. -/
def Busy (s : State A E) (o : Nat) : Prop :=
  ∃ k co, s.coroutines k = some co ∧ co.conn = o ∧ co.pc ≠ .done

/-- A coroutine stands between its `schedule_connection_delete` and `deletion_sheduled_ = true`. -/
def Flagging (s : State A E) (o : Nat) : Prop :=
  ∃ k co, s.coroutines k = some co ∧ co.conn = o ∧ co.pc = .killFlag

/-- The flags of an object. -/
def flags (s : State A E) (o : Nat) : Option (Bool × Bool × Bool) :=
  (s.heap o).map fun c => (c.running_, c.timeout_occurred_, c.deletion_sheduled_)

variable [DecidableEq A] (idGen : E → Nat)

/-- A step from `s₂` belongs to a session of the object that begins after `s₁`, or begins the next
one. -/
def OfLaterSession (s₁ s₂ : State A E) (o : Nat) : Act A E → Prop
  | .reinit a => ∃ socket, s₂.acceptors a = .reusing socket o
  | .start a _ => s₂.acceptors a = .starting o ∧ ∀ b, s₁.acceptors b ≠ .starting o
  | .serve k => s₁.coroutines k = none
  | .kill k => s₁.coroutines k = none
  | _ => False

/-- The accepted sockets are fresh, no object is taken from `connections_to_delete_` while a
coroutine that scheduled its deletion has not set the flag, and `Server::stop` finds no connection
in the pool. -/
def Settled (s : State A E) : Act A E → Prop
  | .accept _ _ => ∀ o ∈ s.connections_to_delete_.head?, ¬Flagging s o
  | .sweep => ∀ o ∈ s.connections_to_delete_, ¬Flagging s o
  | .stopNext _ => False
  | act => AcceptsFresh idGen s act

/-- What has to hold in every state of a run. -/
structure Untouched (s : State A E) : Prop where
  /-- No coroutine has a step left on a deleted object. -/
  deleted : ∀ o c, s.heap o = some c → c.live = false → ¬Busy s o
  /-- No coroutine has a step left on an object that `reinit` is about to be called on, and none is
  about to be started on it. -/
  reused : ∀ a socket o, s.acceptors a = .reusing socket o →
    ¬Busy s o ∧ ∀ b, s.acceptors b ≠ .starting o
  /-- After the `reinit` its flags are changed by later sessions only. -/
  flags : ∀ a socket o s₁ acts s₂ act s₃, s.acceptors a = .reusing socket o →
    next idGen s (.reinit a) = some s₁ → AcceptsFresh idGen s (.reinit a) →
    Transition.RunMeets (next idGen) (Settled idGen) s₁ acts →
    Transition.run (next idGen) s₁ acts = some s₂ → Settled idGen s₂ act →
    next idGen s₂ act = some s₃ → flags s₃ o ≠ flags s₂ o → OfLaterSession s₁ s₂ o act

end Http.Server

import ItexDemo.Sqldb.Transaction

/-!
# A transaction object and its environment

What an operation of `Transaction` does as its object sees it, and the runs of one object in the
explicit mode: its caller makes one call after the other, whatever they throw. The object keeps a
record of what happened to it, from which the two guarantees of the explicit mode are read.
-/

namespace Sqldb

namespace Transaction

variable {α : Type}

/-- A record of what a transaction did. -/
structure Trace (α : Type) where
  /-- The statements that were made durable. -/
  made : List α
  /-- The texts of the user that were sent outside of a block. -/
  outside : List (Query α)
  /-- A `START TRANSACTION` failed on the last connection, or a `COMMIT` was refused on it, or a text
  of the user ended the block. -/
  spoiled : Bool
  /-- A text of the user undid something in the block of the last connection. -/
  undone : Bool

/-- The command leaves a usable connection without a block: one of the object by its failure, one of
the user by ending the block. -/
def Spoils (l : Link α) (cmd : Command α) (o : Outcome) : Prop :=
  l.Usable ∧
    match cmd with
    | .start => o.course = .refused ∨ o.course = .unsent
    | .commit => o.course = .refused
    | .user .commit => o.course = .answered ∨ o.course = .refused
    | .user .rollback => o.course = .answered
    | .user (.control text) => o.course = .answered ∧ (text.carried l.block).ended = true ∨
        o.course = .refused ∧ (text.refused l.block).ended = true
    | _ => False

instance (l : Link α) (cmd : Command α) (o : Outcome) : Decidable (Spoils l cmd o) :=
  match cmd with
  | .start => inferInstanceAs (Decidable (_ ∧ (_ ∨ _)))
  | .commit => inferInstanceAs (Decidable (_ ∧ _))
  | .rollback => inferInstanceAs (Decidable (_ ∧ False))
  | .user .start => inferInstanceAs (Decidable (_ ∧ False))
  | .user .commit => inferInstanceAs (Decidable (_ ∧ (_ ∨ _)))
  | .user .rollback => inferInstanceAs (Decidable (_ ∧ _))
  | .user (.control _) => inferInstanceAs (Decidable (_ ∧ (_ ∧ _ ∨ _ ∧ _)))
  | .user (.data _) => inferInstanceAs (Decidable (_ ∧ False))

/-- The command is a text of the user that undoes something in the block. -/
def Undoes (l : Link α) (cmd : Command α) (o : Outcome) : Prop :=
  l.Usable ∧
    match cmd with
    | .user (.control text) => o.course = .answered ∧ (text.carried l.block).undone = true
    | _ => False

instance (l : Link α) (cmd : Command α) (o : Outcome) : Decidable (Undoes l cmd o) :=
  match cmd with
  | .start => inferInstanceAs (Decidable (_ ∧ False))
  | .commit => inferInstanceAs (Decidable (_ ∧ False))
  | .rollback => inferInstanceAs (Decidable (_ ∧ False))
  | .user .start => inferInstanceAs (Decidable (_ ∧ False))
  | .user .commit => inferInstanceAs (Decidable (_ ∧ False))
  | .user .rollback => inferInstanceAs (Decidable (_ ∧ False))
  | .user (.control _) => inferInstanceAs (Decidable (_ ∧ _ ∧ _))
  | .user (.data _) => inferInstanceAs (Decidable (_ ∧ False))

/-- The texts of the user that a command sends outside of a block. -/
def sentOutside (l : Link α) (cmd : Command α) (o : Outcome) : List (Query α) :=
  match cmd, l.block with
  | .user query, .none => if l.Sends o then [query] else []
  | _, _ => []

/-- The record after a command. -/
def Trace.after (t : Trace α) (l : Link α) (cmd : Command α) (o : Outcome) :
    Trace α where
  made := t.made ++ l.made cmd o
  outside := t.outside ++ sentOutside l cmd o
  spoiled := t.spoiled || decide (Spoils l cmd o)
  undone := t.undone || decide (Undoes l cmd o)

/-- A transaction object. While `async_get_connection` runs for it, `pending` is the variable
`connection` of that function. -/
structure View (α : Type) where
  connection_ : Option (Link α)
  pending : Option (Link α)
  trace : Trace α

/-- The object holds a spoiled connection. -/
def View.Spoiled (v : View α) : Prop := v.connection_.isSome = true ∧ v.trace.spoiled = true

instance (v : View α) : Decidable v.Spoiled := inferInstanceAs (Decidable (_ ∧ _))

/-- The object holds a connection in whose block something was undone. -/
def View.Undone (v : View α) : Prop := v.connection_.isSome = true ∧ v.trace.undone = true

instance (v : View α) : Decidable v.Undone := inferInstanceAs (Decidable (_ ∧ _))

/-- `Transaction::Transaction`. -/
def View.new : View α where
  connection_ := none
  pending := none
  trace := { made := [], outside := [], spoiled := false, undone := false }

/-- The object when it has been given what `async_get_connection` returns. -/
def View.assign (v : View α) : View α where
  connection_ := v.pending
  pending := none
  trace := { v.trace with spoiled := false, undone := false }

/-- The object after a command on its connection `l`. -/
def View.sent (v : View α) (l : Link α) (cmd : Command α) (o : Outcome) : View α :=
  { v with connection_ := some (l.after cmd o), trace := v.trace.after l cmd o }

/-- The answer of `Connection::async_exec`. -/
def Answers (returns : Prop) : Except Exception Results → Prop
  | .ok res => returns ∧ res.good = true
  | .error e => ¬returns ∧ e.isConnectionException = true

/-- What the operations do. The pool hands out connections without a block, and a connection may be
found to be `BAD` at any time. -/
def Act : (op : Op α) → View α → Ans op → View α → Prop
  | .isNull, v, (null : Bool), v' => null = v.connection_.isNone ∧ v' = v
  | .popPool, v, (found : Bool), v' =>
    match found with
    | true => ∃ busy, v' = { v with pending := some (.pooled busy) }
    | false => v' = v
  | .newConnection, v, _, v' => v' = { v with pending := some .unconnected }
  | .connect, v, (connected : Bool), v' =>
    v' = { v with pending := if connected then some .connected else none }
  | .assign, v, _, v' => v' = v.assign
  | .exec cmd, v, (answer : Except Exception Results), v' =>
    ∃ l o, v.connection_ = some l ∧ Answers (l.Returns cmd o) answer ∧ v' = v.sent l cmd o
  | .isBad, v, (bad : Bool), v' =>
    ∃ l, v.connection_ = some l ∧ (l.bad = true → bad = true) ∧
      v' = { v with connection_ := some { l with bad := bad } }
  | .deleteConnection, v, _, v' => v' = { v with connection_ := none }
  | .returnConnection, v, _, v' => v' = { v with connection_ := none }

/-! ## An environment that decides -/

/-- What the environment decides when an operation is called: whether the pool has a connection and
whether that is busy, whether connecting succeeds, how a command goes, and whether the connection is
found to be `BAD`. -/
structure Choice where
  found : Bool
  busy : Bool
  connected : Bool
  outcome : Outcome
  bad : Bool
  deriving DecidableEq, Repr

/-- An answer of `Connection::async_exec`. -/
def answerOf (returns : Prop) [Decidable returns] : Except Exception Results :=
  if returns then .ok { first := .OK, more := [] } else .error (.query "Query failed")

/-- The answer to an operation and what it leaves; `none` where there is no connection to use. -/
def respond (c : Choice) : (op : Op α) → View α → Option (Ans op × View α)
  | .isNull, v => some (v.connection_.isNone, v)
  | .popPool, v =>
    some (c.found, if c.found then { v with pending := some (.pooled c.busy) } else v)
  | .newConnection, v => some ((), { v with pending := some .unconnected })
  | .connect, v =>
    some (c.connected, { v with pending := if c.connected then some .connected else none })
  | .assign, v => some ((), v.assign)
  | .exec cmd, v => v.connection_.map fun l =>
      (answerOf (l.Returns cmd c.outcome), v.sent l cmd c.outcome)
  | .isBad, v => v.connection_.map fun l =>
      (l.bad || c.bad, { v with connection_ := some { l with bad := l.bad || c.bad } })
  | .deleteConnection, v => some ((), { v with connection_ := none })
  | .returnConnection, v => some ((), { v with connection_ := none })

/-! ## Where operations may be called -/

/-- The statement of the user is inside a block when it can be sent at all. -/
def InBlock (v : View α) : Prop :=
  v.trace.spoiled = false → ∀ l, v.connection_ = some l → l.Usable → l.block ≠ .none

/-- Where an operation may be called: there is a connection to use or to give away, which is not
inside a block when it goes back to the pool, and the statements of an explicit transaction are sent
inside of one. With `quiet` the connection is not spoiled then. -/
def Ready (mode : ImplicitAutocommit) (quiet : Prop) : Op α → View α → Prop
  | .isNull, _ => True
  | .popPool, v => v.connection_ = none ∧ v.pending = none
  | .newConnection, v => v.connection_ = none ∧ v.pending = none
  | .connect, v => v.pending.isSome
  | .assign, v => v.connection_ = none ∧ v.pending.isSome
  | .exec cmd, v => v.connection_.isSome ∧ (mode = .OFF → (∃ s, cmd = .user s) →
      InBlock v ∧ (quiet → v.trace.spoiled = false))
  | .isBad, v => v.connection_.isSome
  | .deleteConnection, v => v.connection_.isSome
  | .returnConnection, v => ∃ l, v.connection_ = some l ∧ l.block = .none

/-- The operations as a transaction in the given mode uses them. -/
def semantics (mode : ImplicitAutocommit) (quiet : Prop) : Script.Semantics (Op α) Ans (View α) where
  Pre := Ready mode quiet
  Act := Act

/-- Between two calls: no connection is on its way, and the connection in hand has no block in the
implicit mode and has one in the explicit mode, where it is not spoiled. -/
def AtRest (mode : ImplicitAutocommit) (v : View α) : Prop :=
  v.pending = none ∧
    match mode with
    | .ON => ∀ l, v.connection_ = some l → l.block = .none
    | .OFF => InBlock v

/-! ## One object in the explicit mode -/

/-- What a caller can do. -/
inductive Call (α : Type) where
  | exec (query : Query α)
  | commit
  | rollback

/-- The function that is called. -/
def Call.code (mode : ImplicitAutocommit) : Call α → Code α Unit
  | .exec query => do
    let _ ← asyncExec mode query
    pure ()
  | .commit => asyncCommit mode
  | .rollback => asyncRollback mode

/-- A function that runs. -/
abbrev Running (α : Type) : Type := Script (Op α) Ans (Except Exception Unit)

/-- A transaction object with its caller. -/
structure Object (α : Type) where
  view : View α
  running : Option (Call α × Running α)
  /-- The statements whose `async_exec` returned since the construction or the caller's last
  `async_commit` or `async_rollback`; transaction control among them is left out. -/
  acked : List α
  /-- After one of them another `async_exec` threw. -/
  lost : Bool
  /-- A call threw and the object kept its connection. -/
  kept : Bool
  /-- What each `async_commit` that returned made durable, and what was acknowledged before. -/
  commits : List (List α × List α)

namespace Object

/-- A new object. -/
def new : Object α where
  view := .new
  running := none
  acked := []
  lost := false
  kept := false
  commits := []

/-- A call begins. -/
def call (s : Object α) (c : Call α) : Object α :=
  { s with
    view := { s.view with trace := { s.view.trace with made := [] } }
    running := some (c, (c.code .OFF).run) }

/-- A call is over. -/
def finish (s : Object α) : Call α → Except Exception Unit → Object α
  | .exec query, .ok _ =>
    { s with
      running := none
      acked := s.acked ++ query.data?.toList
      kept := s.kept && s.view.connection_.isSome }
  | .exec _, .error _ =>
    { s with
      running := none
      lost := s.lost || !s.acked.isEmpty
      kept := s.view.connection_.isSome }
  | .commit, .ok _ =>
    { s with
      running := none
      acked := []
      lost := false
      kept := s.kept && s.view.connection_.isSome
      commits := s.commits ++ [(s.view.trace.made, s.acked)] }
  | .rollback, .ok _ =>
    { s with
      running := none
      acked := []
      lost := false
      kept := s.kept && s.view.connection_.isSome }
  | _, .error _ =>
    { s with
      running := none
      acked := []
      lost := false
      kept := s.view.connection_.isSome }

end Object

/-- The steps: the caller calls, an operation is answered, a function ends. -/
inductive Label (α : Type) where
  | call (c : Call α)
  | answer
  | finish

/-- One step of the object. -/
def Step (s : Object α) : Label α → Object α → Prop
  | .call c, s' => s.running = none ∧ s' = s.call c
  | .answer, s' => ∃ c op k a v, s.running = some (c, .call op k) ∧ Act op s.view a v ∧
      s' = { s with view := v, running := some (c, k a) }
  | .finish, s' => ∃ c r, s.running = some (c, .ret r) ∧ s' = s.finish c r

/-- Any sequence of calls on one object. -/
def runs : Transition.System (Object α) (Label α) where
  Init := fun s => s = .new
  Tr := Step

/-- The steps of an object whose environment decides. -/
inductive Move (α : Type) where
  | call (c : Call α)
  | answer (c : Choice)
  | finish

/-- One step of such an object. -/
def move (s : Object α) : Move α → Option (Object α)
  | .call c => if s.running.isNone then some (s.call c) else none
  | .answer choice =>
    match s.running with
    | some (c, .call op k) => (respond choice op s.view).map fun r =>
        { s with view := r.2, running := some (c, k r.1) }
    | _ => none
  | .finish =>
    match s.running with
    | some (c, .ret r) => some (s.finish c r)
    | _ => none

/-- `async_commit` is called when nothing that it is to commit was given up or undone, or is outside of
its block. -/
def CommitsWhole (s : Object α) : Label α → Prop
  | .call .commit => s.lost = false ∧ s.kept = false ∧ ¬s.view.Spoiled ∧ ¬s.view.Undone
  | _ => True

instance (s : Object α) : (a : Label α) → Decidable (CommitsWhole s a)
  | .call .commit => inferInstanceAs (Decidable (_ ∧ _ ∧ ¬_ ∧ ¬_))
  | .call (.exec _) => .isTrue trivial
  | .call .rollback => .isTrue trivial
  | .answer => .isTrue trivial
  | .finish => .isTrue trivial

/-- `async_exec` is not called with a spoiled connection in hand. -/
def ExecsUnspoiled (s : Object α) : Label α → Prop
  | .call (.exec _) => ¬s.view.Spoiled
  | _ => True

instance (s : Object α) : (a : Label α) → Decidable (ExecsUnspoiled s a)
  | .call (.exec _) => inferInstanceAs (Decidable (¬_))
  | .call .commit => .isTrue trivial
  | .call .rollback => .isTrue trivial
  | .answer => .isTrue trivial
  | .finish => .isTrue trivial

end Transaction

end Sqldb

import Mathlib.Data.Option.Basic
import ItexDemo.Sqldb.Proofs.TransactionProofs

/-!
# Connections that are lost between two operations

A call of `timeout_handler` can make the connection of a transaction `BAD` at any time. What a
transaction then meets is something it could have met before: a lost connection sends nothing, as
does one that is lost while a command is sent. So what was safe stays safe.
-/

namespace Sqldb

namespace Transaction

variable {α : Type} {mode : ImplicitAutocommit}

/-- The second connection is the first one, or the first one when it is lost. -/
def LinkLost (l l' : Link α) : Prop := l' = l ∨ (l'.block = l.block ∧ l'.bad = true)

theorem linkLost_refl (l : Link α) : LinkLost l l := .inl rfl

/-- An object sees connections that may have been lost meanwhile. -/
structure Lost (v w : View α) : Prop where
  connection : Option.Rel LinkLost v.connection_ w.connection_
  pending : Option.Rel LinkLost v.pending w.pending
  spoiled : w.trace.spoiled = v.trace.spoiled

theorem LinkLost.block_eq {l l' : Link α} (h : LinkLost l l') : l'.block = l.block := by
  rcases h with rfl | ⟨h, -⟩
  · rfl
  · exact h

theorem LinkLost.usable {l l' : Link α} (h : LinkLost l l') (husable : l'.Usable) : l' = l := by
  rcases h with h | ⟨-, hbad⟩
  · exact h
  · rw [husable.2] at hbad
    cases hbad

theorem rel_some_right {l' : Link α} {c : Option (Link α)} (h : Option.Rel LinkLost c (some l')) :
    ∃ l, c = some l ∧ LinkLost l l' := by
  cases h with
  | some h => exact ⟨_, rfl, h⟩

theorem rel_isSome {c c' : Option (Link α)} (h : Option.Rel LinkLost c c') :
    c'.isSome = c.isSome := by
  cases h with
  | some h => rfl
  | none => rfl

theorem rel_refl (c : Option (Link α)) : Option.Rel LinkLost c c := by
  cases c with
  | none => exact .none
  | some l => exact .some (linkLost_refl l)

theorem Lost.connection_none {v w : View α} (h : Lost v w) (hv : v.connection_ = none) :
    w.connection_ = none := by
  have hsome := rel_isSome h.connection
  simpa [hv] using hsome

theorem Lost.pending_none {v w : View α} (h : Lost v w) (hv : v.pending = none) :
    w.pending = none := by
  have hsome := rel_isSome h.pending
  simpa [hv] using hsome

theorem Lost.inBlock {v w : View α} (h : Lost v w) (hv : InBlock v) : InBlock w := by
  intro hspoiled l' hl' husable
  have hrel := h.connection
  rw [hl'] at hrel
  obtain ⟨l, hl, hlost⟩ := rel_some_right hrel
  obtain rfl := hlost.usable husable
  exact hv (h.spoiled.symm.trans hspoiled) _ hl husable

theorem Lost.atRest {v w : View α} (h : Lost v w) (hv : AtRest mode v) : AtRest mode w := by
  refine ⟨h.pending_none hv.1, ?_⟩
  cases mode with
  | ON =>
    intro l' hl'
    have hrel := h.connection
    rw [hl'] at hrel
    obtain ⟨l, hl, hlost⟩ := rel_some_right hrel
    rw [hlost.block_eq]
    exact hv.2 l hl
  | OFF => exact h.inBlock hv.2

/-- An operation that may be called may still be called. -/
theorem Lost.ready {v w : View α} (h : Lost v w) (op : Op α) (hv : Ready mode False op v) :
    Ready mode False op w := by
  have hconnection := rel_isSome h.connection
  have hpending := rel_isSome h.pending
  cases op with
  | isNull => trivial
  | popPool => exact ⟨h.connection_none hv.1, h.pending_none hv.2⟩
  | newConnection => exact ⟨h.connection_none hv.1, h.pending_none hv.2⟩
  | connect => exact hpending.trans hv
  | assign => exact ⟨h.connection_none hv.1, hpending.trans hv.2⟩
  | exec cmd =>
    refine ⟨hconnection.trans hv.1, fun hmode huser => ?_⟩
    exact ⟨h.inBlock (hv.2 hmode huser).1, fun hf => hf.elim⟩
  | isBad => exact hconnection.trans hv
  | deleteConnection => exact hconnection.trans hv
  | returnConnection =>
    obtain ⟨l, hl, hblock⟩ := hv
    obtain ⟨l', hl'⟩ := Option.isSome_iff_exists.mp (hconnection.trans (by rw [hl]; rfl))
    have hrel := h.connection
    rw [hl', hl] at hrel
    obtain ⟨l₀, hl₀, hlost⟩ := rel_some_right hrel
    obtain rfl := Option.some.inj hl₀
    exact ⟨l', hl', hlost.block_eq.trans hblock⟩

/-- A command that is sent on a connection while it is lost. -/
def lostNow : Outcome where
  course := .broken false
  bad := true

theorem not_returns_lostNow (l : Link α) (cmd : Command α) : ¬l.Returns cmd lostNow := by
  rintro ⟨-, hanswered⟩
  cases hanswered

theorem block_after_lostNow (l : Link α) (cmd : Command α) : (l.after cmd lostNow).block = l.block := by
  simp [Link.after, Link.Carries, lostNow]

theorem not_spoils_lostNow (l : Link α) (cmd : Command α) : ¬Spoils l cmd lostNow := by
  rintro ⟨-, hcmd⟩
  split at hcmd <;> simp [lostNow] at hcmd

/-- A command on a lost connection throws and leaves it as it is, as the same command does on the
connection from before when that is lost now. -/
theorem Lost.exec {v w : View α} (h : Lost v w) {cmd : Command α}
    {answer : Except Exception Results} {w' : View α}
    (hact : Act (.exec cmd) w answer w') : ∃ v', Act (.exec cmd) v answer v' ∧ Lost v' w' := by
  obtain ⟨l', o, hl', hanswer, rfl⟩ := hact
  have hrel := h.connection
  rw [hl'] at hrel
  obtain ⟨l, hl, rfl | ⟨hblock, hbad⟩⟩ := rel_some_right hrel
  · refine ⟨v.sent l' cmd o, ⟨l', o, hl, hanswer, rfl⟩, .some (linkLost_refl _), h.pending, ?_⟩
    simp [View.sent, Trace.after, h.spoiled]
  · have hunusable : ¬l'.Usable := by
      intro husable
      rw [husable.2] at hbad
      cases hbad
    have hreturns : ¬l'.Returns cmd o := fun hret => hunusable hret.1.1.1
    have hthrows : Answers (l.Returns cmd lostNow) answer := by
      cases answer with
      | ok res => exact absurd hanswer.1 hreturns
      | error e => exact ⟨not_returns_lostNow l cmd, hanswer.2⟩
    refine ⟨v.sent l cmd lostNow, ⟨l, lostNow, hl, hthrows, rfl⟩, .some (.inr ⟨?_, ?_⟩), h.pending, ?_⟩
    · rw [block_after_lostNow]
      simp [Link.after, Link.Carries, Link.Sends, hunusable, hblock]
    · simp [Link.after, hbad]
    · have hspoils : ¬Spoils l' cmd o := fun hspoils => hunusable hspoils.1
      simp [View.sent, Trace.after, h.spoiled, not_spoils_lostNow, hspoils]

/-- **An operation on lost connections** does what it can do on the connections from before. -/
theorem Lost.act {v w : View α} (h : Lost v w) {op : Op α} {a : Ans op} {w' : View α}
    (hact : Act op w a w') : ∃ v', Act op v a v' ∧ Lost v' w' := by
  cases op with
  | isNull =>
    obtain ⟨hnull, rfl⟩ := hact
    refine ⟨v, ⟨hnull.trans ?_, rfl⟩, h⟩
    have hsome := rel_isSome h.connection
    rw [← Option.not_isSome, ← Option.not_isSome, hsome]
  | popPool =>
    cases a with
    | true =>
      obtain ⟨busy, rfl⟩ := hact
      exact ⟨_, ⟨busy, rfl⟩, h.connection, .some (linkLost_refl _), h.spoiled⟩
    | false =>
      obtain rfl := hact
      exact ⟨v, rfl, h⟩
  | newConnection =>
    obtain rfl := hact
    exact ⟨_, rfl, h.connection, .some (linkLost_refl _), h.spoiled⟩
  | connect =>
    obtain rfl := hact
    exact ⟨_, rfl, h.connection, rel_refl _, h.spoiled⟩
  | assign =>
    obtain rfl := hact
    exact ⟨_, rfl, h.pending, .none, rfl⟩
  | exec cmd => exact h.exec hact
  | isBad =>
    obtain ⟨l', hl', hbad, rfl⟩ := hact
    have hrel := h.connection
    rw [hl'] at hrel
    obtain ⟨l, hl, rfl | ⟨hblock, hlost⟩⟩ := rel_some_right hrel
    · exact ⟨_, ⟨l', hl, hbad, rfl⟩, .some (linkLost_refl _), h.pending, h.spoiled⟩
    · have hanswer : a = true := hbad hlost
      refine ⟨_, ⟨l, hl, fun _ => hanswer, rfl⟩, .some (.inr ⟨hblock, ?_⟩), h.pending, h.spoiled⟩
      exact hanswer
  | deleteConnection =>
    obtain rfl := hact
    exact ⟨_, rfl, .none, h.pending, h.spoiled⟩
  | returnConnection =>
    obtain rfl := hact
    exact ⟨_, rfl, .none, h.pending, h.spoiled⟩

end Transaction

end Sqldb

import ItexDemo.Lib.TransitionSystem
import ItexDemo.Sqldb.Connection

/-!
# The names of prepared statements

A connection makes one call of `async_exec` after the other in one server session. The session keeps
a record of what it has received, and from it one can tell whether the names were used as the cache
of the connection promises.
-/

namespace Sqldb

/-- A name is prepared when it is free, and executed when it stands for the text that is meant. -/
def Received.Coherent (r : Received) : Prop :=
  match r.message with
  | .query _ => True
  | .prepare name _ => r.statements name = none
  | .queryPrepared name text => r.statements name = some text

/-- The server has prepared the text under some name. -/
def Session.Prepared (s : Session) (text : String) : Prop :=
  ∃ r ∈ s.received, r.carried = true ∧ ∃ name, r.message = .prepare name text

namespace Connection

variable (sql : String → Statements → Statements) (hash : String → UInt128)

/-- The connection has a session, of which `P` holds. -/
def OnSession (c : Connection) (P : Session → Prop) : Prop :=
  ∃ pg, c.pg_handle_ = some pg ∧ P pg.session

/-- The query is executed under a name. -/
def Call.byName (call : Call) : Bool := isPreparable call.query && !isMultipleStatements call.query

/-- Calls of `async_exec` on a connection whose session is new. -/
def calls : Transition.System Connection Call where
  Init := fun c => c.prepared_statements_names_list_ = [] ∧ c.OnSession fun s => s = .new
  Tr := fun c call c' => c' = (Prog.exec (asyncExec sql hash call) c).2

/-- A call whose query can be told from those before it. -/
structure Apart (c : Connection) (call : Call) : Prop where
  /-- The query does not change the prepared statements of the session. -/
  keeps : ∀ statements, sql call.query statements = statements
  /-- No other text that was prepared has the name of the query. -/
  named : call.byName = true → ∀ text, c.OnSession (·.Prepared text) →
    statementName hash text = statementName hash call.query → text = call.query
  /-- If the server has prepared the query, then the call for it came to record that. -/
  recorded : call.byName = true → c.OnSession (·.Prepared call.query) →
    hash call.query ∈ c.prepared_statements_names_list_

end Connection

end Sqldb

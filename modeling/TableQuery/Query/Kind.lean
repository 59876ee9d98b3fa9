/-
The kinds of statement that a query describes, as data, so that one fact can
be said of all of them.

Without a raw statement each kind is written from one fragment, except that
an update or an insertion with nothing assigned is refused
(`statementOf_eq`).
-/
import TableQuery.Query.Statement

namespace TableQuery

/-- What a statement does. -/
inductive StatementKind where
  | selection (e : Extent)
  | count
  | deletion
  | update
  | insertion
deriving DecidableEq, Repr

namespace StatementKind

/-- Updates and insertions write what a query assigns. -/
def writes : StatementKind → Bool
  | update | insertion => true
  | _ => false

/-- The name of a kind in messages. -/
def name : StatementKind → String
  | selection _ => "select"
  | count => "count"
  | deletion => "delete"
  | update => "update"
  | insertion => "insert"

end StatementKind

namespace Query

/-- The fragment of a kind, from the structured parts alone. -/
def fragment (q : Query) : StatementKind → Fragment
  | .selection e => q.selectFragment e
  | .count => q.countFragment
  | .deletion => q.deleteFragment
  | .update => q.updateFragment
  | .insertion => q.insertFragment

/-- The statement of a kind. -/
def statementOf (q : Query) : StatementKind → Except Fault Statement
  | .selection e => .ok (q.selectStatement e)
  | .count => .ok q.countStatement
  | .deletion => .ok q.deleteStatement
  | .update => q.updateStatement
  | .insertion => q.insertStatement

theorem statementOf_eq {q : Query} (hraw : q.draft.raw = none) (k : StatementKind) :
    q.statementOf k =
      if k.writes ∧ q.draft.assignments = [] then .error (.noAssignments k.name)
      else .ok ((q.fragment k).statement q.dialect) := by
  cases k with
  | selection e => simp [statementOf, selectStatement, hraw, fragment, StatementKind.writes]
  | count => simp [statementOf, countStatement, hraw, fragment, StatementKind.writes]
  | deletion => simp [statementOf, deleteStatement, fragment, StatementKind.writes]
  | update => simp [statementOf, updateStatement, fragment, StatementKind.writes, StatementKind.name]
  | insertion => simp [statementOf, insertStatement, fragment, StatementKind.writes, StatementKind.name]

theorem selectStatement_eq_fragment {q : Query} (hraw : q.draft.raw = none) (e : Extent) :
    q.selectStatement e = (q.fragment (.selection e)).statement q.dialect := by
  rw [selectStatement, hraw]
  rfl

/-- What writes assignments is written from its fragment, if there are any,
whether or not there is a raw statement. -/
theorem statementOf_of_writes (q : Query) {k : StatementKind} (hk : k.writes) :
    q.statementOf k =
      if q.draft.assignments = [] then .error (.noAssignments k.name)
      else .ok ((q.fragment k).statement q.dialect) := by
  cases k with
  | selection | count | deletion => cases hk
  | update | insertion => rfl

/-- What is not refused is written from its fragment. -/
theorem statementOf_eq_ok {q : Query} (hraw : q.draft.raw = none) {k : StatementKind}
    (hk : k.writes → q.draft.assignments ≠ []) :
    q.statementOf k = .ok ((q.fragment k).statement q.dialect) := by
  rw [statementOf_eq hraw, if_neg fun h => hk h.1 h.2]

end Query

end TableQuery

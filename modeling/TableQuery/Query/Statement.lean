/-
The statements that a query describes: selections, counts, deletions,
updates and insertions.

The same conditions stand in all of them but the insertion. A raw statement
takes the place of the whole selection; it is counted as a subquery.
-/
import TableQuery.Query.Clause

namespace TableQuery.Query

def table (q : Query) : Fragment := .ident q.schema.table

/-- The chosen columns, else the declared ones; all of them by the wildcard
or when none is declared. -/
def columns (q : Query) : Fragment :=
  if q.draft.projection.wildcard then [.symbol .star]
  else match q.draft.projection.fields with
    | [] =>
      match q.schema.names with
      | [] => [.symbol .star]
      | names => .nameList names
    | names => .nameList names

/-- The selection that the structured parts describe. -/
def selectFragment (q : Query) (e : Extent) : Fragment :=
  .symbol .SELECT :: q.columns ++ .symbol .FROM :: q.table ++ q.conditions ++ q.order ++
    q.range e

/-- A count's text up to what it counts. -/
def countHead : Fragment :=
  .symbol .SELECT :: Fragment.call "count" [.symbol .star] ++
    [.symbol .AS, .raw "ct", .symbol .FROM]

/-- The count of the rows the conditions match. -/
def countFragment (q : Query) : Fragment := countHead ++ q.table ++ q.conditions

/-- The count of a raw statement's rows. -/
def rawCountFragment (sql : String) : Fragment :=
  countHead ++ Fragment.enclosed [.raw sql] ++ [.symbol .AS, .raw "prowl_raw"]

def deleteFragment (q : Query) : Fragment :=
  .symbol .DELETE :: .symbol .FROM :: q.table ++ q.conditions

def updateFragment (q : Query) : Fragment :=
  .symbol .UPDATE :: q.table ++ .symbol .SET :: Fragment.assignments q.draft.assignments ++
    q.conditions

/-- The primary key, asked back from an insert when the schema declares one. -/
def returning (q : Query) : Fragment :=
  match q.schema.key? with
  | some key => [.symbol .RETURNING, .ident key.name]
  | none => []

def insertFragment (q : Query) : Fragment :=
  .symbol .INSERT :: .symbol .INTO :: q.table ++
    Fragment.enclosed (.nameList (q.draft.assignments.map (·.1))) ++
    .symbol .VALUES :: Fragment.enclosed (.placeholderList (q.draft.assignments.map (·.2))) ++
    q.returning

/-- Reads the rows; a raw statement is taken as it is. -/
def selectStatement (q : Query) (e : Extent) : Statement :=
  match q.draft.raw with
  | some raw => ⟨raw.sql, raw.params⟩
  | none => (q.selectFragment e).statement q.dialect

/-- The selection with the query's own limit. -/
def statement (q : Query) : Statement := q.selectStatement .own

/-- Counts the rows, without order, window or projection. -/
def countStatement (q : Query) : Statement :=
  match q.draft.raw with
  | some raw => { (rawCountFragment raw.sql).statement q.dialect with params := raw.params }
  | none => q.countFragment.statement q.dialect

/-- Deletes the rows the conditions match. -/
def deleteStatement (q : Query) : Statement := q.deleteFragment.statement q.dialect

/-- Writes the assignments to the rows the conditions match. -/
def updateStatement (q : Query) : Except Fault Statement :=
  if q.draft.assignments = [] then .error (.noAssignments "update")
  else .ok (q.updateFragment.statement q.dialect)

/-- Inserts the assignments as one row. -/
def insertStatement (q : Query) : Except Fault Statement :=
  if q.draft.assignments = [] then .error (.noAssignments "insert")
  else .ok (q.insertFragment.statement q.dialect)

end TableQuery.Query

/-
Building a query over one table, call by call.

Every call checks its arguments at once, so a bad one fails where it is
written and leaves nothing behind. Each touches one part of the draft alone.
-/
import TableQuery.Query.Draft
import TableQuery.Query.Method
import TableQuery.Sql.Dialect

namespace TableQuery

/-- A query: over which table, for which dialect, and what it has accumulated. -/
structure Query where
  schema : Schema
  dialect : Dialect
  draft : Draft
deriving DecidableEq, Repr

namespace Query

def ofSchema (s : Schema) (d : Dialect) : Query := ⟨s, d, .empty⟩

/-! ## Conditions -/

/-- Adds a condition after the others. -/
def addCondition (q : Query) (field : String) (op : Operator) (operands : List Value)
    (part : Option DatePart) : Except Fault Query := do
  let p ← Predicate.make q.schema field op operands part
  pure { q with draft.predicates := q.draft.predicates ++ [p] }

def filter (q : Query) (field : String) (op : Operator) (operands : List Value) :
    Except Fault Query :=
  q.addCondition field op operands none

/-- A condition on a part of a date or moment. -/
def filterPart (q : Query) (field : String) (part : DatePart) (op : Operator)
    (operands : List Value) : Except Fault Query :=
  q.addCondition field op operands (some part)

/-- A condition whose operator is given by a verb. -/
def filterBy (q : Query) (verb field : String) (operands : List Value) : Except Fault Query := do
  q.filter field (← Operator.ofName verb) operands

/-- One condition for each keyword argument. -/
def filterParts (q : Query) (field : String) (op : Operator) :
    List String → Except Fault Query
  | [] => .ok q
  | keyword :: rest => do
    let (part, values) ← DatePart.ofKeyword keyword
    let q' ← q.filterPart field part op values
    q'.filterParts field op rest

/-- One date-part condition for each keyword argument, with the verb's operator. -/
def filterDate (q : Query) (verb field : String) (keywords : List String) : Except Fault Query := do
  q.filterParts field (← Operator.ofName verb) keywords

/-! ## Order -/

/-- Sorts by a field, or by its value's place in `order`. -/
def sortBy (q : Query) (field : String) (direction : Direction) (order : List Value) :
    Except Fault Query := do
  let f ← q.schema.require field
  pure { q with draft.sorts := SortKey.put q.draft.sorts (.make f.name direction order) }

/-! ## Projection -/

/-- Chooses one field, or every column by the wildcard's name. -/
def selectField (q : Query) (field : String) : Except Fault Query :=
  if field = Projection.everything then
    .ok { q with draft.projection.wildcard := true }
  else do
    let f ← q.schema.require field
    pure { q with draft.projection := q.draft.projection.add f.name }

def select (q : Query) : List String → Except Fault Query
  | [] => .ok q
  | field :: rest => do (← q.selectField field).select rest

def selectEverything (q : Query) : Query := { q with draft.projection.wildcard := true }

def clearSelection (q : Query) : Query := { q with draft.projection := .empty }

/-! ## Window -/

def limit (q : Query) (n : UInt64) : Except Fault Query := do
  pure { q with draft.bounds := ← q.draft.bounds.withLimit n }

def offset (q : Query) (n : UInt64) : Query :=
  { q with draft.bounds := q.draft.bounds.withOffset n }

def page (q : Query) (n : UInt64) : Except Fault Query := do
  pure { q with draft.bounds := ← q.draft.bounds.withPage n }

/-! ## Raw statement and assignments -/

def raw (q : Query) (sql : String) (params : List Value) : Query :=
  { q with draft.raw := some ⟨sql, params⟩ }

/-- Sets a field for an insert or update. -/
def assign (q : Query) (field : String) (v : Value) : Except Fault Query := do
  let f ← q.schema.require field
  pure { q with draft.assignments := Assignment.put q.draft.assignments f.name v }

def assignAll (q : Query) : List (String × Value) → Except Fault Query
  | [] => .ok q
  | (field, v) :: rest => do (← q.assign field v).assignAll rest

/-! ## Pseudo-methods -/

/-- An argument that names a field. -/
def fieldArgument (q : Query) : Value → Except Fault String
  | .text name => .ok name
  | v => .error (.unknownField q.schema.table v.display)

/-- The field of a call and the arguments left for its verb: the field comes
from the method's name or is the first argument. -/
def methodField (q : Query) (name : String) (m : Method) (args : List Value) :
    Except Fault (String × List Value) :=
  match m.field, args with
  | some field, args => .ok (field, args)
  | none, [] => .error (.unknownField q.schema.table name)
  | none, v :: rest => do pure (← q.fieldArgument v, rest)

/-- Applies a pseudo-method. A bare `select` takes as many fields as it is
given; with a field in its name it takes no arguments. -/
def call (q : Query) (name : String) (args : List Value) : Except Fault Query := do
  let m ← Method.ofName q.schema name
  let (field, args) ← q.methodField name m args
  match m.verb with
  | .condition op => q.filter field op args
  | .asc => q.sortBy field .asc args
  | .desc => q.sortBy field .desc args
  | .select =>
    if m.field.isNone then
      q.select (field :: (← args.mapM q.fieldArgument))
    else if args ≠ [] then
      .error (.invalidOperandCount "select" field "no" args.length)
    else q.select [field]

/-- Applies a pseudo-method to keyword arguments; only conditions take them. -/
def callWith (q : Query) (name : String) (keywords : List String) : Except Fault Query := do
  let m ← Method.ofName q.schema name
  match m.verb with
  | .condition op =>
    match m.field, keywords with
    | some field, keywords => q.filterDate op.name field keywords
    | none, [] => .error (.unknownField q.schema.table name)
    | none, field :: rest => q.filterDate op.name field rest
  | _ => .error (.invalidOperator name)

end Query

end TableQuery

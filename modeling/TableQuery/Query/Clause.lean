/-
The clauses that a query's draft describes: conditions, order and window.

Each is a fragment made from its own part of the draft, in the order in which
that part was built. A value goes into a clause as a parameter only; of the
values, a clause depends on whether one is null, and on how many there are.
-/
import TableQuery.Query.Basic
import TableQuery.Sql.Statement

namespace TableQuery

/-- How many rows of the result a selection asks for. -/
inductive Extent where
  /-- As many as the query's own limit. -/
  | own
  /-- One past the limit, to tell whether there are more. -/
  | oneMore
  | single
deriving DecidableEq, Repr

/-! ## Conditions -/

/-- A pattern made of a value's bare text, open at the end, the start or both. -/
def PatternKind.wrap (p : PatternKind) (v : Value) : Value :=
  match p with
  | .startsWith => .text (v.bareText ++ "%")
  | .endsWith => .text ("%" ++ v.bareText)
  | .contains => .text ("%" ++ v.bareText ++ "%")

/-- The pattern an operator makes of a value; one that matches no patterns
makes one that is open at both ends. -/
def Operator.wrap (op : Operator) (v : Value) : Value :=
  match op with
  | .pattern p => p.wrap v
  | _ => PatternKind.contains.wrap v

def Comparison.symbol : Comparison → Symbol
  | .eq => .eq
  | .ne => .ne
  | .gt => .gt
  | .gte => .ge
  | .lt => .lt
  | .lte => .le

namespace Test

/-- The condition on what stands to the left of it. Null is no value to be
equal to, so (in)equality with it asks whether there is one. -/
def fragment (left : Fragment) : Test → Fragment
  | compare .eq .null => left ++ [.symbol .IS, .symbol .NULL]
  | compare .ne .null => left ++ [.symbol .IS, .symbol .NOT, .symbol .NULL]
  | compare c v => left ++ [.symbol c.symbol, .param v]
  | among v more => left ++ .symbol .IN :: Fragment.enclosed (.placeholderList (v :: more))
  | notAmong v more =>
    left ++ .symbol .NOT :: .symbol .IN :: Fragment.enclosed (.placeholderList (v :: more))
  | between low high =>
    left ++ [.symbol .ge, .param low, .symbol .AND] ++ left ++ [.symbol .le, .param high]
  | pattern p v => left ++ [.symbol .LIKE, .param (p.wrap v)]

end Test

/-- A part of a date, as an integer. -/
def DatePart.fragment (d : Dialect) (part : DatePart) (column : Fragment) : Fragment :=
  let extracted := match d with
    | .postgresql =>
      .symbol .EXTRACT :: Fragment.enclosed (.raw part.extractUnit :: .symbol .FROM :: column)
    | .sqlite =>
      Fragment.call "strftime" (.raw part.strftimeFormat :: .symbol .comma :: column)
  .symbol .CAST :: Fragment.enclosed (extracted ++ [.symbol .AS, .symbol .INTEGER])

namespace Query

/-- PostgreSQL matches patterns against text alone. -/
def castsToText (q : Query) (p : Predicate) : Bool :=
  q.dialect = .postgresql && p.operator.takesPattern &&
    match q.schema.typeOf? p.field with
    | some t => t ≠ .text
    | none => false

/-- What a condition looks at: the column, a part of its date, or its text. -/
def leftSide (q : Query) (p : Predicate) : Fragment :=
  match p.part with
  | some part => part.fragment q.dialect (.ident p.field)
  | none =>
    if q.castsToText p then
      .symbol .CAST :: Fragment.enclosed [.ident p.field, .symbol .AS, .symbol .TEXT]
    else .ident p.field

def conditions (q : Query) : Fragment :=
  match q.draft.predicates with
  | [] => []
  | ps => .symbol .WHERE :: Fragment.separated .AND (ps.map fun p => p.test.fragment (q.leftSide p))

end Query

/-! ## Order -/

/-- The branches that rank each value by its place, counted from `rank`. -/
def SortKey.branches : Nat → List Value → Fragment
  | _, [] => []
  | rank, v :: rest =>
    .symbol .WHEN :: .param v :: .symbol .THEN :: .number rank :: branches (rank + 1) rest

/-- A sort's key: the column, or the place of its value in the list, with
all that are not listed after the last place. -/
def SortKey.key (s : SortKey) : Fragment :=
  match s.ranks with
  | none => .ident s.field
  | some order =>
    .symbol .CASE :: .ident s.field :: branches 0 order ++
      [.symbol .ELSE, .number order.length, .symbol .END]

def Direction.symbol : Direction → Symbol
  | .asc => .ASC
  | .desc => .DESC

namespace Query

def order (q : Query) : Fragment :=
  match q.draft.sorts with
  | [] => []
  | sorts =>
    .symbol .ORDER :: .symbol .BY ::
      Fragment.separated .comma (sorts.map fun s => s.key ++ [.symbol s.direction.symbol])

/-! ## Window -/

/-- A row count as SQL has it: signed, of 64 bits, the largest for all beyond. -/
def rowCount (n : UInt64) : Piece := .number (min n.toNat 0x7FFFFFFFFFFFFFFF : Nat)

/-- The limit that goes with an extent. -/
def limitFor (q : Query) : Extent → Option UInt64
  | .own => q.draft.bounds.limit
  | .oneMore => q.draft.bounds.limit.map fun l => saturate (l.toNat + 1)
  | .single => some 1

/-- The limit and the offset. SQLite has no offset without a limit, and takes
`-1` for none. -/
def range (q : Query) (e : Extent) : Fragment :=
  match q.limitFor e, q.draft.bounds.offset with
  | some l, some o => [.symbol .LIMIT, rowCount l, .symbol .OFFSET, rowCount o]
  | some l, none => [.symbol .LIMIT, rowCount l]
  | none, some o =>
    (if q.dialect = .sqlite then [.symbol .LIMIT, .number (-1)] else []) ++
      [.symbol .OFFSET, rowCount o]
  | none, none => []

end Query

end TableQuery

/-
Everything a query has accumulated.

Sorts, selected fields and assignments are kept in the order in which each
field first came; a later sort or assignment of the same field takes the
place of the earlier one.
-/
import TableQuery.Query.Bounds
import TableQuery.Query.Predicate

namespace TableQuery

inductive Direction where
  | asc | desc
deriving DecidableEq, Repr

/-- One key to order rows by. With ranks, a row's key is the place of the
field's value in that list, and no longer the value. -/
structure SortKey where
  field : String
  direction : Direction
  ranks : Option (List Value)
deriving DecidableEq, Repr

namespace SortKey

/-- An empty list ranks nothing: the field's own order stays. -/
def make (field : String) (direction : Direction) (order : List Value) : SortKey :=
  ⟨field, direction, if order = [] then none else some order⟩

/-- Puts a sort in the place of the one on the same field, or last. -/
def put (sorts : List SortKey) (sort : SortKey) : List SortKey :=
  match sorts with
  | [] => [sort]
  | t :: rest => if t.field = sort.field then sort :: rest else t :: put rest sort

end SortKey

/-- What to read of each row: the chosen fields, or every column. -/
structure Projection where
  fields : List String
  wildcard : Bool
deriving DecidableEq, Repr

namespace Projection

def empty : Projection := ⟨[], false⟩

/-- The name that chooses every column. -/
def everything : String := "*"

/-- Nothing is chosen. -/
def isEmpty (p : Projection) : Bool := !p.wildcard && p.fields.isEmpty

/-- Chooses a field, once. -/
def add (p : Projection) (field : String) : Projection :=
  if field ∈ p.fields then p else { p with fields := p.fields ++ [field] }

end Projection

/-- A statement given as text, run instead of the one the rest describes. -/
structure RawStatement where
  sql : String
  params : List Value
deriving DecidableEq, Repr

namespace Assignment

/-- Puts a value in the place of the field's earlier one, or last. -/
def put (assignments : List (String × Value)) (field : String) (v : Value) :
    List (String × Value) :=
  match assignments with
  | [] => [(field, v)]
  | (f, w) :: rest => if f = field then (f, v) :: rest else (f, w) :: put rest field v

end Assignment

structure Draft where
  predicates : List Predicate
  sorts : List SortKey
  bounds : Bounds
  projection : Projection
  raw : Option RawStatement
  assignments : List (String × Value)
deriving DecidableEq, Repr

def Draft.empty : Draft := ⟨[], [], .empty, .empty, none, []⟩

end TableQuery

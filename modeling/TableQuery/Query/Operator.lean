/-
The operators a condition can use, and how many operands each takes.
-/
namespace TableQuery

/-- Operators that compare a field with one value. -/
inductive Comparison where
  | eq | ne | gt | gte | lt | lte
deriving DecidableEq, Repr

/-- Operators that match a text against a pattern. -/
inductive PatternKind where
  | startsWith | endsWith | contains
deriving DecidableEq, Repr

inductive Operator where
  | compare (c : Comparison)
  | among
  | notAmong
  | between
  | pattern (p : PatternKind)
deriving DecidableEq, Repr

/-- How many operands an operator takes. -/
inductive Arity where
  | one | two | atLeastOne
deriving DecidableEq, Repr

namespace Arity

def admits : Arity → Nat → Bool
  | one, count => count == 1
  | two, count => count == 2
  | atLeastOne, count => 1 ≤ count

def wording : Arity → String
  | one => "exactly 1"
  | two => "exactly 2"
  | atLeastOne => "at least 1"

end Arity

namespace Operator

/-- The canonical spelling of an operator's verb. -/
def name : Operator → String
  | compare .eq => "is"
  | compare .ne => "not"
  | compare .gt => "gt"
  | compare .gte => "gte"
  | compare .lt => "lt"
  | compare .lte => "lte"
  | among => "in"
  | notAmong => "nin"
  | between => "between"
  | pattern .startsWith => "startswith"
  | pattern .endsWith => "endswith"
  | pattern .contains => "contains"

def arity : Operator → Arity
  | compare _ | pattern _ => .one
  | among | notAmong => .atLeastOne
  | between => .two

def takesPattern : Operator → Bool
  | pattern _ => true
  | _ => false

/-- Every operator, in the order they are listed to callers. -/
def all : List Operator :=
  [compare .eq, compare .ne, compare .gt, compare .gte, compare .lt, compare .lte, among, notAmong,
    between, pattern .startsWith, pattern .endsWith, pattern .contains]

theorem mem_all (op : Operator) : op ∈ all := by
  cases op with
  | compare c => cases c <;> decide
  | pattern p => cases p <;> decide
  | among | notAmong | between => decide

end Operator

end TableQuery

/-
Verbs, the leading words of pseudo-methods such as `gte_age` or `asc_name`,
with all their spellings.
-/
import TableQuery.Fault
import TableQuery.Query.Operator

namespace TableQuery

inductive Verb where
  | condition (operator : Operator)
  | asc
  | desc
  | select
deriving DecidableEq, Repr

namespace Verb

/-- Every spelling, aliases included. -/
def spellings : List (String × Verb) :=
  [("is", condition (.compare .eq)), ("eq", condition (.compare .eq)),
    ("not", condition (.compare .ne)), ("ne", condition (.compare .ne)),
    ("in", condition .among), ("nin", condition .notAmong),
    ("gt", condition (.compare .gt)), ("gte", condition (.compare .gte)),
    ("lt", condition (.compare .lt)), ("lte", condition (.compare .lte)),
    ("between", condition .between),
    ("startswith", condition (.pattern .startsWith)),
    ("endswith", condition (.pattern .endsWith)),
    ("contains", condition (.pattern .contains)),
    ("asc", asc), ("desc", desc), ("select", select)]

def ofName? (name : String) : Option Verb :=
  (spellings.find? (·.1 = name)).map (·.2)

end Verb

/-- The operator of a condition's verb. -/
def Operator.ofName (name : String) : Except Fault Operator :=
  match Verb.ofName? name with
  | some (.condition op) => .ok op
  | _ => .error (.invalidOperator name)

/-- The canonical spelling names its operator. -/
@[simp] theorem Operator.ofName_name (op : Operator) : Operator.ofName op.name = .ok op := by
  cases op with
  | compare c => cases c <;> rfl
  | pattern p => cases p <;> rfl
  | among | notAmong | between => rfl

end TableQuery

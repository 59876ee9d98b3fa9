/-
Conditions on a field.

A test holds exactly the operands that its operator takes, so a predicate
never has too few or too many, and it is made only for a field of the
schema, under the field's own name.
-/
import TableQuery.Query.DatePart
import TableQuery.Query.Operator
import TableQuery.Schema

namespace TableQuery

/-- An operator together with its operands. -/
inductive Test where
  | compare (c : Comparison) (value : Value)
  | among (first : Value) (more : List Value)
  | notAmong (first : Value) (more : List Value)
  | between (low high : Value)
  | pattern (p : PatternKind) (value : Value)
deriving DecidableEq, Repr

namespace Test

/-- The test of an operator on its operands, if their number is right. -/
def of? : Operator → List Value → Option Test
  | .compare c, [v] => some (.compare c v)
  | .among, v :: more => some (.among v more)
  | .notAmong, v :: more => some (.notAmong v more)
  | .between, [low, high] => some (.between low high)
  | .pattern p, [v] => some (.pattern p v)
  | _, _ => none

def operator : Test → Operator
  | compare c _ => .compare c
  | among .. => .among
  | notAmong .. => .notAmong
  | between .. => .between
  | pattern p _ => .pattern p

def operands : Test → List Value
  | compare _ v | pattern _ v => [v]
  | among v more | notAmong v more => v :: more
  | between low high => [low, high]

/-- A test is its operator and operands. -/
theorem of?_eq_some_iff {op : Operator} {vs : List Value} {t : Test} :
    of? op vs = some t ↔ t.operator = op ∧ t.operands = vs := by
  constructor
  · intro h
    unfold of? at h
    split at h <;> cases h <;> exact ⟨rfl, rfl⟩
  · rintro ⟨rfl, rfl⟩
    cases t <;> rfl

/-- There is a test exactly for the operand counts the operator accepts. -/
theorem isSome_of? (op : Operator) (vs : List Value) :
    (of? op vs).isSome = op.arity.admits vs.length := by
  rcases op with _ | _ | _ | _ | _ <;> rcases vs with _ | ⟨a, _ | ⟨b, _ | ⟨c, vs⟩⟩⟩ <;>
    simp [of?, Operator.arity, Arity.admits]

end Test

structure Predicate where
  field : String
  test : Test
  part : Option DatePart
deriving DecidableEq, Repr

namespace Predicate

def operator (p : Predicate) : Operator := p.test.operator

def operands (p : Predicate) : List Value := p.test.operands

/-- The condition on a field of the schema. The number of operands is looked
at first, then whether the field has date parts, then whether it has text to
match. -/
def make (s : Schema) (field : String) (op : Operator) (operands : List Value)
    (part : Option DatePart) : Except Fault Predicate := do
  let f ← s.require field
  match Test.of? op operands with
  | none => .error (.invalidOperandCount op.name f.name op.arity.wording operands.length)
  | some test =>
    if part.isSome && !f.type.hasDateParts then
      .error (.unsupportedFieldType f.name f.type "date part extraction")
    else if op.takesPattern && !f.type.admitsPattern then
      .error (.unsupportedFieldType f.name f.type "pattern matching")
    else .ok ⟨f.name, test, part⟩

end Predicate

end TableQuery

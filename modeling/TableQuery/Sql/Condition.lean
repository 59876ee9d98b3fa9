/-
Conditions: what a statement asks of the rows that it addresses, one condition
after the other, read off the terms of its scope.

A condition is asked of an operand: a column, a unit of a date, a function's
value for a text and another operand, or another operand cast to a type. What
stands after it is the question. `AND` stands between conditions only. Reading
takes no part in writing statements.
-/
import TableQuery.Sql.Scope

namespace TableQuery

/-- What a condition looks at. -/
inductive Operand where
  | column (name : List Char)
  /-- A unit of a date, such as its `DAY`. -/
  | extract (unit : List Char) (e : Operand)
  /-- A function of a text and an operand. -/
  | call (function text : List Char) (e : Operand)
  | cast (e : Operand) (type : List Char)
deriving DecidableEq, Repr

namespace Operand

/-- Reads the operand at the start of some terms. -/
def read? : List Term → Option (Operand × List Term)
  | .lexeme (.ident name) :: ts => some (column name, ts)
  | .lexeme (.word word) :: .lexeme (.sign .lparen) :: .lexeme (.word unit) :: .lexeme (.word next) :: ts =>
    match read? ts with
    | some (e, .lexeme (.sign .rparen) :: rest) =>
      if word = Symbol.EXTRACT.text.toList ∧ next = Symbol.FROM.text.toList then some (extract unit e, rest) else none
    | _ => none
  | .lexeme (.word function) :: .lexeme (.sign .lparen) :: .lexeme (.text text) :: .lexeme (.sign .comma) :: ts =>
    match read? ts with
    | some (e, .lexeme (.sign .rparen) :: rest) => some (call function text e, rest)
    | _ => none
  | .lexeme (.word word) :: .lexeme (.sign .lparen) :: ts =>
    match read? ts with
    | some (e, .lexeme (.word next) :: .lexeme (.word type) :: .lexeme (.sign .rparen) :: rest) =>
      if word = Symbol.CAST.text.toList ∧ next = Symbol.AS.text.toList then some (cast e type, rest) else none
    | _ => none
  | _ => none

end Operand

structure Condition where
  operand : Operand
  /-- What is asked of the operand, as the text says it. -/
  question : List Term
deriving DecidableEq, Repr

namespace Condition

def read? (ts : List Term) : Option Condition := (Operand.read? ts).map fun (e, rest) => ⟨e, rest⟩

/-- Whether the operand is to match a pattern. -/
def asksLike (c : Condition) : Bool := Term.word .LIKE ∈ c.question

end Condition

/-- The conditions of a scope. -/
def Scope.conditions? (s : Scope) : Option (List Condition) :=
  if s.condition = [] then some [] else (s.condition.splitOn (.word .AND)).mapM Condition.read?

/-- The conditions that a statement's text asks for. -/
def Statement.conditions? (s : Statement) : Option (List Condition) := s.scope?.bind Scope.conditions?

end TableQuery

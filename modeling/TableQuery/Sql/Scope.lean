/-
Scopes: which rows of which table a statement addresses, read off its lexemes.

The table is named after `FROM` or `UPDATE`. The condition stands between
`WHERE` and the order or window, and a placeholder in it is read as the value
that it stands for: so two statements have one condition only if it is written
alike and binds the same values, wherever these come among the parameters of
each. Nothing else in a statement decides for which rows its condition holds.
Reading takes no part in writing statements.
-/
import TableQuery.Sql.Binding

namespace TableQuery

/-- A lexeme of a statement, or the value that stands in a placeholder's place. -/
inductive Term where
  | lexeme (l : Lexeme)
  | value (v : Value)
deriving DecidableEq, Repr

namespace Term

def word (s : Symbol) : Term := lexeme (.word s.text.toList)

/-- A numbered lexeme among these parameters; a number that none of them has is left. -/
def ofLexeme (params : List Value) : Lexeme → Term
  | .placeholder (some (n + 1)) =>
    match params[n]? with
    | some v => value v
    | none => lexeme (.placeholder (some (n + 1)))
  | l => lexeme l

end Term

/-- The lexemes of a statement, with its parameters in place. -/
def Statement.terms? (s : Statement) : Option (List Term) :=
  s.lexemes?.map fun ls => (Lexeme.numbered 0 ls).map (Term.ofLexeme s.params)

structure Scope where
  table : List Char
  /-- What has to hold of a row; nothing, if empty. -/
  condition : List Term
deriving DecidableEq, Repr

namespace Scope

/-- The name after the first `FROM` or `UPDATE` that has one. -/
def table? : List Term → Option (List Char)
  | .lexeme (.word cs) :: .lexeme (.ident name) :: ts =>
    if cs = Symbol.FROM.text.toList ∨ cs = Symbol.UPDATE.text.toList then some name
    else table? (.lexeme (.ident name) :: ts)
  | _ :: ts => table? ts
  | [] => none

/-- The words that end a condition. -/
def ends (t : Term) : Bool := t = .word .ORDER || t = .word .LIMIT || t = .word .OFFSET

/-- What stands after the first `WHERE`, up to the order or window. -/
def conditionOf (ts : List Term) : List Term :=
  ((ts.dropWhile (· ≠ .word .WHERE)).drop 1).takeWhile (!ends ·)

def ofTerms? (ts : List Term) : Option Scope := (table? ts).map fun name => ⟨name, conditionOf ts⟩

end Scope

/-- The rows that a statement addresses. -/
def Statement.scope? (s : Statement) : Option Scope := s.terms?.bind Scope.ofTerms?

end TableQuery

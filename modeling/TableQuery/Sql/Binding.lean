/-
Bindings: which parameter each placeholder of a statement stands for, and
which column an update or insertion gives it to, read off the lexemes.

A placeholder with a number stands for the parameter of that number, one
without for the parameter of its place among all placeholders; both are
counted from 1. Reading takes no part in writing statements.
-/
import TableQuery.Sql.Lexeme

namespace TableQuery

namespace Lexeme

def isPlaceholder : Lexeme → Bool
  | placeholder _ => true
  | _ => false

/-- The lexemes with a number for each placeholder, when `seen` placeholders
stand before them. -/
def numbered : Nat → List Lexeme → List Lexeme
  | _, [] => []
  | seen, placeholder number :: ls =>
    placeholder (some (number.getD (seen + 1))) :: numbered (seen + 1) ls
  | seen, l :: ls => l :: numbered seen ls

theorem numbered_cons {l : Lexeme} (h : l.isPlaceholder = false) (seen : Nat) (ls : List Lexeme) :
    numbered seen (l :: ls) = l :: numbered seen ls := by
  cases l with
  | placeholder => cases h
  | _ => rfl

end Lexeme

namespace Binding

/-- Reads `"column" = $n` between commas. -/
def settings? : List Lexeme → Option (List (List Char × Nat))
  | .ident c :: .sign .eq :: .placeholder (some n) :: .sign .comma :: ls =>
    (settings? ls).map ((c, n) :: ·)
  | .ident c :: .sign .eq :: .placeholder (some n) :: _ => some [(c, n)]
  | _ => none

/-- Reads what stands between commas up to a closing parenthesis. -/
def listed? {α : Type} (item? : Lexeme → Option α) : List Lexeme → Option (List α × List Lexeme)
  | l :: .sign .comma :: ls => do
    let a ← item? l
    let (as, rest) ← listed? item? ls
    pure (a :: as, rest)
  | l :: .sign .rparen :: ls => (item? l).map fun a => ([a], ls)
  | _ => none

def column? : Lexeme → Option (List Char)
  | .ident c => some c
  | _ => none

def number? : Lexeme → Option Nat
  | .placeholder number => number
  | _ => none

/-- Reads columns, `VALUES` and as many placeholders. -/
def insertions? (ls : List Lexeme) : Option (List (List Char × Nat)) :=
  match listed? column? ls with
  | some (columns, .word verb :: .sign .lparen :: rest) =>
    match listed? number? rest with
    | some (numbers, _) =>
      if verb = Symbol.VALUES.text.toList ∧ columns.length = numbers.length then
        some (columns.zip numbers)
      else none
    | none => none
  | _ => none

/-- The columns that an update or insertion writes, each with the number of
its parameter. -/
def targets? : List Lexeme → Option (List (List Char × Nat))
  | .word verb :: .ident _ :: .word next :: ls =>
    if verb = Symbol.UPDATE.text.toList ∧ next = Symbol.SET.text.toList then settings? ls else none
  | .word verb :: .word next :: .ident _ :: .sign .lparen :: ls =>
    if verb = Symbol.INSERT.text.toList ∧ next = Symbol.INTO.text.toList then insertions? ls
    else none
  | _ => none

end Binding

/-- The columns that a statement writes, each with the number of its parameter. -/
def Statement.targets? (s : Statement) : Option (List (List Char × Nat)) :=
  s.lexemes?.bind fun ls => Binding.targets? (Lexeme.numbered 0 ls)

end TableQuery

/-
The spaces in a statement's text, next to what they part.

Between quotes a space is a part of the name or text; anywhere else it is
counted with the lexeme that it stands before. Reading takes no part in
writing statements.
-/
import TableQuery.Sql.Lexeme

namespace TableQuery

/-- A sign of comparison as it stands in a text. -/
structure SpacedSign where
  sign : Symbol
  /-- The spaces right before it. -/
  before : Nat
  /-- The spaces right after it. -/
  after : Nat
deriving DecidableEq, Repr

namespace Lexeme

/-- Reads all lexemes of a text, each with the spaces before it, and the spaces at the end. `count`
spaces have been passed since the last lexeme. -/
def readSpaced? (count : Nat) (cs : List Char) : Option (List (Nat × Lexeme) × Nat) :=
  match cs with
  | [] => some ([], count)
  | ' ' :: rest => readSpaced? (count + 1) rest
  | c :: cs =>
    match h : next? (c :: cs) with
    | none => none
    | some (l, rest) =>
      have := length_next? h
      (readSpaced? 0 rest).map fun (ls, last) => ((count, l) :: ls, last)
termination_by cs.length
decreasing_by all_goals simp only [List.length_cons] at *; omega

/-- A sign of comparison between so many spaces; nothing, if the lexeme is none. -/
def comparison (before after : Nat) : Lexeme → List SpacedSign
  | sign s => if s.isComparison then [⟨s, before, after⟩] else []
  | _ => []

/-- The signs of comparison among lexemes, with `last` spaces behind them all. -/
def comparisons (last : Nat) : List (Nat × Lexeme) → List SpacedSign
  | [] => []
  | (before, l) :: rest => l.comparison before (rest.head?.elim last (·.1)) ++ comparisons last rest

end Lexeme

/-- The signs of comparison in a statement's text, each with the spaces around it. -/
def Statement.comparisons? (s : Statement) : Option (List SpacedSign) :=
  (Lexeme.readSpaced? 0 s.sql.toList).map fun (ls, last) => Lexeme.comparisons last ls

end TableQuery

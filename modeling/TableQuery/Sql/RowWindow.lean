/-
Row windows: which rows of a result `LIMIT` and `OFFSET` pick, read off a
statement's lexemes.

A negative limit is none. The words of a statement are never names, which
stand between quotes, so each of the two comes once at most.
-/
import TableQuery.Sql.Lexeme

namespace TableQuery

structure RowWindow where
  limit : Option Nat
  offset : Nat
deriving DecidableEq, Repr

namespace RowWindow

/-- The integer that follows a word. -/
def argument? (word : Symbol) : List Lexeme → Option Int
  | .word cs :: .integer n :: rest =>
    if cs = word.text.toList then some n else argument? word (.integer n :: rest)
  | _ :: rest => argument? word rest
  | [] => none

/-- Every integer that follows one of the two words, with its word. -/
def arguments : List Lexeme → List (Symbol × Int)
  | .word cs :: .integer n :: rest =>
    (([.LIMIT, .OFFSET] : List Symbol).filter (cs = ·.text.toList)).map (·, n) ++ arguments (.integer n :: rest)
  | _ :: rest => arguments rest
  | [] => []

/-- The window that lexemes ask for. -/
def ofLexemes (ls : List Lexeme) : RowWindow :=
  { limit := (argument? .LIMIT ls).bind fun n => if n < 0 then none else some n.toNat
    offset := ((argument? .OFFSET ls).getD 0).toNat }

/-- The window that a statement asks for. -/
def ofStatement (s : Statement) : RowWindow := ofLexemes (s.lexemes?.getD [])

/-- The rows that a window picks. -/
def pick {α : Type} (w : RowWindow) (rows : List α) : List α :=
  match w.limit with
  | some l => (rows.drop w.offset).take l
  | none => rows.drop w.offset

end RowWindow

/-- The numbers that a statement's text gives its window. -/
def Statement.window? (s : Statement) : Option (List (Symbol × Int)) := s.lexemes?.map RowWindow.arguments

end TableQuery

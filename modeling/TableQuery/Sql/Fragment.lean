/-
Fragments of SQL: sequences of pieces that are written with spaces between
them only where two of them need one.

Fragments are put together by appending, in parentheses, as calls and as
lists. A parameter is a piece that holds its value; the value is never part
of the text.
-/
import TableQuery.Sql.Symbol
import TableQuery.Value

namespace TableQuery

inductive Piece where
  | symbol (s : Symbol)
  /-- The name of a table or column, written between quotes. -/
  | ident (name : String)
  /-- Text written as it is. -/
  | raw (text : String)
  | number (n : Int)
  /-- A bound value, written as a placeholder. -/
  | param (v : Value)
deriving DecidableEq, Repr

namespace Piece

/-- Words, names, texts, numbers and placeholders: what reads as a word. -/
def readsAsWord : Piece → Bool
  | symbol s => !s.isPunctuation && !s.isComparison
  | _ => true

/-- A sign of comparison. -/
def isComparison : Piece → Bool
  | symbol s => s.isComparison
  | _ => false

@[simp]
def param? : Piece → Option Value
  | param v => some v
  | _ => none

end Piece

abbrev Fragment := List Piece

namespace Fragment

@[simp]
def symbol (s : Symbol) : Fragment := [.symbol s]

@[simp]
def ident (name : String) : Fragment := [.ident name]

/-- The bound values, in order. -/
def params (f : Fragment) : List Value := f.filterMap Piece.param?

def enclosed (f : Fragment) : Fragment := .symbol .lparen :: f ++ [.symbol .rparen]

/-- A function's call on arguments. -/
def call (name : String) (args : Fragment) : Fragment := .raw name :: enclosed args

/-- Fragments with a symbol between each two. -/
def separated (sep : Symbol) : List Fragment → Fragment
  | [] => []
  | [f] => f
  | f :: rest => f ++ .symbol sep :: separated sep rest

/-- After the first fragment each brings its symbol. -/
theorem separated_cons (sep : Symbol) (f : Fragment) (fs : List Fragment) :
    separated sep (f :: fs) = f ++ fs.flatMap (.symbol sep :: ·) := by
  induction fs generalizing f with
  | nil => exact (List.append_nil f).symm
  | cons g fs ih =>
    rw [separated, ih, List.flatMap_cons, List.cons_append]
    exact List.cons_ne_nil g fs

/-- Names between commas. -/
def nameList (names : List String) : Fragment := separated .comma (names.map ident)

/-- Placeholders between commas. -/
def placeholderList (vs : List Value) : Fragment := separated .comma (vs.map fun v => [.param v])

/-- `name = value` between commas. -/
def assignments (pairs : List (String × Value)) : Fragment :=
  separated .comma (pairs.map fun (name, v) => [.ident name, .symbol .eq, .param v])

end Fragment

end TableQuery

/-
Statements: the text of a fragment in a dialect, and the values its
placeholders stand for.

Writing goes from left to right with a count of the placeholders written so
far, and puts one space between two pieces exactly when `spaced` says so.
-/
import TableQuery.Sql.Dialect
import TableQuery.Sql.Fragment

namespace TableQuery

open Text

structure Statement where
  sql : String
  params : List Value
deriving DecidableEq, Repr

/-- A name between quotes, with each quote of its own written twice. -/
def quotedIdent (cs : List Char) : List Char :=
  '"' :: cs.flatMap (fun c => if c = '"' then ['"', '"'] else [c]) ++ ['"']

namespace Piece

/-- The text of a piece; a placeholder is the `index`-th one. -/
def text (d : Dialect) (index : Nat) : Piece → List Char
  | symbol s => s.text.toList
  | ident name => quotedIdent name.toList
  | raw text => text.toList
  | number n => Decimal.ofInt n
  | param _ => d.placeholder index

/-- The number of placeholders a piece writes. -/
def arity : Piece → Nat
  | param _ => 1
  | _ => 0

def endsBlank : Piece → Bool
  | raw text => text.toList.getLast? = some ' '
  | _ => false

def startsBlank : Piece → Bool
  | raw text => text.toList.head? = some ' '
  | _ => false

/-- Whether two pieces, of which neither brings a space of its own, need one
between them. -/
def needSpace : Piece → Piece → Bool
  | _, symbol .rparen | _, symbol .comma => false
  | symbol .lparen, _ => false
  | symbol .comma, _ => true
  | symbol .rparen, next => next.readsAsWord
  | raw _, symbol .lparen | symbol .CAST, symbol .lparen | symbol .EXTRACT, symbol .lparen => false
  | current, symbol .lparen => current.readsAsWord
  | current, next =>
    current.isComparison || next.isComparison || current.readsAsWord && next.readsAsWord

/-- Whether a space stands between two neighbours. -/
def spaced (current next : Piece) : Bool :=
  !current.endsBlank && !next.startsBlank && needSpace current next

end Piece

namespace Fragment

/-- The text of a fragment, when `count` placeholders stand before it. -/
def textFrom (d : Dialect) : Nat → Fragment → List Char
  | _, [] => []
  | count, [p] => p.text d (count + 1)
  | count, p :: q :: rest =>
    p.text d (count + 1) ++ (if p.spaced q then [' '] else []) ++
      textFrom d (count + p.arity) (q :: rest)

def text (d : Dialect) (f : Fragment) : List Char := f.textFrom d 0

/-- The statement that a fragment writes. -/
def statement (d : Dialect) (f : Fragment) : Statement := ⟨String.ofList (f.text d), f.params⟩

end Fragment

end TableQuery

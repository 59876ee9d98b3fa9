/-
Assemblies: how a fragment is put together, as data.

The operations push pieces at the end of what has been made so far. Which of
them made a fragment cannot be told from it, and its text is written from its
pieces alone.
-/
import TableQuery.Sql.Fragment

namespace TableQuery

namespace Fragment

/-- One fragment after another; an empty one is replaced. -/
def extend (f g : Fragment) : Fragment := if f.isEmpty then g else f ++ g

def push (f : Fragment) (p : Piece) : Fragment := f ++ [p]

/-- The first fragment, and each of the others pushed behind a symbol. -/
def join (sep : Symbol) : List Fragment → Fragment
  | [] => []
  | first :: rest => rest.foldl (fun (made f : Fragment) => made.push (.symbol sep) ++ f) first

/-- Pushes the pieces of the `i`-th item, behind a comma unless it is the first. -/
def pushItem {α : Type} (pieces : α → List Piece) (made : Fragment) : α × Nat → Fragment
  | (item, i) => (if 0 < i then made.push (.symbol .comma) else made) ++ pieces item

/-- The pieces of each item, with commas between. -/
def listed {α : Type} (pieces : α → List Piece) (items : List α) : Fragment :=
  items.zipIdx.foldl (pushItem pieces) []

end Fragment

inductive Assembly where
  /-- Pieces in a row: none, one or several. -/
  | pieces (ps : List Piece)
  | append (first second : Assembly)
  | push (a : Assembly) (p : Piece)
  | join (sep : Symbol) (items : List Assembly)
  | parens (a : Assembly)
  | call (name : String) (args : Assembly)
  | nameList (names : List String)
  | placeholderList (vs : List Value)
  | assignments (pairs : List (String × Value))
deriving Repr

namespace Assembly

mutual

/-- The fragment that the operations make. -/
def fragment : Assembly → Fragment
  | pieces ps => ps
  | append first second => first.fragment.extend second.fragment
  | push a p => a.fragment.push p
  | join sep items => Fragment.join sep (fragments items)
  | parens a => ((Fragment.symbol .lparen).extend a.fragment).push (.symbol .rparen)
  | call name args =>
    ((Fragment.push [.raw name] (.symbol .lparen)).extend args.fragment).push (.symbol .rparen)
  | nameList names => Fragment.listed (fun name => [.ident name]) names
  | placeholderList vs => Fragment.listed (fun v => [.param v]) vs
  | assignments pairs => Fragment.listed (fun (name, v) => [.ident name, .symbol .eq, .param v]) pairs

def fragments : List Assembly → List Fragment
  | [] => []
  | a :: rest => a.fragment :: fragments rest

end

end Assembly

end TableQuery

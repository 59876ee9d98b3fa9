/-
The order that a statement asks for its rows, read off its terms.

After `ORDER BY` stand keys between commas, up to the window. A key is a column
or a simple `CASE` over one, and says its direction at its end. In a `CASE` a
comparison with null is never true, on either side. Reading takes no part in
writing statements.
-/
import TableQuery.Sql.Scope

namespace TableQuery

/-- A simple `CASE` over a column: the first branch whose value equals the column's
gives the number. -/
structure SimpleCase where
  column : List Char
  branches : List (Value × Int)
  otherwise : Int
deriving DecidableEq, Repr

namespace SimpleCase

/-- Reads the branches, and the number for what none of them has. -/
def readBranches? : List Term → Option (List (Value × Int) × Int)
  | [word, .lexeme (.integer n), last] => if word = .word .ELSE ∧ last = .word .END then some ([], n) else none
  | word :: .value v :: next :: .lexeme (.integer n) :: rest =>
    if word = .word .WHEN ∧ next = .word .THEN then
      (readBranches? rest).map fun (branches, otherwise) => ((v, n) :: branches, otherwise)
    else none
  | _ => none

def read? : List Term → Option SimpleCase
  | word :: .lexeme (.ident column) :: rest =>
    if word = .word .CASE then
      (readBranches? rest).map fun (branches, otherwise) => ⟨column, branches, otherwise⟩
    else none
  | _ => none

/-- The number for a value of the column, when `equal` tells which values
other than null are equal. -/
def eval (equal : Value → Value → Bool) (e : SimpleCase) (v : Value) : Int :=
  match e.branches.find? fun b => !v.isNull && !b.1.isNull && equal v b.1 with
  | some (_, n) => n
  | none => e.otherwise

end SimpleCase

/-- What rows are ordered by: a column, or the number that a `CASE` gives its value. -/
inductive OrderKey where
  | column (name : List Char)
  | rank (e : SimpleCase)
deriving DecidableEq, Repr

def OrderKey.read? : List Term → Option OrderKey
  | [.lexeme (.ident name)] => some (column name)
  | ts => (SimpleCase.read? ts).map rank

structure RowOrder where
  key : OrderKey
  descending : Bool
deriving DecidableEq, Repr

namespace RowOrder

/-- Reads a key and its direction. -/
def read? (ts : List Term) : Option RowOrder := do
  let last ← ts.getLast?
  let key ← OrderKey.read? ts.dropLast
  if last = .word .ASC then some ⟨key, false⟩
  else if last = .word .DESC then some ⟨key, true⟩
  else none

/-- The words that end the keys. -/
def ends (t : Term) : Bool := t = .word .LIMIT || t = .word .OFFSET

/-- The keys that terms ask for; none without the words. -/
def ofTerms? (ts : List Term) : Option (List RowOrder) :=
  match ts.dropWhile (· ≠ .word .ORDER) with
  | [] => some []
  | _ :: word :: rest =>
    if word = .word .BY then ((rest.takeWhile (!ends ·)).splitOn (.lexeme (.sign .comma))).mapM read? else none
  | _ => none

/-- Whether numbers are in the direction of a key. -/
def Sorted (descending : Bool) (numbers : List Int) : Prop :=
  numbers.Pairwise fun m n => if descending then n ≤ m else m ≤ n

end RowOrder

/-- The keys by which a statement asks for its rows to be ordered, the first one first. -/
def Statement.order? (s : Statement) : Option (List RowOrder) := s.terms?.bind RowOrder.ofTerms?

end TableQuery

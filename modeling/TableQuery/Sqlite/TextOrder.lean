/-
How SQLite orders texts, and what conditions and sort keys ask of rows of them.

Texts are compared by their octets, the first ones first, and a text comes before
any that it starts. Nothing is said here of other cells, or of conditions that
do not compare a column with a value.
-/
import TableQuery.Query.Operator
import TableQuery.Sql.Condition
import TableQuery.Sql.RowOrder
import TableQuery.Sqlite.Cell

namespace TableQuery

open Sqlite

/-- How two texts stand to each other. -/
def Sqlite.Cell.textOrder? : Cell → Cell → Option Ordering
  | text a, text b => some (compare a b)
  | _, _ => none

/-- Whether what stands so to another thing is in comparison as it is asked to be. -/
def Comparison.holds (o : Ordering) : Comparison → Bool
  | eq => o.isEq
  | ne => o.isNe
  | gt => o.isGT
  | gte => o.isGE
  | lt => o.isLT
  | lte => o.isLE

/-- The comparison that a sign asks for. -/
def Comparison.ofSymbol? : Symbol → Option Comparison
  | .eq => some eq
  | .ne => some ne
  | .gt => some gt
  | .ge => some gte
  | .lt => some lt
  | .le => some lte
  | _ => none

namespace Condition

/-- Whether a condition holds of a row of texts, given by the names of its columns. -/
def holds? (row : List Char → Cell) (c : Condition) : Option Bool :=
  match c.operand, c.question with
  | .column name, [.lexeme (.sign sign), .value v] => do
    let comparison ← Comparison.ofSymbol? sign
    let o ← (row name).textOrder? (.bound v)
    pure (comparison.holds o)
  | _, _ => none

/-- Whether all conditions of a list hold of a row. -/
def allHold? (row : List Char → Cell) (cs : List Condition) : Option Bool :=
  (cs.mapM (holds? row)).map (·.all id)

end Condition

/-- How two rows of texts stand by some keys: as by the first in which they differ. -/
def RowOrder.compareRows? (row row' : List Char → Cell) : List RowOrder → Option Ordering
  | [] => some .eq
  | ⟨.column name, descending⟩ :: keys => do
    let o ← (row name).textOrder? (row' name)
    let rest ← compareRows? row row' keys
    pure ((if descending then o.swap else o).then rest)
  | ⟨.rank _, _⟩ :: _ => none

end TableQuery

/-
SQL dialects and their placeholders.
-/
import TableQuery.Text.Decimal

namespace TableQuery

open Text

inductive Dialect where
  /-- Placeholders are `?`, by position. -/
  | sqlite
  /-- Placeholders are `$1`, `$2` and so on. -/
  | postgresql
deriving DecidableEq, Repr

namespace Dialect

def name : Dialect → String
  | sqlite => "sqlite"
  | postgresql => "postgresql"

def numbersPlaceholders : Dialect → Bool
  | sqlite => false
  | postgresql => true

/-- The placeholder of the `index`-th parameter, counted from 1. -/
def placeholder (d : Dialect) (index : Nat) : List Char :=
  match d with
  | sqlite => ['?']
  | postgresql => '$' :: Decimal.ofNat index

/-- The dialect of that name, in capital or small ASCII letters. -/
def ofName? (name : String) : Option Dialect :=
  let name := String.ofList (name.toList.map Char.toLower)
  if name ∈ ["sqlite", "sqlite3"] then some sqlite
  else if name ∈ ["postgresql", "postgres", "pg"] then some postgresql
  else none

end Dialect

end TableQuery

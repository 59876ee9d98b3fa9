/-
Values: what statements bind and what rows hold.
-/
import TableQuery.Calendar.Text
import TableQuery.Number.Shortest
import TableQuery.Text.Utf8

namespace TableQuery

open Text

/-- A single SQL value. -/
inductive Value where
  | null
  | bool (b : Bool)
  | integer (i : Int64)
  | real (r : Binary64)
  | text (s : String)
  | blob (octets : List UInt8)
  | date (d : Date)
  | datetime (m : Moment)
deriving DecidableEq, Repr

namespace Value

/-- An integer of 64 bits; one past them wraps. -/
def ofInt (i : Int) : Value := integer (Int64.ofInt i)

/-- A single, widened. -/
def ofSingle (r : Binary32) : Value := real r.toBinary64

/-- Null for nothing. -/
def ofOption {α : Type} (f : α → Value) : Option α → Value
  | some a => f a
  | none => null

def isNull : Value → Bool
  | null => true
  | _ => false

/-- The name of a value's kind. -/
def kindName : Value → String
  | null => "null"
  | bool _ => "bool"
  | integer _ => "integer"
  | real _ => "real"
  | text _ => "text"
  | blob _ => "blob"
  | date _ => "date"
  | datetime _ => "datetime"

/-- The integer a value denotes; truth values count as 0 and 1. -/
def int64? : Value → Option Int64
  | integer i => some i
  | bool b => some (if b then 1 else 0)
  | _ => none

def text? : Value → Option String
  | text s => some s
  | _ => none

/-- A text between apostrophes, with each of its own written twice. -/
def quoted (cs : List Char) : List Char :=
  '\'' :: cs.flatMap (fun c => if c = '\'' then ['\'', '\''] else [c]) ++ ['\'']

/-- A value as a reader of messages sees it. -/
def display : Value → String
  | null => "NULL"
  | bool b => if b then "true" else "false"
  | integer i => String.ofList (Decimal.ofInt i.toInt)
  | real r => String.ofList r.text
  | text s => String.ofList (quoted s.toList)
  | blob octets => s!"<{octets.length} bytes>"
  | date d => String.ofList (quoted d.text)
  | datetime m => String.ofList (quoted m.text)

/-- A value as the text that a pattern is made of: bare, and empty for null. -/
def bareText : Value → String
  | null => ""
  | bool b => if b then "true" else "false"
  | integer i => String.ofList (Decimal.ofInt i.toInt)
  | real r => String.ofList r.text
  | text s => s
  | blob octets => String.ofList (Utf8.decodeLossy octets)
  | date d => String.ofList d.text
  | datetime m => String.ofList m.text

end Value

end TableQuery

/-
Failures of SQLite, and the faults they are reported as.

The low eight bits of a result code name its category; the whole code tells
the constraint apart. A statement that was refused has no category of its
own, so its text decides.
-/
import TableQuery.Fault
import TableQuery.Text.Blank

namespace TableQuery.Sqlite

open Text

inductive Failure where
  /-- The engine's result code with its text. -/
  | engine (code : Int) (text : String)
  | conversion (index : Nat) (type text : String)
  | integerOutOfRange (index : Nat) (value : Int)
  | columnType (index : Nat) (name type : String)
  | noRows
  | columnIndex (index : Nat)
  | columnName (name : String)
  | parameterCount (got needed : Nat)
  /-- Text that is no statement, and where in it that shows. -/
  | refused (text sql : String) (offset : Nat)
deriving DecidableEq, Repr

namespace Failure

def message : Failure → String
  | engine _ text => text
  | conversion index type text => s!"Conversion error from type {type} at index: {index}, {text}"
  | integerOutOfRange index value => s!"Integer {value} out of range at index {index}"
  | columnType index name type => s!"Invalid column type {type} at index: {index}, name: {name}"
  | noRows => "Query returned no rows"
  | columnIndex index => s!"Invalid column index: {index}"
  | columnName name => s!"Invalid column name: {name}"
  | parameterCount got needed =>
    s!"Wrong number of parameters passed to query. Got {got}, needed {needed}"
  | refused text sql offset => s!"{text} in {sql} at offset {offset}"

/-- The category that a result code carries in its low eight bits. -/
def primary (code : Int) : Int := code % 256

/-- Whether `part` stands anywhere in a text. -/
def occurs (part : List Char) : List Char → Bool
  | [] => part.isEmpty
  | c :: cs => (after? part (c :: cs)).isSome || occurs part cs

/-- A text that says the statement was refused. -/
def saysRefused (text : String) : Bool :=
  occurs "syntax error".toList text.toList || (after? "no such".toList text.toList).isSome

/-- Result 19 is a violated constraint; 5, 6, 10, 14 and 26 are trouble with
the database itself. -/
def kind (code : Int) (text : String) : FailureKind :=
  if primary code = 19 then .constraint
  else if primary code ∈ [5, 6, 10, 14, 26] then .connectivity
  else if saysRefused text then .syntaxError
  else .other

def toFault (f : Failure) : Fault :=
  match f with
  | engine code text => .execution ⟨kind code text, some (toString code), f.message⟩
  | conversion .. | integerOutOfRange .. | columnType .. => .mapping (.unreadable f.message)
  | _ => .execution ⟨.other, none, f.message⟩

end Failure

end TableQuery.Sqlite

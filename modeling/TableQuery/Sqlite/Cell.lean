/-
Values in SQLite: the five storage classes, how values are bound to them and
read back, and when two of them are equal there.

SQLite has no truth values and no dates; the ones are bound as 0 and 1, the
others as text. A text is kept as octets, and reading it puts U+FFFD for
what is no UTF-8.
-/
import TableQuery.Value

namespace TableQuery.Sqlite

open Text

/-- A value in one of SQLite's storage classes. -/
inductive Cell where
  | null
  | integer (i : Int64)
  | real (r : Binary64)
  | text (octets : List UInt8)
  | blob (octets : List UInt8)
deriving DecidableEq, Repr

namespace Cell

def ofText (cs : List Char) : Cell := text (Utf8.encode cs)

/-- The form a value is bound in. -/
def ofValue : Value → Cell
  | .null => null
  | .bool b => integer (if b then 1 else 0)
  | .integer i => integer i
  | .real r => real r
  | .text s => ofText s.toList
  | .blob octets => blob octets
  | .date d => ofText d.text
  | .datetime m => ofText m.text

/-- The value that is read from a cell. -/
def toValue : Cell → Value
  | null => .null
  | integer i => .integer i
  | real r => .real r
  | text octets => .text (String.ofList (Utf8.decodeLossy octets))
  | blob octets => .blob octets

/-- What SQLite keeps of a cell: a NaN becomes null. -/
def stored : Cell → Cell
  | real r => if r.isNaN then null else real r
  | c => c

/-- The cell that a bound value becomes. -/
def bound (v : Value) : Cell := (ofValue v).stored

/-- Whether two cells are equal as SQLite compares them: numbers by their
value, texts and blobs by their octets, and null with nothing. -/
def equal : Cell → Cell → Bool
  | integer i, integer j => i = j
  | integer i, real r | real r, integer i =>
    r.isFinite && r.signedMagnitude = i.toInt * (1 <<< 1074 : Nat)
  | real r, real s =>
    if r.isFinite && s.isFinite then r.signedMagnitude = s.signedMagnitude
    else !r.isNaN && r = s
  | text a, text b => a = b
  | blob a, blob b => a = b
  | _, _ => false

end Cell

end TableQuery.Sqlite

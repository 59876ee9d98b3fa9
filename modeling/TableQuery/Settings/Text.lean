/-
Settings written as JSON.

An object may hold `dialect` and `chunk_limit`, each once; what is missing
keeps its default and other members do not count. A list gives the same two
by their place.
-/
import TableQuery.Settings
import TableQuery.Text.Json

namespace TableQuery.Settings

open Text

/-- The dialect of a name as settings spell it, in small letters. -/
def dialectOfSpelling? (name : List Char) : Option Dialect :=
  if name ∈ ["sqlite".toList, "sqlite3".toList] then some .sqlite
  else if name ∈ ["postgresql".toList, "postgres".toList] then some .postgresql
  else none

/-- Reads a dialect: its name, or an object of that one name with null. -/
def readDialect? : Json → Option Dialect
  | .string (some name) => dialectOfSpelling? name
  | .object [(some name, .null)] => dialectOfSpelling? name
  | _ => none

/-- Reads a dialect or null. -/
def readOptionalDialect? : Json → Option (Option Dialect)
  | .null => some none
  | v => (readDialect? v).map some

/-- Reads a natural number of 64 bits, written in digits alone. -/
def readNumber? : Json → Option UInt64
  | .number (c :: cs) => if c.isDigit then Decimal.readUInt64? (c :: cs) else none
  | _ => none

/-- Reads the members of an object; each of the two may come once. -/
def readMembers? : List (Option (List Char) × Json) → Option (Option Dialect) → Option UInt64 →
    Option Settings
  | [], dialect, chunkSize =>
    some ⟨dialect.getD default.dialect, chunkSize.getD default.chunkSize⟩
  | (none, _) :: _, _, _ => none
  | (some key, v) :: rest, dialect, chunkSize =>
    if key = "dialect".toList then
      match dialect, readOptionalDialect? v with
      | none, some d => readMembers? rest (some d) chunkSize
      | _, _ => none
    else if key = "chunk_limit".toList then
      match chunkSize, readNumber? v with
      | none, some n => readMembers? rest dialect (some n)
      | _, _ => none
    else readMembers? rest dialect chunkSize

/-- Reads settings from a tree. -/
def ofJson? : Json → Option Settings
  | .object members => readMembers? members none none
  | .array [] => some default
  | .array [d] => (readOptionalDialect? d).map fun d => { default with dialect := d }
  | .array [d, n] => do pure ⟨← readOptionalDialect? d, ← readNumber? n⟩
  | _ => none

/-- Reads settings from a JSON text. -/
def ofText? (cs : List Char) : Option Settings := (Json.ofText? cs).bind ofJson?

end TableQuery.Settings

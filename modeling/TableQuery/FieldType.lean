/-
The storage types a field can be declared with.
-/
namespace TableQuery

inductive FieldType where
  | bool | integer | float | text | blob | date | datetime
deriving DecidableEq, Repr

namespace FieldType

def name : FieldType → String
  | bool => "bool"
  | integer => "integer"
  | float => "float"
  | text => "text"
  | blob => "blob"
  | date => "date"
  | datetime => "datetime"

/-- Dates and moments have parts to extract. -/
def hasDateParts : FieldType → Bool
  | date | datetime => true
  | _ => false

/-- Text patterns make no sense for octets and truth values. -/
def admitsPattern : FieldType → Bool
  | blob | bool => false
  | _ => true

end FieldType

end TableQuery

/-
Everything that can go wrong, as causes.

A builder call fails where it is written, with the cause; storage reports a
failure with a category, so that callers can branch without knowing the
backend; reading a row's values fails with a mapping fault. Each cause has
one wording, given by `message`.
-/
import TableQuery.FieldType
import TableQuery.Number.IntType

namespace TableQuery

/-- Category of a failure reported by storage. -/
inductive FailureKind where
  /-- The connection was lost or could not be opened, or the database is busy. -/
  | connectivity
  /-- The statement was refused by the reader or names unknown objects. -/
  | syntaxError
  /-- A constraint was violated. -/
  | constraint
  | other
deriving DecidableEq, Repr

/-- A failure as storage reported it, with the backend's own code. -/
structure StorageFailure where
  kind : FailureKind
  code : Option String
  text : String
deriving DecidableEq, Repr

namespace StorageFailure

def message (f : StorageFailure) : String :=
  "Execution error [" ++ f.code.getD "-" ++ "]: " ++ f.text

/-- The codes for a duplicate key: one of PostgreSQL, two of SQLite. -/
def uniqueCodes : List String := ["23505", "1555", "2067"]

def isDuplicateKey (f : StorageFailure) : Bool :=
  match f.code with
  | some code => uniqueCodes.contains code
  | none => false

end StorageFailure

/-- Why a value or a row could not be read as what was asked for. -/
inductive MappingFault where
  /-- The value is of another kind. -/
  | mismatch (expected got : String)
  | outOfRange (cause : OutOfRange)
  | invalidDate (text : String)
  | invalidDatetime (text : String)
  /-- A keyword argument's value is no integer. -/
  | notAnInteger (text key : String)
  | noColumn (column : String)
  | indexOutOfRange (index : Nat)
  | emptyRow
  /-- A value read by its place in the row. -/
  | atIndex (index : Nat) (cause : MappingFault)
  /-- A value moved out by its column's name. -/
  | inColumn (column : String) (cause : MappingFault)
  /-- A backend gave a cell that is malformed or of a type that is not read. -/
  | unreadable (text : String)
deriving DecidableEq, Repr

def MappingFault.message : MappingFault → String
  | mismatch expected got => s!"Mapping error: expected {expected}, got {got}"
  | outOfRange cause => "Mapping error: " ++ cause.message
  | invalidDate text => s!"Mapping error: invalid date `{text}`"
  | invalidDatetime text => s!"Mapping error: invalid datetime `{text}`"
  | notAnInteger text key => s!"Mapping error: `{text}` is not an integer {key}"
  | noColumn column => s!"Mapping error: no column named `{column}`"
  | indexOutOfRange index => s!"Mapping error: column index {index} out of range"
  | emptyRow => "Mapping error: empty row"
  | atIndex index cause => s!"Mapping error: column {index}: " ++ cause.message
  | inColumn column cause => s!"Mapping error: `{column}`: " ++ cause.message
  | unreadable text => s!"Mapping error: {text}"

/-- Why a window of rows was refused. -/
inductive BoundsFault where
  | zeroLimit
  | zeroPage
  | pageWithoutLimit
  | stated (reason : String)
deriving DecidableEq, Repr

def BoundsFault.reason : BoundsFault → String
  | zeroLimit => "limit must be positive"
  | zeroPage => "page numbers start at 1"
  | pageWithoutLimit => "page requires a limit"
  | stated reason => reason

inductive Fault where
  /-- A field or pseudo-method names nothing declared in the schema. -/
  | unknownField (table field : String)
  /-- An unknown verb or date-part keyword. -/
  | invalidOperator (name : String)
  | invalidOperandCount (verb field expected : String) (got : Nat)
  | unsupportedFieldType (field : String) (type : FieldType) (operation : String)
  | invalidBounds (cause : BoundsFault)
  | execution (failure : StorageFailure)
  /-- A pull after an explicit close. -/
  | cursorClosed
  /-- A pull after a failure was already returned. -/
  | cursorFailed
  /-- Values were asked for and no field is selected. -/
  | noSelection
  /-- An insert or update has nothing to write. -/
  | noAssignments (statement : String)
  | noPrimaryKey (table : String)
  | mapping (cause : MappingFault)
deriving DecidableEq, Repr

namespace Fault

def message : Fault → String
  | unknownField table field => s!"Unknown field `{field}` on `{table}`"
  | invalidOperator name => s!"Invalid operator: {name}"
  | invalidOperandCount verb field expected got =>
    s!"`{verb}` on `{field}` expects {expected} operand(s), got {got}"
  | unsupportedFieldType field type operation =>
    s!"Field `{field}` of type {type.name} does not support {operation}"
  | invalidBounds cause => "Invalid bounds: " ++ cause.reason
  | execution failure => failure.message
  | cursorClosed => "Iterator is closed"
  | cursorFailed => "Iterator failed on a previous pull"
  | noSelection => "No select fields were set"
  | noAssignments statement => s!"No fields were set for {statement}"
  | noPrimaryKey table => s!"Schema `{table}` has no primary key"
  | mapping cause => cause.message

/-- A duplicate key, on either backend. -/
def isDuplicateKey : Fault → Bool
  | execution failure => failure.isDuplicateKey
  | _ => false

end Fault

end TableQuery

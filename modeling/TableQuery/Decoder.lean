/-
Decoders read a value as something more definite. Each accepts the kinds it
has a meaning for and names the kind it expected otherwise.
-/
import TableQuery.Fault
import TableQuery.Value

namespace TableQuery

open Text

/-- Reads a value as an `α`, or says why it cannot. -/
abbrev Decoder (α : Type) := Value → Except MappingFault α

namespace Decoder

def refuse {α : Type} (expected : String) (v : Value) : Except MappingFault α :=
  .error (.mismatch expected v.kindName)

/-- The value as it is. -/
def value : Decoder Value := .ok

/-- Nothing for null, and what `d` reads otherwise. -/
def optional {α : Type} (d : Decoder α) : Decoder (Option α)
  | .null => .ok none
  | v => (d v).map some

/-- The integer a value denotes, if the type holds it. -/
def int (t : IntType) : Decoder Int := fun v =>
  match v.int64? with
  | some i => (t.narrow i.toInt).mapError .outOfRange
  | none => refuse "integer" v

/-- A count, as a word of 64 bits. -/
def uint64 : Decoder UInt64 := fun v => (int .uint64 v).map fun i => UInt64.ofNat i.toNat

/-- A real, or the double nearest to an integer. -/
def double : Decoder Binary64
  | .real r => .ok r
  | .integer i => .ok (Binary64.ofInt i.toInt)
  | v => refuse "real" v

/-- The single nearest to what `double` reads. -/
def single : Decoder Binary32 := fun v => (double v).map Binary32.ofBinary64

/-- A truth value, or whether an integer is other than zero. -/
def bool : Decoder Bool
  | .bool b => .ok b
  | .integer i => .ok (i != 0)
  | v => refuse "bool" v

def text : Decoder String
  | .text s => .ok s
  | v => refuse "text" v

/-- Octets, or those of a text. -/
def blob : Decoder (List UInt8)
  | .blob octets => .ok octets
  | .text s => .ok (Utf8.encode s.toList)
  | v => refuse "blob" v

/-- A date, that of a moment, or a text of either. -/
def date : Decoder Date
  | .date d => .ok d
  | .datetime m => .ok m.date
  | .text s =>
    match Date.ofText? s.toList with
    | some d => .ok d
    | none => .error (.invalidDate s)
  | v => refuse "date" v

/-- A moment, the midnight of a date, or a text of either. -/
def datetime : Decoder Moment
  | .datetime m => .ok m
  | .date d => .ok (Moment.atMidnight d)
  | .text s =>
    match Moment.ofText? s.toList with
    | some m => .ok m
    | none => .error (.invalidDatetime s)
  | v => refuse "datetime" v

end Decoder

end TableQuery

/-
PostgreSQL's binary form of values.

Numbers are big-endian. Dates count days and moments count microseconds
since 2000-01-01; what is finer is cut off toward zero. Integers, reals and
dates take the form that the statement's parameter type asks for where there
is a choice; other values have one form, whatever the type.
-/
import TableQuery.Decoder
import TableQuery.Postgres.ColumnType

namespace TableQuery.Postgres

open Text

/-- `n` in `width` octets, the most significant first. -/
def bigEndian : Nat → Nat → List UInt8
  | 0, _ => []
  | width + 1, n => UInt8.ofNat (n >>> (8 * width) % 256) :: bigEndian width n

/-- The number that octets spell, the most significant first. -/
def ofBigEndian (octets : List UInt8) : Nat := octets.foldl (fun n b => 256 * n + b.toNat) 0

/-- An integer in two's complement. -/
def signedOctets (width : Nat) (i : Int) : List UInt8 :=
  bigEndian width (i % (1 <<< (8 * width) : Nat)).toNat

/-- The integer that octets spell in two's complement. -/
def ofSignedOctets (octets : List UInt8) : Int :=
  (ofBigEndian octets : Int).bmod (1 <<< (8 * octets.length))

/-- Days from the first day of the year 0 to 2000-01-01. -/
def epoch : Int := 730485

/-- Days since 2000-01-01. -/
def epochDays (d : Date) : Int := d.ordinal - epoch

/-- Microseconds since 2000-01-01, cut off toward zero. -/
def epochMicros (m : Moment) : Int := (m.nanos - epoch * 86400 * 1000000000).tdiv 1000

/-! ## Writing -/

/-- The octets of a value as a parameter of a type; null has none. -/
def encode (type : ColumnType) : Value → Except OutOfRange (Option (List UInt8))
  | .null => .ok none
  | .bool b => .ok (some [if b then 1 else 0])
  | .integer i =>
    match type with
    | .int2 => (IntType.int16.narrow i.toInt).map fun i => some (signedOctets 2 i)
    | .int4 => (IntType.int32.narrow i.toInt).map fun i => some (signedOctets 4 i)
    | .float8 => .ok (some (bigEndian 8 (Binary64.ofInt i.toInt).word))
    | _ => .ok (some (signedOctets 8 i.toInt))
  | .real r =>
    match type with
    | .float4 => .ok (some (bigEndian 4 (Binary32.ofBinary64 r).word))
    | _ => .ok (some (bigEndian 8 r.word))
  | .text s => .ok (some (Utf8.encode s.toList))
  | .blob octets => .ok (some octets)
  | .date d =>
    match type with
    | .date => .ok (some (signedOctets 4 (epochDays d)))
    | _ => .ok (some (signedOctets 8 (epochMicros (Moment.atMidnight d))))
  | .datetime m => .ok (some (signedOctets 8 (epochMicros m)))

/-! ## Reading -/

/-- Why a cell could not be read. -/
inductive ReadFault where
  /-- There is no reader for the column's type. -/
  | unsupported (type : ColumnType)
  /-- The octets are none of the column's type. -/
  | malformed (index : Nat)
deriving DecidableEq, Repr

def ReadFault.message : ReadFault → String
  | unsupported type => s!"unsupported postgres column type `{type.label}`"
  | malformed index => s!"error deserializing column {index}"

def ReadFault.toFault (f : ReadFault) : Fault := .mapping (.unreadable f.message)

/-- Octets of exactly that length. -/
def ofLength? (n : Nat) (octets : List UInt8) : Option (List UInt8) :=
  if octets.length = n then some octets else none

/-- Reads an integer of a width. -/
def integer? (width : Nat) (octets : List UInt8) : Option Value :=
  (ofLength? width octets).map fun o => .integer (Int64.ofInt (ofSignedOctets o))

/-- Reads a moment. -/
def moment? (octets : List UInt8) : Option Value := do
  let o ← ofLength? 8 octets
  let m ← Moment.ofMicros? (ofSignedOctets o + epoch * 86400 * 1000000)
  pure (.datetime m)

/-- Reads the octets of a column type; `none` stands for a type without a
reader. -/
def decoder? : ColumnType → Option (List UInt8 → Option Value)
  | .bool => some fun o => (ofLength? 1 o).map fun o => .bool (o ≠ [0])
  | .int2 => some (integer? 2)
  | .int4 => some (integer? 4)
  | .int8 => some (integer? 8)
  | .float4 => some fun o => (ofLength? 4 o).map fun o =>
      .real (Binary32.toBinary64 ⟨UInt32.ofNat (ofBigEndian o)⟩)
  | .float8 => some fun o => (ofLength? 8 o).map fun o =>
      .real ⟨UInt64.ofNat (ofBigEndian o)⟩
  | .text | .varchar | .bpchar | .name => some fun o =>
      (Utf8.decode? o).map fun cs => .text (String.ofList cs)
  | .bytea => some fun o => some (.blob o)
  | .date => some fun o => (ofLength? 4 o).bind fun o =>
      (Date.ofOrdinal? (ofSignedOctets o + epoch)).map .date
  | .timestamp | .timestamptz => some moment?
  | _ => none

/-- The value in a cell of a column; null has no octets. -/
def decode (type : ColumnType) (index : Nat) (cell : Option (List UInt8)) :
    Except ReadFault Value :=
  match decoder? type, cell with
  | none, _ => .error (.unsupported type)
  | some _, none => .ok .null
  | some read, some octets =>
    match read octets with
    | some v => .ok v
    | none => .error (.malformed index)

end TableQuery.Postgres

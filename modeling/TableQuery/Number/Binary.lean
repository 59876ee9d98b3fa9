/-
IEEE binary64 and binary32 numbers, held by their bits.

What the two have in common is said once of a format: the fields of a word,
the number that they denote and rounding to the format. A finite number of
either is `± magnitude / 2^1074` for a natural `magnitude`, so every finite
value of both is a natural number of the smallest unit of doubles and
rounding is exact arithmetic on naturals: to nearest, ties to the even
significand.
-/
namespace TableQuery

/-- `n / 2^k` to the nearest natural, ties to the even one. -/
def roundShift (n k : Nat) : Nat :=
  let unit := 1 <<< k
  let q := n / unit
  let twice := 2 * (n % unit)
  if twice > unit ∨ (twice = unit ∧ q % 2 = 1) then q + 1 else q

/-- An interchange format: the widths of the exponent field and the fraction
field in a word, and the exponent of the smallest unit, counted from `2^-1074`. -/
structure BinaryFormat where
  expBits : Nat
  fracBits : Nat
  least : Nat
  one_lt_expBits : 1 < expBits := by decide

namespace BinaryFormat

def double : BinaryFormat where
  expBits := 11
  fracBits := 52
  least := 0

def single : BinaryFormat where
  expBits := 8
  fracBits := 23
  least := 925

section Words

variable (fmt : BinaryFormat) (w : Nat)

/-- The exponent field of infinities and NaNs. -/
def special : Nat := 1 <<< fmt.expBits - 1

/-- The word of a sign and two fields. -/
def pack (negative : Bool) (b a : Nat) : Nat :=
  ((if negative then 1 <<< fmt.expBits else 0) + b) <<< fmt.fracBits + a

def sign : Bool := 1 <<< fmt.expBits ≤ w >>> fmt.fracBits

/-- The exponent field. -/
def bexp : Nat := w >>> fmt.fracBits % 1 <<< fmt.expBits

/-- The fraction field. -/
def frac : Nat := w % 1 <<< fmt.fracBits

def isFinite : Bool := fmt.bexp w != fmt.special

def isNaN : Bool := fmt.bexp w == fmt.special && fmt.frac w != 0

/-- The significand of a finite number. -/
def sig : Nat := if fmt.bexp w = 0 then fmt.frac w else fmt.frac w + 1 <<< fmt.fracBits

/-- The exponent of a finite number's unit, counted from the smallest. -/
def uexp : Nat := fmt.bexp w - 1

/-- A finite number is `± magnitude / 2^1074`. -/
def magnitude : Nat := fmt.sig w <<< (fmt.uexp w + fmt.least)

/-- A finite number in units of `2^-1074`. -/
def signedMagnitude : Int := if fmt.sign w then -fmt.magnitude w else fmt.magnitude w

end Words

section Rounding

variable (fmt : BinaryFormat) (negative : Bool)

/-- The number with a significand `m` of at most `fracBits + 1` bits and unit
exponent `p`. -/
def make (m p : Nat) : Nat :=
  if m < 1 <<< fmt.fracBits then fmt.pack negative 0 m
  else fmt.pack negative (p + 1) (m - 1 <<< fmt.fracBits)

def infinity : Nat := fmt.pack negative fmt.special 0

/-- The one NaN used where no payload is to be kept. -/
def nan : Nat := fmt.pack false fmt.special (1 <<< (fmt.fracBits - 1))

/-- The number nearest to `± n / 2^1074`. -/
def round (n : Nat) : Nat :=
  let p := max fmt.least (n.log2 + 1 - (fmt.fracBits + 1))
  let m := roundShift n p
  let (m, p) := if m = 1 <<< (fmt.fracBits + 1) then (1 <<< fmt.fracBits, p + 1) else (m, p)
  if fmt.special ≤ p - fmt.least + 1 then fmt.infinity negative else fmt.make negative m (p - fmt.least)

end Rounding

end BinaryFormat

open BinaryFormat (double single)

/-- A double, by its bits. -/
structure Binary64 where
  bits : UInt64
deriving DecidableEq, Repr

/-- A single, by its bits. -/
structure Binary32 where
  bits : UInt32
deriving DecidableEq, Repr

namespace Binary64

def word (x : Binary64) : Nat := x.bits.toNat

def ofWord (w : Nat) : Binary64 := ⟨UInt64.ofNat w⟩

def sign (x : Binary64) : Bool := double.sign x.word

def isFinite (x : Binary64) : Bool := double.isFinite x.word

def isNaN (x : Binary64) : Bool := double.isNaN x.word

/-- The significand of a finite double. -/
def sig (x : Binary64) : Nat := double.sig x.word

/-- The exponent of a finite double's unit, counted from `2^-1074`. -/
def uexp (x : Binary64) : Nat := double.uexp x.word

/-- A finite double is `± magnitude / 2^1074`. -/
def magnitude (x : Binary64) : Nat := double.magnitude x.word

/-- A finite double in units of `2^-1074`. -/
def signedMagnitude (x : Binary64) : Int := double.signedMagnitude x.word

def infinity (negative : Bool) : Binary64 := ofWord (double.infinity negative)

/-- The double nearest to `± n / 2^1074`. -/
def round (negative : Bool) (n : Nat) : Binary64 := ofWord (double.round negative n)

/-- The double nearest to an integer. -/
def ofInt (i : Int) : Binary64 := round (i < 0) (i.natAbs <<< 1074)

/-- All NaNs told apart by payload are one NaN. -/
def canonical (x : Binary64) : Binary64 := if x.isNaN then ofWord double.nan else x

end Binary64

namespace Binary32

def word (x : Binary32) : Nat := x.bits.toNat

def ofWord (w : Nat) : Binary32 := ⟨UInt32.ofNat w⟩

def sign (x : Binary32) : Bool := single.sign x.word

def isFinite (x : Binary32) : Bool := single.isFinite x.word

def isNaN (x : Binary32) : Bool := single.isNaN x.word

/-- A finite single is `± magnitude / 2^1074`. -/
def magnitude (x : Binary32) : Nat := single.magnitude x.word

/-- A finite single in units of `2^-1074`. -/
def signedMagnitude (x : Binary32) : Int := single.signedMagnitude x.word

def infinity (negative : Bool) : Binary32 := ofWord (single.infinity negative)

/-- The single nearest to `± n / 2^1074`. -/
def round (negative : Bool) (n : Nat) : Binary32 := ofWord (single.round negative n)

def canonical (x : Binary32) : Binary32 := if x.isNaN then ofWord single.nan else x

/-- The single nearest to a double. A NaN stays one, quiet, with the top of
its payload. -/
def ofBinary64 (x : Binary64) : Binary32 :=
  if x.isNaN then
    ofWord (single.pack x.sign single.special (1 <<< 22 + double.frac x.word >>> 29 % 1 <<< 22))
  else if x.isFinite then round x.sign x.magnitude
  else infinity x.sign

/-- The double with the same value. A NaN stays one, quiet. -/
def toBinary64 (x : Binary32) : Binary64 :=
  if x.isNaN then
    Binary64.ofWord (double.pack x.sign double.special (1 <<< 51 + (single.frac x.word % 1 <<< 22) <<< 29))
  else if x.isFinite then Binary64.round x.sign x.magnitude
  else Binary64.infinity x.sign

end Binary32

end TableQuery

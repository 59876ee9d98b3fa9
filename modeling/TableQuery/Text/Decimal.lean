/-
Decimal text of integers: written without leading zeros, with `-` in front
of a negative; read with one optional sign and at least one ASCII digit.
-/
namespace TableQuery.Text.Decimal

/-- The digits of a natural number, most significant first. -/
def ofNat (n : Nat) : List Char := Nat.toDigits 10 n

/-- An integer in decimal, `-` marking a negative one. -/
def ofInt : Int → List Char
  | .ofNat n => ofNat n
  | .negSucc n => '-' :: ofNat (n + 1)

/-- The digits of `n` after as many zeros as bring them to `width`. -/
def padded (width n : Nat) : List Char :=
  List.replicate (width - (ofNat n).length) '0' ++ ofNat n

/-- The number that ASCII digits spell. -/
def value (digits : List Char) : Nat := Nat.ofDigitChars 10 digits 0

@[simp] theorem value_ofNat (n : Nat) : value (ofNat n) = n :=
  Nat.ofDigitChars_toDigits (by decide) (by decide)

/-- Reads digits only, and at least one. -/
def readNat? (cs : List Char) : Option Nat :=
  if cs ≠ [] ∧ cs.all Char.isDigit then some (value cs) else none

/-- Reads digits after one optional `+` or `-`. -/
def readInt? : List Char → Option Int
  | '-' :: cs => (readNat? cs).map fun n => -(n : Int)
  | '+' :: cs => (readNat? cs).map fun n => (n : Int)
  | cs => (readNat? cs).map fun n => (n : Int)

/-- Reads a signed integer of 64 bits; a number out of range is refused. -/
def readInt64? (cs : List Char) : Option Int64 :=
  (readInt? cs).bind fun i =>
    if -0x8000000000000000 ≤ i ∧ i < 0x8000000000000000 then some (Int64.ofInt i) else none

/-- Reads an unsigned integer of 64 bits; a number out of range is refused. -/
def readUInt64? (cs : List Char) : Option UInt64 :=
  let digits := match cs with
    | '+' :: rest => rest
    | rest => rest
  (readNat? digits).bind fun n => if n < 0x10000000000000000 then some (UInt64.ofNat n) else none

end TableQuery.Text.Decimal

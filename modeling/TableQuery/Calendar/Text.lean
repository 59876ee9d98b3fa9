/-
The text of dates and moments: `YYYY-MM-DD`, and `YYYY-MM-DD HH:MM:SS` with
a fraction of three, six or nine digits where there is one.

Writing is exact; a year has four digits at least, a sign in front when it
is negative or has more, and a leap second is written as second 60. Reading
is lenient: blanks may stand before every number, months to seconds may have
one digit, a fraction any number of them, and `T` may stand for the space.
-/
import TableQuery.Calendar.Moment
import TableQuery.Text.Blank
import TableQuery.Text.Decimal

namespace TableQuery

open Text

namespace Calendar

/-! ## Writing -/

def yearText (year : Int) : List Char :=
  let digits := Decimal.padded 4 year.natAbs
  if year < 0 then '-' :: digits else if year ≤ 9999 then digits else '+' :: digits

/-- The fraction of a second: nothing, or the fewest of 3, 6 and 9 digits
that are exact. -/
def fractionText (nano : Nat) : List Char :=
  if nano = 0 then []
  else if nano % 1000000 = 0 then '.' :: Decimal.padded 3 (nano / 1000000)
  else if nano % 1000 = 0 then '.' :: Decimal.padded 6 (nano / 1000)
  else '.' :: Decimal.padded 9 nano

end Calendar

open Calendar

def Date.text (d : Date) : List Char :=
  yearText d.year ++ '-' :: Decimal.padded 2 d.month ++ '-' :: Decimal.padded 2 d.day

def TimeOfDay.text (t : TimeOfDay) : List Char :=
  Decimal.padded 2 t.hour ++ ':' :: Decimal.padded 2 t.minute ++
    ':' :: Decimal.padded 2 (t.second + t.nano / 1000000000) ++ fractionText (t.nano % 1000000000)

def Moment.text (m : Moment) : List Char := m.date.text ++ ' ' :: m.time.text

/-! ## Reading -/

namespace Calendar

/-- Reads from one to `most` digits. -/
def readDigits? (most : Nat) (cs : List Char) : Option (Nat × List Char) :=
  let digits := (cs.take most).takeWhile Char.isDigit
  if digits = [] then none else some (Decimal.value digits, cs.drop digits.length)

/-- Reads a number of one or two digits after any blanks. -/
def readTwo? (cs : List Char) : Option (Nat × List Char) := readDigits? 2 (skipBlanks cs)

/-- Reads a year after any blanks: four digits at most, unless there is a
sign. -/
def readYear? (cs : List Char) : Option (Int × List Char) :=
  match skipBlanks cs with
  | '-' :: rest => (readDigits? rest.length rest).map fun (n, rest) => (-(n : Int), rest)
  | '+' :: rest => (readDigits? rest.length rest).map fun (n, rest) => ((n : Int), rest)
  | rest => (readDigits? 4 rest).map fun (n, rest) => ((n : Int), rest)

/-- Reads one given character. -/
def readChar? (c : Char) : List Char → Option (List Char)
  | [] => none
  | d :: rest => if d = c then some rest else none

/-- Reads a fraction in nanoseconds, if there is a point; digits past the
ninth do not count. -/
def readFraction? : List Char → Option (Nat × List Char)
  | '.' :: rest => do
    let digits := (rest.take 9).takeWhile Char.isDigit
    if digits = [] then none
    else pure (Decimal.value digits * Nat.pow 10 (9 - digits.length), rest.dropWhile Char.isDigit)
  | rest => some (0, rest)

/-- Reads a date and leaves the rest. -/
def readDate? (cs : List Char) : Option (Date × List Char) := do
  let (year, cs) ← readYear? cs
  let cs ← readChar? '-' cs
  let (month, cs) ← readTwo? cs
  let cs ← readChar? '-' cs
  let (day, cs) ← readTwo? cs
  let date ← Date.of? year month day
  pure (date, cs)

/-- Reads a time and leaves the rest. Second 60 is a leap second. -/
def readTime? (cs : List Char) : Option (TimeOfDay × List Char) := do
  let (hour, cs) ← readTwo? cs
  let cs ← readChar? ':' cs
  let (minute, cs) ← readTwo? cs
  let cs ← readChar? ':' cs
  let (second, cs) ← readTwo? cs
  let (nano, cs) ← readFraction? cs
  let time ←
    if second = 60 then TimeOfDay.of? hour minute 59 (1000000000 + nano)
    else TimeOfDay.of? hour minute second nano
  pure (time, cs)

/-- A reading that leaves nothing. -/
def whole? {α : Type} : Option (α × List Char) → Option α
  | some (a, []) => some a
  | _ => none

/-- Reads a date that is all of the text. -/
def dateAlone? (cs : List Char) : Option Date := whole? (readDate? cs)

/-- Reads a date, what stands between, and a time that ends the text. -/
def momentWith? (between : List Char → Option (List Char)) (cs : List Char) : Option Moment := do
  let (date, cs) ← readDate? cs
  let cs ← between cs
  let time ← whole? (readTime? cs)
  pure ⟨date, time⟩

end Calendar

/-- Reads a moment: with any blanks or with a `T` before the time, or a date
alone, at its midnight. -/
def Moment.ofText? (cs : List Char) : Option Moment :=
  momentWith? (fun cs => some (skipBlanks cs)) cs
    <|> momentWith? (readChar? 'T') cs
    <|> (dateAlone? cs).map Moment.atMidnight

/-- Reads a date, or a moment for its date. -/
def Date.ofText? (cs : List Char) : Option Date :=
  dateAlone? cs <|> (Moment.ofText? cs).map Moment.date

end TableQuery

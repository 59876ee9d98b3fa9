/-
The decimal text of a double: the fewest digits that read back as it,
written positionally, never with an exponent and never with a fraction of
zero.

The reals that round to a double form an interval around it, ends included
when its significand is even. The shortest decimal is a multiple of the
largest power of ten that has a multiple in there; of several multiples the
nearest is taken, the larger at a tie.
-/
import TableQuery.Number.Binary
import TableQuery.Text.Decimal

namespace TableQuery.Binary64

open TableQuery.Text

/-- The reals that round to a positive double, in quarters of `2^-1074`. -/
structure Interval where
  low : Nat
  value : Nat
  high : Nat
  closed : Bool

/-- The interval of a positive finite double. The half gap below the first
significand of a binade is half of that above it. -/
def interval (x : Binary64) : Interval :=
  let gap := 2 <<< x.uexp
  let value := 2 * gap * x.sig
  { low := if x.sig = 1 <<< 52 ∧ 0 < x.uexp then value - gap / 2 else value - gap
    value
    high := value + gap
    closed := x.sig % 2 = 0 }

namespace Interval

def contains (v : Interval) (n : Nat) : Bool :=
  if v.closed then v.low ≤ n && n ≤ v.high else v.low < n && n < v.high

/-- The multiple of `step` in the interval nearest to its value, as a count
of steps; the larger at a tie. -/
def nearest? (v : Interval) (step : Nat) : Option Nat :=
  let below := v.value / step
  let above := below + 1
  match v.contains (below * step), v.contains (above * step) with
  | true, true =>
    some (if 2 * (v.value - below * step) < step then below else above)
  | true, false => some below
  | false, true => some above
  | false, false => none

/-- The interval with every length `k` times as large. -/
def scale (v : Interval) (k : Nat) : Interval :=
  { v with low := v.low * k, value := v.value * k, high := v.high * k }

/-- The multiple of `10^e` in the interval nearest to its value. -/
def onGrid? (v : Interval) (e : Int) : Option Nat :=
  match e with
  | .ofNat n => v.nearest? (Nat.pow 10 n <<< 1076)
  | .negSucc n => (v.scale (Nat.pow 10 (n + 1))).nearest? (1 <<< 1076)

/-- The first hit among the grids of `10^e`, `10^(e-1)`, and so on for
`fuel` of them. -/
def search (v : Interval) : Nat → Int → Nat × Int
  | 0, e => (0, e)
  | fuel + 1, e =>
    match v.onGrid? e with
    | some n => (n, e)
    | none => search v fuel (e - 1)

end Interval

/-- The shortest decimal `n * 10^e` of a positive finite double. All doubles
lie below `10^309`, and `10^-324` is finer than every gap between them. -/
def shortest (x : Binary64) : Nat × Int := x.interval.search 640 309

/-- The digits of `n * 10^e`, written positionally. -/
def positional (n : Nat) (e : Int) : List Char :=
  match e with
  | .ofNat k => Decimal.ofNat n ++ List.replicate k '0'
  | .negSucc k =>
    let digits := Decimal.padded (k + 2) n
    let whole := digits.length - (k + 1)
    digits.take whole ++ '.' :: digits.drop whole

/-- The text of a double. -/
def text (x : Binary64) : List Char :=
  if x.isNaN then "NaN".toList
  else
    let body :=
      if !x.isFinite then "inf".toList
      else if x.magnitude = 0 then ['0']
      else positional x.shortest.1 x.shortest.2
    if x.sign then '-' :: body else body

end TableQuery.Binary64

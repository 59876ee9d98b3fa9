/-
Dates of the proleptic Gregorian calendar, of the years -262143 to 262142.

The calendar repeats after 400 years, and inside such an era years and
months are runs of days of known lengths. Counting days is summing lengths
and finding a date is walking along them, so the two undo each other.
-/
namespace TableQuery

namespace Calendar

def isLeap (year : Int) : Bool :=
  year % 4 = 0 && (year % 100 ≠ 0 || year % 400 = 0)

/-- The lengths of a year's months. -/
def monthLengths (year : Int) : List Nat :=
  [31, if isLeap year then 29 else 28, 31, 30, 31, 30, 31, 31, 30, 31, 30, 31]

/-- The days of a month counted from 1; a month that is none has no days. -/
def daysIn (year : Int) (month : Nat) : Nat :=
  if month = 0 then 0 else (monthLengths year)[month - 1]?.getD 0

/-- The lengths of the years of an era, the leap year 0 first. -/
def yearLengths : List Nat :=
  (List.range 400).map fun y => if isLeap (y : Nat) then 366 else 365

def daysPerEra : Nat := 146097

/-- The days of runs with these lengths, one after the other. -/
@[simp]
def daysOver : List Nat → Nat
  | [] => 0
  | l :: ls => l + daysOver ls

/-- Which of the runs with these lengths holds the `n`-th day, and the day's
place in it; past the end, the number of runs and what is left. -/
def locate : List Nat → Nat → Nat × Nat
  | [], n => (0, n)
  | l :: ls, n =>
    if n < l then (0, n) else
      let (i, r) := locate ls (n - l)
      (i + 1, r)

@[simp]
theorem daysOver_yearLengths : daysOver yearLengths = daysPerEra := by decide +kernel

/-- Walking along runs finds a place whose day count is the one given. -/
theorem daysOver_locate (ls : List Nat) (n : Nat) :
    daysOver (ls.take (locate ls n).1) + (locate ls n).2 = n := by
  induction ls generalizing n with
  | nil => simp [locate]
  | cons l ls ih =>
    simp only [locate]
    split
    · simp
    · have := ih (n - l)
      simp only [List.take_succ_cons, daysOver]
      omega

end Calendar

open Calendar

/-- A day of the calendar. -/
structure Date where
  year : Int
  month : Nat
  day : Nat
  year_ge : -262143 ≤ year
  year_le : year ≤ 262142
  day_pos : 0 < day
  day_le : day ≤ daysIn year month
deriving DecidableEq, Repr

namespace Date

/-- The date with these components, if there is one. -/
def of? (year : Int) (month day : Nat) : Option Date :=
  if h : -262143 ≤ year ∧ year ≤ 262142 ∧ 0 < day ∧ day ≤ daysIn year month then
    some ⟨year, month, day, h.1, h.2.1, h.2.2.1, h.2.2.2⟩
  else none

/-- Days from the first day of the year 0. -/
def ordinal (d : Date) : Int :=
  daysPerEra * (d.year / 400) +
    (daysOver (yearLengths.take (d.year % 400).toNat) +
      daysOver ((monthLengths d.year).take (d.month - 1)) + (d.day - 1) : Nat)

/-- The date so many days from the first day of the year 0, if the calendar
reaches that far. -/
def ofOrdinal? (n : Int) : Option Date :=
  let (y, r) := locate yearLengths (n % daysPerEra).toNat
  let year := 400 * (n / daysPerEra) + y
  let (m, d) := locate (monthLengths year) r
  of? year (m + 1) (d + 1)

end Date

end TableQuery

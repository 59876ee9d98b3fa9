/-
Moments: a date and a time of day without a zone, to the nanosecond.

A leap second is second 59 carried on: its nanoseconds run from a full
second up to two, and it lies after all of second 59.
-/
import TableQuery.Calendar.Date

namespace TableQuery

/-- A time of day, leap seconds included. -/
structure TimeOfDay where
  hour : Nat
  minute : Nat
  second : Nat
  nano : Nat
  hour_lt : hour < 24
  minute_lt : minute < 60
  second_lt : second < 60
  nano_lt : nano < 1000000000 ∨ second = 59 ∧ nano < 2000000000
deriving DecidableEq, Repr

namespace TimeOfDay

def midnight : TimeOfDay := ⟨0, 0, 0, 0, by decide, by decide, by decide, by decide⟩

/-- The time with these components, if there is one. -/
def of? (hour minute second nano : Nat) : Option TimeOfDay :=
  if h : hour < 24 ∧ minute < 60 ∧ second < 60 ∧
      (nano < 1000000000 ∨ second = 59 ∧ nano < 2000000000) then
    some ⟨hour, minute, second, nano, h.1, h.2.1, h.2.2.1, h.2.2.2⟩
  else none

/-- Whole seconds since midnight; a leap second counts as the one before it. -/
def seconds (t : TimeOfDay) : Nat := 3600 * t.hour + 60 * t.minute + t.second

end TimeOfDay

/-- A date with a time of day. -/
structure Moment where
  date : Date
  time : TimeOfDay
deriving DecidableEq, Repr

namespace Moment

def atMidnight (d : Date) : Moment := ⟨d, .midnight⟩

/-- Nanoseconds from the first midnight of the year 0. A leap second runs on
past second 59, into the time of the second after it. -/
def nanos (m : Moment) : Int :=
  86400 * 1000000000 * m.date.ordinal + (1000000000 * m.time.seconds + m.time.nano : Nat)

/-- The moment so many microseconds from the first midnight of the year 0,
if the calendar reaches that far. -/
def ofMicros? (n : Int) : Option Moment := do
  let date ← Date.ofOrdinal? (n / (86400 * 1000000))
  let within := (n % (86400 * 1000000)).toNat
  let s := within / 1000000
  let time ← TimeOfDay.of? (s / 3600) (s / 60 % 60) (s % 60) (within % 1000000 * 1000)
  pure ⟨date, time⟩

end Moment

end TableQuery

/-
Parts of a date or moment that a condition can look at, and the keyword
arguments that ask for them, such as `day=7` or `month=1,2,3`.
-/
import TableQuery.Fault
import TableQuery.Text.Blank
import TableQuery.Value

namespace TableQuery

open Text

/-- The week is that of ISO 8601: weeks start on Monday, and the first one
holds the year's first Thursday. -/
inductive DatePart where
  | year | month | day | hour | minute | second | dayOfWeek | dayOfYear | week
deriving DecidableEq, Repr

namespace DatePart

def all : List DatePart :=
  [year, month, day, hour, minute, second, dayOfWeek, dayOfYear, week]

theorem mem_all (p : DatePart) : p ∈ all := by cases p <;> decide

/-- The keyword of a part. -/
def key : DatePart → String
  | year => "year"
  | month => "month"
  | day => "day"
  | hour => "hour"
  | minute => "minute"
  | second => "second"
  | dayOfWeek => "dow"
  | dayOfYear => "doy"
  | week => "week"

def ofKey (key : String) : Except Fault DatePart :=
  match all.find? (·.key = key) with
  | some p => .ok p
  | none => .error (.invalidOperator key)

@[simp]
theorem ofKey_key (p : DatePart) : ofKey p.key = .ok p := by cases p <;> rfl

/-- The unit that `EXTRACT` takes on PostgreSQL. -/
def extractUnit : DatePart → String
  | year => "YEAR"
  | month => "MONTH"
  | day => "DAY"
  | hour => "HOUR"
  | minute => "MINUTE"
  | second => "SECOND"
  | dayOfWeek => "DOW"
  | dayOfYear => "DOY"
  | week => "WEEK"

/-- The format that `strftime` takes on SQLite, a text literal. -/
def strftimeFormat : DatePart → String
  | year => "'%Y'"
  | month => "'%m'"
  | day => "'%d'"
  | hour => "'%H'"
  | minute => "'%M'"
  | second => "'%S'"
  | dayOfWeek => "'%w'"
  | dayOfYear => "'%j'"
  | week => "'%V'"

/-- Reads one value of a keyword argument. -/
def readValue (key segment : List Char) : Except Fault Value :=
  match Decimal.readInt64? segment with
  | some i => .ok (.integer i)
  | none =>
    .error (.mapping (.notAnInteger (String.ofList segment) (String.ofList key)))

/-- Reads a keyword argument: a part's key, `=`, and integers between commas.
Blanks around the key and the integers do not count, and neither do blank
segments. -/
def ofKeyword (keyword : String) : Except Fault (DatePart × List Value) :=
  match splitOnce? '=' keyword.toList with
  | none => .error (.invalidOperator keyword)
  | some (key, values) => do
    let part ← ofKey (String.ofList (trim key))
    let values ← (((segments ',' values).map trim).filter (· ≠ [])).mapM (readValue key)
    pure (part, values)

end DatePart

end TableQuery

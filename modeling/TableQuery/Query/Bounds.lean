/-
The window of rows a query asks for: a limit, and where it starts.

The start is an offset or a page, whichever was set last. A page is worth as
many rows as the limit has at the time of asking, so a later limit moves it.
Numbers are of 64 bits, and an offset past the largest is the largest.

The calls that set or clear bounds are data, too. They are made in place: a
call that is refused says why and leaves the bounds as they were, so calls
can follow it.
-/
import TableQuery.Fault

namespace TableQuery

/-- The number, or the largest of 64 bits if it is past that. -/
def saturate (n : Nat) : UInt64 :=
  if n < 0x10000000000000000 then UInt64.ofNat n else 0xFFFFFFFFFFFFFFFF

theorem toNat_saturate (n : Nat) : (saturate n).toNat = min n 0xFFFFFFFFFFFFFFFF := by
  simp only [saturate]
  split
  · rw [UInt64.toNat_ofNat']
    omega
  · have : (0xFFFFFFFFFFFFFFFF : UInt64).toNat = 0xFFFFFFFFFFFFFFFF := by decide
    omega

/-- Where a window starts: after so many rows, or at a page counted from 1. -/
inductive WindowStart where
  | offset (n : UInt64)
  | page (n : UInt64)
deriving DecidableEq, Repr

structure Bounds where
  limit : Option UInt64
  start : Option WindowStart
deriving DecidableEq, Repr

namespace Bounds

def empty : Bounds := ⟨none, none⟩

def withLimit (b : Bounds) (n : UInt64) : Except Fault Bounds :=
  if n = 0 then .error (.invalidBounds .zeroLimit) else .ok { b with limit := some n }

def withOffset (b : Bounds) (n : UInt64) : Bounds := { b with start := some (.offset n) }

/-- A page has a number from 1 and needs a limit to be counted in. -/
def withPage (b : Bounds) (n : UInt64) : Except Fault Bounds :=
  if n = 0 then .error (.invalidBounds .zeroPage)
  else if b.limit.isNone then .error (.invalidBounds .pageWithoutLimit)
  else .ok { b with start := some (.page n) }

def page (b : Bounds) : Option UInt64 :=
  match b.start with
  | some (.page n) => some n
  | _ => none

/-- The rows to pass over: as set, or those of the pages before. -/
def offset (b : Bounds) : Option UInt64 :=
  match b.start, b.limit with
  | some (.offset n), _ => some n
  | some (.page p), some l => some (saturate ((p.toNat - 1) * l.toNat))
  | some (.page _), none => none
  | none, _ => none

/-- Every row, from the first. -/
def isEmpty (b : Bounds) : Bool := b.limit.isNone && b.offset.isNone

end Bounds

/-! ## Calls on bounds alone -/

inductive BoundsCall where
  | limit (n : UInt64)
  | offset (n : UInt64)
  | page (n : UInt64)
  | clear
deriving DecidableEq, Repr

namespace Bounds

def apply (b : Bounds) : BoundsCall → Except Fault Bounds
  | .limit n => b.withLimit n
  | .offset n => .ok (b.withOffset n)
  | .page n => b.withPage n
  | .clear => .ok .empty

/-- Makes a call: how it went, and the bounds after it. -/
def call (b : Bounds) (c : BoundsCall) : Except Fault Unit × Bounds :=
  match b.apply c with
  | .ok b' => (.ok (), b')
  | .error fault => (.error fault, b)

/-- Makes calls one after the other, also after one that fails. -/
def callAll (b : Bounds) (calls : List BoundsCall) : Bounds := calls.foldl (fun b c => (b.call c).2) b

end Bounds

end TableQuery

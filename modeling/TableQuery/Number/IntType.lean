/-
Machine integers a value can be read as: a width in bits, with or without a
sign. Narrowing gives the number itself or says on which side it fell out.
-/
namespace TableQuery

/-- Why a number does not fit. -/
inductive OutOfRange where
  | tooLarge
  | tooSmall
deriving DecidableEq, Repr

def OutOfRange.message : OutOfRange → String
  | .tooLarge => "number too large to fit in target type"
  | .tooSmall => "number too small to fit in target type"

/-- The integers of `bits` bits, in two's complement when `signed`. -/
structure IntType where
  signed : Bool
  bits : Nat
deriving DecidableEq, Repr

namespace IntType

def int8 : IntType := ⟨true, 8⟩
def int16 : IntType := ⟨true, 16⟩
def int32 : IntType := ⟨true, 32⟩
def int64 : IntType := ⟨true, 64⟩
def uint8 : IntType := ⟨false, 8⟩
def uint16 : IntType := ⟨false, 16⟩
def uint32 : IntType := ⟨false, 32⟩
def uint64 : IntType := ⟨false, 64⟩

/-- How many integers the type holds. -/
def card (t : IntType) : Nat := 1 <<< t.bits

def least (t : IntType) : Int := if t.signed then -(t.card / 2 : Nat) else 0

def greatest (t : IntType) : Int := (if t.signed then t.card / 2 else t.card : Nat) - 1

/-- The integers of the type. -/
def Holds (t : IntType) (i : Int) : Prop := t.least ≤ i ∧ i ≤ t.greatest

instance (t : IntType) (i : Int) : Decidable (t.Holds i) := inferInstanceAs (Decidable (_ ∧ _))

/-- The number, if the type holds it. -/
def narrow (t : IntType) (i : Int) : Except OutOfRange Int :=
  if t.greatest < i then .error .tooLarge
  else if i < t.least then .error .tooSmall
  else .ok i

/-- Narrowing succeeds exactly within the type's range, and changes nothing. -/
theorem narrow_eq_ok_iff {t : IntType} {i j : Int} :
    t.narrow i = .ok j ↔ j = i ∧ t.Holds i := by
  simp only [narrow, Holds]
  split
  · simp; omega
  · split
    · simp; omega
    · simp only [Except.ok.injEq]; omega

theorem narrow_eq_error_iff {t : IntType} {i : Int} : (∃ e, t.narrow i = .error e) ↔ ¬t.Holds i := by
  cases h : t.narrow i with
  | ok j => simp [(narrow_eq_ok_iff.1 h).2]
  | error e =>
    refine iff_of_true ⟨e, rfl⟩ fun hi => ?_
    rw [narrow_eq_ok_iff.2 ⟨rfl, hi⟩] at h
    cases h

end IntType

end TableQuery

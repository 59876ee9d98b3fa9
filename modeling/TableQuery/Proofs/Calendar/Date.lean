/-
Dates and their day counts: the components of a date are within the calendar's
bounds, and counting the days to a date and finding the date so many days on
undo each other.
-/
import Mathlib.Data.Nat.Basic
import TableQuery.Calendar.Moment

namespace TableQuery

namespace Calendar

theorem daysIn_eq (year : Int) (month : Nat) (h : 0 < month) :
    daysIn year month = (monthLengths year)[month - 1]?.getD 0 := by
  rw [daysIn, if_neg (by omega)]

@[simp]
theorem length_monthLengths (year : Int) : (monthLengths year).length = 12 := rfl

@[simp]
theorem length_yearLengths : yearLengths.length = 400 := by
  simp [yearLengths]

theorem monthLengths_le {year : Int} {l : Nat} (h : l ∈ monthLengths year) : l ≤ 31 := by
  simp only [monthLengths, List.mem_cons, List.not_mem_nil, or_false] at h
  split at h <;> omega

theorem daysIn_le (year : Int) (month : Nat) : daysIn year month ≤ 31 := by
  rw [daysIn]
  split
  · omega
  · cases hl : (monthLengths year)[month - 1]? with
    | none => simp
    | some l => exact monthLengths_le (List.mem_of_getElem? hl)

end Calendar

open Calendar

namespace Date

variable (d : Date)

theorem month_pos : 0 < d.month := by
  have hday := d.day_le
  have := d.day_pos
  by_contra h
  rw [daysIn, if_pos (by omega)] at hday
  omega

theorem month_le : d.month ≤ 12 := by
  have hday := d.day_le
  have := d.day_pos
  have := d.month_pos
  by_contra h
  rw [daysIn_eq _ _ d.month_pos, List.getElem?_eq_none (by rw [length_monthLengths]; omega)] at hday
  simp at hday
  omega

theorem day_le_31 : d.day ≤ 31 := Nat.le_trans d.day_le (daysIn_le _ _)

/-- The components of a date are those of this date only. -/
@[simp] theorem of?_self : of? d.year d.month d.day = some d := by
  rw [of?, dif_pos ⟨d.year_ge, d.year_le, d.day_pos, d.day_le⟩]

end Date

@[simp] theorem TimeOfDay.of?_self (t : TimeOfDay) : of? t.hour t.minute t.second t.nano = some t := by
  rw [of?, dif_pos ⟨t.hour_lt, t.minute_lt, t.second_lt, t.nano_lt⟩]

/-! ## Walking along runs of days -/

namespace Calendar

/-- Days inside the `i`-th run are found there. -/
theorem locate_daysOver {ls : List Nat} {i r : Nat} (h : r < ls[i]?.getD 0) :
    locate ls (daysOver (ls.take i) + r) = (i, r) := by
  induction ls generalizing i with
  | nil => simp at h
  | cons l ls ih =>
    cases i with
    | zero =>
      simp only [List.getElem?_cons_zero, Option.getD_some] at h
      simp [locate, h]
    | succ i =>
      rw [List.getElem?_cons_succ] at h
      have hrest : l + daysOver (ls.take i) + r - l = daysOver (ls.take i) + r := by omega
      simp only [List.take_succ_cons, daysOver, locate, if_neg (show ¬l + daysOver (ls.take i) + r < l by omega),
        hrest, ih h]

/-- A day before the end of the last run is inside a run. -/
theorem locate_lt {ls : List Nat} {n : Nat} (h : n < daysOver ls) :
    (locate ls n).2 < ls[(locate ls n).1]?.getD 0 := by
  induction ls generalizing n with
  | nil => simp at h
  | cons l ls ih =>
    rw [daysOver] at h
    rw [locate]
    split
    · next hl => simpa using hl
    · next hl => simpa using ih (show n - l < daysOver ls by omega)

theorem daysOver_take_add_lt {ls : List Nat} {i r : Nat} (h : r < ls[i]?.getD 0) :
    daysOver (ls.take i) + r < daysOver ls := by
  induction ls generalizing i with
  | nil => simp at h
  | cons l ls ih =>
    cases i with
    | zero =>
      simp only [List.getElem?_cons_zero, Option.getD_some] at h
      simp only [List.take_zero, daysOver]
      omega
    | succ i =>
      rw [List.getElem?_cons_succ] at h
      have := ih h
      simp only [List.take_succ_cons, daysOver]
      omega

/-- A day is in the `i`-th run or a later one when it is not before it. -/
theorem le_locate_iff {ls : List Nat} {n i : Nat} (h : n < daysOver ls) :
    i ≤ (locate ls n).1 ↔ i ≤ ls.length ∧ daysOver (ls.take i) ≤ n := by
  induction ls generalizing n i with
  | nil => simp at h
  | cons l ls ih =>
    cases i with
    | zero => simp
    | succ i =>
      rw [daysOver] at h
      rw [locate]
      split
      · next hl => simp only [List.take_succ_cons, daysOver, List.length_cons]; omega
      · next hl =>
        have := ih (i := i) (show n - l < daysOver ls by omega)
        simp only [List.take_succ_cons, daysOver, List.length_cons]
        omega

theorem daysOver_monthLengths (year : Int) : daysOver (monthLengths year) = if isLeap year then 366 else 365 := by
  simp only [monthLengths, daysOver]
  split <;> rfl

/-- The calendar repeats after an era. -/
theorem isLeap_emod (year : Int) : isLeap (year % 400) = isLeap year := by
  simp only [isLeap, show year % 400 % 4 = year % 4 by omega, show year % 400 % 100 = year % 100 by omega,
    show year % 400 % 400 = year % 400 by omega]

theorem yearLength_eq {y : Nat} (h : y < 400) (era : Int) :
    yearLengths[y]?.getD 0 = daysOver (monthLengths (400 * era + y)) := by
  have hyear : (400 * era + y : Int) % 400 = y := by omega
  rw [daysOver_monthLengths, ← isLeap_emod (400 * era + y), hyear]
  simp [yearLengths, h]

end Calendar

/-! ## Day counts -/

namespace Date

/-- The days of a date within its year. -/
theorem dayOfYear_lt (d : Date) :
    daysOver ((monthLengths d.year).take (d.month - 1)) + (d.day - 1) < daysOver (monthLengths d.year) := by
  have hday := d.day_le
  have := d.day_pos
  rw [daysIn_eq _ _ d.month_pos] at hday
  exact daysOver_take_add_lt (by omega)

@[simp]
theorem ofOrdinal?_ordinal (d : Date) : ofOrdinal? d.ordinal = some d := by
  have hyear : 400 * (d.year / 400) + ((d.year % 400).toNat : Int) = d.year := by omega
  have hday := d.day_le
  have hdaypos := d.day_pos
  have hmonthpos := d.month_pos
  rw [daysIn_eq _ _ hmonthpos] at hday
  have hlength := yearLength_eq (show (d.year % 400).toNat < 400 by omega) (d.year / 400)
  rw [hyear] at hlength
  have hlt := d.dayOfYear_lt
  rw [← hlength] at hlt
  have hera := daysOver_take_add_lt hlt
  rw [daysOver_yearLengths] at hera
  have hsum : daysOver (yearLengths.take (d.year % 400).toNat) +
      daysOver ((monthLengths d.year).take (d.month - 1)) + (d.day - 1) =
      daysOver (yearLengths.take (d.year % 400).toNat) +
        (daysOver ((monthLengths d.year).take (d.month - 1)) + (d.day - 1)) := Nat.add_assoc _ _ _
  have hdiv : d.ordinal / daysPerEra = d.year / 400 := by
    rw [ordinal, hsum]
    simp only [daysPerEra] at *
    omega
  have hmod : (d.ordinal % daysPerEra).toNat = daysOver (yearLengths.take (d.year % 400).toNat) +
      (daysOver ((monthLengths d.year).take (d.month - 1)) + (d.day - 1)) := by
    rw [ordinal, hsum]
    simp only [daysPerEra] at *
    omega
  simp only [ofOrdinal?, hdiv, hmod, locate_daysOver hlt, hyear]
  rw [locate_daysOver (show d.day - 1 < (monthLengths d.year)[d.month - 1]?.getD 0 by omega)]
  simp only [show d.month - 1 + 1 = d.month by omega, show d.day - 1 + 1 = d.day by omega, of?_self]

theorem of?_eq_some_iff {year : Int} {month day : Nat} {d : Date} :
    of? year month day = some d ↔ d.year = year ∧ d.month = month ∧ d.day = day := by
  constructor
  · intro h
    rw [of?] at h
    split at h
    · cases h
      exact ⟨rfl, rfl, rfl⟩
    · cases h
  · rintro ⟨rfl, rfl, rfl⟩
    exact d.of?_self

/-- The place of a day in its era. -/
def dayOfEra (n : Int) : Nat := (n % daysPerEra).toNat

theorem dayOfEra_lt (n : Int) : dayOfEra n < daysOver yearLengths := by
  rw [daysOver_yearLengths]
  simp only [dayOfEra, daysPerEra]
  omega

theorem era_add_dayOfEra (n : Int) : daysPerEra * (n / daysPerEra) + dayOfEra n = n := by
  simp only [dayOfEra, daysPerEra]
  omega

theorem locate_dayOfEra_lt (n : Int) : (locate yearLengths (dayOfEra n)).1 < 400 := by
  have hyear := locate_lt (dayOfEra_lt n)
  rw [← length_yearLengths]
  by_contra hle
  rw [List.getElem?_eq_none (by omega)] at hyear
  simp at hyear

/-- The year that holds a day. -/
def yearOf (n : Int) : Int := 400 * (n / daysPerEra) + (locate yearLengths (dayOfEra n)).1

/-- A date is found in the year of its day, unless the calendar ends before. -/
theorem ofOrdinal?_eq (n : Int) :
    ∃ month day, 0 < day ∧ day ≤ daysIn (yearOf n) month ∧ ofOrdinal? n = of? (yearOf n) month day ∧
      ∀ d, of? (yearOf n) month day = some d → d.ordinal = n := by
  have hyears := daysOver_locate yearLengths (dayOfEra n)
  have hyear := locate_lt (dayOfEra_lt n)
  have hy := locate_dayOfEra_lt n
  have hlength : yearLengths[(locate yearLengths (dayOfEra n)).1]?.getD 0 = daysOver (monthLengths (yearOf n)) :=
    yearLength_eq hy (n / daysPerEra)
  rw [hlength] at hyear
  have hmonths := daysOver_locate (monthLengths (yearOf n)) (locate yearLengths (dayOfEra n)).2
  have hmonth := locate_lt hyear
  refine ⟨(locate (monthLengths (yearOf n)) (locate yearLengths (dayOfEra n)).2).1 + 1,
    (locate (monthLengths (yearOf n)) (locate yearLengths (dayOfEra n)).2).2 + 1, by omega, ?_, ?_, ?_⟩
  · rw [daysIn_eq _ _ (by omega)]
    exact hmonth
  · simp only [ofOrdinal?, yearOf, dayOfEra]
  · intro d hd
    obtain ⟨hdyear, hdmonth, hdday⟩ := of?_eq_some_iff.1 hd
    have hquot : yearOf n / 400 = n / daysPerEra := by simp only [yearOf]; omega
    have hrem : (yearOf n % 400).toNat = (locate yearLengths (dayOfEra n)).1 := by simp only [yearOf]; omega
    have hn := era_add_dayOfEra n
    rw [ordinal, hdyear, hdmonth, hdday, hquot, hrem]
    simp only [Nat.add_sub_cancel]
    omega

theorem ordinal_of_ofOrdinal? {n : Int} {d : Date} (h : ofOrdinal? n = some d) : d.ordinal = n := by
  obtain ⟨month, day, -, -, heq, hordinal⟩ := ofOrdinal?_eq n
  exact hordinal d (heq ▸ h)

/-- The day count of the calendar's first day. -/
def firstOrdinal : Int := -95745764

/-- The day count of its last one. -/
def lastOrdinal : Int := 95745764

theorem yearOf_iff (n : Int) : -262143 ≤ yearOf n ∧ yearOf n ≤ 262142 ↔ firstOrdinal ≤ n ∧ n ≤ lastOrdinal := by
  have hfirst := le_locate_iff (i := 257) (dayOfEra_lt n)
  have hlast := le_locate_iff (i := 143) (dayOfEra_lt n)
  have hlow : daysOver (yearLengths.take 257) = 93868 := by decide +kernel
  have hhigh : daysOver (yearLengths.take 143) = 52230 := by decide +kernel
  rw [length_yearLengths, hlow] at hfirst
  rw [length_yearLengths, hhigh] at hlast
  have hn := era_add_dayOfEra n
  have hday := dayOfEra_lt n
  have hyear := locate_dayOfEra_lt n
  rw [daysOver_yearLengths] at hday
  simp only [yearOf, daysPerEra, firstOrdinal, lastOrdinal] at *
  omega

/-- The calendar has a day for every count from its first to its last one. -/
theorem exists_ofOrdinal?_iff {n : Int} : (∃ d, ofOrdinal? n = some d) ↔ firstOrdinal ≤ n ∧ n ≤ lastOrdinal := by
  obtain ⟨month, day, hpos, hle, heq, -⟩ := ofOrdinal?_eq n
  rw [heq, ← yearOf_iff]
  constructor
  · rintro ⟨d, hd⟩
    obtain ⟨hyear, -⟩ := of?_eq_some_iff.1 hd
    exact hyear ▸ ⟨d.year_ge, d.year_le⟩
  · rintro ⟨hlow, hhigh⟩
    exact ⟨⟨yearOf n, month, day, hlow, hhigh, hpos, hle⟩, by rw [of?, dif_pos ⟨hlow, hhigh, hpos, hle⟩]⟩

theorem ordinal_bounds (d : Date) : firstOrdinal ≤ d.ordinal ∧ d.ordinal ≤ lastOrdinal :=
  exists_ofOrdinal?_iff.1 ⟨d, d.ofOrdinal?_ordinal⟩

end Date

end TableQuery

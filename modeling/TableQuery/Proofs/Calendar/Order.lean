/-
The order of dates and moments in time, and the order of their texts
(`Date.compare_text`, `Moment.compare_text`).

A later year, or a later month or day of the same, is a later day
(`Date.compare_ordinal`), and outside leap seconds the order of moments is that of
their nanoseconds (`Moment.order_eq_compare_nanos`). Texts put the parts of a date
and a time one after the other, each with as many digits as the other's while years
have four. Only a fraction has as many digits as it needs: of two that start alike,
the longer one is the greater.
-/
import TableQuery.Proofs.Calendar.Moment
import TableQuery.Proofs.Text.Order
import TableQuery.Calendar.Text

namespace TableQuery

open Text Calendar

/-- How two moments stand in time. A leap second is after all of the second that it
carries on, and before the next one. -/
def Moment.order (m n : Moment) : Ordering :=
  (compare m.date.ordinal n.date.ordinal).then
    ((compare m.time.seconds n.time.seconds).then (compare m.time.nano n.time.nano))

/-- The years whose texts have four digits and no sign. -/
def Date.FourDigits (d : Date) : Prop := 0 ≤ d.year ∧ d.year ≤ 9999

instance (d : Date) : Decidable d.FourDigits := inferInstanceAs (Decidable (_ ∧ _))

/-! ## Days -/

namespace Calendar

/-- A day inside a run is before every later run. -/
theorem daysOver_take_add_lt_take {ls : List Nat} {i j r : Nat} (h : r < ls[i]?.getD 0) (hij : i < j) :
    daysOver (ls.take i) + r < daysOver (ls.take j) := by
  have hrun : r < (ls.take j)[i]?.getD 0 := by rwa [List.getElem?_take_of_lt hij]
  have hlt := daysOver_take_add_lt hrun
  rwa [List.take_take, Nat.min_eq_left (Nat.le_of_lt hij)] at hlt

/-- The days before a year. -/
def daysBefore (year : Int) : Int := daysPerEra * (year / 400) + daysOver (yearLengths.take (year % 400).toNat)

theorem daysBefore_add_lt {year year' : Int} (h : year < year') {r : Nat} (hr : r < daysOver (monthLengths year)) :
    daysBefore year + r < daysBefore year' := by
  have hyear : 400 * (year / 400) + ((year % 400).toNat : Int) = year := by omega
  have hlength := yearLength_eq (show (year % 400).toNat < 400 by omega) (year / 400)
  rw [hyear] at hlength
  rw [← hlength] at hr
  by_cases hera : year / 400 = year' / 400
  · have hlt := daysOver_take_add_lt_take hr (show (year % 400).toNat < (year' % 400).toNat by omega)
    rw [daysBefore, daysBefore, hera]
    omega
  · have hlt := daysOver_take_add_lt hr
    rw [daysOver_yearLengths] at hlt
    simp only [daysBefore, daysPerEra] at *
    omega

end Calendar

namespace Date

variable {d e : Date}

theorem ordinal_eq (d : Date) :
    d.ordinal = daysBefore d.year + (daysOver ((monthLengths d.year).take (d.month - 1)) + (d.day - 1) : Nat) := by
  rw [ordinal, daysBefore]
  omega

theorem ordinal_lt_of_year (h : d.year < e.year) : d.ordinal < e.ordinal := by
  have hlt := daysBefore_add_lt h d.dayOfYear_lt
  rw [d.ordinal_eq, e.ordinal_eq]
  omega

theorem ordinal_lt_of_month (hy : d.year = e.year) (h : d.month < e.month) : d.ordinal < e.ordinal := by
  have hday := d.day_le
  have := d.day_pos
  have := d.month_pos
  rw [daysIn_eq _ _ d.month_pos] at hday
  have hrun : d.day - 1 < (monthLengths d.year)[d.month - 1]?.getD 0 := by omega
  have hlt := daysOver_take_add_lt_take hrun (show d.month - 1 < e.month - 1 by omega)
  rw [d.ordinal_eq, e.ordinal_eq, ← hy]
  omega

/-- **Days stand in time as their years do**, or else their months or days. -/
theorem compare_ordinal (d e : Date) :
    compare d.ordinal e.ordinal =
      (compare d.year e.year).then ((compare d.month e.month).then (compare d.day e.day)) := by
  refine compare_eq_then ordinal_lt_of_year ordinal_lt_of_year fun hy => ?_
  refine compare_eq_then (ordinal_lt_of_month hy) (ordinal_lt_of_month hy.symm) fun hm => ?_
  have := d.day_pos
  have := e.day_pos
  rw [d.ordinal_eq, e.ordinal_eq, hy, hm]
  exact compare_congr (by omega) (by omega)

theorem FourDigits.yearText_eq (h : d.FourDigits) : yearText d.year = Decimal.padded 4 d.year.toNat := by
  obtain ⟨hlow, hhigh⟩ := h
  rw [yearText, if_neg (by omega), if_pos hhigh, show d.year.natAbs = d.year.toNat by omega]

theorem FourDigits.toNat_lt (h : d.FourDigits) : d.year.toNat < 10 ^ 4 := by
  obtain ⟨hlow, hhigh⟩ := h
  omega

/-- **The texts of two dates** stand as the days do, and then what follows them. -/
theorem compare_text (hd : d.FourDigits) (he : e.FourDigits) (xs ys : List Char) :
    compare (Utf8.encode (d.text ++ xs)) (Utf8.encode (e.text ++ ys)) =
      (compare d.ordinal e.ordinal).then (compare (Utf8.encode xs) (Utf8.encode ys)) := by
  have hyear : compare d.year.toNat e.year.toNat = compare d.year e.year := by
    have := hd.1
    have := he.1
    exact compare_congr (by omega) (by omega)
  have hmonth : ∀ d : Date, d.month < 10 ^ 2 := by
    intro d
    have := d.month_le
    omega
  have hday : ∀ d : Date, d.day < 10 ^ 2 := by
    intro d
    have := d.day_le_31
    omega
  rw [text, text, hd.yearText_eq, he.yearText_eq, compare_ordinal, ← hyear]
  simp only [List.append_assoc, List.cons_append]
  rw [Decimal.compare_padded_cons (by decide) hd.toNat_lt he.toNat_lt (by decide),
    Decimal.compare_padded_cons (by decide) (hmonth d) (hmonth e) (by decide),
    Decimal.compare_padded (by decide) (hday d) (hday e), Ordering.then_assoc, Ordering.then_assoc]

end Date

/-! ## Fractions -/

namespace Calendar

/-- So many groups of three digits that spell a fraction of a second, the last of
them not for nothing. -/
structure Groups (digits : List Char) (groups nano : Nat) : Prop where
  isDigit : ∀ c ∈ digits, c.isDigit
  length : digits.length = 3 * groups
  le : groups ≤ 3
  value : Decimal.value digits * 1000 ^ (3 - groups) = nano
  needed : Decimal.value digits % 1000 ≠ 0

theorem groups_padded (groups : Nat) {n nano : Nat} (hpos : 0 < 3 * groups) (hle : groups ≤ 3)
    (hn : n < 10 ^ (3 * groups)) (hvalue : n * 1000 ^ (3 - groups) = nano) (hneeded : n % 1000 ≠ 0) :
    Groups (Decimal.padded (3 * groups) n) groups nano where
  isDigit _ := Decimal.isDigit_of_mem_padded
  length := Decimal.length_padded hpos hn
  le := hle
  value := by rwa [Decimal.value_padded]
  needed := by rwa [Decimal.value_padded]

theorem fractionText_eq {nano : Nat} (h : nano < 1000000000) (hne : nano ≠ 0) :
    ∃ digits groups, fractionText nano = '.' :: digits ∧ Groups digits groups nano := by
  unfold fractionText
  rw [if_neg hne]
  split
  · exact ⟨_, 1, rfl, groups_padded 1 (by decide) (by decide) (by omega) (by omega) (by omega)⟩
  split
  · exact ⟨_, 2, rfl, groups_padded 2 (by decide) (by decide) (by omega) (by omega) (by omega)⟩
  · exact ⟨_, 3, rfl, groups_padded 3 (by decide) (by decide) (by omega) (by omega) (by omega)⟩

theorem Groups.compare_of_lt {ds es : List Char} {g k m n : Nat} (hd : Groups ds g m) (he : Groups es k n)
    (h : g < k) : compare (Utf8.encode ds) (Utf8.encode es) = compare m n := by
  have hle := he.le
  have hlack : 10 ^ (es.length - ds.length) = 1000 ^ (k - g) := by
    rw [hd.length, he.length, ← Nat.mul_sub, Nat.pow_mul]
  have hgroups : 1000 ^ (3 - g) = 1000 ^ (k - g) * 1000 ^ (3 - k) := by
    rw [← Nat.pow_add, show k - g + (3 - k) = 3 - g by omega]
  have hneeded : Decimal.value es % 1000 ^ (k - g) ≠ 0 := by
    intro hzero
    have hdvd : 1000 ∣ 1000 ^ (k - g) := dvd_pow_self 1000 (by omega)
    exact he.needed (Nat.mod_eq_zero_of_dvd (hdvd.trans (Nat.dvd_of_mod_eq_zero hzero)))
  have hlen : ds.length ≤ es.length := by
    rw [hd.length, he.length]
    omega
  rw [Decimal.compare_encode_longer hd.isDigit he.isDigit hlen (hlack ▸ hneeded), hlack, ← hd.value, ← he.value,
      hgroups,
    ← Nat.mul_assoc, compare_mul (Nat.pow_pos (by decide))]

theorem Groups.compare_encode {ds es : List Char} {g k m n : Nat} (hd : Groups ds g m) (he : Groups es k n) :
    compare (Utf8.encode ds) (Utf8.encode es) = compare m n := by
  rcases Nat.lt_trichotomy g k with h | rfl | h
  · exact hd.compare_of_lt he h
  · rw [Decimal.compare_encode hd.isDigit he.isDigit (by rw [hd.length, he.length]), ← hd.value, ← he.value,
      compare_mul (Nat.pow_pos (by decide))]
  · rw [Std.OrientedOrd.eq_swap (a := Utf8.encode ds), he.compare_of_lt hd h, ← Std.OrientedOrd.eq_swap]

/-- **Fractions stand as their digits do**, as few as they are. -/
theorem compare_fractionText {m n : Nat} (hm : m < 1000000000) (hn : n < 1000000000) :
    compare (Utf8.encode (fractionText m)) (Utf8.encode (fractionText n)) = compare m n := by
  by_cases hm0 : m = 0
  · by_cases hn0 : n = 0
    · rw [hm0, hn0, compare_eq_iff_eq.2 rfl]
      rfl
    · obtain ⟨es, k, htext, -⟩ := fractionText_eq hn hn0
      rw [htext, hm0, Utf8.encode_cons (by decide), Nat.compare_eq_lt.2 (Nat.pos_of_ne_zero hn0)]
      exact List.compare_nil_cons
  · obtain ⟨ds, g, hdtext, hd⟩ := fractionText_eq hm hm0
    by_cases hn0 : n = 0
    · rw [hdtext, hn0, Utf8.encode_cons (by decide), Nat.compare_eq_gt.2 (Nat.pos_of_ne_zero hm0)]
      exact List.compare_cons_nil
    · obtain ⟨es, k, hetext, he⟩ := fractionText_eq hn hn0
      rw [hdtext, hetext, Utf8.compare_cons (by decide), hd.compare_encode he]

end Calendar

/-! ## Moments -/

namespace TimeOfDay

variable (t u : TimeOfDay)

theorem compare_seconds :
    compare t.seconds u.seconds =
      (compare t.hour u.hour).then ((compare t.minute u.minute).then (compare t.second u.second)) := by
  have := t.minute_lt
  have := u.minute_lt
  have := t.second_lt
  have := u.second_lt
  simp only [seconds]
  refine compare_eq_then (by omega) (by omega) fun hhour => ?_
  refine compare_eq_then (by omega) (by omega) fun hminute => ?_
  exact compare_congr (by omega) (by omega)

/-- A leap second is written as second 60, which no other is. -/
theorem compare_printed :
    (compare (t.second + t.nano / 1000000000) (u.second + u.nano / 1000000000)).then
        (compare (t.nano % 1000000000) (u.nano % 1000000000)) =
      (compare t.second u.second).then (compare t.nano u.nano) := by
  have := t.second_lt
  have := u.second_lt
  have := t.nano_lt
  have := u.nano_lt
  rw [← compare_mul_add (Nat.mod_lt _ (by decide)) (Nat.mod_lt _ (by decide))]
  refine compare_eq_then (by omega) (by omega) fun hsecond => ?_
  exact compare_congr (by omega) (by omega)

/-- **The texts of two times** stand as their seconds do, or else their nanoseconds. -/
theorem compare_text :
    compare (Utf8.encode t.text) (Utf8.encode u.text) =
      (compare t.seconds u.seconds).then (compare t.nano u.nano) := by
  have hhour : ∀ t : TimeOfDay, t.hour < 10 ^ 2 := by
    intro t
    have := t.hour_lt
    omega
  have hminute : ∀ t : TimeOfDay, t.minute < 10 ^ 2 := by
    intro t
    have := t.minute_lt
    omega
  have hsecond : ∀ t : TimeOfDay, t.second + t.nano / 1000000000 < 10 ^ 2 := by
    intro t
    have := t.second_lt
    have := t.nano_lt
    omega
  rw [text, text]
  simp only [List.append_assoc, List.cons_append]
  rw [Decimal.compare_padded_cons (by decide) (hhour t) (hhour u) (by decide),
    Decimal.compare_padded_cons (by decide) (hminute t) (hminute u) (by decide),
    Decimal.compare_padded (by decide) (hsecond t) (hsecond u),
    compare_fractionText (Nat.mod_lt _ (by decide)) (Nat.mod_lt _ (by decide)), compare_printed, compare_seconds,
    Ordering.then_assoc, Ordering.then_assoc]

end TimeOfDay

/-- Outside leap seconds, moments stand in time as their counts of nanoseconds do. -/
theorem Moment.order_eq_compare_nanos {m n : Moment} (hm : m.time.nano < 1000000000) (hn : n.time.nano < 1000000000) :
    m.order n = compare m.nanos n.nanos := by
  have := m.time.seconds_le
  have := n.time.seconds_le
  simp only [order, nanos]
  refine (compare_eq_then (by omega) (by omega) fun hday => ?_).symm
  refine compare_eq_then (by omega) (by omega) fun hsecond => ?_
  exact compare_congr (by omega) (by omega)

/-- **The texts of two moments** stand as the moments do in time. -/
theorem Moment.compare_text {m n : Moment} (hm : m.date.FourDigits) (hn : n.date.FourDigits) :
    compare (Utf8.encode m.text) (Utf8.encode n.text) = m.order n := by
  rw [text, text, Date.compare_text hm hn, Utf8.compare_cons (by decide), TimeOfDay.compare_text, order]

end TableQuery

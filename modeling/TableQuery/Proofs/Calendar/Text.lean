/-
Reading the text of a date or a moment gives it back
(`Date.ofText?_text`, `Moment.ofText?_text`): years before 0 and past 9999,
every length of fraction and leap seconds included.

Each reader is led through the text that its writer left, with any rest behind
it. Two digits are read as far as they go, so their rest is free; a year has to
end in something that is no digit.
-/
import Mathlib.Data.List.TakeWhile
import TableQuery.Calendar.Text
import TableQuery.Proofs.Calendar.Date
import TableQuery.Proofs.Text.Decimal

namespace TableQuery

open Text

namespace Calendar

/-! ## Digits -/

/-- A text where a run of digits is over. -/
def NoDigit : List Char → Prop
  | [] => True
  | c :: _ => c.isDigit = false

theorem skipBlanks_of_isDigit {ds : List Char} (hds : ∀ c ∈ ds, c.isDigit) (hne : ds ≠ []) (rest : List Char) :
    skipBlanks (ds ++ rest) = ds ++ rest :=
  skipBlanks_of_bare (fun c hc => not_isBlank_of_isDigit (hds c hc)) hne rest

theorem readDigits?_append {most : Nat} {ds rest : List Char} (hds : ∀ c ∈ ds, c.isDigit) (hne : ds ≠ [])
    (hlen : ds.length ≤ most) (hr : ds.length = most ∨ NoDigit rest) :
    readDigits? most (ds ++ rest) = some (Decimal.value ds, rest) := by
  have htail : (rest.take (most - ds.length)).takeWhile Char.isDigit = [] := by
    rcases hr with hr | hr
    · simp [hr]
    · cases rest with
      | nil => simp
      | cons c rest =>
        cases most - ds.length with
        | zero => rfl
        | succ k => exact List.takeWhile_cons_of_neg (by simpa [NoDigit] using hr)
  have hrun : ((ds ++ rest).take most).takeWhile Char.isDigit = ds := by
    rw [List.take_append, List.take_of_length_le hlen, List.takeWhile_append_of_pos hds, htail, List.append_nil]
  simp only [readDigits?, hrun, if_neg hne, List.drop_left]

theorem readTwo?_padded {n : Nat} (h : n < 100) (rest : List Char) :
    readTwo? (Decimal.padded 2 n ++ rest) = some (n, rest) := by
  have hds : ∀ c ∈ Decimal.padded 2 n, c.isDigit := fun c => Decimal.isDigit_of_mem_padded
  have hlen : (Decimal.padded 2 n).length = 2 := Decimal.length_padded (by decide) h
  rw [readTwo?, skipBlanks_of_isDigit hds Decimal.padded_ne_nil,
    readDigits?_append hds Decimal.padded_ne_nil (by omega) (.inl hlen), Decimal.value_padded]

@[simp] theorem readChar?_self (c : Char) (rest : List Char) : readChar? c (c :: rest) = some rest := by
  simp [readChar?]

/-! ## Years -/

/-- Behind a sign a year has as many digits as there are. -/
theorem readDigits?_length_padded {width n : Nat} {rest : List Char} (hr : NoDigit rest) :
    readDigits? (Decimal.padded width n ++ rest).length (Decimal.padded width n ++ rest) = some (n, rest) := by
  rw [readDigits?_append (fun c => Decimal.isDigit_of_mem_padded) Decimal.padded_ne_nil (by simp) (.inr hr),
    Decimal.value_padded]

/-- Without a sign it has four. -/
theorem readYear?_unsigned {n : Nat} (h : n < 10000) (rest : List Char) :
    readYear? (Decimal.padded 4 n ++ rest) = some ((n : Int), rest) := by
  have hds : ∀ c ∈ Decimal.padded 4 n, c.isDigit := fun c => Decimal.isDigit_of_mem_padded
  have hlen : (Decimal.padded 4 n).length = 4 := Decimal.length_padded (by decide) h
  have hread : readDigits? 4 (Decimal.padded 4 n ++ rest) = some (Decimal.value (Decimal.padded 4 n), rest) :=
    readDigits?_append hds Decimal.padded_ne_nil (by omega) (.inl hlen)
  have hsign : ∀ c ∈ Decimal.padded 4 n, c ≠ '-' ∧ c ≠ '+' := by
    intro c hc
    constructor <;> rintro rfl <;> exact absurd (hds _ hc) (by decide)
  rw [readYear?, skipBlanks_of_isDigit hds Decimal.padded_ne_nil]
  rw [Decimal.value_padded] at hread
  cases hs : Decimal.padded 4 n with
  | nil => exact absurd hs Decimal.padded_ne_nil
  | cons c ds =>
    have hc := hsign c (by simp [hs])
    rw [hs] at hread
    split
    · next heq => exact absurd (List.cons.inj heq).1 hc.1
    · next heq => exact absurd (List.cons.inj heq).1 hc.2
    · exact congrArg (Option.map fun p => ((p.1 : Int), p.2)) hread

theorem readYear?_yearText (year : Int) {rest : List Char} (hr : NoDigit rest) :
    readYear? (yearText year ++ rest) = some (year, rest) := by
  rw [yearText]
  split
  · next hneg =>
    simp only [readYear?, skipBlanks, List.cons_append, List.dropWhile_cons, show isBlank '-' = false by decide,
      Bool.false_eq_true, if_false, readDigits?_length_padded hr, Option.map_some]
    rw [show -(year.natAbs : Int) = year by omega]
  split
  · next hneg hle =>
    rw [readYear?_unsigned (by omega), show (year.natAbs : Int) = year by omega]
  · next hneg hle =>
    simp only [readYear?, skipBlanks, List.cons_append, List.dropWhile_cons, show isBlank '+' = false by decide,
      Bool.false_eq_true, if_false, readDigits?_length_padded hr, Option.map_some]
    rw [show (year.natAbs : Int) = year by omega]

/-! ## Fractions -/

theorem readFraction?_padded {width n : Nat} (hw : 0 < width) (hle : width ≤ 9) (h : n < 10 ^ width) :
    readFraction? ('.' :: Decimal.padded width n) = some (n * 10 ^ (9 - width), []) := by
  have hds : ∀ c ∈ Decimal.padded width n, c.isDigit := fun c => Decimal.isDigit_of_mem_padded
  have hlen : (Decimal.padded width n).length = width := Decimal.length_padded hw h
  have hrun : ((Decimal.padded width n).take 9).takeWhile Char.isDigit = Decimal.padded width n := by
    rw [List.take_of_length_le (by omega)]
    exact List.takeWhile_eq_self_iff.2 hds
  have hrest : (Decimal.padded width n).dropWhile Char.isDigit = [] := List.dropWhile_eq_nil_iff.2 hds
  simp only [readFraction?, hrun, hrest, if_neg Decimal.padded_ne_nil, Decimal.value_padded, hlen, Nat.pow_eq]
  rfl

/-- The fewest digits that are exact are enough. -/
theorem readFraction?_fractionText {nano : Nat} (h : nano < 1000000000) :
    readFraction? (fractionText nano) = some (nano, []) := by
  rw [fractionText]
  split
  · next h0 => rw [h0]; rfl
  split
  · rw [readFraction?_padded (by decide) (by decide) (by omega), show nano / 1000000 * 10 ^ (9 - 3) = nano by omega]
  split
  · rw [readFraction?_padded (by decide) (by decide) (by omega), show nano / 1000 * 10 ^ (9 - 6) = nano by omega]
  · rw [readFraction?_padded (by decide) (by decide) (by omega), show nano * 10 ^ (9 - 9) = nano by omega]

end Calendar

open Calendar

/-! ## Dates and moments -/

@[simp] theorem Date.readDate?_text (d : Date) (rest : List Char) : readDate? (d.text ++ rest) = some (d, rest) := by
  have hmonth : d.month < 100 := by have := d.month_le; omega
  have hday : d.day < 100 := by have := d.day_le_31; omega
  have hyear : ∀ rest, readYear? (yearText d.year ++ '-' :: rest) = some (d.year, '-' :: rest) :=
    fun rest => readYear?_yearText d.year (show NoDigit ('-' :: rest) from (by decide : '-'.isDigit = false))
  simp [readDate?, Date.text, hyear, readTwo?_padded hmonth, readTwo?_padded hday]

/-- A leap second stands as second 60 and is read as the carried-on second 59. -/
@[simp] theorem TimeOfDay.readTime?_text (t : TimeOfDay) : readTime? t.text = some (t, []) := by
  have hhour := t.hour_lt
  have hminute := t.minute_lt
  have hsecond := t.second_lt
  have hnano := t.nano_lt
  simp only [readTime?, TimeOfDay.text, List.append_assoc, List.cons_append, readChar?_self,
    readTwo?_padded (show t.hour < 100 by omega), readTwo?_padded (show t.minute < 100 by omega),
    readTwo?_padded (show t.second + t.nano / 1000000000 < 100 by omega),
    readFraction?_fractionText (show t.nano % 1000000000 < 1000000000 by omega), Option.bind_eq_bind, Option.bind_some]
  split
  · next hleap =>
    have hsec : 59 = t.second := by omega
    rw [hsec, show 1000000000 + t.nano % 1000000000 = t.nano by omega, t.of?_self]
    rfl
  · next hleap =>
    rw [show t.second + t.nano / 1000000000 = t.second by omega, Nat.mod_eq_of_lt (by omega), t.of?_self]
    rfl

/-- Blanks may stand in front of a time, and its text has none. -/
@[simp] theorem TimeOfDay.skipBlanks_text (t : TimeOfDay) : skipBlanks (' ' :: t.text) = t.text := by
  have hhour : skipBlanks t.text = t.text := by
    rw [TimeOfDay.text, List.append_assoc, List.append_assoc]
    exact skipBlanks_of_isDigit (fun c => Decimal.isDigit_of_mem_padded) Decimal.padded_ne_nil _
  exact hhour

/-! ## Other readers of the same texts -/

/-- A date's text is a date alone if nothing follows it. -/
@[simp] theorem Date.dateAlone?_text_append (d : Date) (rest : List Char) :
    dateAlone? (d.text ++ rest) = if rest = [] then some d else none := by
  rw [dateAlone?, d.readDate?_text]
  cases rest <;> rfl

@[simp] theorem Date.momentWith?_text_append (d : Date) (between : List Char → Option (List Char)) (rest : List Char) :
    momentWith? between (d.text ++ rest) = (between rest).bind fun cs => (whole? (readTime? cs)).map (⟨d, ·⟩) := by
  cases h : between rest with
  | none => simp [momentWith?, h]
  | some cs => cases ht : whole? (readTime? cs) <;> simp [momentWith?, h, ht]

/-- A time starts with a digit, which `T` is none of. -/
@[simp] theorem Calendar.readTime?_separator (rest : List Char) : readTime? (skipBlanks ('T' :: rest)) = none := by
  have hblank : isBlank 'T' = false := by decide
  have hdigit : Char.isDigit 'T' = false := by decide
  have hfirst : readTwo? ('T' :: rest) = none := by
    simp [readTwo?, readDigits?, skipBlanks, hblank, hdigit]
  simp [readTime?, skipBlanks, hblank, hfirst]

/-- Nothing follows a date's text when it stands alone. -/
@[simp] theorem Date.dateAlone?_text (d : Date) : dateAlone? d.text = some d := by
  simpa using d.dateAlone?_text_append []

@[simp] theorem Date.momentWith?_text (d : Date) (between : List Char → Option (List Char)) :
    momentWith? between d.text = (between []).bind fun cs => (whole? (readTime? cs)).map (⟨d, ·⟩) := by
  simpa using d.momentWith?_text_append between []

theorem Date.ofText?_text (d : Date) : Date.ofText? d.text = some d := by
  simp [Date.ofText?]

theorem Moment.ofText?_text (m : Moment) : Moment.ofText? m.text = some m := by
  have hwith : momentWith? (fun cs => some (skipBlanks cs)) m.text = some m := by simp [Moment.text, whole?]
  simp [Moment.ofText?, hwith]

/-- Between its date and its time a moment's text may have a `T`. -/
theorem Moment.ofText?_separated (m : Moment) : Moment.ofText? (m.date.text ++ 'T' :: m.time.text) = some m := by
  simp [Moment.ofText?, whole?]

/-- A date's text has no time, so it is read as the date's midnight. -/
theorem Moment.ofText?_dateText (d : Date) : Moment.ofText? d.text = some (atMidnight d) := by
  have hblanks : whole? (readTime? (skipBlanks [])) = none := by decide
  have hseparator : readChar? 'T' [] = none := rfl
  simp [Moment.ofText?, hblanks, hseparator]

/-- What is more than a date is read as a moment, for its date. -/
theorem Date.ofText?_append (d : Date) {rest : List Char} (hne : rest ≠ []) {m : Moment}
    (h : Moment.ofText? (d.text ++ rest) = some m) : Date.ofText? (d.text ++ rest) = some m.date := by
  rw [Date.ofText?, d.dateAlone?_text_append, if_neg hne, h]
  rfl

/-! ## The space in a text -/

namespace Calendar

@[simp] theorem space_not_mem_padded (width n : Nat) : ' ' ∉ Decimal.padded width n := by
  intro h
  exact absurd (Decimal.isDigit_of_mem_padded h) (by decide)

@[simp] theorem space_not_mem_yearText (year : Int) : ' ' ∉ yearText year := by
  unfold yearText
  split
  · simp
  · split <;> simp

@[simp] theorem space_not_mem_fractionText (nano : Nat) : ' ' ∉ fractionText nano := by
  unfold fractionText
  split
  · simp
  split
  · simp
  split <;> simp

end Calendar

theorem Date.space_not_mem_text (d : Date) : ' ' ∉ d.text := by
  simp [Date.text]

theorem TimeOfDay.space_not_mem_text (t : TimeOfDay) : ' ' ∉ t.text := by
  simp [TimeOfDay.text]

/-- The one space in a moment's text stands before its time. -/
theorem Moment.map_text (m : Moment) (c : Char) :
    (m.text.map fun d => if d = ' ' then c else d) = m.date.text ++ c :: m.time.text := by
  have hsame : ∀ cs : List Char, ' ' ∉ cs → (cs.map fun d => if d = ' ' then c else d) = cs := by
    intro cs h
    refine (List.map_congr_left fun d hd => if_neg ?_).trans (List.map_id cs)
    rintro rfl
    exact h hd
  rw [Moment.text, List.map_append, List.map_cons, hsame _ m.date.space_not_mem_text, hsame _ m.time.space_not_mem_text]
  rfl

end TableQuery

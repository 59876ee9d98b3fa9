/-
Dates and moments from their texts (`Moment.texts_read_back`).

There are two readers, and each tries the other's text when its own fails: a date
is read from a moment's text for its date, and a moment from a date's text for
its midnight. No text is taken by the wrong one of them: a date's text has
nothing left for a time, a moment's text is more than a date, and a `T` stands
where blanks may, but no digit.
-/
import TableQuery.Proofs.Transport

namespace TableQuery

open Sqlite

/-- What is read where a value was stored; for a date or a moment, its text. -/
def Value.storedText (v : Value) : Value := (Cell.bound v).toValue

@[simp]
theorem Value.storedText_date (d : Date) : (Value.date d).storedText = .text (String.ofList d.text) :=
  Mapped.toValue_ofText d.text

@[simp]
theorem Value.storedText_datetime (m : Moment) : (Value.datetime m).storedText = .text (String.ofList m.text) :=
  Mapped.toValue_ofText m.text

theorem Decoder.date_text {cs : List Char} {d : Date} (h : Date.ofText? cs = some d) :
    Decoder.date (.text (String.ofList cs)) = .ok d := by
  simp [Decoder.date, h]

theorem Decoder.datetime_text {cs : List Char} {m : Moment} (h : Moment.ofText? cs = some m) :
    Decoder.datetime (.text (String.ofList cs)) = .ok m := by
  simp [Decoder.datetime, h]

/-- **Dates and moments are read back from their texts**, of every year that the
calendar has, with any fraction of a second, and leap seconds too:

* a date's text is read as the date, and a moment's text as the moment, with a
  space before the time or a `T`;
* a moment's text is read as a date for the moment's date, in either form, and a
  date's text as a moment for the date's midnight;
* so the decoders give for a text that was stored what they give for the date or
  moment itself. -/
theorem Moment.texts_read_back (d : Date) (m : Moment) :
    let separated := m.text.map fun c => if c = ' ' then 'T' else c
    Date.ofText? d.text = some d ∧ Moment.ofText? m.text = some m ∧ Moment.ofText? separated = some m ∧
    Date.ofText? m.text = some m.date ∧ Date.ofText? separated = some m.date ∧
    Moment.ofText? d.text = some (.atMidnight d) ∧
    Decoder.date (Value.date d).storedText = Decoder.date (.date d) ∧
    Decoder.date (Value.datetime m).storedText = Decoder.date (.datetime m) ∧
    Decoder.datetime (Value.date d).storedText = Decoder.datetime (.date d) ∧
    Decoder.datetime (Value.datetime m).storedText = Decoder.datetime (.datetime m) := by
  intro separated
  have hseparated : Moment.ofText? separated = some m := (congrArg _ (m.map_text 'T')).trans m.ofText?_separated
  have hdate : Date.ofText? m.text = some m.date := m.date.ofText?_append (List.cons_ne_nil _ _) m.ofText?_text
  have hdateSeparated : Date.ofText? separated = some m.date :=
    (congrArg _ (m.map_text 'T')).trans (m.date.ofText?_append (List.cons_ne_nil _ _) m.ofText?_separated)
  have hmidnight := Moment.ofText?_dateText d
  refine ⟨d.ofText?_text, m.ofText?_text, hseparated, hdate, hdateSeparated, hmidnight, ?_, ?_, ?_, ?_⟩
  · rw [Value.storedText_date, Decoder.date_text d.ofText?_text]
    rfl
  · rw [Value.storedText_datetime, Decoder.date_text hdate]
    rfl
  · rw [Value.storedText_date, Decoder.datetime_text hmidnight]
    rfl
  · rw [Value.storedText_datetime, Decoder.datetime_text m.ofText?_text]
    rfl

/-- The leap second that ends the calendar's first year, to the microsecond. -/
example :
    let m : Moment := ⟨⟨-262143, 12, 31, by decide, by decide, by decide, by decide⟩,
      ⟨23, 59, 59, 1000250000, by decide, by decide, by decide, by decide⟩⟩
    m.text = "-262143-12-31 23:59:60.000250".toList ∧
      Moment.ofText? "-262143-12-31T23:59:60.000250".toList = some m ∧
      Date.ofText? "-262143-12-31T23:59:60.000250".toList = some m.date := by
  decide +kernel

end TableQuery

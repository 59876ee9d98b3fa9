/-
Moments and their counts of nanoseconds: where a moment lies within its day, and
the moment so many microseconds on.
-/
import TableQuery.Proofs.Calendar.Date

namespace TableQuery

namespace TimeOfDay

theorem seconds_le (t : TimeOfDay) : t.seconds ≤ 86399 := by
  have := t.hour_lt
  have := t.minute_lt
  have := t.second_lt
  simp only [seconds]
  omega

/-- The microsecond of a moment within its day is a time of day. -/
theorem exists_of_micros (within : Nat) (h : within < 86400 * 1000000) :
    ∃ t, of? (within / 1000000 / 3600) (within / 1000000 / 60 % 60) (within / 1000000 % 60)
        (within % 1000000 * 1000) = some t ∧ 1000000000 * t.seconds + t.nano = 1000 * within := by
  refine ⟨⟨within / 1000000 / 3600, within / 1000000 / 60 % 60, within / 1000000 % 60, within % 1000000 * 1000,
    by omega, by omega, by omega, by omega⟩, ?_, ?_⟩
  · rw [of?, dif_pos (by omega)]
  · simp only [seconds]
    omega

end TimeOfDay

namespace Moment

/-- A moment is within its day, or in the second after it. -/
theorem nanos_bounds (m : Moment) :
    86400000000000 * m.date.ordinal ≤ m.nanos ∧ m.nanos < 86400000000000 * (m.date.ordinal + 1) + 1000000000 := by
  have hseconds := m.time.seconds_le
  have hnano := m.time.nano_lt
  simp only [nanos]
  omega

theorem ofMicros?_eq (n : Int) :
    ofMicros? n = (Date.ofOrdinal? (n / 86400000000)).bind fun date =>
      (TimeOfDay.of? ((n % 86400000000).toNat / 1000000 / 3600) ((n % 86400000000).toNat / 1000000 / 60 % 60)
        ((n % 86400000000).toNat / 1000000 % 60) ((n % 86400000000).toNat % 1000000 * 1000)).bind fun time =>
        some ⟨date, time⟩ := rfl

theorem nanos_of_ofMicros? {n : Int} {m : Moment} (h : ofMicros? n = some m) : m.nanos = 1000 * n := by
  rw [ofMicros?_eq] at h
  obtain ⟨date, hdate, h⟩ := Option.bind_eq_some_iff.1 h
  obtain ⟨t, ht, hsum⟩ := TimeOfDay.exists_of_micros (n % 86400000000).toNat (by omega)
  rw [ht] at h
  cases h
  rw [nanos, Date.ordinal_of_ofOrdinal? hdate]
  simp only [hsum]
  omega

theorem exists_ofMicros?_iff {n : Int} :
    (∃ m, ofMicros? n = some m) ↔
      Date.firstOrdinal ≤ n / 86400000000 ∧ n / 86400000000 ≤ Date.lastOrdinal := by
  rw [← Date.exists_ofOrdinal?_iff, ofMicros?_eq]
  constructor
  · rintro ⟨m, h⟩
    obtain ⟨date, hdate, -⟩ := Option.bind_eq_some_iff.1 h
    exact ⟨date, hdate⟩
  · rintro ⟨date, hdate⟩
    obtain ⟨t, ht, -⟩ := TimeOfDay.exists_of_micros (n % 86400000000).toNat (by omega)
    exact ⟨⟨date, t⟩, by rw [hdate, Option.bind_some, ht, Option.bind_some]⟩

@[simp]
theorem ofMicros?_midnight (d : Date) : ofMicros? (86400000000 * d.ordinal) = some (atMidnight d) := by
  have hdiv : 86400000000 * d.ordinal / 86400000000 = d.ordinal := by omega
  have hmod : (86400000000 * d.ordinal % 86400000000).toNat = 0 := by omega
  rw [ofMicros?_eq, hdiv, hmod, d.ofOrdinal?_ordinal]
  rfl

end Moment

end TableQuery

/-
What the readers of PostgreSQL's cells give: values of the column's kind only
(`yields_of_decode`), and of octets that were written for a type what was written.
-/
import TableQuery.Proofs.Calendar.Moment
import TableQuery.Proofs.Postgres.Octets

namespace TableQuery.Postgres

open Text

/-- The kind of value that is read from a type. -/
@[simp]
def Yields : ColumnType → Value → Prop
  | .bool, .bool _ => True
  | .int2, .integer _ | .int4, .integer _ | .int8, .integer _ => True
  | .float4, .real _ | .float8, .real _ => True
  | .text, .text _ | .varchar, .text _ | .bpchar, .text _ | .name, .text _ => True
  | .bytea, .blob _ => True
  | .date, .date _ => True
  | .timestamp, .datetime _ | .timestamptz, .datetime _ => True
  | _, _ => False

variable {type : ColumnType} {octets : List UInt8} {w : Value} {index : Nat}

theorem decode_eq_ok_iff :
    decode type index (some octets) = .ok w ↔ ∃ read, decoder? type = some read ∧ read octets = some w := by
  simp only [decode]
  cases decoder? type with
  | none => simp
  | some read =>
    simp only [Option.some.injEq, exists_eq_left']
    cases read octets with
    | none => simp
    | some u => simp

/-- A reader gives values of its type's kind only. -/
theorem yields_of_decode (h : decode type index (some octets) = .ok w) : Yields type w := by
  obtain ⟨read, hread, hw⟩ := decode_eq_ok_iff.1 h
  cases type <;> simp only [decoder?, Option.some.injEq, reduceCtorEq] at hread <;> subst hread
  case int2 | int4 | int8 =>
    obtain ⟨o, -, rfl⟩ := Option.map_eq_some_iff.1 hw
    trivial
  case date =>
    obtain ⟨o, -, ho⟩ := Option.bind_eq_some_iff.1 hw
    obtain ⟨d, -, rfl⟩ := Option.map_eq_some_iff.1 ho
    trivial
  case timestamp | timestamptz =>
    obtain ⟨o, -, ho⟩ := Option.bind_eq_some_iff.1 hw
    obtain ⟨m, -, hm⟩ := Option.bind_eq_some_iff.1 ho
    cases hm
    trivial
  case bytea =>
    cases hw
    trivial
  all_goals
    obtain ⟨o, -, rfl⟩ := Option.map_eq_some_iff.1 hw
    trivial

/-! ## Octets that were written for the type -/

@[simp] theorem ofLength?_eq {n : Nat} (h : octets.length = n) : ofLength? n octets = some octets := by
  rw [ofLength?, if_pos h]

theorem integer?_signedOctets {width : Nat} {i : Int64} (hlow : -(256 ^ width : Nat) ≤ 2 * i.toInt)
    (hhigh : 2 * i.toInt < (256 ^ width : Nat)) : integer? width (signedOctets width i.toInt) = some (.integer i) := by
  simp [integer?, ofSignedOctets_signedOctets hlow hhigh]

@[simp] theorem ofBigEndian_word64 (r : Binary64) :
    (⟨UInt64.ofNat (ofBigEndian (bigEndian 8 r.word))⟩ : Binary64) = r := by
  have hlt : r.word < 256 ^ 8 := r.bits.toNat_lt
  rw [ofBigEndian_bigEndian, Nat.mod_eq_of_lt hlt, Binary64.word, UInt64.ofNat_toNat]

@[simp] theorem ofBigEndian_word32 (r : Binary32) :
    (⟨UInt32.ofNat (ofBigEndian (bigEndian 4 r.word))⟩ : Binary32) = r := by
  have hlt : r.word < 256 ^ 4 := r.bits.toNat_lt
  rw [ofBigEndian_bigEndian, Nat.mod_eq_of_lt hlt, Binary32.word, UInt32.ofNat_toNat]

theorem moment?_signedOctets {y : Int} (hlow : -(256 ^ 8 : Nat) ≤ 2 * y) (hhigh : 2 * y < (256 ^ 8 : Nat)) :
    moment? (signedOctets 8 y) = (Moment.ofMicros? (y + epoch * 86400 * 1000000)).map .datetime := by
  rw [moment?, ofLength?_eq (length_signedOctets _ _), Option.bind_eq_bind, Option.bind_some,
    ofSignedOctets_signedOctets hlow hhigh]
  cases Moment.ofMicros? (y + epoch * 86400 * 1000000) <;> rfl

/-- The count of microseconds is cut off toward 2000-01-01. -/
theorem epochMicros_bounds (m : Moment) :
    epoch * 86400000000000 ≤ m.nanos ∧ 0 ≤ m.nanos - 1000 * (epochMicros m + epoch * 86400000000) ∧
        m.nanos - 1000 * (epochMicros m + epoch * 86400000000) < 1000 ∨
      m.nanos < epoch * 86400000000000 ∧ epochMicros m ≤ 0 ∧
        0 ≤ 1000 * (epochMicros m + epoch * 86400000000) - m.nanos ∧
        1000 * (epochMicros m + epoch * 86400000000) - m.nanos < 1000 := by
  simp only [epochMicros, epoch]
  rcases Int.lt_or_le (m.nanos - 730485 * 86400 * 1000000000) 0 with h | h
  · have htdiv : (m.nanos - 730485 * 86400 * 1000000000).tdiv 1000 =
        -(-(m.nanos - 730485 * 86400 * 1000000000) / 1000) := by
      rw [← Int.tdiv_eq_ediv_of_nonneg (by omega), Int.neg_tdiv, Int.neg_neg]
    rw [htdiv]
    omega
  · rw [Int.tdiv_eq_ediv_of_nonneg h]
    omega

theorem ofOrdinal?_epochDays (d : Date) :
    (ofLength? 4 (signedOctets 4 (epochDays d))).bind
      (fun o => (Date.ofOrdinal? (ofSignedOctets o + epoch)).map Value.date) = some (.date d) := by
  have hday := d.ordinal_bounds
  simp only [Date.firstOrdinal, Date.lastOrdinal] at hday
  have hback : ofSignedOctets (signedOctets 4 (epochDays d)) = epochDays d := by
    refine ofSignedOctets_signedOctets ?_ ?_ <;> simp only [epochDays, epoch] <;> omega
  rw [ofLength?_eq (length_signedOctets _ _), Option.bind_some, hback, epochDays, Int.sub_add_cancel,
    d.ofOrdinal?_ordinal, Option.map_some]

end TableQuery.Postgres

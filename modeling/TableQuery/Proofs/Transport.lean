/-
The way of a value through SQLite and back (`Mapped.transport`): whatever of the
types that values are made from is bound, stored and read again, the decoder of
its type gives it back.

SQLite keeps a truth value as an integer and a date as text, so these kinds are
other ones on the way back, and their decoders have to read the other kind. The
second half of the theorem says all that a decoder of integers does.
-/
import Mathlib.Algebra.Order.Ring.Int
import TableQuery.Decoder
import TableQuery.Proofs.Calendar.Text
import TableQuery.Proofs.Text.Utf8
import TableQuery.Sqlite.Cell

namespace TableQuery

open Text Sqlite

/-- The number a value denotes: that of an integer, and 0 or 1 for a truth value. -/
inductive Value.IsNumber : Value → Int → Prop
  | integer (i : Int64) : IsNumber (.integer i) i.toInt
  | bool (b : Bool) : IsNumber (.bool b) (if b then 1 else 0)

/-- A type whose elements become values and are read back from them. -/
structure Mapped where
  type : Type
  /-- Which elements of `type` there are. -/
  Holds : type → Prop
  write : type → Value
  read : Decoder type

namespace Mapped

def bool : Mapped := ⟨Bool, fun _ => True, .bool, .bool⟩
def int (t : IntType) : Mapped := ⟨Int, t.Holds, Value.ofInt, .int t⟩
def text : Mapped := ⟨String, fun _ => True, .text, .text⟩
def blob : Mapped := ⟨List UInt8, fun _ => True, .blob, .blob⟩
def date : Mapped := ⟨Date, fun _ => True, .date, .date⟩
def datetime : Mapped := ⟨Moment, fun _ => True, .datetime, .datetime⟩

/-- The types of elements that are values of their own. A word of 64 bits without
a sign is none of them: it can be read, but no value is made from one. -/
def plain : List Mapped :=
  [bool, int .int8, int .int16, int .int32, int .int64, int .uint8, int .uint16, int .uint32,
    text, blob, date, datetime]

/-- Elements of `m`, or nothing. -/
def optional (m : Mapped) : Mapped :=
  ⟨Option m.type, fun x => ∀ a, x = some a → m.Holds a, Value.ofOption m.write, Decoder.optional m.read⟩

/-- What is read back is what was written, and no element is stored as null. -/
def Returns (m : Mapped) : Prop :=
  ∀ x, m.Holds x → m.read (Cell.bound (m.write x)).toValue = .ok x ∧ (Cell.bound (m.write x)).toValue ≠ .null

end Mapped

/-! ## Integers -/

theorem Value.isNumber_iff {v : Value} {i : Int} : v.IsNumber i ↔ v.int64?.map Int64.toInt = some i := by
  constructor
  · rintro (i | b)
    · rfl
    · cases b <;> rfl
  · intro h
    obtain ⟨j, hj, rfl⟩ := Option.map_eq_some_iff.1 h
    cases v with
    | integer k =>
      rw [← Option.some.inj hj]
      exact .integer k
    | bool b =>
      cases hj
      cases b
      · exact .bool false
      · exact .bool true
    | _ => simp [int64?] at hj

theorem Decoder.int_eq_ok_iff {t : IntType} {v : Value} {i : Int} :
    Decoder.int t v = .ok i ↔ v.IsNumber i ∧ t.Holds i := by
  rw [Value.isNumber_iff, Decoder.int]
  cases v.int64? with
  | none => simp [refuse]
  | some j =>
    simp only [Option.map_some, Option.some.injEq]
    cases hn : t.narrow j.toInt with
    | ok k =>
      obtain ⟨rfl, hk⟩ := IntType.narrow_eq_ok_iff.1 hn
      constructor
      · rintro ⟨⟩
        exact ⟨rfl, hk⟩
      · rintro ⟨rfl, -⟩
        rfl
    | error e =>
      constructor
      · nofun
      · rintro ⟨rfl, hi⟩
        rw [IntType.narrow_eq_ok_iff.2 ⟨rfl, hi⟩] at hn
        cases hn

/-! ## All types -/

namespace Mapped

theorem bool_returns : bool.Returns := by
  intro b _
  cases b <;> exact ⟨rfl, nofun⟩

/-- All integers that values are made from are within 64 bits, so none of them wraps. -/
theorem int_returns {t : IntType} (ht : -2 ^ 63 ≤ t.least ∧ t.greatest < 2 ^ 63) : (int t).Returns := by
  intro i hi
  have hwrap : (Int64.ofInt i).toInt = i :=
    Int64.toInt_ofInt_of_le (Int.le_trans ht.1 hi.1) (Int.lt_of_le_of_lt hi.2 ht.2)
  have hnumber := Value.IsNumber.integer (Int64.ofInt i)
  rw [hwrap] at hnumber
  exact ⟨Decoder.int_eq_ok_iff.2 ⟨hnumber, hi⟩, nofun⟩

/-- Text is stored as its octets, and none of them is broken on the way. -/
theorem toValue_ofText (cs : List Char) : (Cell.ofText cs).toValue = .text (String.ofList cs) := by
  rw [Cell.ofText, Cell.toValue, Utf8.decodeLossy_encode]

theorem text_returns : text.Returns := by
  intro (s : String) _
  have hvalue : (Cell.bound (.text s)).toValue = .text (String.ofList s.toList) := toValue_ofText s.toList
  simp [text, hvalue, Decoder.text]

theorem blob_returns : blob.Returns := fun _ _ => ⟨rfl, nofun⟩

theorem date_returns : date.Returns := by
  intro (d : Date) _
  have hvalue : (Cell.bound (.date d)).toValue = .text (String.ofList d.text) := toValue_ofText d.text
  simp [date, hvalue, Decoder.date, d.ofText?_text]

theorem datetime_returns : datetime.Returns := by
  intro (m : Moment) _
  have hvalue : (Cell.bound (.datetime m)).toValue = .text (String.ofList m.text) := toValue_ofText m.text
  simp [datetime, hvalue, Decoder.datetime, m.ofText?_text]

theorem plain_returns {m : Mapped} (hm : m ∈ plain) : m.Returns := by
  simp only [plain, List.mem_cons, List.not_mem_nil, or_false] at hm
  rcases hm with rfl | rfl | rfl | rfl | rfl | rfl | rfl | rfl | rfl | rfl | rfl | rfl
  · exact bool_returns
  iterate 7 exact int_returns (by decide)
  · exact text_returns
  · exact blob_returns
  · exact date_returns
  · exact datetime_returns

/-- Null stands for nothing, and for nothing else. -/
theorem Returns.optional {m : Mapped} (h : m.Returns) (x : Option m.type) (hx : ∀ a, x = some a → m.Holds a) :
    Decoder.optional m.read (Cell.bound (Value.ofOption m.write x)).toValue = .ok x := by
  cases x with
  | none => rfl
  | some a =>
    obtain ⟨hread, hnull⟩ := h a (hx a rfl)
    rw [Value.ofOption, Decoder.optional, hread]
    · rfl
    · exact hnull

end Mapped

/-- **What is bound is what is read.** And for every value and integer type, the
decoder gives the number that the value denotes or fails, and it fails exactly
when there is no such number within the type's range. -/
theorem Mapped.transport :
    (∀ m ∈ plain ++ plain.map optional, ∀ x, m.Holds x →
      m.read (Cell.bound (m.write x)).toValue = .ok x) ∧
    ∀ (t : IntType) (v : Value),
      (∀ i, Decoder.int t v = .ok i ↔ v.IsNumber i ∧ t.Holds i) ∧
      ((∃ fault, Decoder.int t v = .error fault) ↔ ∀ i, v.IsNumber i → ¬t.Holds i) := by
  constructor
  · intro m hm x hx
    rcases List.mem_append.1 hm with hm | hm
    · exact (plain_returns hm x hx).1
    · obtain ⟨m', hm', rfl⟩ := List.mem_map.1 hm
      exact (plain_returns hm').optional x hx
  · intro t v
    refine ⟨fun i => Decoder.int_eq_ok_iff, ?_⟩
    constructor
    · rintro ⟨fault, hfault⟩ i hv hi
      rw [Decoder.int_eq_ok_iff.2 ⟨hv, hi⟩] at hfault
      cases hfault
    · intro hnone
      cases hread : Decoder.int t v with
      | ok i =>
        obtain ⟨hv, hi⟩ := Decoder.int_eq_ok_iff.1 hread
        exact absurd hi (hnone i hv)
      | error fault => exact ⟨fault, rfl⟩

/-- A leap second before the year 0 comes back, and 300 is no number of 8 bits. -/
theorem Mapped.transport_leap_second :
    let m : Moment := ⟨⟨-1, 12, 31, by decide, by decide, by decide, by decide⟩,
      ⟨23, 59, 59, 1500000000, by decide, by decide, by decide, by decide⟩⟩
    datetime.optional.read (Cell.bound (datetime.optional.write (some m))).toValue = .ok (some m) ∧
      ∃ fault, Decoder.int .uint8 (.integer 300) = .error fault := by
  intro m
  constructor
  · refine transport.1 datetime.optional (List.mem_append_right _ (List.mem_map_of_mem ?_)) (some m) fun _ _ => trivial
    simp [plain]
  · refine (transport.2 .uint8 (.integer 300)).2.2 ?_
    rintro i ⟨⟩
    exact (by decide : ¬IntType.Holds .uint8 300)

end TableQuery

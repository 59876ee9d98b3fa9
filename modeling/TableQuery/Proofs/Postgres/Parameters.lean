/-
Parameters in PostgreSQL's binary form, and what their octets mean to a column of the
parameter's type (`encode_faithful_iff`).

A value's octets depend on the parameter's type only for integers, reals and dates, and
there not for every type. Where no branch fits the pair, the octets are those of some
other type: they have the wrong width, or they are read as a value that has nothing to
do with the one that was bound. The theorem says for each pair of a type and a value
which it is.
-/
import TableQuery.Proofs.Number.Binary
import TableQuery.Proofs.Postgres.Reading
import TableQuery.Proofs.Text.Utf8

namespace TableQuery.Postgres

open Text

/-- The octets of a type whose values all have the same number of them. -/
def width? : ColumnType → Option Nat
  | .bool => some 1
  | .int2 => some 2
  | .int4 | .float4 | .date => some 4
  | .int8 | .float8 | .timestamp | .timestamptz => some 8
  | _ => none

/-- `s`, read from a type of reals, is the number `z / 2^1074` up to the type's precision. -/
def Near : ColumnType → Int → Binary64 → Prop
  | .float4, z, s => ∃ x : Binary32, x.Nearest z ∧ s.signedMagnitude = x.signedMagnitude
  | _, z, s => Binary64.Nearest z s

/-- `w`, read from a type, is what `v` was: numbers up to the precision of the type,
moments up to less than a microsecond, and a date may have become its midnight. -/
@[simp]
def Denotes (type : ColumnType) : Value → Value → Prop
  | .bool a, .bool b => a = b
  | .integer i, .integer j => i = j
  | .integer i, .real s => Near type (i.toInt * (1 <<< 1074 : Nat)) s
  | .real r, .real s => if type = .float4 then Binary32.Keeps r s else r = s
  | .real r, .integer j => r.isFinite ∧ r.signedMagnitude = j.toInt * (1 <<< 1074 : Nat)
  | .text s, .text t => s = t
  | .blob a, .blob b => a = b
  | .date d, .date e => d = e
  | .date d, .datetime m => m = Moment.atMidnight d
  | .datetime m, .datetime n => (m.nanos - n.nanos).natAbs < 1000
  | _, _ => False

/-- `octets` are a value of the type, and it is read as what `v` was. -/
structure Faithful (type : ColumnType) (octets : List UInt8) (v : Value) : Prop where
  width : ∀ n, width? type = some n → octets.length = n
  read : ∃ w, (∀ index, decode type index (some octets) = .ok w) ∧ Denotes type v w

/-- The pairs for which there are octets of the type: the value is of the type's kind,
an integer for `float8`, or a date for a type of moments. A moment must not lie behind
the calendar's last day, as only a leap second does. And zero is spelled alike as an
integer and as a double. -/
@[simp]
def Suits : ColumnType → Value → Prop
  | .bool, .bool _ => True
  | .int2, .integer _ | .int4, .integer _ | .int8, .integer _ | .float8, .integer _ => True
  | .float4, .real _ | .float8, .real _ => True
  | .int8, .real r => r = ⟨0⟩
  | .text, .text _ | .varchar, .text _ | .bpchar, .text _ | .name, .text _ => True
  | .bytea, .blob _ => True
  | .date, .date _ | .timestamp, .date _ | .timestamptz, .date _ => True
  | .timestamp, .datetime m | .timestamptz, .datetime m =>
    m.nanos < 86400000000000 * (Date.lastOrdinal + 1)
  | _, _ => False

/-- An integer that a narrower type does not hold. -/
@[simp]
def Exceeds : ColumnType → Value → Prop
  | .int2, .integer i => ¬IntType.int16.Holds i.toInt
  | .int4, .integer i => ¬IntType.int32.Holds i.toInt
  | _, _ => False

variable {type : ColumnType} {octets : List UInt8} {v w : Value}

/-! ## Reading -/

/-- Octets that are read stand for what they are read as. -/
theorem faithful_iff {read : List UInt8 → Option Value} (hread : decoder? type = some read)
    (hw : read octets = some w) (hwidth : ∀ n, width? type = some n → octets.length = n) :
    Faithful type octets v ↔ Denotes type v w := by
  have hdecode : ∀ index, decode type index (some octets) = .ok w := fun _ => decode_eq_ok_iff.2 ⟨read, hread, hw⟩
  constructor
  · rintro ⟨-, w', hw', hv⟩
    have heq : Except.ok w' = .ok w := (hw' 0).symm.trans (hdecode 0)
    rwa [← Except.ok.inj heq]
  · intro hv
    exact ⟨hwidth, w, hdecode, hv⟩

theorem not_faithful_of_none {read : List UInt8 → Option Value} (hread : decoder? type = some read)
    (hnone : read octets = none) : ¬Faithful type octets v := by
  rintro ⟨-, w, hw, -⟩
  obtain ⟨read', hread', hw'⟩ := decode_eq_ok_iff.1 (hw 0)
  rw [hread] at hread'
  cases hread'
  rw [hnone] at hw'
  cases hw'

/-- No value of the type's kind is what was bound. -/
theorem not_faithful_of_kind (h : ∀ w, Yields type w → ¬Denotes type v w) : ¬Faithful type octets v := by
  rintro ⟨-, w, hw, hv⟩
  exact h w (yields_of_decode (hw 0)) hv

/-! ## The kinds of values -/

/-- How a value fares as a parameter of a type: when it is refused, and what its octets
are worth otherwise. -/
structure Fares (type : ColumnType) (v : Value) : Prop where
  refused : (∃ e, encode type v = .error e) ↔ Exceeds type v
  sent : ∀ cell, encode type v = .ok cell → ∃ octets, cell = some octets ∧ (Faithful type octets v ↔ Suits type v)

theorem Fares.of_sent (hsent : encode type v = .ok (some octets)) (hrange : ¬Exceeds type v)
    (hworth : Faithful type octets v ↔ Suits type v) : Fares type v := by
  constructor
  · rw [hsent]
    exact iff_of_false nofun hrange
  · intro cell hcell
    rw [hsent] at hcell
    cases hcell
    exact ⟨octets, rfl, hworth⟩

/-- Where the type has nothing to do with the value, its own values tell. -/
theorem Fares.of_unrelated (hsent : encode type v = .ok (some octets)) (hrange : ¬Exceeds type v := by simp)
    (hsuits : ¬Suits type v := by simp)
    (hkind : ∀ w, Yields type w → ¬Denotes type v w := by intro w; cases w <;> simp) : Fares type v :=
  .of_sent hsent hrange (iff_of_false (not_faithful_of_kind hkind) hsuits)

theorem fares_bool (b : Bool) : Fares type (.bool b) := by
  cases type
  case bool =>
    refine .of_sent rfl (by simp) ?_
    rw [faithful_iff (w := .bool b) rfl (by cases b <;> rfl) (by rintro n ⟨⟩; rfl)]
    simp
  all_goals exact .of_unrelated rfl

/-- A narrower type refuses the integers it does not hold and takes the others. -/
theorem Fares.of_narrow {t : IntType} {width : Nat} {i : Int64}
    (hencode : encode type (.integer i) = (t.narrow i.toInt).map fun j => some (signedOctets width j))
    (hrefused : Exceeds type (.integer i) ↔ ¬t.Holds i.toInt) (hsuits : Suits type (.integer i))
    (hread : decoder? type = some (integer? width)) (hwidth : width? type = some width)
    (hlow : -(256 ^ width : Nat) ≤ 2 * t.least) (hhigh : 2 * t.greatest < (256 ^ width : Nat)) :
    Fares type (.integer i) := by
  by_cases hi : t.Holds i.toInt
  · have hnarrow : t.narrow i.toInt = .ok i.toInt := IntType.narrow_eq_ok_iff.2 ⟨rfl, hi⟩
    have hback : integer? width (signedOctets width i.toInt) = some (.integer i) := by
      have := hi.1
      have := hi.2
      exact integer?_signedOctets (by omega) (by omega)
    rw [hnarrow] at hencode
    refine .of_sent hencode (fun hx => hrefused.1 hx hi) (iff_of_true ?_ hsuits)
    rw [faithful_iff hread hback (by rw [hwidth]; rintro n ⟨⟩; simp)]
    rfl
  · obtain ⟨e, he⟩ := IntType.narrow_eq_error_iff.2 hi
    rw [he] at hencode
    constructor
    · exact iff_of_true ⟨e, hencode⟩ (hrefused.2 hi)
    · intro cell hcell
      rw [hencode] at hcell
      cases hcell

theorem fares_integer (i : Int64) : Fares type (.integer i) := by
  have hlow := i.le_toInt
  have hhigh := i.toInt_lt
  cases type
  case int2 => exact .of_narrow (t := .int16) rfl Iff.rfl trivial rfl rfl (by decide) (by decide)
  case int4 => exact .of_narrow (t := .int32) rfl Iff.rfl trivial rfl rfl (by decide) (by decide)
  case int8 =>
    refine .of_sent rfl (by simp) (iff_of_true ?_ trivial)
    rw [faithful_iff rfl (integer?_signedOctets (by omega) (by omega)) (by rintro n ⟨⟩; simp)]
    rfl
  case float8 =>
    refine .of_sent rfl (by simp) (iff_of_true ?_ trivial)
    rw [faithful_iff (w := .real (Binary64.ofInt i.toInt)) rfl ?_ (by rintro n ⟨⟩; simp)]
    · exact Binary64.ofInt_nearest (by omega)
    · rw [ofLength?_eq (length_bigEndian _ _), Option.map_some, ofBigEndian_word64]
  case float4 =>
    refine .of_sent rfl (by simp) (iff_of_false (fun h => ?_) (by simp))
    have hwidth := h.width 4 rfl
    rw [length_signedOctets] at hwidth
    omega
  all_goals exact .of_unrelated rfl

/-- Eight octets of a double are an integer to `int8`, and the same number only for zero. -/
theorem faithful_real_int8_iff (r : Binary64) : Faithful .int8 (bigEndian 8 r.word) (.real r) ↔ r = ⟨0⟩ := by
  have hrange : -2 ^ 63 ≤ (r.word : Int).bmod (256 ^ 8) ∧ (r.word : Int).bmod (256 ^ 8) < 2 ^ 63 :=
    ⟨Int.le_bmod (by decide), Int.bmod_lt (by decide)⟩
  have hback : integer? 8 (bigEndian 8 r.word) = some (.integer (Int64.ofInt ((r.word : Int).bmod (256 ^ 8)))) := by
    simp [integer?]
  rw [faithful_iff rfl hback (by rintro n ⟨⟩; exact length_bigEndian 8 _), Denotes,
    Int64.toInt_ofInt_of_le hrange.1 hrange.2]
  constructor
  · rintro ⟨hfin, hvalue⟩
    exact Binary64.eq_zero_of_own_bits hfin hvalue
  · rintro rfl
    have hzero : (Binary64.word ⟨0⟩ : Int) = 0 := rfl
    rw [hzero, Int.zero_bmod, Int.zero_mul]
    exact ⟨rfl, rfl⟩

theorem fares_real (r : Binary64) : Fares type (.real r) := by
  cases type
  case float4 =>
    refine .of_sent rfl (by simp) (iff_of_true ?_ trivial)
    rw [faithful_iff (w := .real (Binary32.toBinary64 (Binary32.ofBinary64 r))) rfl ?_
      (by rintro n ⟨⟩; simp)]
    · simpa using Binary32.keeps_toBinary64_ofBinary64 r
    · rw [ofLength?_eq (length_bigEndian _ _), Option.map_some, ofBigEndian_word32]
  case float8 =>
    refine .of_sent rfl (by simp) (iff_of_true ?_ trivial)
    rw [faithful_iff (w := .real r) rfl ?_ (by rintro n ⟨⟩; simp)]
    · simp
    · rw [ofLength?_eq (length_bigEndian _ _), Option.map_some, ofBigEndian_word64]
  case int8 => exact .of_sent rfl (by simp) (faithful_real_int8_iff r)
  case int2 | int4 =>
    refine .of_sent rfl (by simp) (iff_of_false (fun h => ?_) (by simp))
    have hwidth := h.width _ rfl
    rw [length_bigEndian] at hwidth
    omega
  all_goals exact .of_unrelated rfl

theorem fares_text (s : String) : Fares type (.text s) := by
  cases type
  case text | varchar | bpchar | name =>
    refine .of_sent rfl (by simp) ?_
    rw [faithful_iff (w := .text s) rfl (by simp) (by rintro n ⟨⟩)]
    simp
  all_goals exact .of_unrelated rfl

theorem fares_blob (octets : List UInt8) : Fares type (.blob octets) := by
  cases type
  case bytea =>
    refine .of_sent rfl (by simp) ?_
    rw [faithful_iff (w := .blob octets) rfl rfl (by rintro n ⟨⟩)]
    simp
  all_goals exact .of_unrelated rfl

/-- A moment is read back up to the microsecond where the calendar still has it. -/
theorem faithful_moment_iff {m : Moment} (hread : decoder? type = some moment?) (hwidth : width? type = some 8) :
    (Faithful type (signedOctets 8 (epochMicros m)) (.datetime m) ↔
      m.nanos < 86400000000000 * (Date.lastOrdinal + 1)) := by
  have hnanos := m.nanos_bounds
  have hday := m.date.ordinal_bounds
  have hmicros := epochMicros_bounds m
  simp only [Date.firstOrdinal, Date.lastOrdinal, epoch] at *
  have hback := moment?_signedOctets (y := epochMicros m) (by omega) (by omega)
  have hrange := Moment.exists_ofMicros?_iff (n := epochMicros m + epoch * 86400 * 1000000)
  simp only [Date.firstOrdinal, Date.lastOrdinal, epoch] at hrange hback
  cases hm : Moment.ofMicros? (epochMicros m + 730485 * 86400 * 1000000) with
  | none =>
    rw [hm] at hback hrange
    refine iff_of_false (not_faithful_of_none hread hback) ?_
    simp only [reduceCtorEq, exists_false, false_iff] at hrange
    omega
  | some n =>
    rw [hm] at hback hrange
    have hn := Moment.nanos_of_ofMicros? hm
    rw [faithful_iff hread hback (by rw [hwidth]; rintro k ⟨⟩; simp), Denotes]
    simp only [Option.some.injEq, exists_eq', true_iff] at hrange
    omega

theorem faithful_midnight {d : Date} (hread : decoder? type = some moment?) (hwidth : width? type = some 8) :
    Faithful type (signedOctets 8 (epochMicros (Moment.atMidnight d))) (.date d) := by
  have hday := d.ordinal_bounds
  have hnanos : (Moment.atMidnight d).nanos = 86400000000000 * d.ordinal := by
    simp [Moment.nanos, Moment.atMidnight, TimeOfDay.midnight, TimeOfDay.seconds]
  have hmicros := epochMicros_bounds (Moment.atMidnight d)
  rw [hnanos] at hmicros
  simp only [Date.firstOrdinal, Date.lastOrdinal, epoch] at *
  have hback := moment?_signedOctets (y := epochMicros (Moment.atMidnight d)) (by omega) (by omega)
  have hexact : epochMicros (Moment.atMidnight d) + epoch * 86400 * 1000000 = 86400000000 * d.ordinal := by
    simp only [epoch]
    omega
  rw [hexact, Moment.ofMicros?_midnight, Option.map_some] at hback
  rw [faithful_iff hread hback (by rw [hwidth]; rintro k ⟨⟩; simp)]
  rfl

theorem fares_date (d : Date) : Fares type (.date d) := by
  cases type
  case date =>
    refine .of_sent rfl (by simp) (iff_of_true ?_ trivial)
    rw [faithful_iff rfl (ofOrdinal?_epochDays d) (by rintro n ⟨⟩; simp)]
    rfl
  case timestamp | timestamptz =>
    exact .of_sent rfl (by simp) (iff_of_true (faithful_midnight rfl rfl) trivial)
  all_goals exact .of_unrelated rfl

theorem fares_datetime (m : Moment) : Fares type (.datetime m) := by
  cases type
  case timestamp | timestamptz => exact .of_sent rfl (by simp) (faithful_moment_iff rfl rfl)
  all_goals exact .of_unrelated rfl

/-- **What a parameter's octets are worth.** Only an integer that `int2` or `int4` does
not hold is refused. Everything else is sent, and it is a value of the type that stands
for what was bound exactly when the two suit each other: no other pair is refused. -/
theorem encode_faithful_iff (type : ColumnType) {v : Value} (hv : v ≠ .null) :
    ((∃ e, encode type v = .error e) ↔ Exceeds type v) ∧
      ∀ cell, encode type v = .ok cell →
        ∃ octets, cell = some octets ∧ (Faithful type octets v ↔ Suits type v) := by
  have hfares : Fares type v := by
    cases v with
    | null => exact absurd rfl hv
    | bool b => exact fares_bool b
    | integer i => exact fares_integer i
    | real r => exact fares_real r
    | text s => exact fares_text s
    | blob octets => exact fares_blob octets
    | date d => exact fares_date d
    | datetime m => exact fares_datetime m
  exact ⟨hfares.refused, hfares.sent⟩

/-- The integer 1 is sent to a `float4`, and what is sent is no `float4` for it. -/
theorem encode_faithful_iff_float4 :
    ∃ octets, encode .float4 (.integer 1) = .ok (some octets) ∧ ¬Faithful .float4 octets (.integer 1) := by
  obtain ⟨octets, hcell, hworth⟩ := (encode_faithful_iff .float4 (v := .integer 1) nofun).2 _ rfl
  exact ⟨octets, congrArg Except.ok hcell, fun h => hworth.1 h⟩

end TableQuery.Postgres

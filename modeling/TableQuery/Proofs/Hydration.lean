/-
Moving values out of a row reads the same as reading them in place
(`Hydrator.reads_in_place`).

Moving a value out leaves null in its place, which a decoder for something optional
would take for an answer. It never gets to see one: what is moved out is in other
places than all that was moved out before, by the numbers of the places for a tuple
and by the names of the columns for a record.
-/
import Mathlib.Data.List.Nodup
import TableQuery.Row

namespace TableQuery

variable {α : Type}

namespace Row

/-! ## One value -/

/-- Reads the value at a place, with the fault of moving it out. -/
def lookAt (d : Decoder α) (r : Row) (i : Nat) : Except MappingFault α :=
  match r.values[i]? with
  | some v => d v
  | none => .error (.indexOutOfRange i)

/-- The value that stands by a name first. -/
def first? (r : Row) (column : String) : Option Value := (r.columns.zip r.values).lookup column

/-- Reads the value that stands by a name first, with the fault of moving it out. -/
def look (d : Decoder α) (r : Row) (column : String) : Except MappingFault α :=
  match r.first? column with
  | some v => (d v).mapError (.inColumn column)
  | none => .error (.noColumn column)

/-- A name for each value. -/
def Named (r : Row) : Prop := r.columns.length = r.values.length

variable (d : Decoder α) (r : Row)

@[simp]
theorem fst_moveOutAt (i : Nat) : (r.moveOutAt d i).1 = r.lookAt d i := by
  rw [moveOutAt, lookAt]
  cases r.values[i]? <;> rfl

/-- What is moved out leaves null behind, whether it could be read or not. -/
@[simp]
theorem snd_moveOutAt (i : Nat) : (r.moveOutAt d i).2 = { r with values := r.values.set i .null } := by
  rw [moveOutAt]
  cases h : r.values[i]? with
  | some v => rfl
  | none => simp only [List.set_eq_of_length_le (List.getElem?_eq_none_iff.1 h)]

theorem snd_moveOut (column : String) :
    (r.moveOut d column).2 =
      match r.placeOf column with
      | .ok i => { r with values := r.values.set i .null }
      | .error _ => r := by
  rw [moveOut]
  cases r.placeOf column with
  | ok i => exact r.snd_moveOutAt d i
  | error fault => rfl

@[simp]
theorem columns_moveOut (column : String) : (r.moveOut d column).2.columns = r.columns := by
  rw [snd_moveOut]
  split <;> rfl

/-! ### Names and places -/

theorem placeOf_eq (column : String) :
    r.placeOf column = match r.columns.findIdx? (· = column) with
      | some i => .ok i
      | none => .error (.noColumn column) := rfl

theorem first?_eq (column : String) : r.first? column = (r.columns.findIdx? (· = column)).bind (r.values[·]?) := by
  obtain ⟨columns, values⟩ := r
  rw [first?]
  induction columns generalizing values with
  | nil => rfl
  | cons c columns ih =>
    cases values with
    | nil => simp
    | cons v values =>
      rw [List.zip_cons_cons, List.lookup_cons, List.findIdx?_cons]
      by_cases hc : c = column
      · simp [hc]
      · rw [if_neg (by simpa using hc)]
        have hbeq : (column == c) = false := by simpa using Ne.symm hc
        rw [hbeq, ih, Option.bind_map]
        rfl

/-- A name that some column has is by a value. -/
theorem first?_eq_none_iff {r : Row} (h : r.Named) {column : String} :
    r.first? column = none ↔ r.columns.findIdx? (· = column) = none := by
  rw [first?_eq]
  cases hfind : r.columns.findIdx? (· = column) with
  | none => simp
  | some i =>
    have hi : i < r.values.length := h ▸ (List.findIdx?_eq_some_iff_findIdx_eq.1 hfind).1
    simp [hi]

theorem fst_moveOut (column : String) :
    (r.moveOut d column).1 = match r.columns.findIdx? (· = column) with
      | some i => (r.lookAt d i).mapError (.inColumn column)
      | none => .error (.noColumn column) := by
  rw [moveOut, placeOf_eq]
  cases r.columns.findIdx? (· = column) with
  | none => rfl
  | some i => exact congrArg (Except.mapError _) (r.fst_moveOutAt d i)

theorem fst_moveOut_of_named {r : Row} (h : r.Named) (column : String) : (r.moveOut d column).1 = r.look d column := by
  rw [fst_moveOut, look]
  cases hfind : r.columns.findIdx? (· = column) with
  | none => rw [(first?_eq_none_iff h).2 hfind]
  | some i =>
    have hfirst : r.first? column = r.values[i]? := by rw [first?_eq, hfind]; rfl
    cases hv : r.values[i]? with
    | none =>
      rw [hv, first?_eq_none_iff h, hfind] at hfirst
      cases hfirst
    | some v =>
      rw [hv] at hfirst
      simp only [hfirst, lookAt, hv]

/-- The first column of another name stands elsewhere. -/
theorem getElem?_moveOut {column other : String} (h : column ≠ other) {j : Nat}
    (hj : r.columns.findIdx? (· = other) = some j) : (r.moveOut d column).2.values[j]? = r.values[j]? := by
  rw [snd_moveOut, placeOf_eq]
  cases hi : r.columns.findIdx? (· = column) with
  | none => rfl
  | some i =>
    obtain ⟨_, hci, -⟩ := List.findIdx?_eq_some_iff_getElem.1 hi
    obtain ⟨_, hcj, -⟩ := List.findIdx?_eq_some_iff_getElem.1 hj
    refine List.getElem?_set_ne ?_
    rintro rfl
    simp only [decide_eq_true_eq] at hci hcj
    exact h (hci.symm.trans hcj)

theorem first?_moveOut {column other : String} (h : column ≠ other) :
    (r.moveOut d column).2.first? other = r.first? other := by
  rw [first?_eq, first?_eq, columns_moveOut]
  cases hj : r.columns.findIdx? (· = other) with
  | none => rfl
  | some j => exact r.getElem?_moveOut d h hj

theorem fst_moveOut_moveOut {column other : String} (h : column ≠ other) (d' : Decoder α) :
    ((r.moveOut d column).2.moveOut d' other).1 = (r.moveOut d' other).1 := by
  rw [fst_moveOut, fst_moveOut, columns_moveOut]
  cases hj : r.columns.findIdx? (· = other) with
  | none => rfl
  | some j => simp only [lookAt, r.getElem?_moveOut d h hj]

theorem getElem?_moveOutAt {i j : Nat} (h : i ≠ j) : (r.moveOutAt d i).2.values[j]? = r.values[j]? := by
  simp [List.getElem?_set_ne h]

theorem fst_moveOutAt_moveOutAt {i j : Nat} (h : i ≠ j) (d' : Decoder α) :
    ((r.moveOutAt d i).2.moveOutAt d' j).1 = (r.moveOutAt d' j).1 := by
  rw [fst_moveOutAt, fst_moveOutAt, lookAt, lookAt, r.getElem?_moveOutAt d h]

end Row

/-! ## One after the other -/

namespace Hydrator

variable {ι : Type} {take : Row → ι → Except MappingFault α × Row}

/-- What readings come to: all they gave, or the fault of the first that failed. -/
@[simp]
def inOrder : List (Except MappingFault α) → Except MappingFault (List α)
  | [] => .ok []
  | .error e :: _ => .error e
  | .ok a :: rest => (inOrder rest).map (a :: ·)

theorem inOrder_eq_ok_iff {readings : List (Except MappingFault α)} {out : List α} :
    inOrder readings = .ok out ↔ readings = out.map .ok := by
  induction readings generalizing out with
  | nil => cases out <;> simp
  | cons reading rest ih =>
    cases reading with
    | error e => cases out <;> simp
    | ok a =>
      cases hrest : inOrder rest with
      | error e => cases out <;> simp [hrest, ← ih, Except.map]
      | ok more => cases out <;> simp [hrest, ← ih, Except.map]

theorem inOrder_append (front : List α) (e : MappingFault) (rest : List (Except MappingFault α)) :
    inOrder (front.map .ok ++ .error e :: rest) = .error e := by
  induction front with
  | nil => rfl
  | cons a front ih => simp [ih, Except.map]

theorem inOrder_eq_error_iff {readings : List (Except MappingFault α)} {e : MappingFault} :
    inOrder readings = .error e ↔ ∃ (front : List α) (rest : _), readings = front.map .ok ++ .error e :: rest := by
  constructor
  · intro h
    induction readings with
    | nil => cases h
    | cons reading rest ih =>
      cases reading with
      | error e' =>
        cases h
        exact ⟨[], rest, rfl⟩
      | ok a =>
        cases hrest : inOrder rest with
        | ok more =>
          rw [inOrder, hrest] at h
          cases h
        | error e' =>
          rw [inOrder, hrest] at h
          cases h
          obtain ⟨front, rest', rfl⟩ := ih hrest
          exact ⟨a :: front, rest', rfl⟩
  · rintro ⟨front, rest, rfl⟩
    exact inOrder_append front e rest

/-- Values that nothing before them moves out are read as in the row itself. -/
theorem moveOutEach_eq {is : List ι} (h : is.Pairwise fun i j => ∀ r, (take (take r i).2 j).1 = (take r j).1)
    (r : Row) : moveOutEach take is r = inOrder (is.map fun i => (take r i).1) := by
  induction is generalizing r with
  | nil => rfl
  | cons i rest ih =>
    obtain ⟨hi, hrest⟩ := List.pairwise_cons.1 h
    have hsame : rest.map (fun j => (take (take r i).2 j).1) = rest.map fun j => (take r j).1 :=
      List.map_congr_left fun j hj => hi j hj r
    rw [List.map_cons, ← hsame, moveOutEach]
    rcases take r i with ⟨e | a, r'⟩
    · rfl
    · rw [inOrder, ← ih hrest r']

/-- The rows that values are moved out of, one for each. -/
def passed (take : Row → ι → Except MappingFault α × Row) : List ι → Row → List Row
  | [], _ => []
  | i :: rest, r => r :: passed take rest (take r i).2

/-- A value that nothing before it moves out is still there. -/
theorem value_passed (value : Row → ι → Option Value) {is : List ι}
    (h : is.Pairwise fun i j => ∀ r, value (take r i).2 j = value r j) (r : Row) :
    ∀ p ∈ (passed take is r).zip is, value p.1 p.2 = value r p.2 := by
  induction is generalizing r with
  | nil => exact fun _ hp => absurd hp List.not_mem_nil
  | cons i rest ih =>
    obtain ⟨hi, hrest⟩ := List.pairwise_cons.1 h
    refine List.forall_mem_cons.2 ⟨rfl, fun p hp => ?_⟩
    exact (ih hrest (take r i).2 p hp).trans (hi p.2 (List.of_mem_zip hp).2 r)

/-! ## Tuples and records -/

/-- A tuple's places, each with its decoder. -/
def places (decoders : List (Decoder α)) : List (Nat × Decoder α) := (List.range decoders.length).zip decoders

/-- Moves out what a tuple has at a place. -/
def takePlace (r : Row) (p : Nat × Decoder α) : Except MappingFault α × Row := r.moveOutAt p.2 p.1

/-- Moves out what a record has by a name. -/
def takeField (r : Row) (f : String × Decoder α) : Except MappingFault α × Row := r.moveOut f.2 f.1

theorem pairwise_places (decoders : List (Decoder α)) : (places decoders).Pairwise fun p q => p.1 ≠ q.1 := by
  rw [← List.pairwise_map, places, List.map_fst_zip (by simp)]
  exact List.nodup_range

theorem map_places (decoders : List (Decoder α)) (read : Nat → Decoder α → Except MappingFault α) :
    (places decoders).map (fun p => read p.1 p.2) = decoders.mapIdx read := by
  refine List.ext_getElem (by simp [places]) fun i _ _ => ?_
  simp [places]

theorem tuple_eq (decoders : List (Decoder α)) (r : Row) :
    tuple decoders r = (inOrder (decoders.mapIdx fun i d => r.lookAt d i)).mapError .mapping := by
  have hread : (fun p : Nat × Decoder α => r.lookAt p.2 p.1) = fun p => (takePlace r p).1 :=
    funext fun p => (r.fst_moveOutAt p.2 p.1).symm
  rw [← map_places decoders fun i d => r.lookAt d i, hread, ← moveOutEach_eq]
  · rfl
  · exact (pairwise_places decoders).imp fun h r => r.fst_moveOutAt_moveOutAt _ h _

theorem record_eq {fields : List (String × Decoder α)} (hn : (fields.map (·.1)).Nodup) {r : Row} (hr : r.Named) :
    record fields r = (inOrder (fields.map fun f => r.look f.2 f.1)).mapError .mapping := by
  have hread : (fun f : String × Decoder α => r.look f.2 f.1) = fun f => (takeField r f).1 :=
    funext fun f => (Row.fst_moveOut_of_named f.2 hr f.1).symm
  rw [hread, ← moveOutEach_eq]
  · rfl
  · exact (List.pairwise_map.1 hn).imp fun h r => r.fst_moveOut_moveOut _ h _

/-- All that some readings gave, in their order, or the fault of the first that failed. -/
structure Hydrates (readings : List (Except MappingFault α)) (result : Except Fault (List α)) : Prop where
  ok_iff : ∀ out, result = .ok out ↔ readings = out.map .ok
  error_iff : ∀ fault, result = .error fault ↔
    ∃ (front : List α) (e : MappingFault) (rest : List (Except MappingFault α)),
      readings = front.map .ok ++ .error e :: rest ∧ fault = .mapping e
  fails_iff : (∃ fault, result = .error fault) ↔ ∃ e, .error e ∈ readings

theorem hydrates_inOrder (readings : List (Except MappingFault α)) :
    Hydrates readings ((inOrder readings).mapError .mapping) := by
  have herror : ∀ fault, (inOrder readings).mapError Fault.mapping = .error fault ↔
      ∃ e, inOrder readings = .error e ∧ fault = .mapping e := by
    intro fault
    cases inOrder readings <;> simp [Except.mapError, eq_comm]
  refine ⟨fun out => ?_, fun fault => ?_, ?_⟩
  · rw [← inOrder_eq_ok_iff]
    cases inOrder readings <;> simp [Except.mapError]
  · rw [herror]
    constructor
    · rintro ⟨e, he, rfl⟩
      obtain ⟨front, rest, h⟩ := inOrder_eq_error_iff.1 he
      exact ⟨front, e, rest, h, rfl⟩
    · rintro ⟨front, e, rest, h, rfl⟩
      exact ⟨e, inOrder_eq_error_iff.2 ⟨front, rest, h⟩, rfl⟩
  · constructor
    · rintro ⟨fault, hfault⟩
      obtain ⟨e, he, -⟩ := (herror fault).1 hfault
      obtain ⟨front, rest, rfl⟩ := inOrder_eq_error_iff.1 he
      exact ⟨e, by simp⟩
    · rintro ⟨e, he⟩
      cases h : inOrder readings with
      | error e' => exact ⟨.mapping e', rfl⟩
      | ok out =>
        rw [inOrder_eq_ok_iff.1 h] at he
        simp at he

/-- **Moving values out reads what reading them in place does**, for every row and
decoders of any kind (those of several types read into a sum of them).

* A tuple is the values at its places, each as its decoder reads it. It fails exactly
  if a place is not there or a value cannot be read, with the first such fault.
* So is a record of distinct names, on a row with as many names as values, with the
  value in the first column of each name.
* Each value is moved out of a row that still has it, whatever was moved out before.
* What is moved out, whether it could be read or not, leaves null in its own place and
  changes no other. -/
theorem reads_in_place (r : Row) :
    (∀ decoders : List (Decoder α), Hydrates (decoders.mapIdx fun i d => r.lookAt d i) (tuple decoders r) ∧
        ∀ p ∈ (passed takePlace (places decoders) r).zip (places decoders), p.1.values[p.2.1]? = r.values[p.2.1]?) ∧
      (∀ fields : List (String × Decoder α), (fields.map (·.1)).Nodup → r.Named →
        Hydrates (fields.map fun f => r.look f.2 f.1) (record fields r) ∧
          ∀ p ∈ (passed takeField fields r).zip fields, p.1.first? p.2.1 = r.first? p.2.1) ∧
      (∀ (d : Decoder α) i, (r.moveOutAt d i).2 = { r with values := r.values.set i .null }) ∧
      ∀ (d : Decoder α) column, (r.moveOut d column).2 =
        match r.columns.findIdx? (· = column) with
        | some i => { r with values := r.values.set i .null }
        | none => r := by
  refine ⟨fun decoders => ⟨?_, ?_⟩, fun fields hn hr => ⟨?_, ?_⟩, fun d i => r.snd_moveOutAt d i, fun d column => ?_⟩
  · rw [tuple_eq]
    exact hydrates_inOrder _
  · exact value_passed (fun r p => r.values[p.1]?)
      ((pairwise_places decoders).imp fun h r => r.getElem?_moveOutAt _ h) r
  · rw [record_eq hn hr]
    exact hydrates_inOrder _
  · exact value_passed (fun r f => r.first? f.1)
      ((List.pairwise_map.1 hn).imp fun h r => r.first?_moveOut _ h) r
  · rw [Row.snd_moveOut, Row.placeOf_eq]
    cases r.columns.findIdx? (· = column) <;> rfl

/-- A name twice in the row, a null that was there before, and a column that is not there. -/
theorem reads_in_place_repeated_name :
    let r : Row := ⟨["id", "rank", "id"], [.ofInt 3, .null, .text "x"]⟩
    let number := Decoder.optional (Decoder.int .int64)
    r.Named ∧ record [("rank", number), ("id", number)] r = .ok [none, some 3] ∧
      tuple [number, number] r = .ok [some 3, none] ∧
      record [("id", number), ("born", number), ("gone", number)] r = .error (.mapping (.noColumn "born")) := by
  intro r number
  have hr : r.Named := rfl
  obtain ⟨htuple, hrecord, -, -⟩ := @reads_in_place (Option Int) r
  obtain ⟨hpair, -⟩ := hrecord [("rank", number), ("id", number)] (by simp) hr
  obtain ⟨hfailing, -⟩ := hrecord [("id", number), ("born", number), ("gone", number)] (by simp) hr
  refine ⟨hr, (hpair.ok_iff _).2 (by decide +kernel), ((htuple [number, number]).1.ok_iff _).2 (by decide +kernel), ?_⟩
  exact (hfailing.error_iff _).2 ⟨[some 3], .noColumn "born", [.error (.noColumn "gone")], by decide +kernel, rfl⟩

end Hydrator

end TableQuery

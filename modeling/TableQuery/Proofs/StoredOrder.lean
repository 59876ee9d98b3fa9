/-
Stored dates and moments are in the order of time (`Query.stored_order`).

SQLite has no dates, and compares the texts that stand for them by their octets.
In years of four digits that is how they stand in time; so comparisons, ranges and
sorts, which the statements leave to SQLite, hold of the texts as they do in time.
-/
import TableQuery.Proofs.Calendar.Order
import TableQuery.Proofs.Query.Conditions
import TableQuery.Proofs.Query.Order
import TableQuery.Sqlite.TextOrder

namespace TableQuery

open Sqlite

/-! ## Values in time -/

namespace Value

/-- How two dates, or two moments, stand in time. -/
def timeOrder? : Value → Value → Option Ordering
  | date d, date e => some (compare d.ordinal e.ordinal)
  | datetime m, datetime n => some (m.order n)
  | _, _ => none

/-- If a value is a date or a moment, its year has four digits. -/
def FourDigits : Value → Prop
  | date d => d.FourDigits
  | datetime m => m.date.FourDigits
  | _ => True

end Value

/-- The texts of two values stand to each other as the values do in time. -/
theorem Sqlite.Cell.textOrder?_bound {v w : Value} (hv : v.FourDigits) (hw : w.FourDigits) {o : Ordering}
    (h : v.timeOrder? w = some o) : (bound v).textOrder? (bound w) = some o := by
  unfold Value.timeOrder? at h
  split at h
  · next d e =>
    have htext := Date.compare_text hv hw [] []
    rw [List.append_nil, List.append_nil, Std.ReflOrd.compare_self, Ordering.then_eq] at htext
    exact (congrArg some htext).trans h
  · exact (congrArg some (Moment.compare_text hv hw)).trans h
  · cases h

/-- Whether a comparison or a range holds of a value in time. -/
def Test.holdsInTime? (v : Value) : Test → Option Bool
  | compare c w => (v.timeOrder? w).map c.holds
  | between low high => do
    let o ← v.timeOrder? low
    let o' ← v.timeOrder? high
    pure (o.isGE && o'.isLE)
  | _ => none

/-- How two rows of values stand in time by some sorts: as by the first in which they differ. -/
def SortKey.timeOrder? (row row' : String → Value) : List SortKey → Option Ordering
  | [] => some .eq
  | ⟨field, direction, none⟩ :: sorts => do
    let o ← (row field).timeOrder? (row' field)
    let rest ← timeOrder? row row' sorts
    pure ((match direction with | .asc => o | .desc => o.swap).then rest)
  | ⟨_, _, some _⟩ :: _ => none

/-- The cells that a row of values is stored as. -/
def storedRow (row : String → Value) (name : List Char) : Cell := .bound (row (String.ofList name))

theorem storedRow_toList (row : String → Value) (field : String) : storedRow row field.toList = .bound (row field) := by
  rw [storedRow, String.ofList_toList]

/-! ## Questions and keys -/

namespace Condition

theorem allHold?_cons {row : List Char → Cell} {c : Condition} {b : Bool} (h : c.holds? row = some b)
    (cs : List Condition) : allHold? row (c :: cs) = (allHold? row cs).map (b && ·) := by
  simp only [allHold?, List.mapM_cons, h, Option.bind_eq_bind, Option.bind_some, Option.pure_def]
  cases cs.mapM (holds? row) <;> rfl

/-- What a condition asks of a column by comparing it. -/
theorem holds?_compare {row : String → Value} {field : String} {w : Value} {o : Ordering}
    (hv : (row field).FourDigits) (hw : w.FourDigits) (h : (row field).timeOrder? w = some o) (c : Comparison) :
    holds? (storedRow row) ⟨.column field.toList, [Piece.term (.symbol c.symbol), .value w]⟩ = some (c.holds o) := by
  have hread : holds? (storedRow row) ⟨.column field.toList, [Piece.term (.symbol c.symbol), .value w]⟩ =
      ((storedRow row field.toList).textOrder? (.bound w)).bind fun o => some (c.holds o) := by
    cases c <;> rfl
  rw [hread, storedRow_toList, Cell.textOrder?_bound hv hw h]
  rfl

end Condition

namespace Test

theorem questions_compare {v w : Value} {o : Ordering} (h : v.timeOrder? w = some o) (c : Comparison) :
    (compare c w).questions = [[.symbol c.symbol, .param w]] := by
  cases w with
  | null => cases v <;> cases h
  | bool | integer | real | text | blob | date | datetime => cases c <;> rfl

/-- **A test that compares asks of the stored text** what it asks of the value in time. -/
theorem allHold?_questions {t : Test} {row : String → Value} {field : String} {b : Bool}
    (hv : (row field).FourDigits) (hw : ∀ w ∈ t.operands, w.FourDigits) (h : t.holdsInTime? (row field) = some b) :
    Condition.allHold? (storedRow row) (t.questions.map fun f => ⟨.column field.toList, f.map Piece.term⟩) =
      some b := by
  cases t with
  | compare c w =>
    obtain ⟨o, ho, rfl⟩ := Option.map_eq_some_iff.1 h
    have hasked := Condition.holds?_compare hv (hw w List.mem_cons_self) ho c
    rw [questions_compare ho c]
    refine (Condition.allHold?_cons hasked []).trans ?_
    simp [Condition.allHold?]
  | between low high =>
    obtain ⟨o, ho, h⟩ := Option.bind_eq_some_iff.1 h
    obtain ⟨o', ho', h⟩ := Option.bind_eq_some_iff.1 h
    cases h
    have hlow := Condition.holds?_compare hv (hw low (by simp [operands])) ho .gte
    have hhigh := Condition.holds?_compare hv (hw high (by simp [operands])) ho' .lte
    refine (Condition.allHold?_cons hlow _).trans ?_
    refine (congrArg (Option.map _) (Condition.allHold?_cons hhigh [])).trans ?_
    simp [Condition.allHold?, Comparison.holds]
  | among | notAmong | pattern => cases h

end Test

/-- **Sorts ask of the stored texts** to stand as the values do in time. -/
theorem RowOrder.compareRows?_asRead {row row' : String → Value} {sorts : List SortKey} {o : Ordering}
    (hrow : ∀ s ∈ sorts, (row s.field).FourDigits ∧ (row' s.field).FourDigits)
    (h : SortKey.timeOrder? row row' sorts = some o) :
    compareRows? (storedRow row) (storedRow row') (sorts.map SortKey.asRead) = some o := by
  induction sorts generalizing o with
  | nil => exact h
  | cons s sorts ih =>
    obtain ⟨field, direction, ranks⟩ := s
    cases ranks with
    | some vs => cases h
    | none =>
      obtain ⟨first, hfirst, h⟩ := Option.bind_eq_some_iff.1 h
      obtain ⟨rest, hrest, h⟩ := Option.bind_eq_some_iff.1 h
      cases h
      have horder := Cell.textOrder?_bound (hrow _ List.mem_cons_self).1 (hrow _ List.mem_cons_self).2 hfirst
      have ih := ih (fun s hs => hrow s (List.mem_cons_of_mem _ hs)) hrest
      simp only [List.map_cons, SortKey.asRead, compareRows?, storedRow_toList, horder, ih, Option.bind_eq_bind,
        Option.bind_some]
      cases direction <;> rfl

namespace Query

/-- The conditions that stand for one of a query's, to a reader. -/
def conditionsOf (q : Query) (p : Predicate) : List Condition :=
  p.test.questions.map fun f => ⟨q.operand p, f.map Piece.term⟩

theorem readConditions_eq (q : Query) : q.readConditions = q.draft.predicates.flatMap q.conditionsOf := by
  rw [readConditions, asked, List.map_flatMap]
  congr 1
  funext p
  rw [List.map_map]
  rfl

/-- What is compared is the column itself. -/
theorem operand_of_holdsInTime? (q : Query) {p : Predicate} (hpart : p.part = none) {v : Value} {b : Bool}
    (h : p.test.holdsInTime? v = some b) : q.operand p = .column p.field.toList := by
  have hpattern : p.operator.takesPattern = false := by
    obtain ⟨field, test, part⟩ := p
    cases test with
    | compare | between => rfl
    | among | notAmong | pattern => cases h
  unfold operand castsToText
  simp [hpart, hpattern]

/-- **Stored dates and moments are in the order of time**, in years of four digits:

* the octets that SQLite is given for two dates compare as the days do, and those
  for two moments, of any fraction and in leap seconds too, as the moments do;
* the conditions that a reader finds in a statement without a raw override are
  those of its query, one after the other, and where one compares a field with
  dates or moments, or asks for a range of them, what stands for it holds of the
  stored texts exactly if it holds of the values in time;
* the keys that a selection is ordered by put two rows of stored texts as the
  query's sorts put the rows' dates or moments in time. -/
theorem stored_order :
    (∀ d e : Date, d.FourDigits → e.FourDigits →
      (Cell.bound (.date d)).textOrder? (Cell.bound (.date e)) = some (compare d.ordinal e.ordinal)) ∧
    (∀ m n : Moment, m.date.FourDigits → n.date.FourDigits →
      (Cell.bound (.datetime m)).textOrder? (Cell.bound (.datetime n)) = some (m.order n)) ∧
    ∀ q : Query, q.draft.raw = none →
      (∀ k : StatementKind, k ≠ .insertion → (k.writes → q.draft.assignments ≠ []) →
        ∃ statement, q.statementOf k = .ok statement ∧
          statement.conditions? = some (q.draft.predicates.flatMap q.conditionsOf)) ∧
      (∀ p ∈ q.draft.predicates, p.part = none → ∀ (row : String → Value) (b : Bool), (row p.field).FourDigits →
        (∀ w ∈ p.operands, w.FourDigits) → p.test.holdsInTime? (row p.field) = some b →
          Condition.allHold? (storedRow row) (q.conditionsOf p) = some b) ∧
      ∀ (e : Extent), ∃ keys, (q.selectStatement e).order? = some keys ∧
        ∀ (row row' : String → Value) (o : Ordering),
          (∀ s ∈ q.draft.sorts, (row s.field).FourDigits ∧ (row' s.field).FourDigits) →
          SortKey.timeOrder? row row' q.draft.sorts = some o →
            RowOrder.compareRows? (storedRow row) (storedRow row') keys = some o := by
  refine ⟨fun d e hd he => Cell.textOrder?_bound (v := .date d) (w := .date e) hd he rfl,
    fun m n hm hn => Cell.textOrder?_bound (v := .datetime m) (w := .datetime n) hm hn rfl, fun q hraw => ?_⟩
  refine ⟨fun k hk hw => ?_, fun p _ hpart row b hrow hoperands h => ?_, fun e => ?_⟩
  · exact ⟨_, statementOf_eq_ok hraw hw, q.readConditions_eq ▸ q.conditions?_fragment hk⟩
  · rw [conditionsOf, q.operand_of_holdsInTime? hpart h]
    exact Test.allHold?_questions hrow hoperands h
  · exact ⟨_, selectStatement_eq_fragment hraw e ▸ q.order?_fragment e, fun _ _ _ => RowOrder.compareRows?_asRead⟩

/-- A range from a leap second to the midnight after it, and two moments in the leap second that start
with the same text. -/
theorem stored_order_leap :
    let moment (nano : Nat) (h : nano < 2000000000) : Moment :=
      ⟨⟨2016, 12, 31, by decide, by decide, by decide, by decide⟩,
        ⟨23, 59, 59, nano, by decide, by decide, by decide, .inr ⟨rfl, h⟩⟩⟩
    let low := moment 1500000000 (by decide)
    let high := Moment.atMidnight ⟨2017, 1, 1, by decide, by decide, by decide, by decide⟩
    let s : Schema := ⟨"t", [⟨"at", .datetime, false⟩]⟩
    let q : Query := { ofSchema s .sqlite with
      draft.predicates := [⟨"at", .between (.datetime low) (.datetime high), none⟩]
      draft.sorts := [⟨"at", .desc, none⟩] }
    let row : String → Value := fun _ => .datetime (moment 1500001000 (by decide))
    q.statement = ⟨"SELECT \"at\" FROM \"t\" WHERE \"at\" >= ? AND \"at\" <= ? ORDER BY \"at\" DESC",
        [.datetime low, .datetime high]⟩ ∧
      low.text = "2016-12-31 23:59:60.500".toList ∧ low.date.FourDigits ∧ high.date.FourDigits ∧
      (Cell.bound (.datetime low)).textOrder? (.bound (.datetime high)) = some .lt ∧ q.draft.raw = none ∧
      (∃ conditions, q.statement.conditions? = some conditions ∧
        Condition.allHold? (storedRow row) conditions = some true) ∧
      ∃ keys, q.statement.order? = some keys ∧
        RowOrder.compareRows? (storedRow row) (storedRow fun _ => .datetime low) keys = some .lt := by
  intro moment low high s q row
  have hlow : low.date.FourDigits := by decide
  have hhigh : high.date.FourDigits := by decide
  obtain ⟨-, hmoments, hqueries⟩ := stored_order
  obtain ⟨hread, hconditions, hkeys⟩ := hqueries q rfl
  obtain ⟨statement, hstatement, hasked⟩ := hread (.selection .own) nofun nofun
  obtain ⟨keys, horder, hrows⟩ := hkeys .own
  obtain rfl : q.statement = statement := Except.ok.inj hstatement
  refine ⟨by decide +kernel, by decide +kernel, hlow, hhigh, ?_, rfl, ⟨_, hasked, ?_⟩, keys, horder, ?_⟩
  · exact (hmoments low high hlow hhigh).trans (by decide +kernel)
  · have hoperands : ∀ w ∈ [Value.datetime low, .datetime high], w.FourDigits := by
      intro w hw
      rcases List.mem_cons.1 hw with rfl | hw
      · exact hlow
      · exact List.mem_singleton.1 hw ▸ hhigh
    exact hconditions _ List.mem_cons_self rfl row true hlow hoperands (by decide +kernel)
  · refine hrows row _ .lt (fun s hs => ?_) (by decide +kernel)
    obtain rfl := List.mem_singleton.1 hs
    exact ⟨hlow, hlow⟩

end Query

end TableQuery

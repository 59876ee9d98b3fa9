/-
The spaces around signs of comparison (`Query.comparison_spacing`).

A sign stands in what an update sets and in the conditions, and a value follows
it, with a space between. Before a sign stands a name or a part of a date. A
name is a word, which has a space after it; a part of a date ends in a
parenthesis, and after that a space is put before words only. So the text has
one space on each side of every sign just as long as no part of a date is
compared.
-/
import TableQuery.Proofs.Query.Checks
import TableQuery.Proofs.SameRows
import TableQuery.Proofs.Sql.Spacing

namespace TableQuery

open Fragment

theorem Piece.spans_signless {symbols : List Symbol} (h : ∀ s ∈ symbols, s.isComparison = false) :
    Spans (fun p => !p.isComparison) symbols where
  symbol s hs := by simp [isComparison, h s hs]
  raw _ _ := rfl
  ident _ := rfl
  number _ := rfl
  param _ := rfl

/-- After a parenthesis, a space is put before words only. -/
theorem Piece.spaced_rparen {s : Symbol} (h : s.isComparison) : (symbol .rparen).spaced (.symbol s) = false := by
  cases s <;> first | rfl | cases h

theorem Piece.spaced_ident {s : Symbol} (h : s.isComparison) (name : String) : (ident name).spaced (.symbol s) := by
  cases s <;> first | rfl | cases h

/-! ## Tests -/

namespace Test

/-- The signs of comparison that a test is written with. -/
def signs : Test → List Symbol
  | compare .eq .null | compare .ne .null => []
  | compare c _ => [c.symbol]
  | between _ _ => [.ge, .le]
  | among _ _ | notAmong _ _ | pattern _ _ => []

theorem isComparison_symbol (c : Comparison) : c.symbol.isComparison := by cases c <;> rfl

theorem isComparison_of_mem_signs {t : Test} {s : Symbol} (h : s ∈ t.signs) : s.isComparison := by
  unfold signs at h
  split at h
  case h_3 c v _ _ =>
    cases List.mem_singleton.1 h
    exact isComparison_symbol c
  case h_4 =>
    have every : ∀ s ∈ ([.ge, .le] : List Symbol), s.isComparison := by decide
    exact every s h
  all_goals cases h

theorem signs_of_takesPattern {t : Test} (h : t.operator.takesPattern) : t.signs = [] := by
  cases t with
  | pattern p v => rfl
  | _ => cases h

theorem signless_enclosed (vs : List Value) : Signless (enclosed (placeholderList vs)) :=
  all_valueList rfl rfl rfl (fun _ => rfl) vs

/-- The signs of a test's fragment: before each are the spaces that its left side leaves. -/
theorem writes_fragment {left : Fragment} {p : Piece} (h : Signless (left ++ [p])) (t : Test) :
    (t.fragment (left ++ [p])).Writes (t.signs.map fun s => ⟨s, if p.spaced (.symbol s) then 1 else 0, 1⟩) := by
  have hsignless : ∀ {f : Fragment}, Signless f → (left ++ [p] ++ f).Writes [] := fun hf => (h.append hf).writes
  unfold fragment
  split
  case h_1 | h_2 => exact hsignless rfl
  case h_3 c v heq hne =>
    have hsigns : (compare c v).signs = [c.symbol] := by
      rw [signs]
      · exact heq
      · exact hne
    rw [hsigns]
    exact h.writes_compared (isComparison_symbol c) v
  case h_4 | h_5 => exact hsignless (signless_enclosed _)
  case h_6 low high =>
    have hand : Signless (symbol .AND) := rfl
    have hlow := h.writes_compared (s := .ge) rfl low
    have hhigh := h.writes_compared (s := .le) rfl high
    simpa [signs] using hlow.append (hand.writes.append hhigh)
  case h_7 => exact hsignless rfl

end Test

/-! ## Queries -/

namespace Query

/-- The signs that the conditions are written with: a space stands before all but those that a part of
a date is compared with. -/
def conditionSigns (q : Query) : List SpacedSign :=
  q.draft.predicates.flatMap fun p => p.test.signs.map fun s => ⟨s, if p.part = none then 1 else 0, 1⟩

theorem signless_leftSide (q : Query) (p : Predicate) : Signless (q.leftSide p) :=
  q.all_leftSide (Piece.spans_signless (by decide)) p

/-- What stands on the left of a condition, and the piece that it ends in: the name, or a parenthesis. -/
theorem exists_leftSide (q : Query) (p : Predicate) : ∃ left last, q.leftSide p = left ++ [last] ∧
    ∀ s ∈ p.test.signs, last.spaced (.symbol s) = decide (p.part = none) := by
  unfold leftSide
  cases hpart : p.part with
  | some part =>
    exact ⟨.symbol .CAST :: .symbol .lparen :: _, .symbol .rparen, rfl,
      fun s hs => Piece.spaced_rparen (Test.isComparison_of_mem_signs hs)⟩
  | none =>
    dsimp only
    by_cases hcast : q.castsToText p
    · -- A column is cast to text for a pattern only, and that is no comparison.
      rw [if_pos hcast]
      refine ⟨[.symbol .CAST, .symbol .lparen, .ident p.field, .symbol .AS, .symbol .TEXT], .symbol .rparen, rfl, ?_⟩
      have hpattern : p.operator.takesPattern := (Bool.and_eq_true_iff.1 (Bool.and_eq_true_iff.1 hcast).1).2
      rw [Test.signs_of_takesPattern hpattern]
      nofun
    · rw [if_neg hcast]
      exact ⟨[], .ident p.field, rfl, fun s hs => Piece.spaced_ident (Test.isComparison_of_mem_signs hs) p.field⟩

theorem writes_condition (q : Query) (p : Predicate) : (p.test.fragment (q.leftSide p)).Writes
    (p.test.signs.map fun s => ⟨s, if p.part = none then 1 else 0, 1⟩) := by
  obtain ⟨left, last, hleft, hspaced⟩ := q.exists_leftSide p
  have hsignless := q.signless_leftSide p
  rw [hleft] at hsignless ⊢
  have hsigns : (p.test.signs.map fun s => (⟨s, if last.spaced (.symbol s) then 1 else 0, 1⟩ : SpacedSign)) =
      p.test.signs.map fun s => ⟨s, if p.part = none then 1 else 0, 1⟩ :=
    List.map_congr_left fun s hs => by simp [hspaced s hs]
  exact hsigns ▸ p.test.writes_fragment hsignless

theorem writes_conditions (q : Query) : q.conditions.Writes q.conditionSigns := by
  by_cases hp : q.draft.predicates = []
  · rw [conditions_nil hp, conditionSigns, hp]
    exact Signless.writes rfl
  · have hwhere : Signless (symbol .WHERE) := rfl
    rw [conditions_cons hp]
    exact hwhere.writes.append (.separated rfl fun p _ => q.writes_condition p)

/-! ## Statements -/

/-- The signs that a statement is written with, in order. -/
def signs (q : Query) : StatementKind → List SpacedSign
  | .insertion => []
  | .update => q.draft.assignments.map (fun _ => ⟨.eq, 1, 1⟩) ++ q.conditionSigns
  | .selection _ | .count | .deletion => q.conditionSigns

theorem writes_assignments (pairs : List (String × Value)) :
    (assignments pairs).Writes (pairs.map fun _ => ⟨.eq, 1, 1⟩) := by
  rw [List.map_eq_flatMap]
  refine .separated rfl fun pair _ => ?_
  have hname : Signless ([] ++ [.ident pair.1]) := rfl
  exact hname.writes_compared (s := .eq) rfl pair.2

/-- What stands before the conditions has no signs but those of what is set. -/
theorem exists_writes_before (q : Query) {k : StatementKind} (hk : k ≠ .insertion) :
    ∃ set, (q.beforeConditions k).Writes set ∧ set ++ q.conditionSigns = q.signs k := by
  have hfrom : Signless (symbol .FROM ++ q.table) := rfl
  cases k with
  | selection e =>
    have hcolumns : Signless q.columns := all_columns rfl rfl (fun _ => rfl) q
    have hselect : Signless (symbol .SELECT) := rfl
    exact ⟨[], (hselect.append (hcolumns.append hfrom)).writes, rfl⟩
  | count => exact ⟨[], Signless.writes rfl, rfl⟩
  | deletion => exact ⟨[], Signless.writes rfl, rfl⟩
  | update =>
    have hhead : Signless (symbol .UPDATE ++ q.table ++ symbol .SET) := rfl
    refine ⟨_, ?_, rfl⟩
    simpa [beforeConditions] using hhead.writes.append (writes_assignments q.draft.assignments)
  | insertion => exact absurd rfl hk

theorem signless_after (q : Query) (k : StatementKind) : Signless (q.afterConditions k) := by
  cases k with
  | selection e =>
    have horder : Signless q.order := all_order (Piece.spans_signless (by decide)) q
    have hrange : Signless (q.range e) := all_range rfl rfl (fun _ => rfl) q e
    exact horder.append hrange
  | count | deletion | update | insertion => rfl

/-- **The signs that the text of a statement has** are those of its query. -/
theorem comparisons?_fragment (q : Query) (k : StatementKind) :
    ((q.fragment k).statement q.dialect).comparisons? = some (q.signs k) := by
  rw [comparisons?_statement q.dialect (q.isPlain_fragment k)]
  by_cases hk : k = .insertion
  · subst hk
    have hfragment : Signless (q.fragment .insertion) :=
      all_fragment (Piece.spans_signless (by decide)) (fun _ _ => rfl) q
    exact congrArg some hfragment.writes.comparisons
  · obtain ⟨set, hset, hsigns⟩ := q.exists_writes_before hk
    have hwrites := hset.append (q.writes_conditions.append (q.signless_after k).writes)
    rw [q.fragment_parts hk, hwrites.comparisons, List.append_nil, hsigns]

theorem forall_conditionSigns (q : Query) : (∀ c ∈ q.conditionSigns, c.before = 1 ∧ c.after = 1) ↔
    ∀ p ∈ q.draft.predicates, p.test.signs ≠ [] → p.part = none := by
  constructor
  · intro h p hp hne
    obtain ⟨s, hs⟩ := List.exists_mem_of_ne_nil _ hne
    have hbefore := (h _ (List.mem_flatMap.2 ⟨p, hp, List.mem_map.2 ⟨s, hs, rfl⟩⟩)).1
    by_cases hpart : p.part = none
    · exact hpart
    · rw [if_neg hpart] at hbefore
      cases hbefore
  · intro h c hc
    obtain ⟨p, hp, hc⟩ := List.mem_flatMap.1 hc
    obtain ⟨s, hs, rfl⟩ := List.mem_map.1 hc
    exact ⟨if_pos (h p hp (List.ne_nil_of_mem hs)), rfl⟩

/-- **A space on each side of every sign, unless a part of a date is compared.**
Without a raw override, and unless there is nothing to write, every statement is
written, whatever its kind, window and dialect, and the signs of comparison
outside quotes in its text are, in order:

* in an update, one `=` for each assignment, between two single spaces;
* in all but an insertion, the signs of the conditions, each with a single space
  after it; and a single space before it, if the condition is on a column, but
  none if it is on a part of a date.

So all signs stand between single spaces exactly if the statement is an
insertion or no condition compares a part of a date. -/
theorem comparison_spacing {q : Query} (hraw : q.draft.raw = none) {k : StatementKind}
    (hw : k.writes → q.draft.assignments ≠ []) :
    ∃ statement, q.statementOf k = .ok statement ∧ statement.comparisons? = some (q.signs k) ∧
      ((∀ c ∈ q.signs k, c.before = 1 ∧ c.after = 1) ↔
        k = .insertion ∨ ∀ p ∈ q.draft.predicates, p.test.signs ≠ [] → p.part = none) := by
  refine ⟨_, statementOf_eq_ok hraw hw, q.comparisons?_fragment k, ?_⟩
  have hconditions := q.forall_conditionSigns
  cases k with
  | insertion => exact ⟨fun _ => .inl rfl, fun _ => nofun⟩
  | update =>
    have hset : ∀ c ∈ q.draft.assignments.map fun _ => (⟨.eq, 1, 1⟩ : SpacedSign), c.before = 1 ∧ c.after = 1 :=
      List.forall_mem_map.2 fun _ _ => ⟨rfl, rfl⟩
    rw [signs, List.forall_mem_append, hconditions, and_iff_right hset]
    simp
  | selection e | count | deletion => simpa [signs] using hconditions

/-- An update under a condition on a week and one on a column: the sign after the week stands right
behind the parenthesis. -/
theorem comparison_spacing_week :
    let s : Schema := ⟨"foo", [⟨"_id", .integer, true⟩, ⟨"bar", .text, false⟩, ⟨"created", .datetime, false⟩]⟩
    let edits : List Edit := [.filterDate "is" "created" ["week=52"], .filter "pk" (.compare .lt) [.ofInt 9],
      .assign "bar" (.text "x")]
    let q : Query := { ofSchema s .sqlite with
      draft.predicates := [⟨"created", .compare .eq (.ofInt 52), some .week⟩, ⟨"_id", .compare .lt (.ofInt 9), none⟩]
      draft.assignments := [("bar", .text "x")] }
    (ofSchema s .sqlite).applyAll edits = .ok q ∧
      q.statementOf .update = .ok ⟨"UPDATE \"foo\" SET \"bar\" = ? WHERE " ++
        "CAST(strftime('%V', \"created\") AS INTEGER)= ? AND \"_id\" < ?", [.text "x", .ofInt 52, .ofInt 9]⟩ ∧
      ∃ statement, q.statementOf .update = .ok statement ∧
        statement.comparisons? = some [⟨.eq, 1, 1⟩, ⟨.eq, 0, 1⟩, ⟨.lt, 1, 1⟩] ∧
        ¬ ∀ c ∈ q.signs .update, c.before = 1 ∧ c.after = 1 := by
  intro s edits q
  obtain ⟨statement, hstatement, hsigns, hiff⟩ := comparison_spacing (q := q) rfl (k := .update) (fun _ => by decide)
  refine ⟨by decide +kernel, by decide +kernel, statement, hstatement, hsigns, fun hall => ?_⟩
  have hparts := (hiff.1 hall).resolve_left (by decide)
  exact absurd (hparts ⟨"created", .compare .eq (.ofInt 52), some .week⟩ (by decide) (by decide)) (by decide)

end Query

end TableQuery

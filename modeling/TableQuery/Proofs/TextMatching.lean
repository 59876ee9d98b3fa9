/-
What PostgreSQL is asked to match with a pattern (`Query.like_operands`).

`LIKE` takes text there and nothing else. A column that is not text is cast to
text when a pattern is asked of it; a part of a date is cast to an integer
whatever is asked of it, and stays one. So a pattern is asked of text only as
long as none is asked of a part of a date, which the calls do not refuse.
-/
import TableQuery.Proofs.Query.Conditions
import TableQuery.Proofs.Query.Emission
import TableQuery.Proofs.WellFormed

namespace TableQuery

/-- What can be matched with a pattern: the column of a text field, or anything that is cast to text. -/
def Operand.IsText (s : Schema) : Operand → Prop
  | column name => ∃ f ∈ s.fields, f.name.toList = name ∧ f.type = .text
  | cast _ type => type = Symbol.TEXT.text.toList
  | _ => False

/-- What PostgreSQL is to match with a pattern: a part of a field as an integer, a text field as it
is, and any other as text. -/
def Field.matched (f : Field) : Option DatePart → Operand
  | some part => .cast (.extract part.extractUnit.toList (.column f.name.toList)) Symbol.INTEGER.text.toList
  | none => if f.type = .text then .column f.name.toList else .cast (.column f.name.toList) Symbol.TEXT.text.toList

/-- What is matched is text, unless it is a part of a date. -/
theorem Field.isText_matched_iff {s : Schema} {f : Field} (hf : f ∈ s.fields) (part : Option DatePart) :
    (f.matched part).IsText s ↔ part = none := by
  cases part with
  | some part => simp [matched, Operand.IsText, Symbol.text, Symbol.name]
  | none =>
    unfold matched
    by_cases ht : f.type = .text
    · rw [if_pos ht]
      exact ⟨fun _ => rfl, fun _ => ⟨f, hf, rfl, ht⟩⟩
    · rw [if_neg ht]
      exact ⟨fun _ => rfl, fun _ => rfl⟩

/-! ## The questions asked with `LIKE` -/

theorem Fragment.like_not_mem_enclosed (vs : List Value) :
    Term.word .LIKE ∉ (enclosed (placeholderList vs)).map Piece.term := by
  have hproper := List.all_eq_true.1 (all_valueList (P := Piece.isProper) rfl rfl rfl (fun _ => rfl) vs)
  exact word_not_mem_map_term hproper rfl (not_mem_of_all_ne (all_valueList rfl rfl rfl (fun _ => rfl) vs))

/-- A test that matches a pattern asks with `LIKE`, and no other test does. -/
theorem Test.filter_asksLike (t : Test) (e : Operand) :
    (t.questions.map fun f => (⟨e, f.map Piece.term⟩ : Condition)).filter Condition.asksLike =
      match t with
      | .pattern p v => [⟨e, [.word .LIKE, .value (p.wrap v)]⟩]
      | _ => [] := by
  cases t with
  | compare c v => cases c <;> cases v <;> rfl
  | among v more =>
    have hlist := Fragment.like_not_mem_enclosed (v :: more)
    refine List.filter_eq_nil_iff.2 fun c hc => ?_
    cases List.mem_singleton.1 hc
    rw [Condition.asksLike, decide_eq_true_eq]
    exact List.not_mem_cons_of_ne_of_not_mem (by decide) hlist
  | notAmong v more =>
    have hlist := Fragment.like_not_mem_enclosed (v :: more)
    refine List.filter_eq_nil_iff.2 fun c hc => ?_
    cases List.mem_singleton.1 hc
    rw [Condition.asksLike, decide_eq_true_eq]
    exact List.not_mem_cons_of_ne_of_not_mem (by decide) (List.not_mem_cons_of_ne_of_not_mem (by decide) hlist)
  | between low high => rfl
  | pattern p v => rfl

theorem Predicate.takesPattern_iff (p : Predicate) : p.operator.takesPattern ↔ ∃ v, p.pattern = some v := by
  obtain ⟨field, test, part⟩ := p
  cases test <;> simp [operator, Test.operator, Operator.takesPattern, pattern]

namespace Query

variable {s : Schema} {d : Dialect} {q : Query}

/-- The conditions that ask with `LIKE` are those that match a pattern, each with its pattern. -/
theorem filter_asksLike (q : Query) : q.readConditions.filter Condition.asksLike =
    q.draft.predicates.filterMap fun p => p.pattern.map fun v => ⟨q.operand p, [.word .LIKE, .value v]⟩ := by
  rw [readConditions, asked, List.map_flatMap, List.filter_flatMap, List.filterMap_eq_flatMap_toList]
  congr 1
  funext p
  rw [List.map_map]
  refine (p.test.filter_asksLike (q.operand p)).trans ?_
  unfold Predicate.pattern
  cases p.test <;> rfl

/-! ## What is asked for a pattern -/

/-- Calls leave only conditions that make sense on the schema. -/
theorem Reachable.predicate_fits (hs : s.names.Nodup) (h : Reachable s d q) : ∀ p ∈ q.draft.predicates, p.Fits s := by
  have hq : q.schema = s ∧ q.draft.WellFormed s :=
    h.invariant (fun q => q.schema = s ∧ q.draft.WellFormed s) ⟨rfl, Draft.wellFormed_empty s⟩ fun hq hc => by
      obtain ⟨rfl, hq⟩ := hq
      exact ⟨hc.fixed.1, hc.wellFormed hs hq⟩
  exact hq.2.predicates

theorem operand_of_takesPattern (hd : q.dialect = .postgresql) {p : Predicate} (hp : p.field ∈ q.schema.names)
    (hpattern : p.operator.takesPattern) :
    ∃ f ∈ q.schema.fields, f.name = p.field ∧ q.operand p = f.matched p.part := by
  obtain ⟨f, hf, hname⟩ := Schema.require_of_mem_names hp
  have htype : q.schema.typeOf? p.field = some f.type := by
    rw [Schema.typeOf?, Schema.require_eq_ok.1 hf]
    rfl
  refine ⟨f, Schema.mem_of_require hf, hname, ?_⟩
  unfold operand Field.matched
  rw [hd, hname]
  cases p.part with
  | some part => rfl
  | none =>
    dsimp only
    by_cases ht : f.type = .text
    · simp [castsToText, htype, ht]
    · simp [castsToText, htype, ht, hd, hpattern]

/-- **PostgreSQL matches patterns with text, but for parts of dates.** After any
builder calls on a schema whose fields have different names, none of which
failed, and without a raw override, the conditions of a selection, count,
deletion or update can be read off its text, and:

* those that ask with `LIKE` are, in order, those that match a pattern, each
  asked of its field: of the bare column, if the field is text, and else of the
  column cast to text; but of a part of a date, cast to an integer;
* all that is matched with a pattern is text exactly if none of these conditions
  looks at a part of a date. -/
theorem like_operands (hs : s.names.Nodup) {edits : List Edit}
    (h : (ofSchema s .postgresql).applyAll edits = .ok q) (hraw : q.draft.raw = none) {k : StatementKind}
    (hk : k ≠ .insertion) (hw : k.writes → q.draft.assignments ≠ []) :
    ∃ statement conditions, q.statementOf k = .ok statement ∧ statement.conditions? = some conditions ∧
      conditions.filter Condition.asksLike =
        q.draft.predicates.filterMap (fun p => p.pattern.map fun v => ⟨q.operand p, [.word .LIKE, .value v]⟩) ∧
      (∀ p ∈ q.draft.predicates, p.operator.takesPattern →
        ∃ f ∈ s.fields, f.name = p.field ∧ q.operand p = f.matched p.part) ∧
      ((∀ c ∈ conditions, c.asksLike → c.operand.IsText s) ↔
        ∀ p ∈ q.draft.predicates, p.operator.takesPattern → p.part = none) := by
  have hreach : Reachable s .postgresql q := ⟨edits, h⟩
  obtain ⟨rfl, hd⟩ := hreach.fixed
  have hmatched : ∀ p ∈ q.draft.predicates, p.operator.takesPattern →
      ∃ f ∈ q.schema.fields, f.name = p.field ∧ q.operand p = f.matched p.part := fun p hp =>
    operand_of_takesPattern hd (hreach.predicate_fits hs p hp).declared
  refine ⟨_, q.readConditions, statementOf_eq_ok hraw hw, q.conditions?_fragment hk, q.filter_asksLike, hmatched, ?_⟩
  have htext : ∀ p ∈ q.draft.predicates, p.operator.takesPattern → ((q.operand p).IsText q.schema ↔ p.part = none) := by
    intro p hp hpattern
    obtain ⟨f, hf, -, he⟩ := hmatched p hp hpattern
    rw [he]
    exact f.isText_matched_iff hf p.part
  constructor
  · intro hall p hp hpattern
    obtain ⟨v, hv⟩ := p.takesPattern_iff.1 hpattern
    have hmem : ⟨q.operand p, [.word .LIKE, .value v]⟩ ∈ q.readConditions.filter Condition.asksLike := by
      rw [q.filter_asksLike]
      exact List.mem_filterMap.2 ⟨p, hp, by rw [hv]; rfl⟩
    exact (htext p hp hpattern).1 (hall _ (List.mem_filter.1 hmem).1 (List.mem_filter.1 hmem).2)
  · intro hnone c hc hlike
    have hmem := List.mem_filter.2 ⟨hc, hlike⟩
    rw [q.filter_asksLike] at hmem
    obtain ⟨p, hp, he⟩ := List.mem_filterMap.1 hmem
    obtain ⟨v, hv, rfl⟩ := Option.map_eq_some_iff.1 he
    have hpattern : p.operator.takesPattern := p.takesPattern_iff.2 ⟨v, hv⟩
    exact (htext p hp hpattern).2 (hnone p hp hpattern)

/-- A text column, a column of another type, and a day. -/
theorem like_operands_day :
    let s : Schema := ⟨"t", [⟨"_id", .integer, true⟩, ⟨"name", .text, false⟩, ⟨"born", .date, false⟩]⟩
    let edits : List Edit :=
      [.filter "name" (.pattern .contains) [.text "x"], .filter "pk" (.pattern .startsWith) [.ofInt 1],
        .callWith "endswith_born" ["day = 7"]]
    let q : Query := { ofSchema s .postgresql with
      draft.predicates := [⟨"name", .pattern .contains (.text "x"), none⟩,
        ⟨"_id", .pattern .startsWith (.ofInt 1), none⟩, ⟨"born", .pattern .endsWith (.ofInt 7), some .day⟩] }
    s.names.Nodup ∧ (ofSchema s .postgresql).applyAll edits = .ok q ∧ q.draft.raw = none ∧
      q.statementOf .deletion = .ok ⟨"DELETE FROM \"t\" WHERE \"name\" LIKE $1 AND " ++
        "CAST(\"_id\" AS TEXT) LIKE $2 AND CAST(EXTRACT(DAY FROM \"born\") AS INTEGER) LIKE $3", [.text "%x%", .text "1%", .text "%7"]⟩ ∧
      ∃ conditions, q.deleteStatement.conditions? = some conditions ∧
        ¬ ∀ c ∈ conditions, c.asksLike → c.operand.IsText s := by
  intro s edits q
  have hs : s.names.Nodup := by decide
  have hq : (ofSchema s .postgresql).applyAll edits = .ok q := by decide +kernel
  obtain ⟨statement, conditions, hstatement, hread, -, -, hiff⟩ := like_operands hs hq rfl (k := .deletion) nofun nofun
  have hstatement : q.deleteStatement = statement := Except.ok.inj hstatement
  rw [← hstatement] at hread
  refine ⟨hs, hq, rfl, by decide +kernel, conditions, hread, fun hall => ?_⟩
  exact absurd (hiff.1 hall ⟨"born", .pattern .endsWith (.ofInt 7), some .day⟩ (by decide) rfl) nofun

end Query

end TableQuery

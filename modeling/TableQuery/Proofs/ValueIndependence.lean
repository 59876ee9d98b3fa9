/-
Values never reach the text: two queries that differ in nothing but values
have the same text in every statement (`same_text_of_similar`).

Of a value, two things count besides: how many there are in a list, and
whether one that is compared by (in)equality is null. What is similar in this
sense has fragments of one outline, clause by clause, and the text depends on
the outline alone.
-/
import Mathlib.Data.List.Forall2
import TableQuery.Proofs.Sql.Outline
import TableQuery.Query.Kind

namespace TableQuery

/-! ## Similar queries -/

/-- Two tests with one operator, as many operands, and for (in)equality the
same answer to whether the operand is null. -/
structure Test.Similar (t u : Test) : Prop where
  operator : t.operator = u.operator
  count : t.operands.length = u.operands.length
  nulls : t.operator = .compare .eq ∨ t.operator = .compare .ne →
    t.operands.map Value.isNull = u.operands.map Value.isNull

structure Predicate.Similar (p r : Predicate) : Prop where
  field : p.field = r.field
  part : p.part = r.part
  test : p.test.Similar r.test

/-- Two sorts of one field and direction, with as many ranks. -/
structure SortKey.Similar (s t : SortKey) : Prop where
  field : s.field = t.field
  direction : s.direction = t.direction
  ranks : s.ranks.map List.length = t.ranks.map List.length

/-- Two queries over one schema that differ in values alone: those of
conditions, of ranks and of assignments. -/
structure Query.Similar (q r : Query) : Prop where
  schema : q.schema = r.schema
  dialect : q.dialect = r.dialect
  predicates : List.Forall₂ Predicate.Similar q.draft.predicates r.draft.predicates
  sorts : List.Forall₂ SortKey.Similar q.draft.sorts r.draft.sorts
  bounds : q.draft.bounds = r.draft.bounds
  projection : q.draft.projection = r.draft.projection
  assigned : q.draft.assignments.map (·.1) = r.draft.assignments.map (·.1)

/-! ## Outlines of fragments -/

namespace Fragment

@[simp] theorem outline_enclosed (f : Fragment) : outline (enclosed f) = enclosed (outline f) := by
  simp [enclosed]

@[simp] theorem outline_separated (sep : Symbol) (fs : List Fragment) :
    outline (separated sep fs) = separated sep (fs.map outline) := by
  cases fs with
  | nil => rfl
  | cons f fs =>
    have hrest : outline (fs.flatMap (.symbol sep :: ·)) = (fs.map outline).flatMap (.symbol sep :: ·) := by
      rw [outline, List.map_flatMap, List.flatMap_map]
      rfl
    rw [separated_cons, outline_append, hrest, List.map_cons, separated_cons]

/-- Of a list of placeholders, the length shows. -/
theorem outline_placeholderList {vs ws : List Value} (h : vs.length = ws.length) :
    outline (placeholderList vs) = outline (placeholderList ws) := by
  have blank : ∀ vs : List Value, outline (placeholderList vs) =
      separated .comma (List.replicate vs.length [.param .null]) := fun vs => by
    rw [placeholderList, outline_separated, List.map_map, ← List.map_const']
    rfl
  rw [blank, blank, h]

/-- Of assignments, the columns show. -/
theorem outline_assignments {as bs : List (String × Value)} (h : as.map (·.1) = bs.map (·.1)) :
    outline (assignments as) = outline (assignments bs) := by
  have blank : ∀ as : List (String × Value), outline (assignments as) =
      separated .comma ((as.map (·.1)).map fun name => [.ident name, .symbol .eq, .param .null]) := fun as => by
    rw [assignments, outline_separated, List.map_map, List.map_map]
    rfl
  rw [blank, blank, h]

end Fragment

/-! ## Clauses -/

open Fragment

/-- A comparison other than with null is written with its sign. -/
theorem Test.fragment_compare (left : Fragment) {c : Comparison} {v : Value}
    (h : c = .eq ∨ c = .ne → v.isNull = false) :
    (compare c v).fragment left = left ++ [.symbol c.symbol, .param v] := by
  rw [Test.fragment]
  · rintro rfl rfl
    cases h (.inl rfl)
  · rintro rfl rfl
    cases h (.inr rfl)

theorem Value.eq_null_of_isNull {v : Value} (h : v.isNull) : v = .null := by
  cases v with
  | null => rfl
  | _ => cases h

theorem Test.Similar.outline_compare {c : Comparison} {v w : Value}
    (h : (compare c v).Similar (compare c w)) (left : Fragment) :
    outline ((compare c v).fragment left) = outline ((compare c w).fragment left) := by
  have hsame : c = .eq ∨ c = .ne → v.isNull = w.isNull := fun hc => by
    simpa [operands] using h.nulls (hc.imp (congrArg _) (congrArg _))
  by_cases hn : (c = .eq ∨ c = .ne) ∧ v.isNull
  · have hw : w.isNull := hsame hn.1 ▸ hn.2
    rw [Value.eq_null_of_isNull hn.2, Value.eq_null_of_isNull hw]
  · have hv : c = .eq ∨ c = .ne → v.isNull = false := fun hc => Bool.eq_false_iff.2 fun h => hn ⟨hc, h⟩
    rw [fragment_compare left hv, fragment_compare left fun hc => hsame hc ▸ hv hc]
    simp

theorem Test.Similar.outline_fragment {t u : Test} (h : t.Similar u) (left : Fragment) :
    outline (t.fragment left) = outline (u.fragment left) := by
  have hop := h.operator
  have hcount := h.count
  cases t <;> cases u
  case compare.compare =>
    cases hop
    exact h.outline_compare left
  case among.among v vs w ws =>
    have hlist : outline (placeholderList (v :: vs)) = outline (placeholderList (w :: ws)) :=
      outline_placeholderList hcount
    simp [fragment, hlist]
  case notAmong.notAmong v vs w ws =>
    have hlist : outline (placeholderList (v :: vs)) = outline (placeholderList (w :: ws)) :=
      outline_placeholderList hcount
    simp [fragment, hlist]
  case between.between => simp [fragment]
  case pattern.pattern =>
    cases hop
    simp [fragment]
  -- The operators differ.
  all_goals cases hop

theorem SortKey.outline_branches {vs ws : List Value} (h : vs.length = ws.length) (rank : Nat) :
    outline (branches rank vs) = outline (branches rank ws) := by
  induction vs generalizing ws rank with
  | nil => rw [List.length_eq_zero_iff.1 h.symm]
  | cons v vs ih =>
    cases ws with
    | nil => cases h
    | cons w ws =>
      simp [branches, ih (Nat.succ.inj h) (rank + 1)]

theorem SortKey.Similar.outline_key {s t : SortKey} (h : s.Similar t) : outline s.key = outline t.key := by
  have hranks := h.ranks
  cases hs : s.ranks with
  | none =>
    cases ht : t.ranks with
    | none => simp [key, hs, ht, h.field]
    | some ws => rw [hs, ht] at hranks; cases hranks
  | some vs =>
    cases ht : t.ranks with
    | none => rw [hs, ht] at hranks; cases hranks
    | some ws =>
      rw [hs, ht] at hranks
      have hlen : vs.length = ws.length := Option.some.inj hranks
      simp [key, hs, ht, SortKey.outline_branches hlen, h.field, hlen]

/-- What agrees on related items gives the same list. -/
theorem map_eq_of_forall₂ {α β γ : Type} {R : α → β → Prop} {f : α → γ} {g : β → γ} {as : List α}
    {bs : List β} (h : List.Forall₂ R as bs) (hfg : ∀ a b, R a b → f a = g b) : as.map f = bs.map g := by
  rw [← List.forall₂_eq_eq_eq, List.forall₂_map_left_iff, List.forall₂_map_right_iff]
  exact h.imp hfg

namespace Query.Similar

variable {q r : Query}

theorem leftSide (h : q.Similar r) {p t : Predicate} (hp : p.Similar t) : q.leftSide p = r.leftSide t := by
  unfold Query.leftSide castsToText Predicate.operator
  rw [h.dialect, h.schema, hp.field, hp.part, hp.test.operator]

theorem outline_conditions (h : q.Similar r) : outline q.conditions = outline r.conditions := by
  have hpredicates := h.predicates
  have hmap := map_eq_of_forall₂ hpredicates fun p t (hp : p.Similar t) =>
    (hp.test.outline_fragment (q.leftSide p)).trans (by rw [h.leftSide hp])
  unfold conditions
  generalize q.draft.predicates = ps at hpredicates hmap
  generalize r.draft.predicates = ts at hpredicates hmap
  cases hpredicates with
  | nil => rfl
  | cons hp hps =>
    simpa [Function.comp_def] using congrArg (separated .AND) hmap

theorem outline_order (h : q.Similar r) : outline q.order = outline r.order := by
  have hsorts := h.sorts
  have hmap := map_eq_of_forall₂ (f := fun s : SortKey => outline (s.key ++ [.symbol s.direction.symbol]))
    (g := fun s : SortKey => outline (s.key ++ [.symbol s.direction.symbol])) hsorts fun s t hs => by
      simp [SortKey.Similar.outline_key hs, hs.direction]
  unfold order
  generalize q.draft.sorts = ss at hsorts hmap
  generalize r.draft.sorts = ts at hsorts hmap
  cases hsorts with
  | nil => rfl
  | cons hs hss =>
    simpa [Function.comp_def] using congrArg (separated .comma) hmap

theorem outline_fragment (h : q.Similar r) (k : StatementKind) :
    outline (q.fragment k) = outline (r.fragment k) := by
  have htable : q.table = r.table := by rw [table, table, h.schema]
  have hconditions := h.outline_conditions
  cases k with
  | selection e =>
    have hcolumns : q.columns = r.columns := by rw [columns, columns, h.projection, h.schema]
    have hrange : q.range e = r.range e := by
      rw [range, range, limitFor.eq_def, limitFor.eq_def, h.bounds, h.dialect]
    simp [fragment, selectFragment, htable, hcolumns, hrange, hconditions, h.outline_order]
  | count => simp [fragment, countFragment, htable, hconditions]
  | deletion => simp [fragment, deleteFragment, htable, hconditions]
  | update => simp [fragment, updateFragment, htable, hconditions, outline_assignments h.assigned]
  | insertion =>
    have hvalues : outline (placeholderList (q.draft.assignments.map (·.2))) =
        outline (placeholderList (r.draft.assignments.map (·.2))) :=
      outline_placeholderList (by simpa using congrArg List.length h.assigned)
    have hreturning : q.returning = r.returning := by rw [returning, returning, h.schema]
    simp [fragment, insertFragment, htable, h.assigned, hvalues, hreturning]

end Query.Similar

/-- **Values never reach the text.** Two queries without a raw override that
differ in values alone have statements of one text, of every kind; or neither
has one, for want of assignments. -/
theorem Query.same_text_of_similar {q r : Query} (hq : q.draft.raw = none) (hr : r.draft.raw = none)
    (h : q.Similar r) (k : StatementKind) :
    (q.statementOf k).map Statement.sql = (r.statementOf k).map Statement.sql := by
  have hnone : q.draft.assignments = [] ↔ r.draft.assignments = [] := by
    rw [← List.map_eq_nil_iff, h.assigned, List.map_eq_nil_iff]
  have htext : (q.fragment k).text q.dialect = (r.fragment k).text r.dialect := by
    rw [Fragment.text, ← textFrom_outline, h.outline_fragment k, textFrom_outline, h.dialect, Fragment.text]
  rw [statementOf_eq hq, statementOf_eq hr]
  simp only [hnone]
  split
  · rfl
  · show Except.ok (String.ofList _) = Except.ok (String.ofList _)
    rw [htext]

/-- Quotes, a placeholder and a whole statement inside values: they change the
parameters and leave the text as it is. -/
theorem Query.same_text_of_similar_hostile :
    let s : Schema := ⟨"t", [⟨"id", .integer, true⟩, ⟨"name", .text, false⟩]⟩
    let made (name pattern : Value) (ranks : List Value) : Query := { ofSchema s .sqlite with
      draft.predicates := [⟨"name", .compare .ne name, none⟩, ⟨"name", .pattern .contains pattern, none⟩]
      draft.sorts := [⟨"id", .desc, some ranks⟩] }
    let q := made (.text "x") .null [.ofInt 1, .null]
    let r := made (.text "\"; DROP TABLE t; --") (.text "' OR ?") [.text "", .ofInt 2]
    q.draft.raw = none ∧ r.draft.raw = none ∧ q.Similar r ∧
      (q.selectStatement .own).sql = (r.selectStatement .own).sql ∧
      (q.selectStatement .own).params ≠ (r.selectStatement .own).params := by
  intro s made q r
  have hsimilar : q.Similar r :=
    { schema := rfl
      dialect := rfl
      predicates := .cons ⟨rfl, rfl, rfl, rfl, fun _ => rfl⟩
        (.cons ⟨rfl, rfl, rfl, rfl, fun h => absurd h (by decide)⟩ .nil)
      sorts := .cons ⟨rfl, rfl, rfl⟩ .nil
      bounds := rfl
      projection := rfl
      assigned := rfl }
  have htext := same_text_of_similar (q := q) (r := r) rfl rfl hsimilar (.selection .own)
  exact ⟨rfl, rfl, hsimilar, Except.ok.inj htext, by decide⟩

end TableQuery

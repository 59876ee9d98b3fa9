/-
The parts of a statement: what stands before the conditions, the conditions,
and what stands after them (`fragment_parts`).

The part before ends in a name or value and the conditions start with a word,
so what the conditions write does not depend on what they follow, but for the
numbers of their placeholders (`text_fragment`): one clause is written into
selections, counts, deletions and updates.
-/
import TableQuery.Proofs.Query.Parameters
import TableQuery.Proofs.Query.Pieces
import TableQuery.Proofs.Sql.Joining
import TableQuery.Proofs.Sql.Scope

namespace TableQuery

/-! ## Conditions -/

theorem Test.closed_fragment (left : Fragment) (t : Test) : (t.fragment left).Closed := by
  have hparam : ∀ f v, Fragment.Closed (f ++ [.param v]) := fun f v => .concat (by nofun) f
  unfold Test.fragment
  split
  case h_1 => exact (Fragment.Closed.concat (by nofun) [.symbol .IS]).append left
  case h_2 => exact (Fragment.Closed.concat (by nofun) [.symbol .IS, .symbol .NOT]).append left
  case h_3 => exact (hparam [.symbol _] _).append left
  case h_4 => exact ((Fragment.Closed.enclosed _).append [.symbol .IN]).append left
  case h_5 => exact ((Fragment.Closed.enclosed _).append [.symbol .NOT, .symbol .IN]).append left
  case h_6 => exact (hparam [.symbol .le] _).append _
  case h_7 => exact (hparam [.symbol .LIKE] _).append left

/-- What stands on the left goes before the test, and the test ends in a word, a value or a closed list. -/
theorem Test.worded_fragment {left : Fragment} (hl : left.Worded) (t : Test) : (t.fragment left).Worded where
  plain := List.all_eq_true.1 (t.all_fragment Piece.spans_isPlain (List.all_eq_true.2 hl.plain))
  starts := by
    obtain ⟨p, hp, hword⟩ := hl.starts
    refine ⟨p, ?_, hword⟩
    unfold Test.fragment
    split <;> simp [List.head?_append, hp]
  closed := t.closed_fragment left

namespace Query

open Fragment

theorem worded_leftSide (q : Query) (p : Predicate) : (q.leftSide p).Worded where
  plain := List.all_eq_true.1 (all_leftSide Piece.spans_isPlain q p)
  starts := by
    unfold leftSide
    split
    · exact ⟨_, rfl, rfl⟩
    · split <;> exact ⟨_, rfl, rfl⟩
  closed := by
    unfold leftSide
    split
    · exact (Closed.enclosed _).append [.symbol .CAST]
    · split
      · exact (Closed.enclosed _).append [.symbol .CAST]
      · exact (Worded.ident p.field).closed

theorem conditions_nil {q : Query} (h : q.draft.predicates = []) : q.conditions = [] := by
  unfold conditions
  rw [h]

theorem conditions_cons {q : Query} (h : q.draft.predicates ≠ []) :
    q.conditions = .symbol .WHERE ::
      separated .AND (q.draft.predicates.map fun p => p.test.fragment (q.leftSide p)) := by
  unfold conditions
  split
  · next hnil => exact absurd hnil h
  · rfl

/-- The conditions that are asked for after `WHERE`. -/
theorem worded_asked {q : Query} (h : q.draft.predicates ≠ []) :
    (separated .AND (q.draft.predicates.map fun p => p.test.fragment (q.leftSide p))).Worded :=
  .separated rfl (by simpa using h) fun f hf => by
    obtain ⟨p, -, rfl⟩ := List.mem_map.1 hf
    exact p.test.worded_fragment (q.worded_leftSide p)

theorem closed_conditions (q : Query) : q.conditions = [] ∨ q.conditions.Closed := by
  by_cases h : q.draft.predicates = []
  · exact .inl (conditions_nil h)
  · rw [conditions_cons h]
    exact .inr ((worded_asked h).closed.append [.symbol .WHERE])

/-- No other part of a draft has a say in the conditions. -/
theorem conditions_congr {q r : Query} (hs : q.schema = r.schema) (hd : q.dialect = r.dialect)
    (hp : q.draft.predicates = r.draft.predicates) : q.conditions = r.conditions := by
  unfold conditions leftSide castsToText
  rw [hs, hd, hp]

/-! ## The three parts -/

/-- What stands before the conditions. -/
def beforeConditions (q : Query) : StatementKind → Fragment
  | .selection _ => symbol .SELECT ++ (q.columns ++ (symbol .FROM ++ q.table))
  | .count => countHead ++ q.table
  | .deletion => symbol .DELETE ++ (symbol .FROM ++ q.table)
  | .update => symbol .UPDATE ++ (q.table ++ (symbol .SET ++ assignments q.draft.assignments))
  | .insertion => []

/-- What stands after the conditions. -/
def afterConditions (q : Query) : StatementKind → Fragment
  | .selection e => q.order ++ q.range e
  | .count | .deletion | .update | .insertion => []

theorem fragment_parts (q : Query) {k : StatementKind} (hk : k ≠ .insertion) :
    q.fragment k = q.beforeConditions k ++ (q.conditions ++ q.afterConditions k) := by
  cases k with
  | selection e => simp [fragment, selectFragment, beforeConditions, afterConditions]
  | count => simp [fragment, countFragment, beforeConditions, afterConditions]
  | deletion => simp [fragment, deleteFragment, beforeConditions, afterConditions]
  | update => simp [fragment, updateFragment, beforeConditions, afterConditions]
  | insertion => exact absurd rfl hk

/-! ## Their texts -/

theorem isPlain_fragment (q : Query) (k : StatementKind) : ∀ p ∈ q.fragment k, p.isPlain :=
  fun p hp => Piece.isPlain_of_isProper (q.isProper_fragment k p hp)

theorem worded_columns (q : Query) : q.columns.Worded := by
  unfold columns
  split
  · exact .word rfl
  split
  · split
    · exact .word rfl
    · next h => exact .nameList h
  · next h => exact .nameList h

theorem worded_table (q : Query) : q.table.Worded := .ident q.schema.table

theorem worded_countHead : Worded countHead where
  plain := by decide
  starts := ⟨_, rfl, rfl⟩
  closed := ⟨.symbol .FROM, rfl, by decide⟩

theorem worded_before {q : Query} {k : StatementKind} (hk : k ≠ .insertion)
    (hw : k.writes → q.draft.assignments ≠ []) : (q.beforeConditions k).Worded := by
  have hfrom : (symbol .FROM ++ q.table).Worded := (Worded.word rfl).append q.worded_table
  cases k with
  | selection e => exact (Worded.word rfl).append (q.worded_columns.append hfrom)
  | count => exact worded_countHead.append q.worded_table
  | deletion => exact (Worded.word rfl).append hfrom
  | update => exact (Worded.word rfl).append (q.worded_table.append ((Worded.word rfl).append (.assignments (hw rfl))))
  | insertion => exact absurd rfl hk

/-- The text of a selection up to its table. -/
theorem text_before_selection (q : Query) (d : Dialect) (e : Extent) :
    (q.beforeConditions (.selection e)).text d =
      "SELECT ".toList ++ q.columns.text d ++ " FROM ".toList ++ quotedIdent q.schema.table.toList := by
  have hfrom : (symbol .FROM ++ q.table).Worded := (Worded.word rfl).append q.worded_table
  rw [Fragment.text, beforeConditions, (Worded.word rfl).textFrom_append (q.worded_columns.append hfrom),
    q.worded_columns.textFrom_append hfrom, (Worded.word rfl).textFrom_append q.worded_table, List.append_assoc,
    List.append_assoc]
  rfl

theorem text_before_update {q : Query} (d : Dialect) (h : q.draft.assignments ≠ []) :
    (q.beforeConditions .update).text d =
      "UPDATE ".toList ++ quotedIdent q.schema.table.toList ++ " SET ".toList ++
        (assignments q.draft.assignments).text d := by
  have hset : (symbol .SET ++ assignments q.draft.assignments).Worded :=
    (Worded.word rfl).append (.assignments h)
  rw [Fragment.text, beforeConditions, (Worded.word rfl).textFrom_append (q.worded_table.append hset),
    q.worded_table.textFrom_append hset, (Worded.word rfl).textFrom_append (.assignments h), List.append_assoc,
    List.append_assoc]
  rfl

theorem isTail_range (q : Query) (e : Extent) : (q.range e).isTail := by
  intro p hp
  unfold range at hp
  split at hp
  case h_1 | h_2 => exact .inr (.inl (Option.some.inj hp).symm)
  case h_3 =>
    split at hp
    · exact .inr (.inl (Option.some.inj hp).symm)
    · exact .inr (.inr (Option.some.inj hp).symm)
  case h_4 => cases hp

theorem isTail_after (q : Query) (k : StatementKind) : (q.afterConditions k).isTail := by
  cases k with
  | selection e =>
    intro p hp
    by_cases hs : q.draft.sorts = []
    · have horder : q.order = [] := by unfold order; rw [hs]
      rw [afterConditions, horder] at hp
      exact q.isTail_range e p hp
    · have horder : q.order.head? = some (.symbol .ORDER) := by
        unfold order
        split
        · next hnil => exact absurd hnil hs
        · rfl
      rw [afterConditions, List.head?_append, horder] at hp
      exact .inl (Option.some.inj hp).symm
  | count | deletion | update | insertion =>
    intro p hp
    cases hp

theorem readsAsWord_of_isTail {f : Fragment} (h : f.isTail) : ∀ p ∈ f.head?, p.readsAsWord := by
  intro p hp
  rcases h p hp with rfl | rfl | rfl <;> rfl

theorem readsAsWord_conditions (q : Query) {tail : Fragment} (h : tail.isTail) :
    ∀ p ∈ (q.conditions ++ tail).head?, p.readsAsWord := by
  by_cases hp : q.draft.predicates = []
  · rw [conditions_nil hp]
    exact readsAsWord_of_isTail h
  · rw [conditions_cons hp]
    intro p hp
    cases Option.some.inj hp
    rfl

/-- The text of a statement: that of its beginning, that of the conditions, and that of the rest. -/
theorem text_fragment {q : Query} {k : StatementKind} (hk : k ≠ .insertion)
    (hw : k.writes → q.draft.assignments ≠ []) :
    let count := (q.beforeConditions k).params.length
    (q.fragment k).text q.dialect =
      (q.beforeConditions k).text q.dialect ++ q.dialect.fill count (q.conditions.template q.dialect) ++
        (q.afterConditions k).textAfter q.dialect (count + q.boundByConditions.length) := by
  intro count
  have hplain := q.isPlain_fragment k
  rw [q.fragment_parts hk] at hplain ⊢
  rw [Fragment.text, textFrom_append q.dialect hplain (worded_before hk hw).closed
      (q.readsAsWord_conditions (q.isTail_after k)), Nat.zero_add,
    textAfter_append q.dialect (fun p hp => hplain p (List.mem_append_right _ hp)) q.closed_conditions
      (readsAsWord_of_isTail (q.isTail_after k)), textAfter_eq_fill q.dialect count q.conditions,
    params_conditions, ← List.append_assoc]
  rfl

/-- The clause of conditions, if there are any, starts with the word. -/
theorem template_conditions {q : Query} (h : q.draft.predicates ≠ []) :
    ∃ first rest, q.conditions.template q.dialect = (" WHERE ".toList ++ first) :: rest := by
  rw [conditions_cons h, template, if_neg (List.cons_ne_nil _ _), (worded_asked h).segments_word (by decide),
    prepend_prepend]
  cases segments q.dialect _ with
  | nil => exact ⟨[], [], by simp [prepend]; rfl⟩
  | cons first rest => exact ⟨first, rest, rfl⟩

theorem statement_fragment {q : Query} {k : StatementKind} (hk : k ≠ .insertion)
    (hw : k.writes → q.draft.assignments ≠ []) {count : Nat} (hc : (q.beforeConditions k).params.length = count) :
    (q.fragment k).statement q.dialect =
      ⟨String.ofList ((q.beforeConditions k).text q.dialect ++
        q.dialect.fill count (q.conditions.template q.dialect) ++
          (q.afterConditions k).textAfter q.dialect (count + q.boundByConditions.length)), q.bound k⟩ := by
  subst hc
  rw [Fragment.statement, text_fragment hk hw, params_fragment]

/-! ## Statements -/

section

variable (q : Query)

theorem selectStatement_eq (hraw : q.draft.raw = none) (e : Extent) : q.selectStatement e =
    ⟨String.ofList ("SELECT ".toList ++ q.columns.text q.dialect ++ " FROM ".toList ++
        quotedIdent q.schema.table.toList ++ q.dialect.fill 0 (q.conditions.template q.dialect) ++
          (q.order ++ q.range e).textAfter q.dialect q.boundByConditions.length),
      q.boundByConditions ++ q.boundByOrder⟩ := by
  have hcount : (q.beforeConditions (.selection e)).params.length = 0 := by simp [beforeConditions]
  rw [selectStatement_eq_fragment hraw e,
    statement_fragment (k := .selection e) (fun h => by cases h) (fun h => by cases h) hcount, text_before_selection,
    Nat.zero_add]
  rfl

theorem countStatement_eq (hraw : q.draft.raw = none) : q.countStatement =
    ⟨String.ofList ("SELECT count(*) AS ct FROM ".toList ++ quotedIdent q.schema.table.toList ++
      q.dialect.fill 0 (q.conditions.template q.dialect)), q.boundByConditions⟩ := by
  have hcount : q.countStatement = (q.fragment .count).statement q.dialect := by
    rw [countStatement, hraw]
    rfl
  rw [hcount, statement_fragment (k := .count) (by decide) (fun h => by cases h) rfl, afterConditions,
    textAfter_nil, List.append_nil]
  rfl

theorem deleteStatement_eq : q.deleteStatement =
    ⟨String.ofList ("DELETE FROM ".toList ++ quotedIdent q.schema.table.toList ++
      q.dialect.fill 0 (q.conditions.template q.dialect)), q.boundByConditions⟩ := by
  have hdelete : q.deleteStatement = (q.fragment .deletion).statement q.dialect := rfl
  rw [hdelete, statement_fragment (k := .deletion) (by decide) (fun h => by cases h) rfl, afterConditions,
    textAfter_nil, List.append_nil]
  rfl

theorem updateStatement_eq (hne : q.draft.assignments ≠ []) : q.updateStatement =
    .ok ⟨String.ofList ("UPDATE ".toList ++ quotedIdent q.schema.table.toList ++ " SET ".toList ++
        (assignments q.draft.assignments).text q.dialect ++
          q.dialect.fill q.draft.assignments.length (q.conditions.template q.dialect)),
      q.draft.assignments.map (·.2) ++ q.boundByConditions⟩ := by
  have hupdate : q.updateStatement = .ok ((q.fragment .update).statement q.dialect) := if_neg hne
  have hcount : (q.beforeConditions .update).params.length = q.draft.assignments.length := by
    simp [beforeConditions]
  rw [hupdate, statement_fragment (k := .update) (by decide) (fun _ => hne) hcount, text_before_update _ hne,
    afterConditions, textAfter_nil, List.append_nil]
  rfl

end

end Query

end TableQuery

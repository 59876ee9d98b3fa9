/-
Reading and writing the same rows (`Query.same_rows`).

Selections, counts, deletions and updates write one clause for the conditions
of a query, wherever it stands in them; and who reads any of these statements
finds the same table and the same condition. None of the words that a scope is
read by can be mistaken: columns and values are not words, and no other part
says `WHERE`.
-/
import TableQuery.Proofs.Query.Parts
import TableQuery.Row

namespace TableQuery

namespace Query

open Fragment

/-! ## As it is read -/

/-- None of the words that a scope is read by is among the columns. -/
theorem not_mem_columns (q : Query) {s : Symbol} (hstar : s ≠ .star) (hcomma : s ≠ .comma) :
    .symbol s ∉ q.columns :=
  not_mem_of_all_ne (all_columns (by simpa using hstar.symm) (by simpa using hcomma.symm) (fun _ => rfl) q)

theorem where_not_mem_before (q : Query) (k : StatementKind) : .symbol .WHERE ∉ q.beforeConditions k := by
  have htable : .symbol .WHERE ∉ q.table := by simp [table]
  cases k with
  | selection e => simp [beforeConditions, q.not_mem_columns, htable]
  | count => simp [beforeConditions, countHead, Fragment.call, Fragment.enclosed, htable]
  | deletion => simp [beforeConditions, htable]
  | update =>
    have hset : .symbol .WHERE ∉ assignments q.draft.assignments :=
      not_mem_of_all_ne (all_assignments rfl rfl (fun _ => rfl) (fun _ => rfl) _)
    simp [beforeConditions, htable, hset]
  | insertion => exact List.not_mem_nil

theorem where_not_mem_after (q : Query) (k : StatementKind) : .symbol .WHERE ∉ q.afterConditions k := by
  cases k with
  | selection e =>
    have horder : .symbol .WHERE ∉ q.order := not_mem_of_all_ne (all_order (Piece.spans_ne (by decide)) q)
    have hrange : .symbol .WHERE ∉ q.range e := not_mem_of_all_ne (all_range rfl rfl (fun _ => rfl) q e)
    simp [afterConditions, horder, hrange]
  | count | deletion | update | insertion => exact List.not_mem_nil

/-- The scope of a query: its table, and what its conditions ask for. -/
def scope (q : Query) : Scope := ⟨q.schema.table.toList, (q.conditions.drop 1).map Piece.term⟩

theorem conditionOf_fragment (q : Query) {k : StatementKind} (hk : k ≠ .insertion) :
    Scope.conditionOf ((q.fragment k).map Piece.term) = q.scope.condition := by
  have hproper := q.isProper_fragment k
  rw [q.fragment_parts hk, ← List.append_assoc] at hproper ⊢
  have hends : ∀ s, s ∉ conditionSymbols → .symbol s ∉ q.conditions := fun s hs =>
    not_mem_of_all_ne (all_conditions (Piece.spans_ne hs) q)
  refine conditionOf_parts hproper (q.where_not_mem_before k) (q.where_not_mem_after k) (q.isTail_after k) ?_
  by_cases hp : q.draft.predicates = []
  · exact .inl (conditions_nil hp)
  · have hinner : ∀ s, s ∉ conditionSymbols → .symbol s ∉
        separated .AND (q.draft.predicates.map fun p => p.test.fragment (q.leftSide p)) := fun s hs hmem =>
      hends s hs (by rw [conditions_cons hp]; exact List.mem_cons_of_mem _ hmem)
    exact .inr ⟨_, conditions_cons hp, hinner _ (by decide), hinner _ (by decide), hinner _ (by decide)⟩

theorem table?_fragment (q : Query) {k : StatementKind} (hk : k ≠ .insertion) :
    Scope.table? ((q.fragment k).map Piece.term) = some q.schema.table.toList := by
  cases k with
  | selection e =>
    -- No table is named among the columns.
    have hhead : q.fragment (.selection e) =
        (symbol .SELECT ++ q.columns) ++ (symbol .FROM ++ q.table ++ q.conditions ++ q.order ++ q.range e) := by
      simp [fragment, selectFragment]
    have hproper := q.isProper_fragment (.selection e)
    rw [hhead] at hproper ⊢
    have hcolumns : ∀ s, s ≠ .star → s ≠ .comma → s ≠ .SELECT → .symbol s ∉ symbol .SELECT ++ q.columns :=
      fun s hstar hcomma hs => by simp [hs, q.not_mem_columns hstar hcomma]
    rw [List.map_append, table?_append (fun p hp => hproper p (List.mem_append_left _ hp))
      (hcolumns _ (by decide) (by decide) (by decide)) (hcolumns _ (by decide) (by decide) (by decide))]
    rfl
  | count => rfl
  | deletion => rfl
  | update => rfl
  | insertion => exact absurd rfl hk

/-- **Every statement but an insertion addresses the scope of its query.** -/
theorem scope?_fragment (q : Query) {k : StatementKind} (hk : k ≠ .insertion) :
    ((q.fragment k).statement q.dialect).scope? = some q.scope := by
  rw [Statement.scope?, terms?_statement q.dialect (q.isPlain_fragment k), Option.bind_some, Scope.ofTerms?,
    q.table?_fragment hk, q.conditionOf_fragment hk]
  rfl

/-! ## The same rows -/

theorem condition_eq_nil_iff (q : Query) : q.scope.condition = [] ↔ q.draft.predicates = [] := by
  rw [scope, List.map_eq_nil_iff]
  by_cases h : q.draft.predicates = []
  · simp [conditions_nil h, h]
  · rw [conditions_cons h]
    simp only [h, iff_false]
    exact (worded_asked h).closed.ne_nil

/-- **Reading and writing the same rows.** For a schema, a dialect and a list of
conditions there is one clause, of text and of the values bound in it, and one
scope, such that for every query with them and without a raw override:

* its selections are `SELECT`, the columns, `FROM`, the table and the clause, and
  then the order and window; its count and its deletion end in the clause right
  after the table, and its update right after what it sets;
* the placeholders of the clause are numbered from 1, and in an update after
  those of the assignments, and they stand for the clause's values;
* whoever reads one of these statements finds this scope, whatever the query
  sorts by, selects, assigns and is limited to, and all its rows are picked by a
  selection without bounds.

Without conditions the clause is empty, and so is what the scope asks for. -/
theorem same_rows (s : Schema) (d : Dialect) (ps : List Predicate) :
    ∃ (clause : List (List Char)) (bound : List Value) (scope : Scope),
      (if ps = [] then clause = [[]] else ∃ first rest, clause = (" WHERE ".toList ++ first) :: rest) ∧
      clause.length = bound.length + 1 ∧
      scope.table = s.table.toList ∧ (scope.condition = [] ↔ ps = []) ∧
      ∀ q : Query, q.schema = s → q.dialect = d → q.draft.predicates = ps → q.draft.raw = none →
        let table := quotedIdent s.table.toList
        (∀ e, q.selectStatement e =
          ⟨String.ofList ("SELECT ".toList ++ q.columns.text d ++ " FROM ".toList ++ table ++ d.fill 0 clause ++
            (q.order ++ q.range e).textAfter d bound.length), bound ++ q.boundByOrder⟩) ∧
        q.countStatement = ⟨String.ofList ("SELECT count(*) AS ct FROM ".toList ++ table ++ d.fill 0 clause), bound⟩ ∧
        q.deleteStatement = ⟨String.ofList ("DELETE FROM ".toList ++ table ++ d.fill 0 clause), bound⟩ ∧
        (q.draft.assignments ≠ [] → q.updateStatement =
          .ok ⟨String.ofList ("UPDATE ".toList ++ table ++ " SET ".toList ++
            (Fragment.assignments q.draft.assignments).text d ++ d.fill q.draft.assignments.length clause),
            q.draft.assignments.map (·.2) ++ bound⟩) ∧
        (∀ k, k ≠ .insertion → (k.writes → q.draft.assignments ≠ []) →
          ∃ statement, q.statementOf k = .ok statement ∧ statement.scope? = some scope) ∧
        (q.draft.bounds.isEmpty → ∀ rows : List Row, (RowWindow.ofStatement q.statement).pick rows = rows) := by
  let base : Query := { ofSchema s d with draft.predicates := ps }
  refine ⟨base.conditions.template d, base.boundByConditions, base.scope, ?_, ?_, rfl, base.condition_eq_nil_iff, ?_⟩
  · split
    · next h => rw [conditions_nil (q := base) h]; rfl
    · next h => exact template_conditions (q := base) h
  · simp
  rintro q rfl rfl rfl hraw table
  have hconditions : q.conditions = base.conditions := conditions_congr rfl rfl rfl
  have hbound : q.boundByConditions = base.boundByConditions := rfl
  have hscope : q.scope = base.scope := by rw [scope, scope, hconditions]; rfl
  rw [← hconditions, ← hbound, ← hscope]
  refine ⟨q.selectStatement_eq hraw, q.countStatement_eq hraw, q.deleteStatement_eq, q.updateStatement_eq,
    fun k hk hw => ⟨_, statementOf_eq_ok hraw hw, q.scope?_fragment hk⟩, fun hempty rows => ?_⟩
  obtain ⟨hlimit, hoffset⟩ := Bool.and_eq_true_iff.1 hempty
  rw [Option.isNone_iff_eq_none] at hlimit hoffset
  rw [statement, ofStatement_selectStatement hraw, limitFor, hlimit, hoffset]
  rfl

/-- A condition that holds `FROM` and ends a list, in a query that sorts, is limited and assigns: the
placeholder of the condition moves on in the update. -/
theorem same_rows_moved_on :
    let s : Schema := ⟨"foo", [⟨"_id", .integer, true⟩, ⟨"at", .datetime, false⟩]⟩
    let q : Query := { ofSchema s .postgresql with
      draft.predicates := [⟨"at", .among (.ofInt 7) [], some .day⟩]
      draft.sorts := [⟨"at", .desc, none⟩]
      draft.bounds := ⟨some 2, none⟩
      draft.assignments := [("_id", .ofInt 1)] }
    (∃ scope, scope.table = "foo".toList ∧ ∀ k, k ≠ .insertion →
      ∃ statement, q.statementOf k = .ok statement ∧ statement.scope? = some scope) ∧
    q.statement.sql = "SELECT \"_id\", \"at\" FROM \"foo\" WHERE CAST(EXTRACT(DAY FROM \"at\") AS INTEGER) IN ($1) " ++
      "ORDER BY \"at\" DESC LIMIT 2" ∧
    q.updateStatement = .ok ⟨"UPDATE \"foo\" SET \"_id\" = $1 WHERE CAST(EXTRACT(DAY FROM \"at\") AS INTEGER) IN ($2)",
      [.ofInt 1, .ofInt 7]⟩ := by
  intro s q
  obtain ⟨clause, bound, scope, -, -, htable, -, h⟩ := same_rows s .postgresql q.draft.predicates
  obtain ⟨-, -, -, -, hscope, -⟩ := h q rfl rfl rfl rfl
  have hwrites : q.draft.assignments ≠ [] := by decide
  have hupdate : q.updateStatement = .ok (q.updateFragment.statement .postgresql) := if_neg hwrites
  exact ⟨⟨scope, htable, fun k hk => hscope k hk fun _ => hwrites⟩, by decide,
    hupdate.trans (congrArg Except.ok (by decide))⟩

end Query

end TableQuery

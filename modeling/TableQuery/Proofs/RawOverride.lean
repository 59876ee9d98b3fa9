/-
Raw overrides: which statements a raw statement takes the place of, and which
are still shaped by the rest of the draft (`raw_override`).

Selections and counts of two queries with one raw statement are the same,
whatever else the queries hold. Deletions, updates and insertions do not look
at the raw statement: each tells apart all that it is written from, the
conditions of a deletion, the assignments of an insertion and both of an
update.
-/
import TableQuery.Proofs.Query.Parameters
import TableQuery.Proofs.Query.Pieces
import TableQuery.Proofs.Query.Reach

namespace TableQuery.Query

variable {q r : Query}

/-- Two statements of a kind are the same only if their fragments are. -/
theorem fragment_eq_of_statement_eq (hd : q.dialect = r.dialect) {k : StatementKind}
    (h : (q.fragment k).statement q.dialect = (r.fragment k).statement r.dialect) :
    q.fragment k = r.fragment k := by
  rw [hd] at h
  exact Fragment.eq_of_statement_eq (q.isProper_fragment k) (r.isProper_fragment k) h

/-- The columns of numbered assignments. -/
theorem map_fst_numbered (as : List (String × Value)) :
    ((as.zipIdx 1).map fun (a, n) => (a.1.toList, n)).map Prod.fst = (as.map (·.1)).map String.toList := by
  conv => rhs; rw [← List.zipIdx_map_fst 1 as]
  simp only [List.map_map]
  rfl

/-- The assignments can be read off an update or insertion: the columns as
they are written, the values as they are bound. -/
theorem assignments_eq_of_fragment_eq {k : StatementKind} (hk : k.writes) (hq : q.draft.assignments ≠ [])
    (hr : r.draft.assignments ≠ []) (h : q.fragment k = r.fragment k) :
    q.draft.assignments = r.draft.assignments := by
  have hnames : q.draft.assignments.map (·.1) = r.draft.assignments.map (·.1) := by
    have htargets := targets?_fragment hk hq
    rw [h, targets?_fragment hk hr] at htargets
    have hcolumns := congrArg (List.map Prod.fst) (Option.some.inj htargets)
    rw [map_fst_numbered, map_fst_numbered] at hcolumns
    exact (List.map_inj_right fun _ _ => String.toList_inj.1).1 hcolumns.symm
  have hlen : (q.draft.assignments.map (·.2)).length = (r.draft.assignments.map (·.2)).length := by
    simpa using congrArg List.length hnames
  have hbound : q.bound k = r.bound k := by rw [← params_fragment, h, params_fragment]
  have hvalues : q.draft.assignments.map (·.2) = r.draft.assignments.map (·.2) := by
    cases k with
    | selection | count | deletion => cases hk
    | update => exact (List.append_inj hbound hlen).1
    | insertion => exact hbound
  rw [List.zip_of_prod hnames hvalues, ← List.zip_of_prod rfl rfl]

theorem deleteStatement_eq_iff (hs : q.schema = r.schema) (hd : q.dialect = r.dialect) :
    q.deleteStatement = r.deleteStatement ↔ q.conditions = r.conditions := by
  have htable : q.table = r.table := by rw [table, table, hs]
  constructor
  · intro h
    have hparts := fragment_eq_of_statement_eq (k := .deletion) hd h
    simp only [fragment, deleteFragment, htable] at hparts
    exact List.append_cancel_left hparts
  · intro h
    rw [deleteStatement, deleteStatement, deleteFragment, deleteFragment, htable, h, hd]

/-- Two statements that write assignments are the same exactly if the
assignments are, and either there are none or the rest is written alike too. -/
theorem statementOf_eq_iff_of_writes (hd : q.dialect = r.dialect) {k : StatementKind} (hk : k.writes) :
    q.statementOf k = r.statementOf k ↔
      q.draft.assignments = r.draft.assignments ∧
        (q.draft.assignments ≠ [] → q.fragment k = r.fragment k) := by
  rw [q.statementOf_of_writes hk, r.statementOf_of_writes hk]
  by_cases hq : q.draft.assignments = []
  · by_cases hr : r.draft.assignments = []
    · simp [hq, hr]
    · simp [hq, hr, Ne.symm hr]
  · by_cases hr : r.draft.assignments = []
    · simp [hq, hr]
    · rw [if_neg hq, if_neg hr]
      constructor
      · intro h
        have hparts := fragment_eq_of_statement_eq hd (Except.ok.inj h)
        exact ⟨assignments_eq_of_fragment_eq hk hq hr hparts, fun _ => hparts⟩
      · rintro ⟨-, hparts⟩
        rw [hparts hq, hd]

theorem updateStatement_eq_iff (hs : q.schema = r.schema) (hd : q.dialect = r.dialect) :
    q.updateStatement = r.updateStatement ↔
      q.draft.assignments = r.draft.assignments ∧
        (q.draft.assignments ≠ [] → q.conditions = r.conditions) := by
  have htable : q.table = r.table := by rw [table, table, hs]
  refine (statementOf_eq_iff_of_writes (k := .update) hd rfl).trans ?_
  refine and_congr_right fun hsame => imp_congr_right fun _ => ?_
  simp only [fragment, updateFragment, htable, hsame, List.append_cancel_left_eq]

theorem insertStatement_eq_iff (hs : q.schema = r.schema) (hd : q.dialect = r.dialect) :
    q.insertStatement = r.insertStatement ↔ q.draft.assignments = r.draft.assignments := by
  have htable : q.table = r.table := by rw [table, table, hs]
  have hreturning : q.returning = r.returning := by rw [returning, returning, hs]
  refine (statementOf_eq_iff_of_writes (k := .insertion) hd rfl).trans ?_
  refine and_iff_left_of_imp fun hsame _ => ?_
  simp only [fragment, insertFragment, htable, hsame, hreturning]

/-- **A raw override** is what every selection of a query is, and what its count
is of: two queries with the same one, over one schema, have these statements
in common, whatever their other parts. The statements that change rows are
shaped by those parts in spite of it: deletions are the same exactly for the
same conditions, updates for the same assignments and, if there are any, the
same conditions, and insertions for the same assignments. -/
theorem raw_override (hs : q.schema = r.schema) (hd : q.dialect = r.dialect) {raw : RawStatement}
    (hq : q.draft.raw = some raw) (hr : r.draft.raw = some raw) :
    (∀ e, q.selectStatement e = ⟨raw.sql, raw.params⟩ ∧ r.selectStatement e = ⟨raw.sql, raw.params⟩) ∧
      q.countStatement = r.countStatement ∧
      (q.deleteStatement = r.deleteStatement ↔ q.conditions = r.conditions) ∧
      (q.updateStatement = r.updateStatement ↔
        q.draft.assignments = r.draft.assignments ∧
          (q.draft.assignments ≠ [] → q.conditions = r.conditions)) ∧
      (q.insertStatement = r.insertStatement ↔ q.draft.assignments = r.draft.assignments) := by
  refine ⟨fun e => ⟨?_, ?_⟩, ?_, deleteStatement_eq_iff hs hd, updateStatement_eq_iff hs hd,
    insertStatement_eq_iff hs hd⟩
  · rw [selectStatement, hq]
  · rw [selectStatement, hr]
  · rw [countStatement, countStatement, hq, hr, hd]

/-- One raw statement, with a condition behind it and without: the selections
are the same, the deletions are not. -/
theorem raw_override_deletion :
    let s : Schema := ⟨"foo", [⟨"_id", .integer, true⟩, ⟨"che", .text, false⟩]⟩
    let raw : RawStatement := ⟨"DELETE FROM foo WHERE _id > ?", [.ofInt 10]⟩
    let q := (ofSchema s .sqlite).raw raw.sql raw.params
    let r := { q with draft.predicates := [⟨"che", .compare .eq (.text "x"), none⟩] }
    Reachable s .sqlite q ∧ Reachable s .sqlite r ∧
      q.schema = r.schema ∧ q.dialect = r.dialect ∧ q.draft.raw = some raw ∧ r.draft.raw = some raw ∧
      q.statement = r.statement ∧ q.deleteStatement ≠ r.deleteStatement := by
  intro s raw q r
  have hq : Reachable s .sqlite q := ⟨[.raw raw.sql raw.params], rfl⟩
  have hr : Reachable s .sqlite r :=
    ⟨[.raw raw.sql raw.params, .filter "che" (.compare .eq) [.text "x"]], rfl⟩
  obtain ⟨hselect, -, hdelete, -⟩ := @raw_override q r rfl rfl raw rfl rfl
  have hstatement : q.statement = r.statement := (hselect .own).1.trans (hselect .own).2.symm
  exact ⟨hq, hr, rfl, rfl, rfl, rfl, hstatement, fun h => absurd (hdelete.1 h) (by decide)⟩

end TableQuery.Query

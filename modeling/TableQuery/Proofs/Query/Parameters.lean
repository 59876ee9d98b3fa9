/-
The parameters of a query's statements.

`Query.bound` says which values a statement of each kind binds, and in which
order; the fragments have just these parameters, whatever the dialect
(`params_fragment`). Of an update's or insertion's placeholders, those of the
assignments come first: each written column is read to get the parameter of
its own place (`targets?_fragment`).
-/
import TableQuery.Proofs.Query.Pieces
import TableQuery.Proofs.Sql.Binding

namespace TableQuery

/-- The values that a test binds: a pattern in place of its operand, nothing
for (in)equality with null, and else the operands. -/
def Test.bound : Test → List Value
  | compare .eq .null | compare .ne .null => []
  | pattern p v => [p.wrap v]
  | t => t.operands

namespace Query

/-- The values that the conditions bind, one condition after the other. -/
def boundByConditions (q : Query) : List Value := q.draft.predicates.flatMap fun p => p.test.bound

/-- The values that the order binds: those that rank rows, one sort after the other. -/
def boundByOrder (q : Query) : List Value := q.draft.sorts.flatMap fun s => s.ranks.getD []

/-- The values that a statement binds. -/
def bound (q : Query) : StatementKind → List Value
  | .selection _ => q.boundByConditions ++ q.boundByOrder
  | .count | .deletion => q.boundByConditions
  | .update => q.draft.assignments.map (·.2) ++ q.boundByConditions
  | .insertion => q.draft.assignments.map (·.2)

end Query

/-! ## Clauses -/

open Fragment

theorem Test.params_fragment {left : Fragment} (hl : params left = []) (t : Test) :
    params (t.fragment left) = t.bound := by
  unfold Test.fragment
  split
  case h_1 | h_2 => simp [hl, Test.bound]
  case h_3 c v heq hne =>
    have hc : ∀ {c' v'}, compare c v = compare c' v' → c = c' ∧ v = v' := Test.compare.inj
    rw [Test.bound]
    · simp [hl, Test.operands]
    · exact fun h => heq (hc h).1 (hc h).2
    · exact fun h => hne (hc h).1 (hc h).2
    · intro p w h
      exact Test.noConfusion h
  case h_4 | h_5 | h_6 | h_7 => simp [hl, Test.bound, Test.operands]

@[simp] theorem DatePart.params_fragment (d : Dialect) (part : DatePart) (column : Fragment) :
    params (part.fragment d column) = params column := by
  cases d <;> simp [DatePart.fragment]

@[simp] theorem SortKey.params_branches (rank : Nat) (vs : List Value) :
    params (branches rank vs) = vs := by
  induction vs generalizing rank with
  | nil => rfl
  | cons v vs ih => simp [branches, ih]

@[simp] theorem SortKey.params_key (s : SortKey) : params s.key = s.ranks.getD [] := by
  unfold SortKey.key
  split
  · next h => simp [h]
  · next order h => simp [h]

namespace Query

@[simp] theorem params_table (q : Query) : params q.table = [] := rfl

@[simp] theorem params_leftSide (q : Query) (p : Predicate) : params (q.leftSide p) = [] := by
  unfold leftSide
  split
  · simp
  · split <;> simp

@[simp] theorem params_conditions (q : Query) : params q.conditions = q.boundByConditions := by
  unfold conditions boundByConditions
  split
  · next h => simp [h]
  · have hp : ∀ p : Predicate, params (p.test.fragment (q.leftSide p)) = p.test.bound := fun p =>
      p.test.params_fragment (q.params_leftSide p)
    simp [List.flatMap_map, hp]

@[simp] theorem params_order (q : Query) : params q.order = q.boundByOrder := by
  unfold order boundByOrder
  split
  · next h => simp [h]
  · simp [List.flatMap_map]

@[simp] theorem params_columns (q : Query) : params q.columns = [] := by
  unfold columns
  split
  · simp
  split
  · split <;> simp
  · simp

@[simp] theorem params_range (q : Query) (e : Extent) : params (q.range e) = [] := by
  unfold range
  split
  case h_3 => split <;> rfl
  all_goals rfl

@[simp] theorem params_countHead : params countHead = [] := rfl

@[simp] theorem params_returning (q : Query) : params q.returning = [] := by
  unfold returning
  split <;> rfl

/-! ## Statements -/

/-- **The parameters of a statement** are the values that it is to bind. -/
theorem params_fragment (q : Query) (k : StatementKind) : params (q.fragment k) = q.bound k := by
  cases k with
  | selection e => simp [fragment, selectFragment, bound]
  | count => simp [fragment, countFragment, bound]
  | deletion => simp [fragment, deleteFragment, bound]
  | update => simp [fragment, updateFragment, bound]
  | insertion => simp [fragment, insertFragment, bound]

theorem head?_lexemesFrom_conditions (q : Query) (d : Dialect) (count : Nat) :
    (lexemesFrom d count q.conditions).head? ≠ some (.sign .comma) := by
  unfold conditions
  split
  · nofun
  · exact fun h => Lexeme.noConfusion (Option.some.inj h)

/-- Each column that an update or insertion writes gets the parameter of its
place, in the text as in the list of assignments. -/
theorem targets?_fragment {q : Query} {k : StatementKind} (hk : k.writes) (hne : q.draft.assignments ≠ []) :
    Binding.targets? (lexemesFrom .postgresql 0 (q.fragment k)) =
      some ((q.draft.assignments.zipIdx 1).map fun (a, n) => (a.1.toList, n)) := by
  cases k with
  | selection | count | deletion => cases hk
  | update =>
    have hset := Binding.settings?_assignments hne 0 (q.head?_lexemesFrom_conditions .postgresql
      (0 + (params (assignments q.draft.assignments)).length))
    rw [← lexemesFrom_append] at hset
    exact hset
  | insertion =>
    have hparts : q.fragment .insertion =
        [.symbol .INSERT, .symbol .INTO, .ident q.schema.table, .symbol .lparen] ++
          (nameList (q.draft.assignments.map (·.1)) ++ ([.symbol .rparen, .symbol .VALUES, .symbol .lparen] ++
            (placeholderList (q.draft.assignments.map (·.2)) ++ .symbol .rparen :: q.returning))) := by
      simp [fragment, insertFragment, enclosed, table]
    simp only [hparts, lexemesFrom_append, params_nameList]
    exact Binding.insertions?_lists hne _

theorem targets?_statement {q : Query} {k : StatementKind} (hk : k.writes) (hne : q.draft.assignments ≠ []) :
    ((q.fragment k).statement q.dialect).targets? =
      some ((q.draft.assignments.zipIdx 1).map fun (a, n) => (a.1.toList, n)) := by
  rw [Statement.targets?, q.lexemes?_fragment k, Option.bind_some, lexemes, numbered_lexemesFrom]
  exact targets?_fragment hk hne

end Query

end TableQuery

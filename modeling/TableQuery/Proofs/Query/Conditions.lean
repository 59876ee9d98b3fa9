/-
The conditions of a query, as they are read off its statements
(`conditions?_fragment`).

A test asks one question of what stands to the left of it, and a range asks
two, so the clause is a list of questions with `AND` between each two. No
question has that word in it, and neither has what it is asked of.
-/
import TableQuery.Proofs.SameRows
import TableQuery.Sql.Condition

namespace TableQuery

namespace Fragment

theorem separated_append {sep : Symbol} {fs gs : List Fragment} (hf : fs ≠ []) (hg : gs ≠ []) :
    separated sep (fs ++ gs) = separated sep fs ++ .symbol sep :: separated sep gs := by
  obtain ⟨f, fs, rfl⟩ := List.exists_cons_of_ne_nil hf
  obtain ⟨g, gs, rfl⟩ := List.exists_cons_of_ne_nil hg
  rw [List.cons_append, separated_cons, separated_cons, separated_cons, List.flatMap_append, List.flatMap_cons,
    List.append_assoc, List.cons_append]

/-- Lists of fragments that a symbol separates, with the symbol between them, are one such list. -/
theorem separated_flatten (sep : Symbol) {fss : List (List Fragment)} (h : ∀ fs ∈ fss, fs ≠ []) :
    separated sep (fss.map (separated sep)) = separated sep fss.flatten := by
  induction fss with
  | nil => rfl
  | cons fs fss ih =>
    have hfs := h fs List.mem_cons_self
    have ih := ih fun gs hgs => h gs (List.mem_cons_of_mem fs hgs)
    cases fss with
    | nil => simp [separated]
    | cons gs fss =>
      have hrest : (gs :: fss).flatten ≠ [] := by simp [h gs (by simp)]
      rw [List.flatten_cons, separated_append hfs hrest, ← ih]
      rfl

end Fragment

/-! ## Questions -/

namespace Test

/-- What a test asks: one question, or one about each end of a range. -/
def questions : Test → List Fragment
  | compare .eq .null => [[.symbol .IS, .symbol .NULL]]
  | compare .ne .null => [[.symbol .IS, .symbol .NOT, .symbol .NULL]]
  | compare c v => [[.symbol c.symbol, .param v]]
  | among v more => [.symbol .IN :: Fragment.enclosed (.placeholderList (v :: more))]
  | notAmong v more => [.symbol .NOT :: .symbol .IN :: Fragment.enclosed (.placeholderList (v :: more))]
  | between low high => [[.symbol .ge, .param low], [.symbol .le, .param high]]
  | pattern p v => [[.symbol .LIKE, .param (p.wrap v)]]

theorem questions_ne_nil (t : Test) : t.questions ≠ [] := by
  unfold questions
  split <;> exact List.cons_ne_nil _ _

/-- A test asks its questions of what stands to the left of it. -/
theorem fragment_eq_separated (left : Fragment) (t : Test) :
    t.fragment left = .separated .AND (t.questions.map (left ++ ·)) := by
  unfold fragment questions
  split <;> simp [Fragment.separated]

theorem all_questions {P : Piece → Bool}
    (h : Piece.Spans P [.IN, .NOT, .LIKE, .IS, .NULL, .lparen, .rparen, .comma, .eq, .ne, .lt, .le, .gt, .ge])
    (t : Test) : ∀ f ∈ t.questions, f.all P := by
  have hc : ∀ c : Comparison, P (.symbol c.symbol) := fun c => h.symbol _ (by cases c <;> decide)
  have hlist := Fragment.all_valueList (h.symbol .lparen (by decide)) (h.symbol .rparen (by decide))
    (h.symbol .comma (by decide)) h.param
  unfold questions
  split <;> simp (disch := decide) [h.symbol, h.param, hc, hlist, -List.all_eq_true]

end Test

namespace Query

open Fragment

/-- The questions that the conditions ask, each with its condition. -/
def asked (q : Query) : List (Predicate × Fragment) :=
  q.draft.predicates.flatMap fun p => p.test.questions.map fun f => (p, f)

theorem mem_asked {q : Query} {p : Predicate} {f : Fragment} :
    (p, f) ∈ q.asked ↔ p ∈ q.draft.predicates ∧ f ∈ p.test.questions := by
  simp [asked]

theorem asked_ne_nil {q : Query} (h : q.draft.predicates ≠ []) : q.asked ≠ [] := by
  obtain ⟨p, ps, hps⟩ := List.exists_cons_of_ne_nil h
  obtain ⟨f, hf⟩ := List.exists_mem_of_ne_nil _ p.test.questions_ne_nil
  exact List.ne_nil_of_mem (mem_asked.2 ⟨hps ▸ List.mem_cons_self, hf⟩)

/-- The clause of the conditions: question after question, each after what it is asked of. -/
theorem conditions_eq_asked {q : Query} (h : q.draft.predicates ≠ []) :
    q.conditions = .symbol .WHERE :: separated .AND (q.asked.map fun a => q.leftSide a.1 ++ a.2) := by
  have htests : (q.draft.predicates.map fun p => p.test.fragment (q.leftSide p)) =
      (q.draft.predicates.map fun p => p.test.questions.map (q.leftSide p ++ ·)).map (separated .AND) := by
    simp only [List.map_map, Test.fragment_eq_separated]
    rfl
  rw [conditions_cons h, htests, separated_flatten]
  · rw [asked, List.flatMap_def, List.map_flatten]
    simp only [List.map_map, Function.comp_def]
  · intro fs hfs
    obtain ⟨p, -, rfl⟩ := List.mem_map.1 hfs
    simpa using p.test.questions_ne_nil

/-! ## As they are read -/

/-- What a condition looks at, to a reader. -/
def operand (q : Query) (p : Predicate) : Operand :=
  let column := Operand.column p.field.toList
  match p.part with
  | some part =>
    .cast (match q.dialect with
      | .postgresql => .extract part.extractUnit.toList column
      | .sqlite => .call "strftime".toList (part.strftimeFormat.toList.drop 1).dropLast column)
      Symbol.INTEGER.text.toList
  | none => if q.castsToText p then .cast column Symbol.TEXT.text.toList else column

/-- What stands to the left of a question is read as what it looks at. -/
theorem read?_leftSide (q : Query) (p : Predicate) (rest : List Term) :
    Operand.read? ((q.leftSide p).map Piece.term ++ rest) = some (q.operand p, rest) := by
  unfold leftSide operand
  cases p.part with
  | some part =>
    cases q.dialect <;> cases part <;> rfl
  | none =>
    dsimp only
    split <;> rfl

/-- The conditions that a query asks for, as they are read. -/
def readConditions (q : Query) : List Condition := q.asked.map fun a => ⟨q.operand a.1, a.2.map Piece.term⟩

/-- A question and what it is asked of read as themselves, and there is no `AND` among them. -/
theorem isProper_question (q : Query) {p : Predicate} {f : Fragment} (hf : f ∈ p.test.questions) :
    (∀ r ∈ q.leftSide p ++ f, r.isProper) ∧ .symbol .AND ∉ q.leftSide p ++ f := by
  constructor
  · have hall : (q.leftSide p ++ f).all Piece.inStatement := by
      rw [List.all_append, q.all_leftSide (Piece.spans_inStatement _),
        p.test.all_questions (Piece.spans_inStatement _) f hf]
      rfl
    exact fun r hr => Piece.isProper_of_inStatement (List.all_eq_true.1 hall r hr)
  · refine not_mem_of_all_ne ?_
    rw [List.all_append, q.all_leftSide (Piece.spans_ne (by decide)),
      p.test.all_questions (Piece.spans_ne (by decide)) f hf]
    rfl

/-- **The conditions that a statement's text asks for** are those of its query. -/
theorem conditions?_fragment (q : Query) {k : StatementKind} (hk : k ≠ .insertion) :
    ((q.fragment k).statement q.dialect).conditions? = some q.readConditions := by
  rw [Statement.conditions?, q.scope?_fragment hk, Option.bind_some, Scope.conditions?]
  by_cases hp : q.draft.predicates = []
  · rw [if_pos (q.condition_eq_nil_iff.2 hp), readConditions, asked, hp]
    rfl
  · have hsplit : q.scope.condition.splitOn (.word .AND) =
        q.asked.map fun a => (q.leftSide a.1 ++ a.2).map Piece.term := by
      have hquestions : ∀ f ∈ q.asked.map fun a => q.leftSide a.1 ++ a.2,
          (∀ r ∈ f, r.isProper) ∧ .symbol .AND ∉ f := by
        intro f hf
        obtain ⟨⟨p, f⟩, hmem, rfl⟩ := List.mem_map.1 hf
        exact q.isProper_question (mem_asked.1 hmem).2
      have hsplit := splitOn_map_separated (by simp [asked_ne_nil hp]) hquestions
      rw [List.map_map] at hsplit
      rw [scope, conditions_eq_asked hp]
      exact hsplit
    have hread : Condition.read? ∘ (fun a : Predicate × Fragment => (q.leftSide a.1 ++ a.2).map Piece.term) =
        fun a => pure ⟨q.operand a.1, a.2.map Piece.term⟩ := by
      funext a
      rw [Function.comp_apply, Condition.read?, List.map_append, q.read?_leftSide]
      rfl
    rw [if_neg fun h => hp (q.condition_eq_nil_iff.1 h), hsplit, List.mapM_map, hread, List.mapM_pure]
    rfl

end Query

end TableQuery

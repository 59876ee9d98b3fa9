/-
Backends over a fixed list of rows: every selection gives the rows that its
text asks for, and no more of them than the hint says will be pulled. They
show that what is assumed of backends can be met, with stalls and without.
-/
import TableQuery.Proofs.Storage.Serving

namespace TableQuery

namespace Storage

/-- The backend of a fixed list, which gives the rows it picks in these turns;
it has no state, and nothing can be written to it. -/
def giving (turns : List (List Value) → List (Outcome (List Value))) (d : Dialect) (columns : List String)
    (rows : List (List Value)) : Storage Unit where
  dialect := d
  fetch statement hint state :=
    let picked := (RowWindow.ofStatement statement).pick rows
    let given := match hint with
      | some n => picked.take n.toNat
      | none => picked
    (.ok ⟨columns, turns given⟩, state)
  execute _ state := (.ok 0, state)

/-- Each turn gives a row. -/
def fixed : Dialect → List String → List (List Value) → Storage Unit := giving (·.map .ok)

/-- After each row a turn stalls. -/
def hesitant : Dialect → List String → List (List Value) → Storage Unit :=
  giving (·.flatMap fun values => [.ok values, .stalled])

/-- The rows of a fixed list, each under its columns. -/
def fixedRows (columns : List String) (rows : List (List Value)) : List Row := rows.map (⟨columns, ·⟩)

end Storage

theorem RowWindow.pick_map {α β : Type} (w : RowWindow) (f : α → β) (rows : List α) :
    w.pick (rows.map f) = (w.pick rows).map f := by
  unfold pick
  split <;> simp [List.map_drop, List.map_take]

namespace Storage

variable (d : Dialect) (columns : List String) (rows : List (List Value)) (statement : Statement)

/-- Whatever else the turns are, it is the rows that count. -/
theorem giving_honours {turns : List (List Value) → List (Outcome (List Value))}
    (h : ∀ given, Feed.rows ⟨columns, turns given⟩ = fixedRows columns given) :
    (giving turns d columns rows).Honours (fixedRows columns rows) statement := by
  intro hint state feed state' hf
  have hpick := RowWindow.pick_map (RowWindow.ofStatement statement) (Row.mk columns) rows
  cases hint with
  | none =>
    cases hf
    left
    rw [h, fixedRows, fixedRows, hpick]
  | some n =>
    cases hf
    rw [h, fixedRows, fixedRows, hpick, List.map_take]
    generalize ((RowWindow.ofStatement statement).pick rows).map (Row.mk columns) = picked
    by_cases hn : n.toNat ≤ picked.length
    · exact .inr ⟨n, rfl, by simp [hn], List.take_prefix ..⟩
    · exact .inl (List.take_of_length_le (by omega))

theorem fixed_honours : (fixed d columns rows).Honours (fixedRows columns rows) statement :=
  giving_honours d columns rows statement fun given => by
    induction given with
    | nil => rfl
    | cons values given ih => exact congrArg (Row.mk columns values :: ·) ih

theorem fixed_answers : (fixed d columns rows).Answers statement := by
  intro hint state
  refine ⟨_, state, rfl, fun pull hp => ?_⟩
  obtain ⟨values, -, rfl⟩ := List.mem_map.1 hp
  exact ⟨values, rfl⟩

theorem hesitant_honours : (hesitant d columns rows).Honours (fixedRows columns rows) statement :=
  giving_honours d columns rows statement fun given => by
    induction given with
    | nil => rfl
    | cons values given ih => exact congrArg (Row.mk columns values :: ·) ih

end Storage

/-! ## A small database -/

/-- A table of one column, its key. -/
def sampleSchema : Schema := .declareKey (.ofTable "t") "n" .integer

/-- The rows 1, 2 and 3. -/
def sampleValues : List (List Value) := [[.ofInt 1], [.ofInt 2], [.ofInt 3]]

def sampleRows : List Row := Storage.fixedRows ["n"] sampleValues

def sampleDatabase : Database Unit := ⟨.fixed .sqlite ["n"] sampleValues, .default⟩

end TableQuery

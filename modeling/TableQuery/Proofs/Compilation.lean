/-
Statements are written without a miss (`Query.compiles`): of every query that
can be built, on every schema, each operand that is taken by its place is
there, the page before the one that is asked for is counted, and the numbers
of a window are such as SQL has.

Nothing of this is looked at when a statement is written. That a condition has
its operands and a page is not 0 was checked by the builder calls, and the
largest number of a window is the last thing that is seen to (`rowCount`).
-/
import TableQuery.Proofs.Query.Emission
import TableQuery.Proofs.Query.Pieces
import TableQuery.Proofs.WellFormed

namespace TableQuery

/-- A number that may stand in a window: one of 63 bits, or SQLite's `-1` for no limit. -/
def Dialect.AllowsNumber (d : Dialect) (word : Symbol) (n : Int) : Prop :=
  0 ≤ n ∧ n ≤ 0x7FFFFFFFFFFFFFFF ∨ word = .LIMIT ∧ n = -1 ∧ d = .sqlite

namespace Query

variable {q : Query}

theorem allowsNumber_written (d : Dialect) (word : Symbol) (n : UInt64) : d.AllowsNumber word (written n) := by
  refine .inl ⟨Int.natCast_nonneg _, ?_⟩
  rw [written]
  omega

theorem allowsNumber_windowNumbers (q : Query) (e : Extent) {word : Symbol} {n : Int}
    (h : (word, n) ∈ q.windowNumbers e) : q.dialect.AllowsNumber word n := by
  have hwritten := allowsNumber_written q.dialect
  unfold windowNumbers at h
  split at h
  · rcases List.mem_cons.1 h with h | h
    · cases h; exact hwritten ..
    · cases List.mem_singleton.1 h; exact hwritten ..
  · cases List.mem_singleton.1 h; exact hwritten ..
  · split at h
    · next hd =>
      rcases List.mem_cons.1 h with h | h
      · cases h; exact .inr ⟨rfl, rfl, hd⟩
      · cases List.mem_singleton.1 h; exact hwritten ..
    · cases List.mem_singleton.1 h; exact hwritten ..
  · cases h

/-- Only a selection and a count are other than written from the fragment of their kind. -/
theorem statement_of_ok {k : StatementKind} {statement : Statement}
    (hraw : q.draft.raw ≠ none → k = .deletion ∨ k.writes) (h : q.statementOf k = .ok statement) :
    statement = (q.fragment k).statement q.dialect := by
  by_cases hnone : q.draft.raw = none
  · rw [statementOf_eq hnone] at h
    split at h
    · cases h
    · exact (Except.ok.inj h).symm
  · cases k with
    | selection | count => rcases hraw hnone with hk | hk <;> cases hk
    | deletion => exact (Except.ok.inj h).symm
    | update | insertion =>
      simp only [statementOf, updateStatement, insertStatement] at h
      split at h
      · cases h
      · exact (Except.ok.inj h).symm

/-- **Statements are written without a miss.** After any builder calls, none of
which failed:

* the emitter of an operator is the one it is listed with. It writes a condition
  exactly of the lists that have the places it looks at, and the conditions of
  the query have them;
* every statement is written from operands taken by place and from the page
  before, and it is the one that the query describes;
* of the three numbers that the calls have set, the rows to pass over are counted
  without a negative difference;
* every number that a statement gives its window is one of 63 bits, but for
  SQLite's `-1`, if it is not the text of a raw statement. -/
theorem compiles {s : Schema} {d : Dialect} {edits : List Edit} (h : (ofSchema s d).applyAll edits = .ok q) :
    (∀ op, ∃ e, (op, e) ∈ Emitter.table ∧ Emitter.find? op = some e) ∧
    (∀ op left operands, (Emitter.ofOperator op left operands).isSome ↔ op.places ≤ operands.length) ∧
    (∀ p ∈ q.draft.predicates, p.operator.places ≤ p.operands.length) ∧
    (∀ k, q.statement? k = some (q.statementOf k)) ∧
    (∃ r, BoundRegisters.empty.applyAll edits = .ok r ∧ r.passedOver? = some q.draft.bounds.offset) ∧
    ∀ k statement, (q.draft.raw ≠ none → k = .deletion ∨ k.writes) → q.statementOf k = .ok statement →
      ∃ numbers, statement.window? = some numbers ∧
        ∀ word n, (word, n) ∈ numbers → q.dialect.AllowsNumber word n := by
  have hbounds : q.draft.bounds.Valid := Reachable.bounds ⟨edits, h⟩
  have hpage : q.draft.bounds.registers.page ≠ some 0 := fun hp => (hbounds.registers_of_page hp).1 rfl
  refine ⟨fun op => ?_, Emitter.isSome_ofOperator, fun p _ => Operator.places_le p.test.admits_operands,
    statement?_eq hbounds, ⟨_, registers_applyAll h, ?_⟩, fun k statement hraw hk => ?_⟩
  · obtain ⟨e, he⟩ := Emitter.exists_mem_table op
    exact ⟨e, he, Emitter.find?_eq_of_mem he⟩
  · rw [BoundRegisters.passedOver?_eq hpage, Bounds.passedOver_registers]
  · rw [statement_of_ok hraw hk]
    cases k with
    | selection e => exact ⟨_, q.window?_selectFragment e, fun _ _ => q.allowsNumber_windowNumbers e⟩
    | _ => exact ⟨[], q.window?_fragment nofun, nofun⟩

/-- Three operands, two and one, and a page so far on that the numbers of its window are stopped. -/
theorem compiles_last_page :
    let s : Schema := ⟨"t", [⟨"_id", .integer, true⟩, ⟨"name", .text, false⟩]⟩
    let edits : List Edit :=
      [.filter "pk" .among [.ofInt 1, .ofInt 2, .ofInt 3], .filter "pk" .between [.ofInt 1, .ofInt 9],
        .filter "name" (.pattern .contains) [.text "x"], .limit 0xFFFFFFFFFFFFFFFF, .page 3]
    let q : Query := { ofSchema s .sqlite with
      draft.predicates := [⟨"_id", .among (.ofInt 1) [.ofInt 2, .ofInt 3], none⟩,
        ⟨"_id", .between (.ofInt 1) (.ofInt 9), none⟩, ⟨"name", .pattern .contains (.text "x"), none⟩]
      draft.bounds := ⟨some 0xFFFFFFFFFFFFFFFF, some (.page 3)⟩ }
    (ofSchema s .sqlite).applyAll edits = .ok q ∧ q.draft.raw = none ∧
      q.statement? .deletion = some (.ok
        ⟨"DELETE FROM \"t\" WHERE \"_id\" IN (?, ?, ?) AND \"_id\" >= ? AND \"_id\" <= ? AND \"name\" LIKE ?",
          [.ofInt 1, .ofInt 2, .ofInt 3, .ofInt 1, .ofInt 9, .text "%x%"]⟩) ∧
      ∃ numbers, q.statement.window? = some numbers ∧
        numbers = [(.LIMIT, 0x7FFFFFFFFFFFFFFF), (.OFFSET, 0x7FFFFFFFFFFFFFFF)] ∧
        ∀ word n, (word, n) ∈ numbers → Dialect.sqlite.AllowsNumber word n := by
  intro s edits q
  have hq : (ofSchema s .sqlite).applyAll edits = .ok q := by decide +kernel
  obtain ⟨-, -, -, hstatement, -, hnumbers⟩ := compiles hq
  obtain ⟨numbers, hwindow, hall⟩ := hnumbers (.selection .own) q.statement (absurd rfl) rfl
  have hread : q.statement.window? = some [(.LIMIT, 0x7FFFFFFFFFFFFFFF), (.OFFSET, 0x7FFFFFFFFFFFFFFF)] :=
    window?_selectStatement (q := q) rfl .own
  exact ⟨hq, rfl, (hstatement .deletion).trans (by decide +kernel), numbers, hwindow,
    Option.some.inj (hwindow.symm.trans hread), hall⟩

end Query

end TableQuery

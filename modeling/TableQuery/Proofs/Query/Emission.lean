/-
Statements written with their operands taken by place.

Each operator is listed with the emitter that writes its conditions, and an
emitter takes its operands out of a list, by their places. A pattern stands in
a list of its own for the operand that it is made of, and a page is counted
from the one before it. A statement that needs a place its list does not have,
or the page before the first, is not written at all (`Query.statement?`).

If the bounds of a query are valid, every statement is written, and it is the
one that the query describes (`Query.statement?_eq`).
-/
import TableQuery.Proofs.Query.Bounds
import TableQuery.Query.Kind

namespace TableQuery

/-! ## Emitters -/

/-- Writes a condition on what stands to the left of it; nothing, if an operand is missing. -/
def Emitter : Type := Fragment → List Value → Option Fragment

namespace Emitter

/-- A sign or word between the left side and a value. -/
def compared (left : Fragment) (sign : Symbol) (v : Value) : Fragment := left ++ [.symbol sign, .param v]

/-- Equality or its contrary, and the words that ask for it of null. -/
def equality (words : List Symbol) (sign : Symbol) : Emitter := fun left operands => do
  match ← operands[0]? with
  | .null => some (left ++ words.map .symbol)
  | v => some (compared left sign v)

def comparison (sign : Symbol) : Emitter := fun left operands => operands[0]?.map (compared left sign)

def membership (words : List Symbol) : Emitter := fun left operands =>
  some (left ++ words.map .symbol ++ Fragment.enclosed (.placeholderList operands))

def between : Emitter := fun left operands => do
  let low ← operands[0]?
  let high ← operands[1]?
  some (compared left .ge low ++ [.symbol .AND] ++ compared left .le high)

/-- Every operator with its emitter. -/
def table : List (Operator × Emitter) :=
  [(.compare .eq, equality [.IS, .NULL] .eq), (.compare .ne, equality [.IS, .NOT, .NULL] .ne),
    (.compare .gt, comparison .gt), (.compare .gte, comparison .ge), (.compare .lt, comparison .lt),
    (.compare .lte, comparison .le), (.among, membership [.IN]), (.notAmong, membership [.NOT, .IN]),
    (.between, between), (.pattern .startsWith, comparison .LIKE), (.pattern .endsWith, comparison .LIKE),
    (.pattern .contains, comparison .LIKE)]

/-- The emitter that an operator is listed with first. -/
def find? (op : Operator) : Option Emitter :=
  table.findSome? fun entry => if entry.1 = op then some entry.2 else none

/-- The emitter of an operator; that of equality, if it is not listed. -/
def ofOperator (op : Operator) : Emitter := (find? op).getD (equality [.IS, .NULL] .eq)

theorem keys_table : table.map (·.1) = Operator.all := rfl

theorem findSome?_key {entries : List (Operator × Emitter)} (h : (entries.map (·.1)).Nodup) {op : Operator}
    {e : Emitter} (he : (op, e) ∈ entries) :
    (entries.findSome? fun entry => if entry.1 = op then some entry.2 else none) = some e := by
  induction entries with
  | nil => cases he
  | cons entry entries ih =>
    rw [List.map_cons, List.nodup_cons] at h
    rw [List.findSome?_cons]
    rcases List.mem_cons.1 he with rfl | he
    · rw [if_pos rfl]
    · rw [if_neg fun ho : entry.1 = op => h.1 (List.mem_map.2 ⟨_, he, ho.symm⟩)]
      exact ih h.2 he

/-- An operator is listed once, so the first emitter that it is listed with is its own. -/
theorem find?_eq_of_mem {op : Operator} {e : Emitter} (h : (op, e) ∈ table) : find? op = some e :=
  findSome?_key (by rw [keys_table]; decide) h

/-- No operator is left to the emitter of equality for want of its own. -/
theorem exists_mem_table (op : Operator) : ∃ e, (op, e) ∈ table := by
  obtain ⟨⟨_, e⟩, he, rfl⟩ := List.mem_map.1 (keys_table ▸ op.mem_all)
  exact ⟨e, he⟩

end Emitter

/-- The operands that an operator's emitter takes by their places. -/
def Operator.places : Operator → Nat
  | compare _ | pattern _ => 1
  | among | notAmong => 0
  | between => 2

/-- An emitter writes a condition of a list exactly if the list has its places. -/
theorem Emitter.isSome_ofOperator (op : Operator) (left : Fragment) (operands : List Value) :
    (ofOperator op left operands).isSome ↔ op.places ≤ operands.length := by
  have hequality : ∀ words sign, (equality words sign left operands).isSome ↔ 1 ≤ operands.length := fun _ _ => by
    cases operands with
    | nil => simp [equality]
    | cons v rest => cases v <;> simp [equality]
  have hcomparison : ∀ sign, (comparison sign left operands).isSome ↔ 1 ≤ operands.length := fun _ => by
    cases operands <;> simp [comparison]
  cases op with
  | compare c =>
    cases c with
    | eq | ne => exact hequality ..
    | _ => exact hcomparison _
  | among | notAmong => exact ⟨fun _ => Nat.zero_le _, fun _ => rfl⟩
  | between =>
    rcases operands with _ | ⟨low, _ | ⟨high, rest⟩⟩ <;> simp [ofOperator, find?, table, between, Operator.places]
  | pattern p => cases p <;> exact hcomparison _

/-- The number of operands that an operator admits is enough for its places. -/
theorem Operator.places_le {op : Operator} {count : Nat} (h : op.arity.admits count) : op.places ≤ count := by
  cases op <;> simp [arity, Arity.admits, places] at h ⊢ <;> omega

/-! ## Conditions -/

namespace Predicate

/-- The pattern that stands for a condition's operand, if the operator matches patterns. -/
def pattern? (p : Predicate) : Option (Option Value) :=
  if p.operator.takesPattern then p.operands[0]?.map fun v => some (p.operator.wrap v) else some none

/-- The pattern that a test matches. -/
def pattern (p : Predicate) : Option Value :=
  match p.test with
  | .pattern kind v => some (kind.wrap v)
  | _ => none

theorem pattern?_eq (p : Predicate) : p.pattern? = some p.pattern := by
  obtain ⟨field, test, part⟩ := p
  cases test <;> rfl

end Predicate

namespace Query

/-- A condition, with its pattern for its operands if it has one. -/
def emitted? (q : Query) (p : Predicate) (pattern : Option Value) : Option Fragment :=
  Emitter.ofOperator p.operator (q.leftSide p) (pattern.elim p.operands ([·]))

def conditions? (q : Query) : Option Fragment := do
  let patterns ← q.draft.predicates.mapM Predicate.pattern?
  match q.draft.predicates with
  | [] => some []
  | ps =>
    let fragments ← (List.zipWith q.emitted? ps patterns).mapM id
    some (.symbol .WHERE :: Fragment.separated .AND fragments)

/-- A test's emitter finds the operands of the test. -/
theorem emitted?_pattern (q : Query) (p : Predicate) :
    q.emitted? p p.pattern = some (p.test.fragment (q.leftSide p)) := by
  obtain ⟨field, test, part⟩ := p
  cases test with
  | compare c v => cases c <;> cases v <;> rfl
  | among v more => exact congrArg some (List.append_assoc ..)
  | notAmong v more => exact congrArg some (List.append_assoc ..)
  | between low high =>
    refine congrArg some ?_
    simp [Emitter.compared, Test.fragment]
  | pattern kind v => cases kind <;> rfl

theorem conditions?_eq (q : Query) : q.conditions? = some q.conditions := by
  have hpatterns : q.draft.predicates.mapM Predicate.pattern? = some (q.draft.predicates.map Predicate.pattern) := by
    rw [funext Predicate.pattern?_eq]
    exact List.mapM_pure
  have hfragments : ∀ ps : List Predicate, (List.zipWith q.emitted? ps (ps.map Predicate.pattern)).mapM id =
      some (ps.map fun p => p.test.fragment (q.leftSide p)) := fun ps => by
    rw [List.zipWith_map_right, List.zipWith_self, funext q.emitted?_pattern, List.mapM_map]
    exact List.mapM_pure
  unfold conditions? conditions
  rw [hpatterns, Option.bind_eq_bind, Option.bind_some]
  cases q.draft.predicates with
  | nil => rfl
  | cons p ps =>
    dsimp only
    rw [hfragments]
    rfl

end Query

/-! ## Windows -/

/-- The difference of two words, unless it is negative. -/
def minus? (m n : UInt64) : Option UInt64 := if n ≤ m then some (m - n) else none

namespace BoundRegisters

/-- The rows to pass over: those of the pages before, counted from the one
before the page, or as many as the offset says. -/
def passedOver? (r : BoundRegisters) : Option (Option UInt64) :=
  match r.page, r.limit with
  | some p, some l => (minus? p 1).map fun before => some (saturate (before.toNat * l.toNat))
  | _, _ => some r.offset

/-- There is a page before every page but 0. -/
theorem passedOver?_eq {r : BoundRegisters} (h : r.page ≠ some 0) : r.passedOver? = some r.passedOver := by
  obtain ⟨limit, offset, page⟩ := r
  cases page with
  | none => rfl
  | some p =>
    cases limit with
    | none => rfl
    | some l =>
      have hone : (1 : UInt64) ≤ p := by
        rw [UInt64.le_iff_toNat_le]
        refine Nat.pos_of_ne_zero fun hz => h ?_
        exact congrArg some (UInt64.toNat_inj.1 hz)
      simp only [passedOver?, minus?, if_pos hone, Option.map_some, UInt64.toNat_sub_of_le _ _ hone]
      rfl

end BoundRegisters

/-- The clause of a window with that limit and that offset. -/
def windowClause (d : Dialect) : Option UInt64 → Option UInt64 → Fragment
  | some l, offset =>
    [.symbol .LIMIT, Query.rowCount l] ++ (offset.map fun o => [.symbol .OFFSET, Query.rowCount o]).getD []
  | none, some o =>
    (if d = .sqlite then [.symbol .LIMIT, .number (-1)] else []) ++ [.symbol .OFFSET, Query.rowCount o]
  | none, none => []

namespace Query

def range? (q : Query) (e : Extent) : Option Fragment := do
  let offset ← q.draft.bounds.registers.passedOver?
  some (windowClause q.dialect (q.limitFor e) offset)

theorem range?_eq {q : Query} (h : q.draft.bounds.Valid) (e : Extent) : q.range? e = some (q.range e) := by
  have hpage : q.draft.bounds.registers.page ≠ some 0 := fun hp => (h.registers_of_page hp).1 rfl
  rw [range?, BoundRegisters.passedOver?_eq hpage, Bounds.passedOver_registers]
  unfold range
  cases q.limitFor e <;> cases q.draft.bounds.offset <;> rfl

/-! ## Statements -/

/-- The statement of a kind, written from operands taken by their places. -/
def statement? (q : Query) : StatementKind → Option (Except Fault Statement)
  | .selection e =>
    match q.draft.raw with
    | some raw => some (.ok ⟨raw.sql, raw.params⟩)
    | none => do
      let conditions ← q.conditions?
      let range ← q.range? e
      let fragment := .symbol .SELECT :: q.columns ++ .symbol .FROM :: q.table ++ conditions ++ q.order ++ range
      some (.ok (Fragment.statement q.dialect fragment))
  | .count =>
    match q.draft.raw with
    | some raw => some (.ok { (rawCountFragment raw.sql).statement q.dialect with params := raw.params })
    | none => do
      let conditions ← q.conditions?
      some (.ok (Fragment.statement q.dialect (countHead ++ q.table ++ conditions)))
  | .deletion => do
    let conditions ← q.conditions?
    some (.ok (Fragment.statement q.dialect (.symbol .DELETE :: .symbol .FROM :: q.table ++ conditions)))
  | .update =>
    if q.draft.assignments = [] then some (.error (.noAssignments "update")) else do
      let conditions ← q.conditions?
      let fragment := .symbol .UPDATE :: q.table ++ .symbol .SET :: Fragment.assignments q.draft.assignments ++ conditions
      some (.ok (Fragment.statement q.dialect fragment))
  | .insertion => some q.insertStatement

/-- **With valid bounds, every statement is written as it is described.** -/
theorem statement?_eq {q : Query} (h : q.draft.bounds.Valid) (k : StatementKind) :
    q.statement? k = some (q.statementOf k) := by
  cases k with
  | selection e =>
    simp only [statement?, statementOf, selectStatement, conditions?_eq, range?_eq h]
    cases q.draft.raw <;> rfl
  | count =>
    simp only [statement?, statementOf, countStatement, conditions?_eq]
    cases q.draft.raw <;> rfl
  | deletion =>
    rw [statement?, conditions?_eq]
    rfl
  | update =>
    rw [statement?, statementOf, updateStatement, conditions?_eq]
    split <;> rfl
  | insertion => rfl

end Query

end TableQuery

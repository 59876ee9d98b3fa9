/-
Which column the helpers for primary keys address (`Query.key_helpers`).

Keys are read from the column of the primary key. Conditions and sorts go by
the key's alias, and a field that is itself called `pk` takes it: then rows are
looked up and sorted by that field, and not by the key whose values were read.
-/
import TableQuery.Proofs.Query.Checks
import TableQuery.Query.Task

namespace TableQuery

namespace Schema

variable {s : Schema} {key : Field}

/-- The column that the key's alias stands for. -/
def aliasColumn (s : Schema) (key : Field) : String := if keyAlias ∈ s.names then keyAlias else key.name

/-- The alias stands for the key unless another field has its name. -/
theorem aliasColumn_eq_iff : s.aliasColumn key = key.name ↔ (keyAlias ∈ s.names → key.name = keyAlias) := by
  unfold aliasColumn
  split
  · next h => exact ⟨fun he _ => he.symm, fun he => (he h).symm⟩
  · next h => exact ⟨fun _ hmem => absurd hmem h, fun _ => rfl⟩

theorem requireKey_eq_ok (h : s.key? = some key) : s.requireKey = .ok key := by
  unfold requireKey
  rw [h]

theorem requireKey_eq_error (h : s.key? = none) : s.requireKey = .error (.noPrimaryKey s.table) := by
  unfold requireKey
  rw [h]

theorem require_key_name (h : s.key? = some key) : ∃ f, s.require key.name = .ok f ∧ f.name = key.name :=
  require_of_mem_names (List.mem_map_of_mem (List.mem_of_find?_eq_some h))

theorem require_keyAlias (h : s.key? = some key) :
    ∃ f, s.require keyAlias = .ok f ∧ f.name = s.aliasColumn key := by
  unfold aliasColumn
  split
  · next hmem => exact require_of_mem_names hmem
  · next hmem =>
    refine ⟨key, require_eq_ok.2 ?_, rfl⟩
    unfold lookup?
    rw [field?_of_not_mem hmem, if_pos rfl, h]

end Schema

namespace Query

variable {σ α : Type} {q : Query} {key : Field}

/-- The query with one more condition. -/
def matching (q : Query) (field : String) (test : Test) : Query :=
  { q with draft.predicates := q.draft.predicates ++ [⟨field, test, none⟩] }

/-- The query sorted by one more field, or by it another way. -/
def sorted (q : Query) (field : String) (direction : Direction) : Query :=
  { q with draft.sorts := SortKey.put q.draft.sorts ⟨field, direction, none⟩ }

/-- The query with one field chosen, or every column by the wildcard's name. -/
def reading (q : Query) (field : String) : Query :=
  { q with draft.projection := if field = Projection.everything then ⟨[], true⟩ else ⟨[field], false⟩ }

/-- What is read is the one column, unless it has the wildcard's name. -/
theorem columns_reading_iff (q : Query) (field : String) :
    (q.reading field).columns = .ident field ↔ field ≠ Projection.everything := by
  unfold reading columns
  by_cases h : field = Projection.everything
  · simp only [h, ne_eq, not_true_eq_false, iff_false]
    exact nofun
  · simp only [ne_eq, h, not_false_eq_true, iff_true]
    rfl

theorem filterKey_eq_ok (hkey : q.schema.key? = some key) {op : Operator} {operands : List Value} {test : Test}
    (htest : Test.of? op operands = some test) (hop : op.takesPattern = false) :
    q.filterKey op operands = .ok (q.matching (q.schema.aliasColumn key) test) := by
  obtain ⟨f, hf, hname⟩ := Schema.require_keyAlias hkey
  have hmake : Predicate.make q.schema Schema.keyAlias op operands none = .ok ⟨f.name, test, none⟩ :=
    Predicate.make_eq_ok.2 ⟨f, test, hf, htest, nofun, fun h => absurd h (by rw [hop]; decide), rfl⟩
  unfold filterKey filter addCondition
  rw [Schema.requireKey_eq_ok hkey, hmake, hname]
  rfl

/-- An operator is not given as many operands as it takes. -/
theorem filterKey_eq_error (hkey : q.schema.key? = some key) {op : Operator} {operands : List Value}
    (htest : Test.of? op operands = none) :
    q.filterKey op operands =
      .error (.invalidOperandCount op.name (q.schema.aliasColumn key) op.arity.wording operands.length) := by
  obtain ⟨f, hf, hname⟩ := Schema.require_keyAlias hkey
  unfold filterKey filter addCondition Predicate.make
  rw [Schema.requireKey_eq_ok hkey, hf, ← hname]
  simp [htest]

theorem sortKey_eq_ok (hkey : q.schema.key? = some key) (direction : Direction) :
    q.sortKey direction = .ok (q.sorted (q.schema.aliasColumn key) direction) := by
  obtain ⟨f, hf, hname⟩ := Schema.require_keyAlias hkey
  unfold sortKey sortBy
  rw [Schema.requireKey_eq_ok hkey, hf, ← hname]
  rfl

theorem selectKey_eq_ok (hkey : q.schema.key? = some key) : q.selectKey = .ok (q.reading key.name) := by
  obtain ⟨f, hf, hname⟩ := Schema.require_key_name hkey
  unfold selectKey
  rw [Schema.requireKey_eq_ok hkey]
  change q.clearSelection.select [key.name] = _
  unfold select selectField reading
  by_cases h : key.name = Projection.everything
  · rw [if_pos h, if_pos h]
    rfl
  · rw [if_neg h, if_neg h, show q.clearSelection.schema.require key.name = .ok f from hf, ← hname]
    rfl

/-! ### Without a key -/

theorem filterKey_of_keyless (hkey : q.schema.key? = none) (op : Operator) (operands : List Value) :
    q.filterKey op operands = .error (.noPrimaryKey q.schema.table) := by
  unfold filterKey
  rw [Schema.requireKey_eq_error hkey]
  rfl

theorem sortKey_of_keyless (hkey : q.schema.key? = none) (direction : Direction) :
    q.sortKey direction = .error (.noPrimaryKey q.schema.table) := by
  unfold sortKey
  rw [Schema.requireKey_eq_error hkey]
  rfl

theorem selectKey_of_keyless (hkey : q.schema.key? = none) :
    q.selectKey = .error (.noPrimaryKey q.schema.table) := by
  unfold selectKey
  rw [Schema.requireKey_eq_error hkey]
  rfl

/-! ### What they address -/

/-- **What the helpers for primary keys address.** With a primary key declared,
rows are looked up and sorted by the column that the key's alias stands for,
and keys are read from the key's own column. The first is the key's column
exactly if no other field is called `pk`, the second exactly if the key does
not have the wildcard's name. -/
theorem key_helpers (db : Database σ) (q : Query) (hydrate : Hydrator α) {key : Field}
    (hkey : q.schema.key? = some key) :
    let column := q.schema.aliasColumn key
    (∀ v, q.withKey db hydrate v = (q.matching column (.compare .eq v)).one db hydrate) ∧
    (∀ v vs, q.withKeys db (v :: vs) = (q.matching column (.among v vs)).rows db) ∧
    q.withKeys db [] = Task.ofExcept (.error (.invalidOperandCount "in" column "at least 1" 0)) ∧
    q.first db hydrate = (q.sorted column .asc).one db hydrate ∧
    q.last db hydrate = (q.sorted column .desc).one db hydrate ∧
    q.keys db = (q.reading key.name).rows db ∧
    q.firstKey db hydrate = (q.reading key.name).one db hydrate ∧
    (column = key.name ↔ (Schema.keyAlias ∈ q.schema.names → key.name = Schema.keyAlias)) ∧
    ((q.reading key.name).columns = .ident key.name ↔ key.name ≠ Projection.everything) := by
  intro column
  refine ⟨fun v => ?_, fun v vs => ?_, ?_, ?_, ?_, ?_, ?_, Schema.aliasColumn_eq_iff, q.columns_reading_iff _⟩
  · unfold withKey
    rw [filterKey_eq_ok hkey rfl rfl]
    rfl
  · unfold withKeys
    rw [filterKey_eq_ok hkey rfl rfl]
    rfl
  · unfold withKeys
    rw [filterKey_eq_error hkey rfl]
    rfl
  · unfold first
    rw [sortKey_eq_ok hkey]
    rfl
  · unfold last
    rw [sortKey_eq_ok hkey]
    rfl
  · unfold keys
    rw [selectKey_eq_ok hkey]
    rfl
  · unfold firstKey
    rw [selectKey_eq_ok hkey]
    rfl

/-- Keys that are read from `_id` are looked up in `pk`. -/
theorem key_helpers_alias_taken :
    let s := ((Schema.ofTable "foo").declareKey "_id" .integer).declare "pk" .text
    let db : Database Script := ⟨Script.storage .sqlite, .default⟩
    let q := db.query s
    s.key? = some ⟨"_id", .integer, true⟩ ∧
      q.keys db = (q.reading "_id").rows db ∧ (q.reading "_id").columns = .ident "_id" ∧
      q.withKeys db [.ofInt 1] = (q.matching "pk" (.among (.ofInt 1) [])).rows db := by
  intro s db q
  have hkey : q.schema.key? = some ⟨"_id", .integer, true⟩ := rfl
  obtain ⟨-, hrows, -, -, -, hkeys, -, -, hcolumns⟩ := key_helpers db q Hydrator.values hkey
  exact ⟨hkey, hkeys, hcolumns.2 (by decide), hrows _ _⟩

end Query

end TableQuery

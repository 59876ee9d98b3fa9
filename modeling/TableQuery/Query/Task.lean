/-
Running a query.

Every call first checks what can be checked without storage, then makes one
call to it. A call for a single row releases its source before it returns,
whatever came of the pull, also when the pull stalled. Failures of storage
are returned as they are and nothing is tried again.
-/
import TableQuery.Cursor
import TableQuery.Query.Statement
import TableQuery.Settings

namespace TableQuery

/-- A backend and the settings queries on it run with. -/
structure Database (σ : Type) where
  storage : Storage σ
  settings : Settings

namespace Database

variable {σ : Type}

def dialect (db : Database σ) : Dialect := db.settings.dialect.getD db.storage.dialect

/-- A query on a schema, with nothing accumulated. -/
def query (db : Database σ) (s : Schema) : Query := .ofSchema s db.dialect

end Database

namespace Query

variable {σ α : Type} (db : Database σ) (q : Query)

/-! ## Rows -/

/-- Opens a cursor over the rows. With a limit, one row more is asked for, to
tell whether there are more; a raw statement runs as it is. -/
def rows : Task σ Cursor :=
  match q.draft.raw with
  | some _ => do
    let source ← db.storage.openSource (q.selectStatement .own) none
    pure (Cursor.ofSource source none)
  | none => do
    let source ← db.storage.openSource (q.selectStatement .oneMore) (q.limitFor .oneMore)
    pure (Cursor.ofSource source q.draft.bounds.limit)

/-- Pulls one row of a source and releases it. -/
def pullOne (hydrate : Hydrator α) (source : Source) : Task σ (Option α) := fun c =>
  let p := (Cursor.ofSource source none).next hydrate
  (p.outcome, c.record (p.events ++ p.cursor.drop))

/-- The first row of a statement. -/
def firstRow (hydrate : Hydrator α) (statement : Statement) : Task σ (Option α) := do
  pullOne hydrate (← db.storage.openSource statement (some 1))

/-- The first row, from the offset on. -/
def one (hydrate : Hydrator α) : Task σ (Option α) :=
  firstRow db hydrate (q.selectStatement .single)

/-- The number of matching rows; order and window do not count. -/
def count : Task σ UInt64 := do
  match ← firstRow db (Hydrator.first .value) q.countStatement with
  | some v => .ofExcept ((Decoder.uint64 v).mapError .mapping)
  | none => pure 0

/-- Whether there is a row, from the offset on. -/
def has : Task σ Bool := do
  pure (← q.one db Hydrator.values).isSome

/-! ## Selected values -/

/-- Values can be read when something says which. -/
def requireSelection : Except Fault Unit :=
  if q.draft.raw.isNone && q.draft.projection.isEmpty then .error .noSelection else .ok ()

/-- Opens a cursor over the selected values. -/
def values : Task σ Cursor := do
  Task.ofExcept q.requireSelection
  q.rows db

/-- The first of the selected values. -/
def value (hydrate : Hydrator α) : Task σ (Option α) := do
  Task.ofExcept q.requireSelection
  q.one db hydrate

/-! ## Primary key -/

/-- The query with the primary key alone selected. -/
def selectKey : Except Fault Query := do
  let key ← q.schema.requireKey
  q.clearSelection.select [key.name]

/-- Opens a cursor over the primary keys of the rows. -/
def keys : Task σ Cursor := do
  let q ← Task.ofExcept q.selectKey
  q.rows db

/-- The primary key of the first row. -/
def firstKey (hydrate : Hydrator α) : Task σ (Option α) := do
  let q ← Task.ofExcept q.selectKey
  q.one db hydrate

/-- The query with one more condition on the field that the key's alias
names; the schema has to declare a key. -/
def filterKey (op : Operator) (operands : List Value) : Except Fault Query := do
  let _ ← q.schema.requireKey
  q.filter Schema.keyAlias op operands

/-- The query sorted by the field that the key's alias names. -/
def sortKey (direction : Direction) : Except Fault Query := do
  let _ ← q.schema.requireKey
  q.sortBy Schema.keyAlias direction []

/-- The row with that key. -/
def withKey (hydrate : Hydrator α) (key : Value) : Task σ (Option α) := do
  let q ← Task.ofExcept (q.filterKey (.compare .eq) [key])
  q.one db hydrate

/-- Opens a cursor over the rows with those keys. -/
def withKeys (keys : List Value) : Task σ Cursor := do
  let q ← Task.ofExcept (q.filterKey .among keys)
  q.rows db

/-- The row with the lowest key. -/
def first (hydrate : Hydrator α) : Task σ (Option α) := do
  let q ← Task.ofExcept (q.sortKey .asc)
  q.one db hydrate

/-- The row with the highest key. -/
def last (hydrate : Hydrator α) : Task σ (Option α) := do
  let q ← Task.ofExcept (q.sortKey .desc)
  q.one db hydrate

/-! ## Writing -/

/-- Inserts the assignments and gives the new key, if the schema declares one. -/
def insert : Task σ (Option Value) := do
  let statement ← Task.ofExcept q.insertStatement
  match q.schema.key? with
  | none => do
    let _ ← db.storage.run statement
    pure none
  | some _ => firstRow db (Hydrator.first .value) statement

/-- Writes the assignments to the matching rows and gives their number. -/
def update : Task σ UInt64 := do
  db.storage.run (← Task.ofExcept q.updateStatement)

/-- Deletes the matching rows and gives their number. -/
def delete : Task σ UInt64 := db.storage.run q.deleteStatement

end Query

end TableQuery

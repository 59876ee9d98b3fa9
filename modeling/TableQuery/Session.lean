/-
Sessions: one query and one held cursor over a scripted backend.

A session takes calls one by one: builder calls, calls that run the query,
and pulls from what they opened. Opening something new releases what was
held before, and only once it is open.
-/
import TableQuery.Query.Edit
import TableQuery.Walk

namespace TableQuery

/-- What a session can hold open, with the way its rows are hydrated. -/
inductive Held (α : Type) where
  | rows (hydrate : Hydrator α) (cursor : Cursor)
  | walk (hydrate : Hydrator α) (walk : Walk)

namespace Held

variable {α : Type}

/-- The release of what is still open. -/
def drop : Held α → List Event
  | rows _ c => c.drop
  | walk _ w => w.drop

end Held

/-- One call on a session. -/
inductive Call (α : Type) where
  | edit (e : Edit)
  | rows (hydrate : Hydrator α)
  | all (hydrate : Hydrator α)
  | withKeys (hydrate : Hydrator α) (keys : List Value)
  | values (hydrate : Hydrator α)
  | keys (hydrate : Hydrator α)
  | one (hydrate : Hydrator α)
  | value (hydrate : Hydrator α)
  | first (hydrate : Hydrator α)
  | last (hydrate : Hydrator α)
  | withKey (hydrate : Hydrator α) (key : Value)
  | firstKey (hydrate : Hydrator α)
  | count
  | update
  | delete
  | has
  | insert
  | next
  | collect
  | stream
  | close
  | drop
  | reset

/-- What a call came to. -/
inductive Reply (α : Type) where
  /-- The statement the query now describes. -/
  | built (statement : Statement)
  | opened
  | item (a : Option α)
  | items (as : List α)
  | results (rs : List (Except Fault α))
  | number (n : UInt64)
  | truth (b : Bool)
  | inserted (key : Option Value)
  | closed
  | dropped
  | reset
  /-- There is nothing held to pull from. -/
  | nothingHeld
  /-- A walk has no stream; it was dropped. -/
  | noStream
  | failed (f : Fault)
  | stalled

structure Session (α : Type) where
  database : Database Script
  query : Query
  held : Option (Held α)
  connection : Connection Script

namespace Session

variable {α : Type}

def start (db : Database Script) (s : Schema) (script : Script) : Session α :=
  ⟨db, db.query s, none, .fresh script⟩

/-- What became of an outcome, in a reply. -/
def reply {β : Type} (ok : β → Reply α) : Outcome β → Reply α
  | .ok b => ok b
  | .failed f => .failed f
  | .stalled => .stalled

/-- Runs a task that leaves nothing open. -/
def run {β : Type} (s : Session α) (ok : β → Reply α) (t : Task Script β) : Reply α × Session α :=
  let (outcome, connection) := t s.connection
  (reply ok outcome, { s with connection })

/-- Holds something new in place of what was held. -/
def hold (s : Session α) (h : Held α) : Session α :=
  let events := match s.held with
    | some old => old.drop
    | none => []
  { s with held := some h, connection := s.connection.record events }

/-- Runs a task that opens a cursor, and holds it. -/
def openWith (s : Session α) (hydrate : Hydrator α) (t : Task Script Cursor) :
    Reply α × Session α :=
  match t s.connection with
  | (.ok cursor, connection) => (.opened, { s with connection }.hold (.rows hydrate cursor))
  | (.failed f, connection) => (.failed f, { s with connection })
  | (.stalled, connection) => (.stalled, { s with connection })

/-- Lets go of what is held. -/
def letGo (s : Session α) : Session α :=
  match s.held with
  | some h => { s with held := none, connection := s.connection.record h.drop }
  | none => s

/-- Pulls a row from what is held. -/
def next (s : Session α) : Reply α × Session α :=
  match s.held with
  | none => (.nothingHeld, s)
  | some (.rows hydrate c) =>
    let p := c.next hydrate
    (reply .item p.outcome,
      { s with held := some (.rows hydrate p.cursor), connection := s.connection.record p.events })
  | some (.walk hydrate w) =>
    let (outcome, w, connection) := w.next s.database hydrate s.connection
    (reply .item outcome, { s with held := some (.walk hydrate w), connection })

/-- The pulls a script has left; a walk cannot hand out more rows than that
and those of the chunk it reads. -/
def turnsLeft (s : Session α) (w : Walk) : Nat :=
  let pulls : Outcome Feed → Nat
    | .ok feed => feed.pulls.length
    | _ => 0
  let current := match w.stage with
    | .reading chunk => chunk.remaining
    | _ => 0
  s.connection.state.fetches.foldl (fun n fetch => n + pulls fetch) current

/-- Collects all that is left of what is held. -/
def collect (s : Session α) : Reply α × Session α :=
  match s.held with
  | none => (.nothingHeld, s)
  | some (.rows hydrate c) =>
    let p := c.collect hydrate
    (reply .items p.outcome,
      { s with held := some (.rows hydrate p.cursor), connection := s.connection.record p.events })
  | some (.walk hydrate w) =>
    let (outcome, w, connection) := w.collect s.database hydrate (s.turnsLeft w + 1) s.connection
    (reply .items outcome, { s with held := some (.walk hydrate w), connection })

/-- Turns the held cursor into a stream, takes all of it and lets it go. -/
def stream (s : Session α) : Reply α × Session α :=
  match s.held with
  | none => (.nothingHeld, s)
  | some (.rows hydrate c) =>
    let p := c.stream hydrate
    (reply .results p.outcome,
      { s with held := none, connection := s.connection.record (p.events ++ p.cursor.drop) })
  | some (.walk ..) => (.noStream, s.letGo)

/-- Closes what is held, and goes on holding it. -/
def close (s : Session α) : Reply α × Session α :=
  match s.held with
  | none => (.nothingHeld, s)
  | some (.rows hydrate c) =>
    let (c, events) := c.close
    (.closed, { s with held := some (.rows hydrate c), connection := s.connection.record events })
  | some (.walk hydrate w) =>
    let (w, events) := w.close
    (.closed, { s with held := some (.walk hydrate w), connection := s.connection.record events })

/-- Makes one call. -/
def perform (s : Session α) : Call α → Reply α × Session α
  | .edit e =>
    match s.query.apply e with
    | .ok q => (.built q.statement, { s with query := q })
    | .error f => (.failed f, s)
  | .rows hydrate => s.openWith hydrate (s.query.rows s.database)
  | .all hydrate => (.opened, s.hold (.walk hydrate (.ofQuery s.database s.query)))
  | .withKeys hydrate keys => s.openWith hydrate (s.query.withKeys s.database keys)
  | .values hydrate => s.openWith hydrate (s.query.values s.database)
  | .keys hydrate => s.openWith hydrate (s.query.keys s.database)
  | .one hydrate => s.run .item (s.query.one s.database hydrate)
  | .value hydrate => s.run .item (s.query.value s.database hydrate)
  | .first hydrate => s.run .item (s.query.first s.database hydrate)
  | .last hydrate => s.run .item (s.query.last s.database hydrate)
  | .withKey hydrate key => s.run .item (s.query.withKey s.database hydrate key)
  | .firstKey hydrate => s.run .item (s.query.firstKey s.database hydrate)
  | .count => s.run .number (s.query.count s.database)
  | .update => s.run .number (s.query.update s.database)
  | .delete => s.run .number (s.query.delete s.database)
  | .has => s.run .truth (s.query.has s.database)
  | .insert => s.run .inserted (s.query.insert s.database)
  | .next => s.next
  | .collect => s.collect
  | .stream => s.stream
  | .close => s.close
  | .drop => (.dropped, s.letGo)
  | .reset => (.reset, { s with query := s.database.query s.query.schema })

/-- Makes calls one after the other. -/
def performAll (s : Session α) : List (Call α) → List (Reply α) × Session α
  | [] => ([], s)
  | call :: rest =>
    let (reply, s) := s.perform call
    let (replies, s) := s.performAll rest
    (reply :: replies, s)

end Session

end TableQuery

/-
Workspaces: any number of open iterators over one backend.

Iterators are opened, pulled from, closed and dropped in any order, each by
its place among those that are open; calls that leave nothing open are made
in between. Every query is given with the call that runs it.
-/
import TableQuery.Session

namespace TableQuery

/-- An open iterator, with the way its rows are hydrated. -/
inductive Handle (α : Type) where
  | rows (hydrate : Hydrator α) (cursor : Cursor)
  /-- A cursor made a stream. A pull that stalls stays with it: the stream
  waits for that pull, and makes no other. -/
  | stream (hydrate : Hydrator α) (cursor : Cursor) (waiting : Bool)
  | walk (hydrate : Hydrator α) (walk : Walk)

namespace Handle

variable {σ α : Type}

/-- The release of what is still open. -/
def drop : Handle α → List Event
  | rows _ c | stream _ c _ => c.drop
  | walk _ w => w.drop

def close : Handle α → Handle α × List Event
  | rows hydrate c => (rows hydrate c.close.1, c.close.2)
  | stream hydrate c waiting => (stream hydrate c waiting, [])
  | walk hydrate w => (walk hydrate w.close.1, w.close.2)

def intoStream : Handle α → Handle α
  | rows hydrate c => stream hydrate c false
  | h => h

/-- Pulls the next row. -/
def next (db : Database σ) (h : Handle α) (c : Connection σ) : Reply α × Handle α × Connection σ :=
  match h with
  | rows hydrate cursor =>
    let p := cursor.next hydrate
    (Session.reply .item p.outcome, rows hydrate p.cursor, c.record p.events)
  | stream hydrate cursor waiting =>
    if waiting then (.stalled, h, c)
    else if cursor.isOver then (.item none, h, c)
    else
      let p := cursor.next hydrate
      (Session.reply .item p.outcome, stream hydrate p.cursor (p.outcome matches .stalled), c.record p.events)
  | walk hydrate w =>
    let (outcome, w, c) := w.next db hydrate c
    (Session.reply .item outcome, walk hydrate w, c)

/-- Collects all that is left, of a walk as long as there is fuel. -/
def collect (db : Database σ) (fuel : Nat) (h : Handle α) (c : Connection σ) :
    Reply α × Handle α × Connection σ :=
  match h with
  | rows hydrate cursor =>
    let p := cursor.collect hydrate
    (Session.reply .items p.outcome, rows hydrate p.cursor, c.record p.events)
  | stream hydrate cursor waiting =>
    if waiting then (.stalled, h, c)
    else
      let p := cursor.stream hydrate
      (Session.reply .results p.outcome, stream hydrate p.cursor (p.outcome matches .stalled), c.record p.events)
  | walk hydrate w =>
    let (outcome, w, c) := w.collect db hydrate fuel c
    (Session.reply .items outcome, walk hydrate w, c)

end Handle

/-- One call on a workspace. -/
inductive Request (α : Type) where
  | rows (q : Query) (hydrate : Hydrator α)
  | withKeys (q : Query) (hydrate : Hydrator α) (keys : List Value)
  | values (q : Query) (hydrate : Hydrator α)
  | keys (q : Query) (hydrate : Hydrator α)
  | all (q : Query) (hydrate : Hydrator α)
  | one (q : Query) (hydrate : Hydrator α)
  | value (q : Query) (hydrate : Hydrator α)
  | first (q : Query) (hydrate : Hydrator α)
  | last (q : Query) (hydrate : Hydrator α)
  | withKey (q : Query) (hydrate : Hydrator α) (key : Value)
  | firstKey (q : Query) (hydrate : Hydrator α)
  | count (q : Query)
  | has (q : Query)
  | insert (q : Query)
  | update (q : Query)
  | delete (q : Query)
  | next (place : Nat)
  | collect (place fuel : Nat)
  | stream (place : Nat)
  | close (place : Nat)
  | drop (place : Nat)

/-- The call makes use of storage and is over with its reply. -/
def Request.isOneShot {α : Type} : Request α → Bool
  | one .. | value .. | first .. | last .. | withKey .. | firstKey .. | count _ | has _ | insert _ | update _
  | delete _ => true
  | _ => false

structure Workspace (σ α : Type) where
  database : Database σ
  handles : List (Handle α)
  connection : Connection σ

namespace Workspace

variable {σ α : Type}

def start (db : Database σ) (state : σ) : Workspace σ α := ⟨db, [], .fresh state⟩

/-- Runs a task that leaves nothing open. -/
def run {β : Type} (w : Workspace σ α) (ok : β → Reply α) (t : Task σ β) : Reply α × Workspace σ α :=
  let (outcome, connection) := t w.connection
  (Session.reply ok outcome, { w with connection })

/-- Runs a task that opens a cursor. -/
def openWith (w : Workspace σ α) (hydrate : Hydrator α) (t : Task σ Cursor) : Reply α × Workspace σ α :=
  match t w.connection with
  | (.ok cursor, connection) =>
    (.opened, { w with handles := w.handles ++ [.rows hydrate cursor], connection })
  | (.failed f, connection) => (.failed f, { w with connection })
  | (.stalled, connection) => (.stalled, { w with connection })

/-- Does something to the iterator at a place. -/
def change (w : Workspace σ α) (place : Nat)
    (f : Handle α → Connection σ → Reply α × Handle α × Connection σ) : Reply α × Workspace σ α :=
  match w.handles[place]? with
  | none => (.nothingHeld, w)
  | some h =>
    let (reply, h, connection) := f h w.connection
    (reply, { w with handles := w.handles.set place h, connection })

/-- Drops the iterator at a place. -/
def drop (w : Workspace σ α) (place : Nat) : Reply α × Workspace σ α :=
  match w.handles[place]? with
  | none => (.nothingHeld, w)
  | some h =>
    (.dropped, { w with handles := w.handles.eraseIdx place, connection := w.connection.record h.drop })

/-- Makes one call. -/
def perform (w : Workspace σ α) : Request α → Reply α × Workspace σ α
  | .rows q hydrate => w.openWith hydrate (q.rows w.database)
  | .withKeys q hydrate keys => w.openWith hydrate (q.withKeys w.database keys)
  | .values q hydrate => w.openWith hydrate (q.values w.database)
  | .keys q hydrate => w.openWith hydrate (q.keys w.database)
  | .all q hydrate => (.opened, { w with handles := w.handles ++ [.walk hydrate (.ofQuery w.database q)] })
  | .one q hydrate => w.run .item (q.one w.database hydrate)
  | .value q hydrate => w.run .item (q.value w.database hydrate)
  | .first q hydrate => w.run .item (q.first w.database hydrate)
  | .last q hydrate => w.run .item (q.last w.database hydrate)
  | .withKey q hydrate key => w.run .item (q.withKey w.database hydrate key)
  | .firstKey q hydrate => w.run .item (q.firstKey w.database hydrate)
  | .count q => w.run .number (q.count w.database)
  | .has q => w.run .truth (q.has w.database)
  | .insert q => w.run .inserted (q.insert w.database)
  | .update q => w.run .number (q.update w.database)
  | .delete q => w.run .number (q.delete w.database)
  | .next place => w.change place (Handle.next w.database)
  | .collect place fuel => w.change place (Handle.collect w.database fuel)
  | .stream place => w.change place fun h c => (.opened, h.intoStream, c)
  | .close place => w.change place fun h c => (.closed, h.close.1, c.record h.close.2)
  | .drop place => w.drop place

/-- Makes calls one after the other. -/
def performAll (w : Workspace σ α) : List (Request α) → Workspace σ α
  | [] => w
  | request :: rest => (w.perform request).2.performAll rest

/-- Drops every iterator that is open. -/
def dropAll (w : Workspace σ α) : Workspace σ α :=
  { w with handles := [], connection := w.connection.record (w.handles.flatMap Handle.drop) }

end Workspace

end TableQuery

/-
Walks: every row a query matches, chunk by chunk.

Each chunk is a selection of its own, with the chunk's size as its limit,
from where the one before ended. The walk ends with the first chunk that
knows of no more rows. A pull makes one fetch at most: a chunk that was just
opened either gives a row or is the last.
-/
import TableQuery.Query.Task

namespace TableQuery

/-- Where a walk stands. -/
inductive WalkStage where
  /-- The next chunk is yet to be opened. -/
  | between
  | reading (chunk : Cursor)
  | finished
deriving DecidableEq, Repr

structure Walk where
  query : Query
  chunkSize : UInt64
  /-- Where the chunk that is read, or opened next, starts. -/
  offset : UInt64
  stage : WalkStage
deriving DecidableEq, Repr

namespace Walk

variable {σ α : Type}

/-- A walk from the query's offset on, in chunks of its limit or of the
settings' size; a chunk has a row at least. -/
def ofQuery (db : Database σ) (q : Query) : Walk :=
  { query := q
    chunkSize := max (q.draft.bounds.limit.getD db.settings.chunkSize) 1
    offset := q.draft.bounds.offset.getD 0
    stage := .between }

/-- The query of the next chunk. -/
def chunkQuery (w : Walk) : Except Fault Query := do
  pure ((← w.query.limit w.chunkSize).offset w.offset)

/-- What follows a chunk that has come to its end. -/
def advance (w : Walk) (chunk : Cursor) : Walk :=
  if chunk.hasMore then { w with stage := .between, offset := w.offset + w.chunkSize }
  else { w with stage := .finished }

/-- Opens the next chunk and pulls its first row. -/
def openChunk (db : Database σ) (hydrate : Hydrator α) (w : Walk) (c : Connection σ) :
    Outcome (Option α) × Walk × Connection σ :=
  match (Task.ofExcept w.chunkQuery >>= fun q => q.rows db) c with
  | (.failed f, c) => (.failed f, w, c)
  | (.stalled, c) => (.stalled, w, c)
  | (.ok chunk, c) =>
    let p := chunk.next hydrate
    let c := c.record p.events
    match p.outcome with
    | .ok none => (.ok none, w.advance p.cursor, c)
    | outcome => (outcome, { w with stage := .reading p.cursor }, c)

/-- Pulls the next row. -/
def next (db : Database σ) (hydrate : Hydrator α) (w : Walk) (c : Connection σ) :
    Outcome (Option α) × Walk × Connection σ :=
  match w.stage with
  | .finished => (.ok none, w, c)
  | .between => w.openChunk db hydrate c
  | .reading chunk =>
    let p := chunk.next hydrate
    let c := c.record p.events
    match p.outcome with
    | .ok none =>
      let w := w.advance p.cursor
      if w.stage = .finished then (.ok none, w, c) else w.openChunk db hydrate c
    | outcome => (outcome, { w with stage := .reading p.cursor }, c)

/-- All rows still to come; a failure or stall ends it, and the rows before
are lost. So does having pulled `fuel` rows. -/
def collect (db : Database σ) (hydrate : Hydrator α) :
    Nat → Walk → Connection σ → Outcome (List α) × Walk × Connection σ
  | 0, w, c => (.stalled, w, c)
  | fuel + 1, w, c =>
    match w.next db hydrate c with
    | (.ok none, w, c) => (.ok [], w, c)
    | (.ok (some a), w, c) =>
      let (rest, w, c) := collect db hydrate fuel w c
      (rest.map (a :: ·), w, c)
    | (.failed f, w, c) => (.failed f, w, c)
    | (.stalled, w, c) => (.stalled, w, c)

/-- The release of a chunk that is still read. -/
def drop (w : Walk) : List Event :=
  match w.stage with
  | .reading chunk => chunk.drop
  | _ => []

/-- Ends the walk and releases the chunk that is read. -/
def close (w : Walk) : Walk × List Event := ({ w with stage := .finished }, w.drop)

end Walk

end TableQuery

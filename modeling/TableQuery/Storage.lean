/-
Storage: what runs statements.

A call to storage answers, fails, or does not come to an answer while it is
waited for; then the wait is given up and what the call was part of ends
there. A fetch opens a source of rows, which is pulled row by row and has to
be released. Everything that happens at storage is recorded as events, in
order, so that "released once" and "pulled after release" are questions
about a list.
-/
import TableQuery.Row
import TableQuery.Sql.Statement

namespace TableQuery

/-- What came of something that may have had to wait for storage. -/
inductive Outcome (α : Type) where
  | ok (a : α)
  | failed (f : Fault)
  /-- No answer came, and the wait was given up. -/
  | stalled
deriving DecidableEq, Repr

namespace Outcome

variable {α β : Type}

def ofExcept : Except Fault α → Outcome α
  | .ok a => .ok a
  | .error f => .failed f

def map (f : α → β) : Outcome α → Outcome β
  | ok a => ok (f a)
  | failed e => failed e
  | stalled => stalled

@[simp] theorem map_ok (f : α → β) (a : α) : (ok a).map f = ok (f a) := rfl

@[simp] theorem map_failed (f : α → β) (e : Fault) : (failed e).map f = failed e := rfl

@[simp] theorem map_stalled (f : α → β) : stalled.map f = stalled := rfl

end Outcome

/-- The rows a fetch gives: the columns, and what each further pull comes to.
After the last of them there are no more rows, however often one asks. -/
structure Feed where
  columns : List String
  pulls : List (Outcome (List Value))
deriving DecidableEq, Repr

/-- An open source of rows, numbered by the fetch that opened it. -/
structure Source where
  id : Nat
  feed : Feed
deriving DecidableEq, Repr

/-- Pulls one row. A stalled pull has used up its turn. -/
def Source.next (s : Source) : Outcome (Option Row) × Source :=
  match s.feed.pulls with
  | [] => (.ok none, s)
  | pull :: rest =>
    (pull.map fun values => some ⟨s.feed.columns, values⟩, { s with feed.pulls := rest })

/-- Something that happened at storage. -/
inductive Event where
  | fetched (statement : Statement) (limitHint : Option UInt64)
  | executed (statement : Statement)
  | opened (id : Nat)
  | pulled (id : Nat)
  | released (id : Nat)
deriving DecidableEq, Repr

namespace Event

def isOpened : Event → Bool
  | opened _ => true
  | _ => false

def isPulled : Event → Bool
  | pulled _ => true
  | _ => false

def isReleased : Event → Bool
  | released _ => true
  | _ => false

/-- A statement was run. -/
def isCall : Event → Bool
  | fetched .. | executed _ => true
  | _ => false

end Event

/-- A backend whose own state is a `σ`. The limit hint is the most rows that
will be pulled. -/
structure Storage (σ : Type) where
  dialect : Dialect
  fetch : Statement → Option UInt64 → σ → Outcome Feed × σ
  execute : Statement → σ → Outcome UInt64 × σ

/-- A backend's state together with what has happened there. -/
structure Connection (σ : Type) where
  state : σ
  events : List Event

namespace Connection

variable {σ : Type}

def fresh (state : σ) : Connection σ := ⟨state, []⟩

def record (c : Connection σ) (events : List Event) : Connection σ :=
  { c with events := c.events ++ events }

/-- The sources opened so far. -/
def opened (c : Connection σ) : Nat := c.events.countP Event.isOpened

/-- The releases so far. -/
def released (c : Connection σ) : Nat := c.events.countP Event.isReleased

end Connection

/-- A computation that uses storage. -/
def Task (σ α : Type) := Connection σ → Outcome α × Connection σ

namespace Task

variable {σ α β : Type}

protected def pure (a : α) : Task σ α := fun c => (.ok a, c)

protected def bind (t : Task σ α) (f : α → Task σ β) : Task σ β := fun c =>
  match t c with
  | (.ok a, c') => f a c'
  | (.failed e, c') => (.failed e, c')
  | (.stalled, c') => (.stalled, c')

instance : Monad (Task σ) where
  pure := Task.pure
  bind := Task.bind

/-- What was decided without storage. -/
def ofExcept (e : Except Fault α) : Task σ α := fun c => (.ofExcept e, c)

end Task

namespace Storage

variable {σ : Type}

/-- Fetches, and opens the source that the answer is. Nothing is tried twice. -/
def openSource (s : Storage σ) (statement : Statement) (limitHint : Option UInt64) :
    Task σ Source := fun c =>
  let (answer, state) := s.fetch statement limitHint c.state
  let id := c.opened
  let c := { c with state }.record [.fetched statement limitHint]
  match answer with
  | .ok feed => (.ok ⟨id, feed⟩, c.record [.opened id])
  | .failed f => (.failed f, c)
  | .stalled => (.stalled, c)

/-- Executes a statement for its effect and gives the number of affected rows. -/
def run (s : Storage σ) (statement : Statement) : Task σ UInt64 := fun c =>
  let (answer, state) := s.execute statement c.state
  (answer, { c with state }.record [.executed statement])

end Storage

/-- A backend that answers from prepared lists, one item a call. When they
have run out, a fetch gives no rows and an execution affects none. -/
structure Script where
  fetches : List (Outcome Feed)
  executes : List (Outcome UInt64)
deriving DecidableEq, Repr

namespace Script

def fetch : Script → Outcome Feed × Script
  | ⟨[], executes⟩ => (.ok ⟨[], []⟩, ⟨[], executes⟩)
  | ⟨answer :: rest, executes⟩ => (answer, ⟨rest, executes⟩)

def execute : Script → Outcome UInt64 × Script
  | ⟨fetches, []⟩ => (.ok 0, ⟨fetches, []⟩)
  | ⟨fetches, answer :: rest⟩ => (answer, ⟨fetches, rest⟩)

def storage (d : Dialect) : Storage Script where
  dialect := d
  fetch := fun _ _ s => s.fetch
  execute := fun _ s => s.execute

end Script

end TableQuery

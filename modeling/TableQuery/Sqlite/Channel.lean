/-
The channel between SQLite and whoever reads its rows.

A fetch starts a worker and waits for its signal. The worker prepares the
statement and signals that it is ready, or why it cannot be. Then it steps the
statement and sends what it gets through a queue of bounded length; it waits
while the queue is full and stops when the statement has ended or failed, when
as many rows are sent as were asked for, or when the reader has let go. The
worker and the reader take turns in any order; `fetch` and `recv` are the
reader's waits, in which the worker runs until there is something to hear.
-/
import TableQuery.Sqlite.Failure
import TableQuery.Storage

namespace TableQuery.Sqlite

/-- What one step of a statement gives: a row, or the failure it ends with. -/
abbrev Step := Except Fault Row

/-- What the worker is about to do. -/
inductive Worker where
  /-- To prepare the statement, which may be refused. -/
  | preparing (refusal? : Option Fault)
  /-- To signal that the statement is ready. -/
  | announcing
  /-- To step the statement. -/
  | stepping
  | sending (row : Row)
  /-- To report a failure: by the signal if it was not given yet, else through the queue. -/
  | failing (f : Fault)
  | stopped
deriving DecidableEq, Repr

inductive Reader where
  /-- Waiting for the signal. -/
  | waiting
  | reading
  /-- It has let go, or its fetch has failed. -/
  | gone
deriving DecidableEq, Repr

structure Channel where
  /-- The most steps the queue holds. -/
  capacity : Nat
  /-- The most rows that are sent. -/
  hint : Option UInt64
  /-- That the statement is ready, or why it is not; given once. -/
  signal : Option (Except Fault Unit)
  queue : List Step
  worker : Worker
  /-- What the statement will still give. -/
  steps : List Step
  /-- The rows sent so far. -/
  sent : Nat
  reader : Reader

/-- What the reader can hear. -/
inductive News where
  | ready
  /-- The fetch has failed. -/
  | refused (f : Fault)
  | step (step : Step)
  /-- The queue is empty, and nothing more will be sent. -/
  | ended
deriving Repr

/-- What a fetch fails with if the worker stops without a signal. -/
def workerStopped : Fault := .execution ⟨.other, none, "sqlite worker stopped"⟩

namespace Channel

/-- The most rows read ahead. -/
def mostAhead : Nat := 64

/-- The channel of a statement that will be prepared, with the steps it will
give, or will not. The queue has room for a row at least, and for no more than
will be taken. -/
def spawn (prepared : Except Failure (List Step)) (limitHint : Option UInt64) : Channel :=
  { capacity := match limitHint with
      | some hint => max 1 (min hint.toNat mostAhead)
      | none => mostAhead
    hint := limitHint
    signal := none
    queue := []
    worker := .preparing <| match prepared with
      | .ok _ => none
      | .error f => some f.toFault
    steps := match prepared with
      | .ok steps => steps
      | .error _ => []
    sent := 0
    reader := .waiting }

/-- As many rows are sent as were asked for. -/
def sentAll (c : Channel) : Bool :=
  match c.hint with
  | some hint => hint.toNat ≤ c.sent
  | none => false

/-- One turn of the worker. -/
def workerTurn (c : Channel) : Channel :=
  match c.worker with
  | .preparing (some f) => { c with worker := .failing f }
  | .preparing none => { c with worker := .announcing }
  | .announcing =>
    if c.reader = .gone then { c with worker := .stopped }
    else { c with signal := some (.ok ()), worker := .stepping }
  | .stepping =>
    if c.sentAll then { c with worker := .stopped }
    else match c.steps with
      | [] => { c with worker := .stopped }
      | .ok row :: rest => { c with worker := .sending row, steps := rest }
      | .error f :: rest => { c with worker := .failing f, steps := rest }
  | .sending row =>
    if c.reader = .gone then { c with worker := .stopped }
    else if c.queue.length < c.capacity then
      { c with queue := c.queue ++ [.ok row], sent := c.sent + 1, worker := .stepping }
    else c
  | .failing f =>
    match c.signal with
    | none => { c with signal := some (.error f), worker := .stopped }
    | some _ =>
      if c.reader = .gone then { c with worker := .stopped }
      else if c.queue.length < c.capacity then
        { c with queue := c.queue ++ [.error f], worker := .stopped }
      else c
  | .stopped => c

/-- The reader lets go: the queue is discarded and nothing more is sent. -/
def release (c : Channel) : Channel := { c with queue := [], reader := .gone }

/-- Looks for something to hear and takes it, without waiting. -/
def hear (c : Channel) : Option News × Channel :=
  match c.reader with
  | .waiting =>
    match c.signal, c.worker with
    | some (.ok ()), _ => (some .ready, { c with reader := .reading })
    | some (.error f), _ => (some (.refused f), c.release)
    -- Never taken, by `Standing.reader`: the worker does not stop without a signal.
    | none, .stopped => (some (.refused workerStopped), c.release)
    | none, _ => (none, c)
  | .reading =>
    match c.queue, c.worker with
    | step :: rest, _ => (some (.step step), { c with queue := rest })
    | [], .stopped => (some .ended, c)
    | [], _ => (none, c)
  | .gone => (none, c)

/-- Fetches a statement: waits for the signal of its worker. -/
def fetch (prepared : Except Failure (List Step)) (limitHint : Option UInt64) : Except Fault Channel :=
  match (spawn prepared limitHint).workerTurn.workerTurn.hear with
  | (some .ready, c) => .ok c
  | (some (.refused f), _) => .error f
  | _ => .error workerStopped

/-- Waits for the next step: looks for it, and lets the worker have two turns
if there is nothing yet. -/
def recv (c : Channel) : Option Step × Channel :=
  match c.hear with
  | (some (.step step), c) => (some step, c)
  | (some _, c) => (none, c)
  | (none, c) =>
    match c.workerTurn.workerTurn.hear with
    | (some (.step step), c) => (some step, c)
    | (_, c) => (none, c)

/-- What the reader gets by taking at most `n` steps; it goes no further than
a failure. -/
def drain : Nat → Channel → List Step
  | 0, _ => []
  | n + 1, c =>
    match c.recv with
    | (none, _) => []
    | (some (.error f), _) => [.error f]
    | (some (.ok row), c) => .ok row :: drain n c

/-- All that the reader gets. -/
def drainAll (c : Channel) : List Step := c.drain (c.queue.length + c.steps.length + 1)

end Channel

end TableQuery.Sqlite

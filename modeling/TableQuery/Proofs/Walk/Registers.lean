/-
A walk kept in separate registers: the chunk that is read, the offset and the
flag that says it is done, each set on its own. A pull is a loop: a round that
opens a chunk, or leaves one, goes round again, and nothing in the loop bounds
the rounds.

`Walk` has one stage for the three, and its pull has no loop. Two rounds make
a pull whatever the backend answers (`registers_pull`), since a chunk that was
just opened is not left with more after it, and any calls do the same to both
(`registers_live`).
-/
import TableQuery.Proofs.Cursor.Registers
import TableQuery.Proofs.Walk.Step

namespace TableQuery

variable {σ α : Type}

structure WalkRegisters where
  query : Query
  chunkSize : UInt64
  /-- Where the chunk that is read, or opened next, starts. -/
  offset : UInt64
  current : Option Cursor
  done : Bool
deriving DecidableEq, Repr

/-- What a round of a pull comes to. -/
inductive Round (σ α : Type) where
  /-- The pull is over. -/
  | ends (outcome : Outcome (Option α)) (r : WalkRegisters) (c : Connection σ)
  | again (r : WalkRegisters) (c : Connection σ)

/-- What happened at storage from one state of a connection to a later one. -/
def Connection.since (c c' : Connection σ) : List Event := c'.events.drop c.events.length

theorem Connection.since_append {c c' : Connection σ} {events : List Event} (h : c'.events = c.events ++ events) :
    c.since c' = events := by
  rw [since, h, List.drop_left]

namespace WalkRegisters

def ofQuery (db : Database σ) (q : Query) : WalkRegisters where
  query := q
  chunkSize := max (q.draft.bounds.limit.getD db.settings.chunkSize) 1
  offset := q.draft.bounds.offset.getD 0
  current := none
  done := false

/-- Forgets a chunk that has come to its end. -/
def leave (r : WalkRegisters) (more : Bool) : WalkRegisters :=
  if more then { r with current := none, offset := r.offset + r.chunkSize }
  else { r with current := none, done := true }

/-- With no chunk to read, opens the next one, unless all are done. -/
def enter (db : Database σ) (r : WalkRegisters) (c : Connection σ) : Round σ α :=
  if r.done then .ends (.ok none) r c else
    let opening := do
      let q ← Task.ofExcept (r.query.limit r.chunkSize)
      (q.offset r.offset).rows db
    match opening c with
    | (.ok chunk, c) => .again { r with current := some chunk } c
    | (.failed f, c) => .ends (.failed f) r c
    | (.stalled, c) => .ends .stalled r c

def round (db : Database σ) (hydrate : Hydrator α) (r : WalkRegisters) (c : Connection σ) : Round σ α :=
  match r.current with
  | none => r.enter db c
  | some chunk =>
    let p := chunk.next hydrate
    let c := c.record p.events
    match p.outcome with
    | .ok none => (r.leave p.cursor.hasMore).enter db c
    | outcome => .ends outcome { r with current := some p.cursor } c

/-- Pulls the next row, in so many rounds at most. -/
def pull (db : Database σ) (hydrate : Hydrator α) :
    Nat → WalkRegisters → Connection σ → Option (Outcome (Option α) × WalkRegisters × Connection σ)
  | 0, _, _ => none
  | rounds + 1, r, c =>
    match r.round db hydrate c with
    | .ends outcome r c => some (outcome, r, c)
    | .again r c => pull db hydrate rounds r c

/-- Closes the chunk that is read, and is done. -/
def close (r : WalkRegisters) : WalkRegisters × List Event :=
  match r.current with
  | some chunk => ({ r with current := none, done := true }, chunk.close.2)
  | none => ({ r with done := true }, [])

/-- Makes calls one after the other, whatever they come to; nothing is said if
a pull takes more rounds than that. -/
def live? (db : Database σ) (hydrate : Hydrator α) (rounds : Nat) :
    List CursorCall → WalkRegisters × Connection σ → Option (Lived (WalkRegisters × Connection σ) α)
  | [], s => some ⟨[], s, []⟩
  | .next :: calls, (r, c) => do
    let (outcome, r, c') ← r.pull db hydrate rounds c
    let rest ← live? db hydrate rounds calls (r, c')
    some ⟨outcome :: rest.outcomes, rest.state, c.since c' ++ rest.events⟩
  | .close :: calls, (r, c) => do
    let (r, events) := r.close
    let rest ← live? db hydrate rounds calls (r, c.record events)
    some ⟨rest.outcomes, rest.state, events ++ rest.events⟩

end WalkRegisters

/-! ## The registers of a walk -/

namespace Walk

/-- A walk with the connection it is on, to be pulled and closed. -/
def keeping (db : Database σ) (hydrate : Hydrator α) : Keeping (Walk × Connection σ) α where
  next s := ((s.1.next db hydrate s.2).1, (s.1.next db hydrate s.2).2, s.2.since (s.1.next db hydrate s.2).2.2)
  close s := ((s.1.close.1, s.2.record s.1.close.2), s.1.close.2)

/-- The chunk that is read. -/
def chunk? (w : Walk) : Option Cursor :=
  match w.stage with
  | .reading chunk => some chunk
  | _ => none

def registers (w : Walk) : WalkRegisters :=
  ⟨w.query, w.chunkSize, w.offset, w.chunk?, decide (w.stage = .finished)⟩

@[simp]
theorem registers_ofQuery (db : Database σ) (q : Query) : (ofQuery db q).registers = .ofQuery db q := rfl

theorem registers_of_finished {w : Walk} (h : w.stage = .finished) :
    w.registers = ⟨w.query, w.chunkSize, w.offset, none, true⟩ := by
  simp only [registers, chunk?, h, decide_true]

theorem registers_of_between {w : Walk} (h : w.stage = .between) :
    w.registers = ⟨w.query, w.chunkSize, w.offset, none, false⟩ := by
  simp [registers, chunk?, h]

theorem registers_of_reading {w : Walk} {chunk : Cursor} (h : w.stage = .reading chunk) :
    w.registers = ⟨w.query, w.chunkSize, w.offset, some chunk, false⟩ := by
  simp [registers, chunk?, h]

/-- To leave the chunk that is read is to advance. -/
theorem registers_advance {w : Walk} {read : Cursor} (h : w.stage = .reading read) (chunk : Cursor) :
    w.registers.leave chunk.hasMore = (w.advance chunk).registers := by
  rw [registers_of_reading h]
  unfold WalkRegisters.leave advance
  split <;> rfl

theorem enter_of_finished (db : Database σ) {w : Walk} (h : w.stage = .finished) (c : Connection σ) :
    (w.registers.enter db c : Round σ α) = .ends (.ok none) w.registers c := by
  rw [registers_of_finished h]
  rfl

theorem enter_of_between (db : Database σ) {w : Walk} (h : w.stage = .between) (c : Connection σ) :
    (w.registers.enter db c : Round σ α) =
      match (Task.ofExcept w.chunkQuery >>= fun q => q.rows db) c with
      | (.ok chunk, c) => .again (w.reading chunk).registers c
      | (.failed f, c) => .ends (.failed f) w.registers c
      | (.stalled, c) => .ends .stalled w.registers c := by
  rw [registers_of_between h, WalkRegisters.enter, chunkQuery]
  cases w.query.limit w.chunkSize <;> rfl

/-- A round that starts at the end of a chunk with more after it opens the next. -/
theorem round_of_opening (db : Database σ) (hydrate : Hydrator α) {w w₁ : Walk} (h : w.opening? = some w₁)
    (c : Connection σ) : w.registers.round db hydrate c = w₁.registers.enter db c := by
  unfold opening? at h
  split at h
  · next hs =>
    cases h
    rw [registers_of_between hs]
    rfl
  · next chunk hs =>
    split at h
    · next hm =>
      cases h
      have hnext := Cursor.next_of_exhausted hydrate (Cursor.phase_of_hasMore hm)
      have hround : w.registers.round db hydrate c = (w.registers.leave chunk.hasMore).enter db c := by
        rw [registers_of_reading hs]
        simp only [WalkRegisters.round, hnext, Connection.record, List.append_nil]
      rw [hround, registers_advance hs]
    · cases h
  · cases h

/-- Any other chunk is pulled from, in one round. -/
theorem round_of_chunk (db : Database σ) (hydrate : Hydrator α) {w : Walk} {chunk : Cursor}
    (h : w.stage = .reading chunk) (hm : chunk.hasMore = false) (c : Connection σ) :
    w.registers.round db hydrate c =
      .ends (chunk.next hydrate).outcome (w.after (chunk.next hydrate)).registers
        (c.record (chunk.next hydrate).events) := by
  have hended : (chunk.next hydrate).outcome = .ok none → (chunk.next hydrate).cursor.hasMore = chunk.hasMore :=
    Cursor.hasMore_of_ended
  rcases hp : chunk.next hydrate with ⟨o, chunk', events⟩
  rw [hp] at hended
  have hgoes : (w.reading chunk').registers = ⟨w.query, w.chunkSize, w.offset, some chunk', false⟩ :=
    registers_of_reading rfl
  have hleave := registers_advance h chunk'
  rw [registers_of_reading h] at hleave ⊢
  cases o with
  | failed f | stalled => simp only [WalkRegisters.round, hp, after, hgoes]
  | ok handed =>
    cases handed with
    | some a => simp only [WalkRegisters.round, hp, after, hgoes]
    | none =>
      have hstage : (w.advance chunk').stage = .finished := by
        rw [advance, (hended rfl).trans hm]
        rfl
      simp only [WalkRegisters.round, hp, hleave, enter_of_finished db hstage, after]

/-- Only a source that was opened makes a chunk. -/
theorem source?_of_rows {db : Database σ} {q : Query} {c c' : Connection σ} {chunk : Cursor}
    (h : q.rows db c = (.ok chunk, c')) : ∃ s, chunk.source? = some s := by
  rcases hf : db.storage.fetch (q.selectStatement .oneMore) q.rowsHint c.state with ⟨answer, state⟩
  rw [Query.rows_eq db q c hf] at h
  cases answer with
  | ok feed =>
    cases h
    exact ⟨_, rfl⟩
  | failed f | stalled => cases h

/-- At the start of a chunk, opening it and one more round make a pull. -/
theorem pull_of_between (db : Database σ) (hydrate : Hydrator α) {w : Walk} (h : w.stage = .between)
    (c : Connection σ) (rounds : Nat) :
    (match (w.registers.enter db c : Round σ α) with
      | .ends outcome r c => some (outcome, r, c)
      | .again r c => r.pull db hydrate (rounds + 1) c) =
      some ((w.openChunk db hydrate c).1, (w.openChunk db hydrate c).2.1.registers,
        (w.openChunk db hydrate c).2.2) := by
  rw [enter_of_between db h]
  unfold openChunk
  rcases hopen : (Task.ofExcept w.chunkQuery >>= fun q => q.rows db) c with ⟨_ | _ | _, c'⟩
  case failed | stalled => rfl
  case ok chunk =>
    obtain ⟨s, hs⟩ : ∃ s, chunk.source? = some s := by
      cases hq : w.chunkQuery with
      | error f =>
        rw [hq] at hopen
        cases hopen
      | ok q =>
        rw [hq] at hopen
        exact source?_of_rows hopen
    have hround := round_of_chunk db hydrate (w := w.reading chunk) rfl (Cursor.hasMore_of_source hs) c'
    simp only [WalkRegisters.pull, hround]
    obtain ⟨o, chunk', events⟩ := chunk.next hydrate
    cases o with
    | failed f | stalled => rfl
    | ok handed => cases handed <;> rfl

/-- **Two rounds make a pull**, and more of them change nothing. -/
theorem registers_pull (db : Database σ) (hydrate : Hydrator α) (rounds : Nat) (w : Walk) (c : Connection σ) :
    w.registers.pull db hydrate (rounds + 2) c =
      some ((w.next db hydrate c).1, (w.next db hydrate c).2.1.registers, (w.next db hydrate c).2.2) := by
  cases ho : w.opening? with
  | some w₁ =>
    rw [next_of_opening db hydrate ho, ← pull_of_between db hydrate (alike_opening ho).2, WalkRegisters.pull,
      round_of_opening db hydrate ho]
  | none =>
    cases hs : w.stage with
    | between => rw [opening?_of_between hs] at ho; cases ho
    | finished =>
      have hround : w.registers.round db hydrate c = .ends (.ok none) w.registers c := by
        rw [← enter_of_finished db hs, registers_of_finished hs]
        rfl
      rw [WalkRegisters.pull, hround, next_finished db hydrate hs]
    | reading chunk =>
      have hm : chunk.hasMore = false := by
        rw [opening?, hs] at ho
        simpa using ho
      rw [WalkRegisters.pull, round_of_chunk db hydrate hs hm, next_of_chunk db hydrate hs hm]

@[simp]
theorem registers_close (w : Walk) : w.registers.close = (w.close.1.registers, w.close.2) := by
  have hclose : w.close.1.registers = ⟨w.query, w.chunkSize, w.offset, none, true⟩ := registers_of_finished rfl
  rw [hclose]
  cases hs : w.stage with
  | between => rw [registers_of_between hs]; simp only [close, drop, hs]; rfl
  | finished => rw [registers_of_finished hs]; simp only [close, drop, hs]; rfl
  | reading chunk =>
    have hdrop : chunk.close.2 = chunk.drop := by
      unfold Cursor.close Cursor.drop Cursor.source?
      cases chunk.phase <;> rfl
    rw [registers_of_reading hs]
    simp only [WalkRegisters.close, close, drop, hs, hdrop]

/-- **The loop lives as the walk does**, with two rounds a pull. -/
theorem registers_live (db : Database σ) (hydrate : Hydrator α) (rounds : Nat) (calls : List CursorCall)
    (w : Walk) (c : Connection σ) :
    WalkRegisters.live? db hydrate (rounds + 2) calls (w.registers, c) =
      some (((keeping db hydrate).live calls (w, c)).map fun s => (s.1.registers, s.2)) := by
  induction calls generalizing w c with
  | nil => rfl
  | cons call calls ih =>
    cases call with
    | next =>
      simp only [WalkRegisters.live?, registers_pull, Option.bind_eq_bind, Option.bind_some, ih]
      rfl
    | close =>
      simp [WalkRegisters.live?, ih]
      rfl

end Walk

end TableQuery

/-
What one pull of a walk can do, said once.

A walk pulls from the chunk it reads, and `after` is where that leaves it. If
the chunk has ended with more to come, or none is read, the same pull opens
the next chunk and pulls from that one (`next_reading`, `openChunk_eq`).
`next_step` says what a pull can come to, and what every pull keeps follows
from it.
-/
import TableQuery.Proofs.Storage.Serving
import TableQuery.Walk

namespace TableQuery

variable {σ α : Type}

/-- The query of a chunk: the query's rows, so many of them, from that offset on. -/
def Query.chunk (q : Query) (size offset : UInt64) : Query :=
  { q with draft.bounds := ⟨some size, some (.offset offset)⟩ }

namespace Walk

/-- The query of the chunk that is read, or opened next. -/
def current (w : Walk) : Query := w.query.chunk w.chunkSize w.offset

/-- The rows from where that chunk starts. -/
def ahead (w : Walk) (rows : List Row) : List Row := w.current.ahead rows

theorem toNat_chunkSize (db : Database σ) (q : Query) :
    (ofQuery db q).chunkSize.toNat = max (q.draft.bounds.limit.getD db.settings.chunkSize).toNat 1 := by
  unfold ofQuery
  generalize q.draft.bounds.limit.getD db.settings.chunkSize = n
  change (if n ≤ 1 then 1 else n).toNat = max n.toNat 1
  have hone : (1 : UInt64).toNat = 1 := rfl
  split
  · next hn =>
    rw [UInt64.le_iff_toNat_le, hone] at hn
    omega
  · next hn =>
    rw [UInt64.le_iff_toNat_le, hone] at hn
    omega

theorem chunkSize_ofQuery (db : Database σ) (q : Query) : (ofQuery db q).chunkSize ≠ 0 := by
  intro h
  have hn := toNat_chunkSize db q
  rw [h, UInt64.toNat_zero] at hn
  omega

theorem chunkSize_pos {w : Walk} (h : w.chunkSize ≠ 0) : 0 < w.chunkSize.toNat :=
  Nat.pos_of_ne_zero fun hz => h (UInt64.toNat_inj.1 hz)

/-- A chunk has a row at least, so its query can be built. -/
theorem chunkQuery_eq {w : Walk} (h : w.chunkSize ≠ 0) : w.chunkQuery = .ok w.current := by
  have hlimit : w.query.draft.bounds.withLimit w.chunkSize =
      .ok { w.query.draft.bounds with limit := some w.chunkSize } := by
    rw [Bounds.withLimit, if_neg h]
  simp only [chunkQuery, Query.limit, hlimit]
  rfl

/-- The walk reading that chunk. -/
def reading (w : Walk) (chunk : Cursor) : Walk := { w with stage := .reading chunk }

/-- The walk after a pull from its chunk. -/
def after (w : Walk) (p : Pulled (Option α)) : Walk :=
  match p.outcome with
  | .ok none => w.advance p.cursor
  | _ => w.reading p.cursor

theorem openChunk_eq (db : Database σ) (hydrate : Hydrator α) {w : Walk} (hw : w.chunkSize ≠ 0)
    (c : Connection σ) {answer : Outcome Feed} {state : σ}
    (h : db.storage.fetch (w.current.selectStatement .oneMore) w.current.rowsHint c.state = (answer, state)) :
    w.openChunk db hydrate c =
      match answer with
      | .ok feed =>
        let p := (Cursor.ofSource ⟨c.opened, feed⟩ w.current.cursorLimit).next hydrate
        (p.outcome, w.after p,
          ⟨state, c.events ++ .fetched (w.current.selectStatement .oneMore) w.current.rowsHint ::
            .opened c.opened :: p.events⟩)
      | .failed f =>
        (.failed f, w, ⟨state, c.events ++ [.fetched (w.current.selectStatement .oneMore) w.current.rowsHint]⟩)
      | .stalled =>
        (.stalled, w, ⟨state, c.events ++ [.fetched (w.current.selectStatement .oneMore) w.current.rowsHint]⟩) := by
  have hopen : (Task.ofExcept w.chunkQuery >>= fun q => q.rows db) c = w.current.rows db c := by
    rw [chunkQuery_eq hw]
    rfl
  unfold openChunk
  rw [hopen, Query.rows_eq db w.current c h]
  cases answer with
  | failed f => rfl
  | stalled => rfl
  | ok feed =>
    simp only [Outcome.map, Connection.record, List.append_assoc, List.cons_append, List.nil_append]
    obtain ⟨o, chunk, events⟩ := (Cursor.ofSource ⟨c.opened, feed⟩ w.current.cursorLimit).next hydrate
    cases o with
    | ok handed => cases handed <;> rfl
    | failed f | stalled => rfl

theorem next_reading (db : Database σ) (hydrate : Hydrator α) {w : Walk} {chunk : Cursor}
    (h : w.stage = .reading chunk) (c : Connection σ) :
    w.next db hydrate c =
      let p := chunk.next hydrate
      if (w.after p).stage = .between then (w.after p).openChunk db hydrate (c.record p.events)
      else (p.outcome, w.after p, c.record p.events) := by
  simp only [next, h]
  obtain ⟨o, chunk', events⟩ := chunk.next hydrate
  cases o with
  | ok handed =>
    cases handed with
    | some a => rfl
    | none =>
      simp only [after, advance]
      split <;> rfl
  | failed f | stalled => rfl

theorem next_between (db : Database σ) (hydrate : Hydrator α) {w : Walk} (h : w.stage = .between)
    (c : Connection σ) : w.next db hydrate c = w.openChunk db hydrate c := by
  simp only [next, h]

theorem next_finished (db : Database σ) (hydrate : Hydrator α) {w : Walk} (h : w.stage = .finished)
    (c : Connection σ) : w.next db hydrate c = (.ok none, w, c) := by
  simp only [next, h]

/-- The query and the size of the chunks stay. -/
structure Alike (w w' : Walk) : Prop where
  query : w'.query = w.query
  chunkSize : w'.chunkSize = w.chunkSize

theorem alike_advance (w : Walk) (chunk : Cursor) : w.Alike (w.advance chunk) := by
  unfold advance
  split <;> exact ⟨rfl, rfl⟩

theorem stage_advance (w : Walk) {chunk : Cursor} (h : chunk.phase = .exhausted false) :
    (w.advance chunk).stage = .finished := by
  simp [advance, Cursor.hasMore, h]

theorem alike_after (w : Walk) (p : Pulled (Option α)) : w.Alike (w.after p) := by
  unfold after
  split
  · exact alike_advance ..
  · exact ⟨rfl, rfl⟩

/-! ## The ways a pull can go -/

/-- The walk at the start of the chunk that the next pull opens, if it opens one. -/
def opening? (w : Walk) : Option Walk :=
  match w.stage with
  | .between => some w
  | .reading chunk => if chunk.hasMore then some (w.advance chunk) else none
  | .finished => none

theorem opening?_of_between {w : Walk} (h : w.stage = .between) : w.opening? = some w := by
  simp only [opening?, h]

theorem advance_of_hasMore {w : Walk} {chunk : Cursor} (h : chunk.hasMore = true) :
    w.advance chunk = { w with stage := .between, offset := w.offset + w.chunkSize } := by
  simp only [advance, h, if_true]

theorem alike_opening {w w₁ : Walk} (h : w.opening? = some w₁) : w.Alike w₁ ∧ w₁.stage = .between := by
  unfold opening? at h
  split at h
  · next hs =>
    cases h
    exact ⟨⟨rfl, rfl⟩, hs⟩
  · split at h
    · next hm =>
      cases h
      exact ⟨alike_advance .., by rw [advance_of_hasMore hm]⟩
    · cases h
  · cases h

/-- A chunk that was left with more after it has been let go before, so only the opening counts. -/
theorem next_of_opening (db : Database σ) (hydrate : Hydrator α) {w w₁ : Walk} (h : w.opening? = some w₁)
    (c : Connection σ) : w.next db hydrate c = w₁.openChunk db hydrate c := by
  unfold opening? at h
  split at h
  · next hs =>
    cases h
    exact next_between db hydrate hs c
  · next chunk hs =>
    split at h
    · next hm =>
      cases h
      have hnext := Cursor.next_of_exhausted hydrate (Cursor.phase_of_hasMore hm)
      have hafter : w.after (chunk.next hydrate) = w.advance chunk := by rw [hnext]; rfl
      have hevents : c.record (chunk.next hydrate).events = c := by
        rw [hnext, Connection.record, List.append_nil]
      have hstage : (w.advance chunk).stage = .between := by rw [advance_of_hasMore hm]
      rw [next_reading db hydrate hs]
      dsimp only
      rw [hafter, hevents, if_pos hstage]
    · cases h
  · cases h

/-- Nothing tells a chunk of more after it but a row that it looked ahead to. -/
theorem after_of_chunk (w : Walk) (hydrate : Hydrator α) {chunk : Cursor} (hm : chunk.hasMore = false) :
    (w.after (chunk.next hydrate)).stage ≠ .between ∧ (w.after (chunk.next hydrate)).offset = w.offset := by
  unfold after
  split
  · next ho =>
    rw [advance, Cursor.hasMore_of_ended ho, hm]
    exact ⟨nofun, rfl⟩
  · exact ⟨nofun, rfl⟩

/-- A chunk that was not left with more after it is pulled from, and no other is opened. -/
theorem next_of_chunk (db : Database σ) (hydrate : Hydrator α) {w : Walk} {chunk : Cursor}
    (h : w.stage = .reading chunk) (hm : chunk.hasMore = false) (c : Connection σ) :
    w.next db hydrate c =
      ((chunk.next hydrate).outcome, w.after (chunk.next hydrate), c.record (chunk.next hydrate).events) := by
  rw [next_reading db hydrate h]
  dsimp only
  rw [if_neg (w.after_of_chunk hydrate hm).1]

/-- What a pull of a walk comes to. -/
inductive NextStep (db : Database σ) (hydrate : Hydrator α) (w : Walk) (c : Connection σ) :
    Outcome (Option α) × Walk × Connection σ → Prop where
  | finished (h : w.stage = .finished) : NextStep db hydrate w c (.ok none, w, c)
  | reads {chunk} (h : w.stage = .reading chunk) (hm : chunk.hasMore = false) :
    NextStep db hydrate w c
      ((chunk.next hydrate).outcome, w.after (chunk.next hydrate), c.record (chunk.next hydrate).events)
  /-- The fetch of the next chunk is not answered with rows, and the walk waits at its start. -/
  | lost {w₁ answer state} (h : w.opening? = some w₁)
    (hf : db.storage.fetch (w₁.current.selectStatement .oneMore) w₁.current.rowsHint c.state = (answer, state))
    (ho : ∀ feed, answer ≠ .ok feed) :
    NextStep db hydrate w c (answer.map fun _ => none, w₁,
      ⟨state, c.events ++ [.fetched (w₁.current.selectStatement .oneMore) w₁.current.rowsHint]⟩)
  | opens {w₁ feed state p} (h : w.opening? = some w₁)
    (hf : db.storage.fetch (w₁.current.selectStatement .oneMore) w₁.current.rowsHint c.state = (.ok feed, state))
    (hp : (Cursor.ofSource ⟨c.opened, feed⟩ w₁.current.cursorLimit).next hydrate = p) :
    NextStep db hydrate w c (p.outcome, w₁.after p,
      ⟨state, c.events ++ .fetched (w₁.current.selectStatement .oneMore) w₁.current.rowsHint ::
        .opened c.opened :: p.events⟩)

theorem next_step (db : Database σ) (hydrate : Hydrator α) {w : Walk} (hw : w.chunkSize ≠ 0)
    (c : Connection σ) : NextStep db hydrate w c (w.next db hydrate c) := by
  cases ho : w.opening? with
  | some w₁ =>
    have hw₁ : w₁.chunkSize ≠ 0 := (alike_opening ho).1.chunkSize ▸ hw
    rcases hf : db.storage.fetch (w₁.current.selectStatement .oneMore) w₁.current.rowsHint c.state with
      ⟨answer, state⟩
    rw [next_of_opening db hydrate ho, openChunk_eq db hydrate hw₁ c hf]
    cases answer with
    | ok feed => exact .opens ho hf rfl
    | failed f | stalled => exact .lost ho hf nofun
  | none =>
    cases hs : w.stage with
    | between => rw [opening?_of_between hs] at ho; cases ho
    | finished => rw [next_finished db hydrate hs]; exact .finished hs
    | reading chunk =>
      have hm : chunk.hasMore = false := by
        rw [opening?, hs] at ho
        simpa using ho
      rw [next_of_chunk db hydrate hs hm]
      exact .reads hs hm

/-! ## What every pull keeps -/

theorem alike_next (db : Database σ) (hydrate : Hydrator α) {w : Walk} (hw : w.chunkSize ≠ 0)
    (c : Connection σ) : w.Alike (w.next db hydrate c).2.1 := by
  have hstep := next_step db hydrate hw c
  generalize w.next db hydrate c = result at hstep
  cases hstep with
  | finished => exact ⟨rfl, rfl⟩
  | reads => exact alike_after ..
  | lost ho => exact (alike_opening ho).1
  | @opens w₁ feed state p ho =>
    have hopening := (alike_opening ho).1
    have hafter := alike_after w₁ p
    exact ⟨hafter.query.trans hopening.query, hafter.chunkSize.trans hopening.chunkSize⟩

/-- A chunk that comes to its end with nothing known after it is the last. -/
theorem finished_of_ended (w : Walk) (hydrate : Hydrator α) {chunk : Cursor} (hm : chunk.hasMore = false)
    (ho : (chunk.next hydrate).outcome = .ok none) : (w.after (chunk.next hydrate)).stage = .finished := by
  rw [after, ho]
  dsimp only
  rw [advance, Cursor.hasMore_of_ended ho, hm]
  rfl

/-- A pull that finds the end finishes the walk. -/
theorem finished_of_next (db : Database σ) (hydrate : Hydrator α) {w : Walk} (hw : w.chunkSize ≠ 0)
    (c : Connection σ) (h : (w.next db hydrate c).1 = .ok none) :
    (w.next db hydrate c).2.1.stage = .finished := by
  have hstep := next_step db hydrate hw c
  generalize w.next db hydrate c = result at h hstep
  cases hstep with
  | finished hs => exact hs
  | reads _ hm => exact finished_of_ended w hydrate hm h
  | @lost w₁ answer state _ _ hlost =>
    cases answer with
    | ok feed => exact absurd rfl (hlost feed)
    | failed f | stalled => cases h
  | @opens w₁ feed state p _ _ hp =>
    subst hp
    exact finished_of_ended w₁ hydrate rfl h

end Walk

end TableQuery

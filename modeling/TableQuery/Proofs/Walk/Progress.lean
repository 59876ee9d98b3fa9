/-
A walk's progress: `Reached rows all k lost` says that the first `k` of all
the rows it is to walk have been read, all but `lost` of them handed out, and
where that leaves the walk.

It is the cursor's progress, carried from chunk to chunk. A chunk that ends
with more to come has read as many rows as its size, so the next one starts
with the row after them (`Reading.advance_more`); one that ends without has
come to the last row, if nothing was lost (`Reading.advance_end`).
-/
import TableQuery.Proofs.Walk.Step

namespace TableQuery

namespace Walk

variable {σ α : Type}

/-- The rows from the table's first to the last one read. -/
def position (w : Walk) : Nat :=
  match w.stage with
  | .reading chunk => w.offset.toNat + chunk.yielded
  | _ => w.offset.toNat

/-- A walk, to be pulled again and again. -/
def puller (db : Database σ) (hydrate : Hydrator α) : Puller (Walk × Connection σ) α where
  pull s := s.1.next db hydrate s.2
  position s := s.1.position

theorem loses_of_stalled {db : Database σ} {hydrate : Hydrator α} {w : Walk} {c : Connection σ}
    (h : (w.next db hydrate c).1 = .stalled) :
    (puller db hydrate).loses (w, c) = decide (w.position < (w.next db hydrate c).2.1.position) := by
  have hpull : ((puller db hydrate).pull (w, c)).1 = .stalled := h
  rw [Puller.loses, hpull]
  rfl

/-- A chunk that starts `start` rows into all of them, got the rows `got` and has read `j` of these. -/
structure Reading (w : Walk) (rows all got : List Row) (chunk : Cursor) (start j lost : Nat) : Prop where
  within : start ≤ all.length
  begins : w.ahead rows = all.drop start
  fetched : Chunk (w.ahead rows) chunk.limit got
  limit : chunk.limit = w.current.cursorLimit
  reached : chunk.Reached got j lost

/-- The first `k` of all the rows have been read, `lost` of them in vain. -/
structure Reached (w : Walk) (rows all : List Row) (k lost : Nat) : Prop where
  within : k ≤ all.length
  between : w.stage = .between → w.ahead rows = all.drop k
  reading : ∀ chunk, w.stage = .reading chunk →
    ∃ got start j, k = start + j ∧ w.Reading rows all got chunk start j lost
  finished : w.stage = .finished → lost = 0 → k = all.length

/-- Only a query without a raw statement has chunks with a limit, which is their size. -/
theorem cursorLimit_current {w : Walk} {l : UInt64} (h : w.current.cursorLimit = some l) :
    l = w.chunkSize ∧ ∀ rows, w.ahead rows = rows.drop w.offset.toNat := by
  have hraw : w.query.draft.raw = none := by
    cases hr : w.query.draft.raw with
    | none => rfl
    | some raw => simp [current, Query.chunk, Query.cursorLimit, hr] at h
  simp only [current, Query.chunk, Query.cursorLimit, hraw, Option.some.injEq] at h
  exact ⟨h.symm, fun rows => by simp [ahead, current, Query.chunk, Query.ahead, hraw, Bounds.offset]⟩

namespace Reading

variable {w : Walk} {rows all got : List Row} {chunk : Cursor} {start j lost : Nat}

theorem length_ahead (h : w.Reading rows all got chunk start j lost) :
    (w.ahead rows).length = all.length - start := by
  rw [h.begins, List.length_drop]

theorem add_le (h : w.Reading rows all got chunk start j lost) : start + j ≤ all.length := by
  have hj := h.reached.within
  have hgot := h.fetched.start.length_le
  have hstart := h.within
  rw [h.length_ahead] at hgot
  omega

theorem getElem?_all (h : w.Reading rows all got chunk start j lost) {r : Row} (hr : got[j]? = some r) :
    all[start + j]? = some r := by
  obtain ⟨rest, hrest⟩ := h.fetched.start
  rw [← List.getElem?_drop, ← h.begins, ← hrest]
  exact List.getElem?_append_left (List.getElem?_eq_some_iff.1 hr).1 ▸ hr

/-- A pull from the chunk moves on in it, and nothing else. -/
theorem pulled (h : w.Reading rows all got chunk start j lost) {chunk' : Cursor} {j' lost' : Nat}
    (hl : chunk'.limit = chunk.limit) (hr : chunk'.Reached got j' lost') :
    w.Reading rows all got chunk' start j' lost' :=
  ⟨h.within, h.begins, hl ▸ h.fetched, hl.trans h.limit, hr⟩

theorem reached_reading (h : w.Reading rows all got chunk start j lost) {chunk' : Cursor} {j' lost' : Nat}
    (hl : chunk'.limit = chunk.limit) (hr : chunk'.Reached got j' lost') :
    (w.reading chunk').Reached rows all (start + j') lost' := by
  have hread := h.pulled hl hr
  exact
    { within := hread.add_le
      between := nofun
      reading := fun chunk₁ h₁ => by
        cases h₁
        exact ⟨got, start, j', rfl, hread.within, hread.begins, hread.fetched, hread.limit, hread.reached⟩
      finished := nofun }

/-- **A chunk with more after it has been read to its size**, and the next one starts there. -/
theorem advance_more (h : w.Reading rows all got chunk start j lost)
    (hR : rows.length < 0x8000000000000000) (hp : chunk.phase = .exhausted true) :
    j = w.chunkSize.toNat ∧ start + j < all.length ∧
      (w.advance chunk).stage = .between ∧ (w.advance chunk).offset.toNat = w.offset.toNat + j ∧
      (w.advance chunk).ahead rows = all.drop (start + j) := by
  obtain ⟨hlimit, hj⟩ : chunk.atLimit ∧ j < got.length := h.reached.ended true hp
  obtain ⟨l, hl, hle⟩ := Cursor.atLimit_iff.1 hlimit
  obtain ⟨hsize, hahead⟩ := cursorLimit_current (h.limit.symm.trans hl)
  have hjl : j = l.toNat := by
    have hbound := h.fetched.bounded l hl
    have hcount := h.reached.counted
    omega
  have hgot := h.fetched.start.length_le
  have hmore : w.advance chunk = { w with stage := .between, offset := w.offset + w.chunkSize } := by
    simp only [advance, Cursor.hasMore, hp, if_true]
  have hlen := h.length_ahead
  have hword : l.toNat = w.chunkSize.toNat := congrArg UInt64.toNat hsize
  -- The table goes on past the chunk, so counting on does not wrap around.
  have hoffset : (w.offset + w.chunkSize).toNat = w.offset.toNat + j := by
    rw [hahead, List.length_drop] at hgot
    rw [UInt64.toNat_add, Nat.mod_eq_of_lt] <;> omega
  refine ⟨hjl.trans hword, by omega, by rw [hmore], by rw [hmore]; exact hoffset, ?_⟩
  have hnext : (w.advance chunk).current.cursorLimit = some l := by
    rw [hmore]
    exact h.limit.symm.trans hl
  rw [(cursorLimit_current hnext).2, hmore]
  dsimp only
  rw [hoffset, ← List.drop_drop, ← hahead, h.begins, List.drop_drop]

/-- **A chunk with nothing after it has come to the last row**, if it lost none. -/
theorem advance_end (h : w.Reading rows all got chunk start j 0) (hw : w.chunkSize ≠ 0)
    (hp : chunk.phase = .exhausted false) :
    start + j = all.length ∧ ∀ l, chunk.limit = some l → (w.ahead rows).length ≤ w.chunkSize.toNat := by
  have hj : j = got.length := h.reached.ended false hp
  have hsize : ∀ l, chunk.limit = some l → l = w.chunkSize ∧ j ≤ l.toNat := fun l hl => by
    have hle := h.reached.limited rfl l hl
    have hlw := (cursorLimit_current (h.limit.symm.trans hl)).1
    have hpos := chunkSize_pos hw
    subst hlw
    exact ⟨rfl, by omega⟩
  have hall : got = w.ahead rows := by
    rcases h.fetched.enough with he | ⟨l, hl, hlt⟩
    · exact he
    · have := (hsize l hl).2
      omega
  have hlen := h.length_ahead
  have hstart := h.within
  rw [← hall] at hlen
  refine ⟨by omega, fun l hl => ?_⟩
  obtain ⟨rfl, hle⟩ := hsize l hl
  rwa [← hall, ← hj]

/-- Where the chunk's end leaves the walk. -/
theorem advance (h : w.Reading rows all got chunk start j lost) (hw : w.chunkSize ≠ 0)
    (hR : rows.length < 0x8000000000000000) {more : Bool} (hp : chunk.phase = .exhausted more) :
    (w.advance chunk).Reached rows all (start + j) lost := by
  cases more with
  | true =>
    obtain ⟨-, -, hstage, -, hahead⟩ := h.advance_more hR hp
    exact
      { within := h.add_le
        between := fun _ => hahead
        reading := fun chunk' hs => by rw [hstage] at hs; cases hs
        finished := fun hs => by rw [hstage] at hs; cases hs }
  | false =>
    have hstage := w.stage_advance hp
    exact
      { within := h.add_le
        between := fun hs => by rw [hstage] at hs; cases hs
        reading := fun chunk' hs => by rw [hstage] at hs; cases hs
        finished := fun _ hl => by subst hl; exact (h.advance_end hw hp).1 }

/-- A pull from the chunk is a step of the walk. -/
theorem after (h : w.Reading rows all got chunk start j lost) (hw : w.chunkSize ≠ 0)
    (hR : rows.length < 0x8000000000000000) (hydrate : Hydrator α) :
    Moves hydrate all (start + j) lost ((Cursor.puller hydrate).loses chunk)
      ((w.after (chunk.next hydrate)).Reached rows all) (chunk.next hydrate).outcome := by
  have hmoves := h.reached.next hydrate
  have hlim := Cursor.limit_next hydrate chunk
  have hend := Cursor.exhausted_of_next hydrate chunk
  generalize chunk.next hydrate = p at hmoves hlim hend
  obtain ⟨o, chunk', events⟩ := p
  cases o with
  | ok handed =>
    cases handed with
    | some a =>
      obtain ⟨r, hget, hread, hnext⟩ := hmoves
      exact ⟨r, h.getElem?_all hget, hread, h.reached_reading hlim hnext⟩
    | none =>
      obtain ⟨more, hp⟩ := hend rfl
      exact (h.pulled hlim hmoves).advance hw hR hp
  | failed f => exact h.reached_reading hlim hmoves
  | stalled =>
    cases hl : (Cursor.puller hydrate).loses chunk with
    | false =>
      have hread : chunk'.Reached got j lost := by rw [hl] at hmoves; exact hmoves
      exact .stays rfl (h.reached_reading hlim hread)
    | true =>
      have hread : chunk'.Reached got (j + 1) (lost + 1) := by rw [hl] at hmoves; exact hmoves
      exact .skips rfl (h.reached_reading hlim hread)

end Reading

theorem position_after {w : Walk} {p : Pulled (Option α)} (h : p.outcome = .stalled) :
    (w.after p).position = w.offset.toNat + p.cursor.yielded := by
  simp only [after, h, reading, position]

/-- Only a chunk that has ended with more after it leaves the walk between two chunks. -/
theorem after_between {w : Walk} {hydrate : Hydrator α} {chunk : Cursor}
    (h : (w.after (chunk.next hydrate)).stage = .between) :
    (chunk.next hydrate).outcome = .ok none ∧ (chunk.next hydrate).cursor.phase = .exhausted true ∧
      w.after (chunk.next hydrate) = w.advance (chunk.next hydrate).cursor := by
  have hend := Cursor.exhausted_of_next hydrate chunk
  generalize chunk.next hydrate = p at h hend
  unfold after at h ⊢
  split at h
  · next ho =>
    obtain ⟨more, hp⟩ := hend ho
    cases more with
    | true => exact ⟨ho, hp, rfl⟩
    | false => simp [advance, Cursor.hasMore, hp] at h
  · cases h

namespace Reached

variable {w : Walk} {rows all : List Row} {k lost : Nat} {db : Database σ}

/-- A new chunk starts where the walk is. -/
theorem reading_ofSource (h : w.Reached rows all k lost) (hb : w.stage = .between)
    (hR : rows.length < 0x8000000000000000)
    (hs : ∀ o, db.storage.Honours rows ((w.query.chunk w.chunkSize o).selectStatement .oneMore))
    {feed : Feed} {state state' : σ} (id : Nat)
    (hf : db.storage.fetch (w.current.selectStatement .oneMore) w.current.rowsHint state = (.ok feed, state')) :
    w.Reading rows all feed.rows (Cursor.ofSource ⟨id, feed⟩ w.current.cursorLimit) k 0 lost where
  within := h.within
  begins := h.between hb
  fetched := Query.chunk_of_honours hR (hs w.offset) hf
  limit := rfl
  reached := (Cursor.reached_ofSource ⟨id, feed⟩ _).of_none

theorem openChunk (h : w.Reached rows all k lost) (hb : w.stage = .between) (hw : w.chunkSize ≠ 0)
    (hR : rows.length < 0x8000000000000000)
    (hs : ∀ o, db.storage.Honours rows ((w.query.chunk w.chunkSize o).selectStatement .oneMore))
    (hydrate : Hydrator α) (c : Connection σ) :
    Moves hydrate all k lost (w.position < (w.openChunk db hydrate c).2.1.position)
      ((w.openChunk db hydrate c).2.1.Reached rows all) (w.openChunk db hydrate c).1 := by
  rcases hf : db.storage.fetch (w.current.selectStatement .oneMore) w.current.rowsHint c.state with ⟨answer, state⟩
  rw [openChunk_eq db hydrate hw c hf]
  cases answer with
  | ok feed =>
    refine ((h.reading_ofSource hb hR hs c.opened hf).after hw hR hydrate).of_stalled fun ho => ?_
    have hposition : w.position = w.offset.toNat := by simp only [position, hb]
    rw [Cursor.loses_of_stalled ho, position_after ho, hposition]
    exact decide_eq_decide.2 (Nat.lt_add_right_iff_pos ..).symm
  | failed f => exact h
  | stalled => exact .stays (decide_eq_false (Nat.lt_irrefl _)) h

/-- **A pull reads the next row and hands it out, or loses it, or changes nothing.** -/
theorem next (h : w.Reached rows all k lost) (hw : w.chunkSize ≠ 0) (hR : rows.length < 0x8000000000000000)
    (hs : ∀ o, db.storage.Honours rows ((w.query.chunk w.chunkSize o).selectStatement .oneMore))
    (hydrate : Hydrator α) (c : Connection σ) :
    Moves hydrate all k lost ((puller db hydrate).loses (w, c)) ((w.next db hydrate c).2.1.Reached rows all)
      (w.next db hydrate c).1 := by
  suffices hmoves : Moves hydrate all k lost (w.position < (w.next db hydrate c).2.1.position)
      ((w.next db hydrate c).2.1.Reached rows all) (w.next db hydrate c).1 from
    hmoves.of_stalled fun ho => (loses_of_stalled ho).symm
  cases hstage : w.stage with
  | finished =>
    rw [next_finished db hydrate hstage]
    exact h
  | between =>
    rw [next_between db hydrate hstage]
    exact h.openChunk hstage hw hR hs hydrate c
  | reading chunk =>
    obtain ⟨got, start, j, rfl, hread⟩ := h.reading chunk hstage
    have hmoves := hread.after hw hR hydrate
    have hposition : w.position = w.offset.toNat + chunk.yielded := by simp only [position, hstage]
    rw [next_reading db hydrate hstage]
    dsimp only
    split
    · next hb =>
      obtain ⟨ho, hp, hadvance⟩ := after_between hb
      have halike := alike_after w (chunk.next hydrate)
      rw [ho] at hmoves
      -- The end of a chunk is no step of its own: the walk is where it was.
      have hend := hread.reached.next hydrate
      rw [ho] at hend
      have hoffset := ((hread.pulled (Cursor.limit_next hydrate chunk) hend).advance_more hR hp).2.2.2.1
      have hstays : (w.after (chunk.next hydrate)).position = w.position := by
        rw [hposition, hread.reached.counted, ← hoffset, ← hadvance, position]
        simp only [hb]
      rw [← hstays]
      exact Reached.openChunk hmoves hb (halike.chunkSize ▸ hw) hR (by rwa [halike.query, halike.chunkSize]) hydrate _
    · refine hmoves.of_stalled fun ho => ?_
      rw [Cursor.loses_of_stalled ho, hposition, position_after ho]
      exact decide_eq_decide.2 (Nat.add_lt_add_iff_left).symm

end Reached

end Walk

end TableQuery

/-
The windows that the chunks of a walk ask for (`Walk.chunk_windows`).

The chunk with the number `i` starts `i` chunk sizes after the walk's start,
and its text says so exactly up to the largest number that SQL has. Numbers
past that are stopped there, so further chunks ask for the same rows as the
one before (`Walk.chunk_windows_stopped`). Of chunks that start past the
largest word nothing is said.
-/
import TableQuery.Proofs.Query.Reach
import TableQuery.Proofs.Storage.Fixed
import TableQuery.Proofs.Walk.Registers

namespace TableQuery

variable {σ α : Type}

/-! ## Statements asked for -/

/-- The statement that a fetch asks for. -/
def Event.statement? : Event → Option Statement
  | fetched statement _ => some statement
  | _ => none

/-- The statements fetched, each with the number of sources that were opened
before it, counting from `k`. -/
def asked : Nat → List Event → List (Nat × Statement)
  | _, [] => []
  | k, e :: events => e.statement?.toList.map (k, ·) ++ asked (k + if e.isOpened then 1 else 0) events

theorem asked_append (k : Nat) (events more : List Event) :
    asked k (events ++ more) = asked k events ++ asked (k + events.countP Event.isOpened) more := by
  induction events generalizing k with
  | nil => rfl
  | cons e events ih =>
    rw [List.cons_append, asked, asked, ih, List.append_assoc, List.countP_cons, Nat.add_assoc,
      Nat.add_comm (events.countP _)]

theorem asked_of_quiet {events : List Event} (h : events.all Event.isQuiet) (k : Nat) : asked k events = [] := by
  induction events with
  | nil => rfl
  | cons e events ih =>
    rw [List.all_cons, Bool.and_eq_true] at h
    cases e with
    | pulled | released => exact ih h.2
    | _ => cases h.1

theorem countP_isOpened_of_quiet {events : List Event} (h : events.all Event.isQuiet) :
    events.countP Event.isOpened = 0 :=
  List.countP_eq_zero.2 fun e he => by
    have hquiet := List.all_eq_true.1 h e he
    cases e with
    | pulled | released => nofun
    | _ => cases hquiet

/-- A source is opened with one fetch, and then read. -/
theorem asked_of_opening {events : List Event} (h : events.all Event.isQuiet) (k : Nat) (statement : Statement)
    (hint : Option UInt64) (id : Nat) :
    asked k (.fetched statement hint :: .opened id :: events) = [(k, statement)] ∧
      (Event.fetched statement hint :: .opened id :: events).countP Event.isOpened = 1 := by
  constructor
  · rw [asked, asked, asked_of_quiet h]
    rfl
  · rw [List.countP_cons, List.countP_cons, countP_isOpened_of_quiet h]
    rfl

/-! ## Chunks by number -/

/-- The query of the chunk with that number, in a walk from `start` on. -/
def Query.nthChunk (q : Query) (size : UInt64) (start i : Nat) : Query := q.chunk size (.ofNat (start + i * size.toNat))

namespace Walk

/-- A walk in which `k` chunks were opened. -/
structure Stands (w : Walk) (q : Query) (size : UInt64) (start k : Nat) : Prop where
  query : w.query = q
  chunkSize : w.chunkSize = size
  between : w.stage = .between → w.offset = .ofNat (start + k * size.toNat)
  /-- The chunk that is read was the last one opened. -/
  reading : ∀ chunk, w.stage = .reading chunk → w.offset + size = .ofNat (start + k * size.toNat)

namespace Stands

variable {w : Walk} {q : Query} {size : UInt64} {start k : Nat} {db : Database σ} {hydrate : Hydrator α}

theorem of_finished (hq : w.query = q) (hs : w.chunkSize = size) (h : w.stage = .finished) :
    w.Stands q size start k :=
  ⟨hq, hs, fun hb => (by rw [h] at hb; cases hb), fun chunk hr => (by rw [h] at hr; cases hr)⟩

theorem opening (h : w.Stands q size start k) {w₁ : Walk} (ho : w.opening? = some w₁) :
    w₁.Stands q size start k ∧ w₁.current = q.nthChunk size start k := by
  obtain ⟨halike, hstage⟩ := alike_opening ho
  have hoffset : w₁.offset = .ofNat (start + k * size.toNat) := by
    unfold opening? at ho
    split at ho
    · next hs =>
      cases ho
      exact h.between hs
    · next chunk hs =>
      split at ho
      · next hm =>
        cases ho
        rw [advance_of_hasMore hm, h.chunkSize]
        exact h.reading chunk hs
      · cases ho
    · cases ho
  have hquery := halike.query.trans h.query
  have hsize := halike.chunkSize.trans h.chunkSize
  refine ⟨⟨hquery, hsize, fun _ => hoffset, fun chunk hr => by rw [hstage] at hr; cases hr⟩, ?_⟩
  rw [current, hquery, hsize, hoffset, Query.nthChunk]

/-- The chunk that is read stays the last one opened. -/
theorem after (hq : w.query = q) (hs : w.chunkSize = size)
    (hoffset : w.offset + size = .ofNat (start + k * size.toNat)) {chunk : Cursor} (hm : chunk.hasMore = false) :
    (w.after (chunk.next hydrate)).Stands q size start k := by
  obtain ⟨hstage, hstays⟩ := w.after_of_chunk hydrate hm
  have halike := alike_after w (chunk.next hydrate)
  exact ⟨halike.query.trans hq, halike.chunkSize.trans hs, fun hb => absurd hb hstage,
    fun _ _ => by rw [hstays, hoffset]⟩

/-- A pull asks for the next chunk or for nothing. -/
theorem next (h : w.Stands q size start k) (hz : size ≠ 0) (db : Database σ) (hydrate : Hydrator α)
    (c : Connection σ) :
    (w.next db hydrate c).2.1.Stands q size start
        (k + (c.since (w.next db hydrate c).2.2).countP Event.isOpened) ∧
      ∀ ask ∈ asked k (c.since (w.next db hydrate c).2.2),
        ask = (k, (q.nthChunk size start k).selectStatement .oneMore) := by
  have hstep := next_step db hydrate (h.chunkSize ▸ hz) c
  generalize w.next db hydrate c = result at hstep
  cases hstep with
  | finished =>
    rw [Connection.since, List.drop_length]
    exact ⟨h, fun _ hask => absurd hask List.not_mem_nil⟩
  | @reads chunk hs hm =>
    have hquiet := chunk.isQuiet_next hydrate
    rw [Connection.since_append rfl, countP_isOpened_of_quiet hquiet, asked_of_quiet hquiet]
    exact ⟨after h.query h.chunkSize (h.reading chunk hs) hm,
      fun _ hask => absurd hask List.not_mem_nil⟩
  | lost ho =>
    obtain ⟨hstands, hcurrent⟩ := h.opening ho
    rw [Connection.since_append rfl, hcurrent]
    exact ⟨hstands, fun _ hask => List.mem_singleton.1 hask⟩
  | @opens w₁ feed state _ ho hf hp =>
    subst hp
    obtain ⟨hstands, hcurrent⟩ := h.opening ho
    have hquiet := (Cursor.ofSource ⟨c.opened, feed⟩ w₁.current.cursorLimit).isQuiet_next hydrate
    obtain ⟨hasks, hcount⟩ :=
      asked_of_opening hquiet k (w₁.current.selectStatement .oneMore) w₁.current.rowsHint c.opened
    rw [Connection.since_append rfl, hasks, hcount]
    refine ⟨after hstands.query hstands.chunkSize ?_ rfl, fun _ hask => hcurrent ▸ List.mem_singleton.1 hask⟩
    rw [hstands.between (alike_opening ho).2, Nat.succ_mul, ← Nat.add_assoc,
      UInt64.ofNat_add (start + k * size.toNat) size.toNat, UInt64.ofNat_toNat]

/-- **Any calls ask for the chunks by number**, however often for each. -/
theorem asked_live (h : w.Stands q size start k) (hz : size ≠ 0) (calls : List CursorCall) (c : Connection σ) :
    ∀ i statement, (i, statement) ∈ asked k ((keeping db hydrate).live calls (w, c)).events →
      statement = (q.nthChunk size start i).selectStatement .oneMore := by
  induction calls generalizing w k c with
  | nil => nofun
  | cons call calls ih =>
    intro i statement hask
    cases call with
    | next =>
      obtain ⟨hstands, hnow⟩ := h.next hz db hydrate c
      rcases List.mem_append.1 (asked_append k .. ▸ hask) with hask | hask
      · cases hnow _ hask
        rfl
      · exact ih hstands _ i statement hask
    | close =>
      have hquiet : w.drop.all Event.isQuiet := by
        unfold drop Cursor.drop
        repeat' split
        all_goals rfl
      have hsplit := asked_append k w.drop ((keeping db hydrate).live calls (w.close.1, c.record w.drop)).events
      rw [asked_of_quiet hquiet, countP_isOpened_of_quiet hquiet] at hsplit
      exact ih (w := w.close.1) (of_finished h.query h.chunkSize rfl) _ i statement (hsplit ▸ hask)

end Stands

theorem stands_ofQuery (db : Database σ) (q : Query) :
    (ofQuery db q).Stands q (ofQuery db q).chunkSize (q.draft.bounds.offset.getD 0).toNat 0 :=
  ⟨rfl, rfl, fun _ => by rw [Nat.zero_mul, Nat.add_zero, UInt64.ofNat_toNat]; rfl, nofun⟩

/-- The numbers of a window with that limit and that offset. -/
def windowOf (limit offset : Nat) : List (Symbol × Int) := [(.LIMIT, limit), (.OFFSET, offset)]

/-- What the text of a chunk says of its window, both numbers stopped where SQL's end. -/
theorem window?_nthChunk {q : Query} (hraw : q.draft.raw = none) (size : UInt64) {start i : Nat}
    (h : start + i * size.toNat < 0x10000000000000000) :
    ((q.nthChunk size start i).selectStatement .oneMore).window? =
      some (windowOf (min (size.toNat + 1) 0x7FFFFFFFFFFFFFFF) (min (start + i * size.toNat) 0x7FFFFFFFFFFFFFFF)) := by
  have hlimit : Query.written (saturate (size.toNat + 1)) = min (size.toNat + 1) 0x7FFFFFFFFFFFFFFF := by
    rw [Query.written, toNat_saturate]
    omega
  have hoffset : Query.written (.ofNat (start + i * size.toNat)) = min (start + i * size.toNat) 0x7FFFFFFFFFFFFFFF := by
    rw [Query.written, UInt64.toNat_ofNat_of_lt' h]
  rw [Query.window?_selectStatement (q := q.nthChunk size start i) hraw, ← hlimit, ← hoffset]
  rfl

/-- **The windows that chunks ask for.** In any calls on the walk of a query
without a raw statement, over any backend, the chunk with the number `i` asks
for a row more than its size from `i` sizes after the start on, with both
numbers stopped where SQL's end, if that start is a word at all. So a later
chunk asks for a larger offset, as long as the earlier one is not at that end. -/
theorem chunk_windows (db : Database σ) (hydrate : Hydrator α) {q : Query} (hraw : q.draft.raw = none)
    (c₀ : Connection σ) (calls : List CursorCall) :
    let start := (q.draft.bounds.offset.getD 0).toNat
    let size := max (q.draft.bounds.limit.getD db.settings.chunkSize).toNat 1
    let asks := asked 0 ((keeping db hydrate).live calls (ofQuery db q, c₀)).events
    (∀ i statement, (i, statement) ∈ asks → start + i * size < 0x10000000000000000 →
      statement.window? =
        some (windowOf (min (size + 1) 0x7FFFFFFFFFFFFFFF) (min (start + i * size) 0x7FFFFFFFFFFFFFFF))) ∧
    ∀ i statement j statement', (i, statement) ∈ asks → (j, statement') ∈ asks → i < j →
      start + j * size < 0x10000000000000000 →
      ∃ l m n, statement.window? = some (windowOf l m) ∧ statement'.window? = some (windowOf l n) ∧
        m ≤ n ∧ (m < n ↔ start + i * size < 0x7FFFFFFFFFFFFFFF) := by
  intro start size asks
  have hsize : (ofQuery db q).chunkSize.toNat = size := toNat_chunkSize db q
  have hwindow : ∀ i statement, (i, statement) ∈ asks → start + i * size < 0x10000000000000000 →
      statement.window? =
        some (windowOf (min (size + 1) 0x7FFFFFFFFFFFFFFF) (min (start + i * size) 0x7FFFFFFFFFFFFFFF)) := fun i statement hask hlt => by
    rw [(stands_ofQuery db q).asked_live (chunkSize_ofQuery db q) calls c₀ i statement hask]
    rw [← hsize] at hlt ⊢
    exact window?_nthChunk hraw _ hlt
  refine ⟨hwindow, fun i statement j statement' hi hj hij hlt => ?_⟩
  have hpos : 0 < size := by omega
  have hstep : i * size + size ≤ j * size := by
    rw [← Nat.succ_mul]
    exact Nat.mul_le_mul_right size hij
  exact ⟨_, _, _, hwindow i statement hi (by omega), hwindow j statement' hj hlt, by omega, by omega⟩

/-- A fetch that stalled is made for the same chunk again. -/
theorem chunk_windows_stalled_fetch :
    let db : Database Script := ⟨Script.storage .sqlite, .default⟩
    let q := { db.query sampleSchema with draft.bounds := ⟨some 1, some (.offset 7)⟩ }
    let rows : Outcome Feed := .ok ⟨["n"], [.ok [.ofInt 1], .ok [.ofInt 2]]⟩
    let life := (keeping db Hydrator.values).live [.next, .next, .next]
      (ofQuery db q, .fresh ⟨[rows, .stalled, rows], []⟩)
    let asks := asked 0 life.events
    q.draft.raw = none ∧ asks.map (·.1) = [0, 1, 1] ∧
      (∀ statement, (0, statement) ∈ asks → statement.window? = some (windowOf 2 7)) ∧
      ∀ statement, (1, statement) ∈ asks → statement.window? = some (windowOf 2 8) := by
  intro db q rows life asks
  have hraw : q.draft.raw = none := rfl
  have hwindow := (chunk_windows db Hydrator.values hraw (.fresh ⟨[rows, .stalled, rows], []⟩)
    [.next, .next, .next]).1
  have hnumbers : asks.map (·.1) = [0, 1, 1] := by decide +kernel
  exact ⟨hraw, hnumbers, fun statement h => hwindow 0 statement h (by decide),
    fun statement h => hwindow 1 statement h (by decide)⟩

/-- From the largest number that SQL has on, two chunks ask for the same rows. -/
theorem chunk_windows_stopped :
    let db : Database Script := ⟨Script.storage .sqlite, .default⟩
    let q := { db.query sampleSchema with draft.bounds := ⟨some 1, some (.offset 0x7FFFFFFFFFFFFFFF)⟩ }
    let rows : Outcome Feed := .ok ⟨["n"], [.ok [.ofInt 1], .ok [.ofInt 2]]⟩
    let life := (keeping db Hydrator.values).live [.next, .next] (ofQuery db q, .fresh ⟨[rows, rows], []⟩)
    let asks := asked 0 life.events
    let same : Statement := ⟨"SELECT \"n\" FROM \"t\" LIMIT 2 OFFSET 9223372036854775807", []⟩
    Query.Reachable sampleSchema db.dialect q ∧ q.draft.raw = none ∧ asks = [(0, same), (1, same)] ∧
      ¬ ∀ i statement, (i, statement) ∈ asks →
        statement.window? = some (windowOf 2 (0x7FFFFFFFFFFFFFFF + i * 1)) := by
  intro db q rows life asks same
  have hasks : asks = [(0, same), (1, same)] := by decide +kernel
  have hsame : same.window? = some (windowOf 2 0x7FFFFFFFFFFFFFFF) := by decide +kernel
  refine ⟨⟨[.limit 1, .offset 0x7FFFFFFFFFFFFFFF], rfl⟩, rfl, hasks, fun h => ?_⟩
  have hmore := h 1 same (by rw [hasks]; exact List.mem_cons_of_mem _ List.mem_cons_self)
  exact absurd (hsame.symm.trans hmore) (by decide)

end Walk

end TableQuery

/-
Draining a walk over a backend that answers, and counting what it fetches.

Each chunk is opened when the rows of the one before have all been handed
out, and by then it is known that there are more. So the number of fetches a
walk still makes is that of the chunks ahead (`toFetch`), one at least, and
every pull that fetches takes one from it (`Steady.next`).
-/
import TableQuery.Proofs.Walk.Progress

namespace TableQuery

variable {σ α : Type}

/-! ## Fetches -/

def Event.isFetched : Event → Bool
  | fetched .. => true
  | _ => false

/-- The fetches so far. -/
def Connection.fetched (c : Connection σ) : Nat := c.events.countP Event.isFetched

/-- Pulling fetches nothing. -/
theorem Cursor.countP_isFetched_next (hydrate : Hydrator α) (chunk : Cursor) :
    (chunk.next hydrate).events.countP Event.isFetched = 0 :=
  List.countP_eq_zero.2 fun e he => by
    have hquiet := List.all_eq_true.1 (chunk.isQuiet_next hydrate) e he
    cases e with
    | pulled | released => nofun
    | _ => cases hquiet

theorem Cursor.fetched_record_next (hydrate : Hydrator α) (chunk : Cursor) (c : Connection σ) :
    (c.record (chunk.next hydrate).events).fetched = c.fetched := by
  simp only [Connection.fetched, Connection.record, List.countP_append, countP_isFetched_next, Nat.add_zero]

namespace Walk

/-- The chunks of `n` rows that so many rows make. -/
def chunks (n rows : Nat) : Nat := (rows + n - 1) / n

theorem chunks_of_pos {n rows : Nat} (hn : 0 < n) (h : 0 < rows) : chunks n rows = 1 + chunks n (rows - n) := by
  unfold chunks
  by_cases hle : rows ≤ n
  · have hone : (rows + n - 1) / n = 1 := by
      rw [show rows + n - 1 = rows - 1 + n by omega, Nat.add_div_right _ hn, Nat.div_eq_of_lt (by omega)]
    have hzero : (rows - n + n - 1) / n = 0 := Nat.div_eq_of_lt (by omega)
    rw [hone, hzero]
  · rw [show rows + n - 1 = rows - n + n - 1 + n by omega, Nat.add_div_right _ hn, Nat.add_comm]

theorem chunks_zero {n : Nat} (hn : 0 < n) : chunks n 0 = 0 := Nat.div_eq_of_lt (by omega)

/-- The fetches a walk still makes, the one of the chunk it reads left out. -/
def toFetch (w : Walk) (rows : List Row) : Nat :=
  match w.stage with
  | .between => max 1 (chunks w.chunkSize.toNat (w.ahead rows).length)
  | .reading _ => chunks w.chunkSize.toNat ((w.ahead rows).length - w.chunkSize.toNat)
  | .finished => 0

/-- The chunk that is read gives rows alone. -/
def Steady (w : Walk) : Prop := ∀ chunk, w.stage = .reading chunk → chunk.Steady

namespace Reading

variable {w : Walk} {rows all got : List Row} {chunk : Cursor} {start j : Nat}

/-- A pull from the chunk comes to something, and leaves as many chunks to fetch as there are after it. -/
theorem after_steady (h : w.Reading rows all got chunk start j 0) (hsteady : chunk.Steady) (hw : w.chunkSize ≠ 0)
    (hR : rows.length < 0x8000000000000000) (hraw : w.query.draft.raw = none) {hydrate : Hydrator α}
    (hread : ∀ r ∈ all, ∃ a, hydrate r = .ok a) :
    (∃ o, (chunk.next hydrate).outcome = .ok o) ∧ (w.after (chunk.next hydrate)).Steady ∧
      (w.after (chunk.next hydrate)).toFetch rows =
        chunks w.chunkSize.toNat ((w.ahead rows).length - w.chunkSize.toNat) := by
  have hn := chunkSize_pos hw
  have hgot : ∀ r ∈ got, ∃ a, hydrate r = .ok a := fun r hr =>
    hread r (List.mem_of_mem_drop (h.begins ▸ h.fetched.start.subset hr))
  obtain ⟨⟨o, ho⟩, hnext⟩ := hsteady.next h.reached hgot
  refine ⟨⟨o, ho⟩, ?_⟩
  have hmoves := h.reached.next hydrate
  have hlim := Cursor.limit_next hydrate chunk
  have hend := Cursor.exhausted_of_next hydrate chunk
  generalize chunk.next hydrate = p at ho hnext hmoves hlim hend
  obtain ⟨o', chunk', events⟩ := p
  dsimp only at ho
  subst ho
  cases o with
  | some a => exact ⟨fun chunk₁ h₁ => (by cases h₁; exact hnext), rfl⟩
  | none =>
    obtain ⟨more, hp⟩ := hend rfl
    have h' : w.Reading rows all got chunk' start j 0 := h.pulled hlim hmoves
    have hlen := h.length_ahead
    change (w.advance chunk').Steady ∧ (w.advance chunk').toFetch rows = _
    cases more with
    | true =>
      obtain ⟨hj, hlt, hstage, -, hahead⟩ := h'.advance_more hR hp
      have hsize : (w.advance chunk').chunkSize = w.chunkSize := (alike_advance w chunk').chunkSize
      refine ⟨fun chunk₁ h₁ => (by rw [hstage] at h₁; cases h₁), ?_⟩
      -- A row is left at least, so there is a chunk to fetch.
      have hleft : 0 < all.length - (start + j) := by omega
      simp only [toFetch, hstage, hsize, hahead, List.length_drop, hlen, ← hj]
      rw [Nat.sub_sub, Nat.max_eq_right]
      rw [chunks_of_pos (hj ▸ hn) hleft]
      exact Nat.le_add_right ..
    | false =>
      have hstage : (w.advance chunk').stage = .finished := w.stage_advance hp
      refine ⟨fun chunk₁ h₁ => (by rw [hstage] at h₁; cases h₁), ?_⟩
      have hlimit : chunk'.limit = some w.chunkSize := by
        rw [h'.limit]
        simp only [current, Query.chunk, Query.cursorLimit, hraw]
      have hall := (h'.advance_end hw hp).2 w.chunkSize hlimit
      simp only [toFetch, hstage]
      rw [Nat.sub_eq_zero_of_le hall, chunks_zero hn]

end Reading

variable {w : Walk} {rows all : List Row} {k : Nat} {db : Database σ} {hydrate : Hydrator α}

/-- Opening a chunk is one of the fetches that were to be made. -/
theorem Reached.openChunk_steady (h : w.Reached rows all k 0) (hb : w.stage = .between) (hw : w.chunkSize ≠ 0)
    (hR : rows.length < 0x8000000000000000) (hraw : w.query.draft.raw = none)
    (hread : ∀ r ∈ all, ∃ a, hydrate r = .ok a)
    (hs : ∀ o, db.storage.Honours rows ((w.query.chunk w.chunkSize o).selectStatement .oneMore))
    (ha : ∀ o, db.storage.Answers ((w.query.chunk w.chunkSize o).selectStatement .oneMore)) (c : Connection σ) :
    (∃ o, (w.openChunk db hydrate c).1 = .ok o) ∧ (w.openChunk db hydrate c).2.1.Steady ∧
      (w.openChunk db hydrate c).2.2.fetched + (w.openChunk db hydrate c).2.1.toFetch rows =
        c.fetched + w.toFetch rows := by
  obtain ⟨feed, state, hf, hsteady⟩ := ha w.offset w.current.rowsHint c.state
  obtain ⟨hok, hafter, hfetch⟩ := (h.reading_ofSource hb hR hs c.opened hf).after_steady
    (Cursor.steady_ofSource (s := ⟨c.opened, feed⟩) hsteady _) hw hR hraw hread
  have hn := chunkSize_pos hw
  rw [openChunk_eq db hydrate hw c hf]
  refine ⟨hok, hafter, ?_⟩
  dsimp only
  have hpull := Cursor.fetched_record_next hydrate (Cursor.ofSource ⟨c.opened, feed⟩ w.current.cursorLimit) c
  simp only [Connection.fetched, Connection.record, List.countP_append, List.countP_cons, Event.isFetched,
    if_true, Bool.false_eq_true, if_false] at hpull ⊢
  have htotal : w.toFetch rows = 1 + chunks w.chunkSize.toNat ((w.ahead rows).length - w.chunkSize.toNat) := by
    simp only [toFetch, hb]
    by_cases hz : (w.ahead rows).length = 0
    · rw [hz, chunks_zero hn, Nat.zero_sub, chunks_zero hn]
      rfl
    · rw [chunks_of_pos hn (Nat.pos_of_ne_zero hz)]
      omega
  rw [hfetch, htotal]
  omega

/-- A pull comes to something, and the fetch it makes is one of those that were to be made. -/
theorem Reached.next_steady (h : w.Reached rows all k 0) (hsteady : w.Steady) (hw : w.chunkSize ≠ 0)
    (hR : rows.length < 0x8000000000000000) (hraw : w.query.draft.raw = none)
    (hread : ∀ r ∈ all, ∃ a, hydrate r = .ok a)
    (hs : ∀ o, db.storage.Honours rows ((w.query.chunk w.chunkSize o).selectStatement .oneMore))
    (ha : ∀ o, db.storage.Answers ((w.query.chunk w.chunkSize o).selectStatement .oneMore)) (c : Connection σ) :
    (∃ o, (w.next db hydrate c).1 = .ok o) ∧ (w.next db hydrate c).2.1.Steady ∧
      (w.next db hydrate c).2.2.fetched + (w.next db hydrate c).2.1.toFetch rows =
        c.fetched + w.toFetch rows := by
  cases hstage : w.stage with
  | finished =>
    rw [next_finished db hydrate hstage]
    exact ⟨⟨none, rfl⟩, hsteady, rfl⟩
  | between =>
    rw [next_between db hydrate hstage]
    exact h.openChunk_steady hstage hw hR hraw hread hs ha c
  | reading chunk =>
    obtain ⟨got, start, j, rfl, hreading⟩ := h.reading chunk hstage
    obtain ⟨⟨o, ho⟩, hafter, hfetch⟩ := hreading.after_steady (hsteady chunk hstage) hw hR hraw hread
    have hpull := Cursor.fetched_record_next hydrate chunk c
    have htotal : w.toFetch rows = (w.after (chunk.next hydrate)).toFetch rows := by
      rw [hfetch]
      simp only [toFetch, hstage]
    rw [next_reading db hydrate hstage, htotal, ← hpull]
    dsimp only
    split
    · next hb =>
      have hmoves := hreading.after hw hR hydrate
      rw [(after_between hb).1] at hmoves
      have halike := alike_after w (chunk.next hydrate)
      exact Reached.openChunk_steady hmoves hb (halike.chunkSize ▸ hw) hR (halike.query ▸ hraw) hread
        (by rwa [halike.query, halike.chunkSize]) (by rwa [halike.query, halike.chunkSize]) _
    · exact ⟨⟨o, ho⟩, hafter, rfl⟩

/-- **Collecting** walks to the last row, and makes the fetches that were to be made. -/
theorem collect_of_reached {f : Row → α} (hf : ∀ r ∈ all, hydrate r = .ok (f r)) (fuel : Nat)
    (hfuel : all.length - k < fuel) (h : w.Reached rows all k 0) (hsteady : w.Steady) (hw : w.chunkSize ≠ 0)
    (hR : rows.length < 0x8000000000000000) (hraw : w.query.draft.raw = none)
    (hs : ∀ o, db.storage.Honours rows ((w.query.chunk w.chunkSize o).selectStatement .oneMore))
    (ha : ∀ o, db.storage.Answers ((w.query.chunk w.chunkSize o).selectStatement .oneMore)) (c : Connection σ) :
    ∃ w' c', w.collect db hydrate fuel c = (.ok ((all.drop k).map f), w', c') ∧ w'.stage = .finished ∧
      c'.fetched = c.fetched + w.toFetch rows := by
  induction fuel generalizing w k c with
  | zero => omega
  | succ fuel ih =>
    obtain ⟨⟨o, ho⟩, hsteady', hfetch⟩ := h.next_steady hsteady hw hR hraw (fun r hr => ⟨f r, hf r hr⟩) hs ha c
    have hmoves := h.next hw hR hs hydrate c
    have halike := alike_next db hydrate hw c
    have hend := finished_of_next db hydrate hw c
    rw [collect]
    generalize w.next db hydrate c = result at ho hsteady' hfetch hmoves halike hend
    obtain ⟨o', w', c'⟩ := result
    dsimp only at ho
    subst ho
    cases o with
    | none =>
      have hstage : w'.stage = .finished := hend rfl
      have hk : k = all.length := Reached.finished hmoves hstage rfl
      refine ⟨w', c', by simp [hk], hstage, ?_⟩
      simpa only [toFetch, hstage, Nat.add_zero] using hfetch
    | some a =>
      obtain ⟨r, hget, hread, hnext⟩ := hmoves
      obtain ⟨hk, rfl⟩ := List.getElem?_eq_some_iff.1 hget
      have hfa : a = f all[k] := Except.ok.inj (hread.symm.trans (hf _ (List.getElem_mem hk)))
      obtain ⟨w'', c'', hcollect, hstage, hcount⟩ := ih (by omega) hnext hsteady' (halike.chunkSize ▸ hw)
        (halike.query ▸ hraw) (by rwa [halike.query, halike.chunkSize]) (by rwa [halike.query, halike.chunkSize]) c'
      refine ⟨w'', c'', ?_, hstage, hcount.trans hfetch⟩
      simp only [hcollect, Outcome.map, List.drop_eq_getElem_cons hk, List.map_cons, hfa]

end Walk

end TableQuery

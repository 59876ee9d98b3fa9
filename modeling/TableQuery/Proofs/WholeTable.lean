/-
Walking a whole table, from end to end: draining the walk of a query over a
fixed list gives every row from the query's offset on, whatever its limit,
which is the size of the chunks alone (`walk_rows`).

An exact multiple of that size costs no fetch more: the row that is read past
a chunk's end tells whether another chunk is to be opened.
-/
import TableQuery.Proofs.Storage.Fixed
import TableQuery.Proofs.Walk.Drain

namespace TableQuery

variable {σ α : Type}

namespace Walk

/-- A walk starts at the query's offset, between two chunks. -/
theorem reached_ofQuery (db : Database σ) (q : Query) (rows : List Row) :
    (ofQuery db q).Reached rows ((ofQuery db q).ahead rows) 0 0 where
  within := Nat.zero_le _
  between _ := rfl
  reading chunk hs := by cases hs
  finished hs := by cases hs

theorem ahead_ofQuery (db : Database σ) {q : Query} (hraw : q.draft.raw = none) (rows : List Row) :
    (ofQuery db q).ahead rows = rows.drop (q.draft.bounds.offset.getD 0).toNat := by
  simp only [ahead, current, Query.chunk, ofQuery, Query.ahead, hraw, Bounds.offset, Option.getD_some]

end Walk

namespace Query

variable {db : Database σ} {q : Query} {rows : List Row}

/-- **The whole table.** Over a backend that gives each selection the rows of a
fixed list that its text asks for, draining the walk of a query gives the
hydrated rows from the query's offset on, each once and in order. It makes as
many fetches as there are chunks in them, one at least, and once it has come
to the end it makes no more. -/
theorem walk_rows (hraw : q.draft.raw = none) (hR : rows.length < 0x8000000000000000)
    {hydrate : Hydrator α} {f : Row → α} (hf : ∀ r ∈ rows, hydrate r = .ok (f r))
    (hs : ∀ o, db.storage.Honours rows ((q.chunk (Walk.ofQuery db q).chunkSize o).selectStatement .oneMore))
    (ha : ∀ o, db.storage.Answers ((q.chunk (Walk.ofQuery db q).chunkSize o).selectStatement .oneMore))
    (c : Connection σ) :
    let start := (q.draft.bounds.offset.getD 0).toNat
    let size := max (q.draft.bounds.limit.getD db.settings.chunkSize).toNat 1
    ∀ fuel, rows.length - start < fuel →
      ∃ w c', (Walk.ofQuery db q).collect db hydrate fuel c = (.ok ((rows.drop start).map f), w, c') ∧
        c'.fetched = c.fetched + max 1 ((rows.length - start + size - 1) / size) ∧
        ∀ c'', w.next db hydrate c'' = (.ok none, w, c'') := by
  intro start size fuel hfuel
  have hahead : (Walk.ofQuery db q).ahead rows = rows.drop start := Walk.ahead_ofQuery db hraw rows
  have hread : ∀ r ∈ (Walk.ofQuery db q).ahead rows, hydrate r = .ok (f r) := fun r hr =>
    hf r (List.mem_of_mem_drop (hahead ▸ hr))
  have hlen : ((Walk.ofQuery db q).ahead rows).length = rows.length - start := by rw [hahead, List.length_drop]
  obtain ⟨w, c', hcollect, hstage, hcount⟩ := Walk.collect_of_reached hread fuel (by omega)
    (Walk.reached_ofQuery db q rows) (fun chunk hs => by cases hs) (Walk.chunkSize_ofQuery db q) hR hraw hs ha c
  have hsize : (Walk.ofQuery db q).chunkSize.toNat = size := Walk.toNat_chunkSize db q
  refine ⟨w, c', ?_, ?_, fun c'' => Walk.next_finished db hydrate hstage c''⟩
  · rw [hcollect, hahead, List.drop_zero]
  · have hfetches : (Walk.ofQuery db q).toFetch rows = max 1 (Walk.chunks size (rows.length - start)) := by
      rw [← hsize, ← hlen]
      rfl
    rw [hcount, hfetches]
    rfl

/-- A chunk size of zero is one row: two rows are left, and two fetches bring them. -/
theorem walk_rows_no_chunk_size :
    let db := { sampleDatabase with settings.chunkSize := 0 }
    let q := { db.query sampleSchema with draft.bounds := ⟨none, some (.offset 1)⟩ }
    q.draft.raw = none ∧ sampleRows.length < 0x8000000000000000 ∧
      ∃ w c', (Walk.ofQuery db q).collect db Hydrator.values 3 (.fresh ()) =
          (.ok [[.ofInt 2], [.ofInt 3]], w, c') ∧
        c'.fetched = 2 ∧ ∀ c'', w.next db Hydrator.values c'' = (.ok none, w, c'') := by
  intro db q
  have hR : sampleRows.length < 0x8000000000000000 := by decide
  have hread : ∀ r ∈ sampleRows, Hydrator.values r = .ok r.values := fun _ _ => rfl
  have hs : ∀ o, db.storage.Honours sampleRows ((q.chunk (Walk.ofQuery db q).chunkSize o).selectStatement .oneMore) :=
    fun _ => Storage.fixed_honours _ _ _ _
  have ha : ∀ o, db.storage.Answers ((q.chunk (Walk.ofQuery db q).chunkSize o).selectStatement .oneMore) :=
    fun _ => Storage.fixed_answers _ _ _ _
  obtain ⟨w, c', hcollect, hcount, hend⟩ := walk_rows rfl hR hread hs ha (.fresh ()) 3 (by decide)
  exact ⟨rfl, hR, w, c', hcollect, hcount.trans (by decide), hend⟩

end Query

end TableQuery

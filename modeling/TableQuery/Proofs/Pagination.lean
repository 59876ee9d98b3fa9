/-
Pagination, from end to end: draining the cursor of a query over a fixed
list gives the rows of the query's window, and the cursor then knows rightly
whether there are rows after them (`collect_rows`).

The window is meant in numbers without bound. On the way to the backend one
more than the limit is asked for, which stops at 2^64 - 1 as the offset of a
page does, and a written number stops at 2^63 - 1. A list has no more rows
than the last of these, so no stop is ever seen.
-/
import TableQuery.Proofs.Query.Reach
import TableQuery.Proofs.Storage.Fixed

namespace TableQuery

namespace Bounds

/-- The window, in numbers without bound. -/
def window (b : Bounds) : RowWindow where
  limit := b.limit.map UInt64.toNat
  offset :=
    match b.start, b.limit with
    | some (.offset n), _ => n.toNat
    | some (.page p), some l => (p.toNat - 1) * l.toNat
    | _, _ => 0

/-- The offset in use is that of the window, stopped at the largest word. -/
theorem offset_eq_window (b : Bounds) :
    (b.offset.getD 0).toNat = min b.window.offset 0xFFFFFFFFFFFFFFFF := by
  have hword : ∀ n : UInt64, n.toNat < 0x10000000000000000 := UInt64.toNat_lt
  obtain ⟨limit, start⟩ := b
  rcases start with _ | n | p
  · rfl
  · have := hword n
    simp only [offset, window, Option.getD_some]
    omega
  · cases limit with
    | none => rfl
    | some l => exact toNat_saturate _

/-- The stop is past the end of any list of rows. -/
theorem drop_offset (b : Bounds) {rows : List Row} (hR : rows.length < 0x8000000000000000) :
    rows.drop (b.offset.getD 0).toNat = rows.drop b.window.offset := by
  rw [b.offset_eq_window]
  by_cases h : b.window.offset ≤ 0xFFFFFFFFFFFFFFFF
  · rw [Nat.min_eq_left h]
  · rw [Nat.min_eq_right (by omega), List.drop_eq_nil_of_le (by omega), List.drop_eq_nil_of_le (by omega)]

theorem offset_add_lt_iff (b : Bounds) {rows : List Row} (hR : rows.length < 0x8000000000000000) (l : Nat) :
    (b.offset.getD 0).toNat + l < rows.length ↔ b.window.offset + l < rows.length := by
  rw [b.offset_eq_window]
  omega

end Bounds

namespace Query

variable {σ α : Type} {db : Database σ} {q : Query} {rows : List Row}

/-- The cursor of a query, opened at a backend that answers. -/
theorem rows_of_answers (hR : rows.length < 0x8000000000000000)
    (hs : db.storage.Honours rows (q.selectStatement .oneMore))
    (ha : db.storage.Answers (q.selectStatement .oneMore)) (c : Connection σ) :
    ∃ source c', q.rows db c = (.ok (Cursor.ofSource source q.cursorLimit), c') ∧
      source.feed.Steady ∧ Chunk (q.ahead rows) q.cursorLimit source.rows := by
  obtain ⟨feed, state, hf, hsteady⟩ := ha q.rowsHint c.state
  exact ⟨⟨c.opened, feed⟩, _, rows_eq db q c hf, hsteady, chunk_of_honours hR hs hf⟩

/-- **Pagination.** Over a backend that gives each selection the rows of a
fixed list that its text asks for, draining the cursor of any reachable query
gives the hydrated rows of the query's window, in order; afterwards it says
that there are more exactly if the list goes on past the window. The offset
that the query itself reports, though it stops at the largest word, passes
over the same rows. -/
theorem collect_rows {s : Schema} (hq : Reachable s db.dialect q) (hraw : q.draft.raw = none)
    (hR : rows.length < 0x8000000000000000) {hydrate : Hydrator α} {f : Row → α}
    (hf : ∀ r ∈ rows, hydrate r = .ok (f r))
    (hs : db.storage.Honours rows (q.selectStatement .oneMore))
    (ha : db.storage.Answers (q.selectStatement .oneMore)) (c : Connection σ) :
    (∃ cursor c', q.rows db c = (.ok cursor, c') ∧
      (cursor.collect hydrate).outcome = .ok ((q.draft.bounds.window.pick rows).map f) ∧
      ((cursor.collect hydrate).cursor.hasMore = true ↔
        ∃ l, q.draft.bounds.limit = some l ∧ q.draft.bounds.window.offset + l.toNat < rows.length)) ∧
    rows.drop (q.draft.bounds.offset.getD 0).toNat = rows.drop q.draft.bounds.window.offset ∧
    ∀ l, (q.draft.bounds.offset.getD 0).toNat + l < rows.length ↔
      q.draft.bounds.window.offset + l < rows.length := by
  have hdrop := q.draft.bounds.drop_offset hR
  have hahead : q.ahead rows = rows.drop q.draft.bounds.window.offset := by
    simp only [ahead, hraw, hdrop]
  have hlimit : q.cursorLimit = q.draft.bounds.limit := by simp only [cursorLimit, hraw]
  refine ⟨?_, hdrop, q.draft.bounds.offset_add_lt_iff hR⟩
  obtain ⟨source, c', hopen, hsteady, hchunk⟩ := rows_of_answers hR hs ha c
  rw [hahead, hlimit] at hchunk
  rw [hlimit] at hopen
  refine ⟨_, c', hopen, ?_⟩
  have hread : ∀ r ∈ source.rows, hydrate r = .ok (f r) := fun r hr =>
    hf r (List.mem_of_mem_drop (hchunk.start.subset hr))
  obtain ⟨n, more, -, hcollect, hn, hphase⟩ := Cursor.collect_of_reached hread
    (Cursor.steady_ofSource hsteady _) (Cursor.reached_ofSource source _)
  have hlim : ((Cursor.ofSource source q.draft.bounds.limit).collect hydrate).cursor.limit =
      q.draft.bounds.limit := Cursor.limit_collect ..
  obtain ⟨hpick, hmore⟩ := hn.exhausted hphase (hlim ▸ hq.bounds.limit)
  rw [hlim, hchunk.pick_eq] at hpick
  rw [hlim, hchunk.lt_length_iff] at hmore
  constructor
  · rw [hcollect, List.drop_zero, hpick]
    rfl
  · rw [Cursor.hasMore, hphase, hmore]
    simp only [List.length_drop]
    constructor <;> rintro ⟨l, hl, hlt⟩ <;> exact ⟨l, hl, by omega⟩

/-- The largest limit there is, from the second row on: what is asked for is stopped twice. -/
theorem collect_rows_largest_limit :
    let q := { sampleDatabase.query sampleSchema with
      draft.bounds := ⟨some 0xFFFFFFFFFFFFFFFF, some (.offset 1)⟩ }
    Reachable sampleSchema sampleDatabase.dialect q ∧ q.draft.raw = none ∧
      sampleRows.length < 0x8000000000000000 ∧
      ∃ cursor c', q.rows sampleDatabase (.fresh ()) = (.ok cursor, c') ∧
        (cursor.collect Hydrator.values).outcome = .ok [[.ofInt 2], [.ofInt 3]] ∧
        (cursor.collect Hydrator.values).cursor.hasMore = false := by
  intro q
  have hq : Reachable sampleSchema sampleDatabase.dialect q :=
    ⟨[.limit 0xFFFFFFFFFFFFFFFF, .offset 1], rfl⟩
  have hR : sampleRows.length < 0x8000000000000000 := by decide
  have hread : ∀ r ∈ sampleRows, Hydrator.values r = .ok r.values := fun _ _ => rfl
  obtain ⟨⟨cursor, c', hopen, hcollect, hmore⟩, -⟩ := collect_rows hq rfl hR hread
    (Storage.fixed_honours _ _ _ _) (Storage.fixed_answers _ _ _ _) (.fresh ())
  refine ⟨hq, rfl, hR, cursor, c', hopen, hcollect, ?_⟩
  rw [Bool.eq_false_iff, ne_eq, hmore]
  rintro ⟨l, hl, hlt⟩
  cases hl
  revert hlt
  decide

end Query

end TableQuery

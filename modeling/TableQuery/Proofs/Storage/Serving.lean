/-
What is assumed of a backend, and what a query's cursor gets from it.

A backend honours windows when a selection gives the rows that the `LIMIT`
and `OFFSET` of its text pick of a fixed list; it may stop once it has given
as many as the hint says will be pulled (`Honours`). From such a backend a
cursor gets the rows ahead of it, all of them or one more than its limit
(`chunk_of_honours`): stopping numbers at 2^63 - 1 or 2^64 - 1 on the way
there makes no difference to a list that has no more than 2^63 - 1 rows.
-/
import TableQuery.Proofs.Cursor.Drain
import TableQuery.Proofs.Query.Window
import TableQuery.Query.Task

namespace TableQuery

variable {σ : Type}

namespace Storage

/-- The rows that a statement's window picks of `rows`, in order; or a start
of them, if it is no shorter than the hint. -/
def Honours (s : Storage σ) (rows : List Row) (statement : Statement) : Prop :=
  ∀ hint state feed state', s.fetch statement hint state = (.ok feed, state') →
    let picked := (RowWindow.ofStatement statement).pick rows
    feed.rows = picked ∨ ∃ n, hint = some n ∧ n.toNat ≤ feed.rows.length ∧ feed.rows <+: picked

/-- A fetch is answered, and with rows alone. -/
def Answers (s : Storage σ) (statement : Statement) : Prop :=
  ∀ hint state, ∃ feed state', s.fetch statement hint state = (.ok feed, state') ∧ feed.Steady

/-- What a fetch comes to, by the backend's answer. -/
theorem openSource_eq (s : Storage σ) (statement : Statement) (hint : Option UInt64) (c : Connection σ)
    {answer : Outcome Feed} {state : σ} (h : s.fetch statement hint c.state = (answer, state)) :
    s.openSource statement hint c =
      (answer.map fun feed => ⟨c.opened, feed⟩,
        ⟨state, c.events ++ .fetched statement hint :: match answer with
          | .ok _ => [.opened c.opened]
          | _ => []⟩) := by
  unfold openSource
  rw [h]
  cases answer <;> simp [Connection.record]

end Storage

namespace Query

/-- The limit that a query's cursor keeps; a raw statement has none. -/
def cursorLimit (q : Query) : Option UInt64 :=
  match q.draft.raw with
  | some _ => none
  | none => q.draft.bounds.limit

/-- The most rows that its cursor pulls. -/
def rowsHint (q : Query) : Option UInt64 := q.cursorLimit.map fun l => saturate (l.toNat + 1)

/-- Opening a query's cursor is one fetch. -/
theorem rows_eq (db : Database σ) (q : Query) (c : Connection σ) {answer : Outcome Feed} {state : σ}
    (h : db.storage.fetch (q.selectStatement .oneMore) q.rowsHint c.state = (answer, state)) :
    q.rows db c =
      (answer.map fun feed => Cursor.ofSource ⟨c.opened, feed⟩ q.cursorLimit,
        ⟨state, c.events ++ .fetched (q.selectStatement .oneMore) q.rowsHint :: match answer with
          | .ok _ => [.opened c.opened]
          | _ => []⟩) := by
  have hopen := db.storage.openSource_eq _ _ c h
  cases hraw : q.draft.raw with
  | some raw =>
    have hs : q.selectStatement .own = q.selectStatement .oneMore := by simp only [selectStatement, hraw]
    simp only [rowsHint, cursorLimit, hraw, Option.map_none] at hopen ⊢
    simp only [rows, hraw, bind, Task.bind, hs, hopen]
    cases answer <;> rfl
  | none =>
    simp only [rowsHint, cursorLimit, hraw] at hopen ⊢
    simp only [rows, hraw, bind, Task.bind, limitFor, hopen]
    cases answer <;> rfl

/-! ## The rows ahead -/

/-- The rows from a query's offset on; for a raw statement, the rows that its text asks for. -/
def ahead (q : Query) (rows : List Row) : List Row :=
  match q.draft.raw with
  | some raw => (RowWindow.ofStatement ⟨raw.sql, raw.params⟩).pick rows
  | none => rows.drop (q.draft.bounds.offset.getD 0).toNat

end Query

/-- What a cursor with a limit needs of the rows ahead: a start of them, and
either all of them or one more than the limit. -/
structure Chunk (ahead : List Row) (limit : Option UInt64) (rows : List Row) : Prop where
  start : rows <+: ahead
  enough : rows = ahead ∨ ∃ l, limit = some l ∧ l.toNat < rows.length
  bounded : ∀ l, limit = some l → rows.length ≤ l.toNat + 1

namespace Chunk

variable {ahead rows : List Row} {limit : Option UInt64}

/-- The rows within the limit are the first rows ahead. -/
theorem pick_eq (h : Chunk ahead limit rows) :
    RowWindow.pick ⟨limit.map UInt64.toNat, 0⟩ rows = RowWindow.pick ⟨limit.map UInt64.toNat, 0⟩ ahead := by
  obtain ⟨rest, rfl⟩ := h.start
  rcases h.enough with he | ⟨l, hl, hlt⟩
  · rw [← he]
  · simp only [RowWindow.pick, hl, Option.map_some, List.drop_zero]
    rw [List.take_append_of_le_length (Nat.le_of_lt hlt)]

/-- There is a row past the limit exactly if there is one ahead. -/
theorem lt_length_iff (h : Chunk ahead limit rows) :
    (∃ l, limit = some l ∧ l.toNat < rows.length) ↔ ∃ l, limit = some l ∧ l.toNat < ahead.length := by
  constructor
  · rintro ⟨l, hl, hlt⟩
    exact ⟨l, hl, Nat.lt_of_lt_of_le hlt h.start.length_le⟩
  · rintro ⟨l, hl, hlt⟩
    rcases h.enough with he | he
    · exact ⟨l, hl, he ▸ hlt⟩
    · exact he

end Chunk

/-- Passing over as many rows as fit in a signed number passes over all of a
list that has no more. -/
theorem drop_written {rows : List Row} (hR : rows.length < 0x8000000000000000) (n : UInt64) :
    rows.drop (Query.written n) = rows.drop n.toNat := by
  by_cases h : n.toNat ≤ 0x7FFFFFFFFFFFFFFF
  · rw [Query.written, Nat.min_eq_left h]
  · have hw : rows.length ≤ Query.written n := by
      rw [Query.written, Nat.min_eq_right (by omega)]
      omega
    rw [List.drop_eq_nil_of_le hw, List.drop_eq_nil_of_le (by omega)]

namespace Query

/-- What the window of a query's text picks: the rows ahead, and with a limit
no more of them than one past it. -/
theorem pick_selectStatement {q : Query} (hraw : q.draft.raw = none) {rows : List Row}
    (hR : rows.length < 0x8000000000000000) :
    (RowWindow.ofStatement (q.selectStatement .oneMore)).pick rows =
      match q.draft.bounds.limit with
      | some l => (q.ahead rows).take (written (saturate (l.toNat + 1)))
      | none => q.ahead rows := by
  have hdrop : rows.drop ((q.draft.bounds.offset.map written).getD 0) =
      rows.drop (q.draft.bounds.offset.getD 0).toNat := by
    cases q.draft.bounds.offset with
    | none => rfl
    | some o => exact drop_written hR o
  rw [ofStatement_selectStatement hraw]
  cases hl : q.draft.bounds.limit <;>
    simp only [RowWindow.pick, limitFor, hl, Option.map_some, Option.map_none, hdrop, ahead, hraw]

/-- **What a query's cursor gets** from a backend that honours windows. -/
theorem chunk_of_honours {db : Database σ} {q : Query} {rows : List Row}
    (hR : rows.length < 0x8000000000000000) (hs : db.storage.Honours rows (q.selectStatement .oneMore))
    {state state' : σ} {feed : Feed}
    (hf : db.storage.fetch (q.selectStatement .oneMore) q.rowsHint state = (.ok feed, state')) :
    Chunk (q.ahead rows) q.cursorLimit feed.rows := by
  have hgive := hs q.rowsHint state feed state' hf
  cases hraw : q.draft.raw with
  | some raw =>
    have hlimit : q.cursorLimit = none := by simp only [cursorLimit, hraw]
    have hpick : (RowWindow.ofStatement (q.selectStatement .oneMore)).pick rows = q.ahead rows := by
      simp only [selectStatement, ahead, hraw]
    rw [hpick, rowsHint, hlimit] at hgive
    obtain he | ⟨n, hn, -⟩ := hgive
    · rw [hlimit, he]
      exact ⟨List.prefix_rfl, .inl rfl, fun l hl => by cases hl⟩
    · cases hn
  | none =>
    have hlimit : q.cursorLimit = q.draft.bounds.limit := by simp only [cursorLimit, hraw]
    have hlen : (q.ahead rows).length ≤ rows.length := by
      simp only [ahead, hraw, List.length_drop]
      omega
    rw [pick_selectStatement hraw hR, rowsHint, hlimit] at hgive
    rw [hlimit]
    cases hl : q.draft.bounds.limit with
    | none =>
      rw [hl] at hgive
      obtain he | ⟨n, hn, -⟩ := hgive
      · rw [he]
        exact ⟨List.prefix_rfl, .inl rfl, fun l hl => by cases hl⟩
      · cases hn
    | some l =>
      -- One past the limit, stopped twice: at what a word holds and at what SQL has.
      have hcap : written (saturate (l.toNat + 1)) = min (l.toNat + 1) 0x7FFFFFFFFFFFFFFF := by
        rw [written, toNat_saturate]
        omega
      simp only [hl, hcap, Option.map_some, Option.some.injEq] at hgive
      have hpre : feed.rows <+: (q.ahead rows).take (min (l.toNat + 1) 0x7FFFFFFFFFFFFFFF) := by
        rcases hgive with he | ⟨n, -, -, hp⟩
        · exact he ▸ List.prefix_rfl
        · exact hp
      have hmost := hpre.length_le
      rw [List.length_take] at hmost
      refine ⟨hpre.trans (List.take_prefix _ _), ?_, fun l' hl' => by cases hl'; omega⟩
      rcases hgive with he | ⟨n, rfl, hn, -⟩
      · by_cases hall : (q.ahead rows).length ≤ l.toNat
        · exact .inl (by rw [he, List.take_of_length_le]; omega)
        · refine .inr ⟨l, rfl, ?_⟩
          rw [he, List.length_take]
          omega
      · rw [toNat_saturate] at hn
        exact .inr ⟨l, rfl, by omega⟩

end Query

end TableQuery

/-
Single rows: a query for one row comes to what the first pull of the query's
cursor comes to (`Query.single_rows`).

The two are run as different statements. The one asks for a single row and
tells the backend so, and its cursor has no limit; the other asks for one row
past the limit and looks there when the limit is one. From a list of fixed rows
both get the first row from the query's offset on, if there is one; a raw
statement is run as it is by both.
-/
import TableQuery.Proofs.KeyHelpers
import TableQuery.Proofs.Pagination

namespace TableQuery

variable {σ α : Type}

/-- What comes of the first of some rows. -/
def Hydrator.head (hydrate : Hydrator α) (rows : List Row) : Outcome (Option α) :=
  match rows.head? with
  | none => .ok none
  | some row => .ofExcept ((hydrate row).map some)

theorem Hydrator.head_cons (hydrate : Hydrator α) (row : Row) (rows : List Row) :
    hydrate.head (row :: rows) = .ofExcept ((hydrate row).map some) := rfl

theorem Hydrator.head_values (rows : List Row) : Hydrator.values.head rows = .ok (rows.head?.map Row.values) := by
  cases rows <;> rfl

theorem Hydrator.head_congr (hydrate : Hydrator α) {rows rows' : List Row} (h : rows.head? = rows'.head?) :
    hydrate.head rows = hydrate.head rows' := by
  simp only [head, h]

/-- The first pull of a steady source, with any limit. -/
theorem Cursor.outcome_next_ofSource (hydrate : Hydrator α) {s : Source} (h : s.feed.Steady)
    (limit : Option UInt64) : ((ofSource s limit).next hydrate).outcome = hydrate.head s.rows := by
  rw [next_of_source rfl]
  have hstep := pull_step hydrate (ofSource s limit) s
  generalize (ofSource s limit).pull hydrate s = p at hstep
  cases hstep with
  | ended hp => rw [Source.rows_nil hp]; rfl
  | unreadable hp hr | row hp hr hl | lastThenEnd hp hr hl | lastThenRow hp hr hl | lastThenFailure hp hr hl =>
    rw [Source.rows_ok hp, Hydrator.head_cons, hr]
    rfl
  | stalled hp | failed hp =>
    obtain ⟨values, hv⟩ := h _ (hp ▸ List.mem_cons_self)
    cases hv
  | lastThenStall hp =>
    obtain ⟨values, hv⟩ := h _ (hp ▸ List.mem_cons_of_mem _ List.mem_cons_self)
    cases hv

/-! ## What backends give -/

namespace Storage

/-- A statement is answered with these rows, or with a start of them that is
no shorter than the hint. -/
def Gives (s : Storage σ) (statement : Statement) (rows : List Row) : Prop :=
  ∀ hint state, ∃ feed state', s.fetch statement hint state = (.ok feed, state') ∧ feed.Steady ∧
    (feed.rows = rows ∨ ∃ n, hint = some n ∧ n.toNat ≤ feed.rows.length ∧ feed.rows <+: rows)

theorem Gives.of_answers {s : Storage σ} {statement : Statement} {rows : List Row} (ha : s.Answers statement)
    (hs : s.Honours rows statement) : s.Gives statement ((RowWindow.ofStatement statement).pick rows) := by
  intro hint state
  obtain ⟨feed, state', hf, hsteady⟩ := ha hint state
  exact ⟨feed, state', hf, hsteady, hs hint state feed state' hf⟩

/-- One row is enough to see what the first is. -/
theorem Gives.head {s : Storage σ} {statement : Statement} {rows : List Row} (h : s.Gives statement rows)
    {hint : Option UInt64} (hhint : hint ≠ some 0) (state : σ) :
    ∃ feed state', s.fetch statement hint state = (.ok feed, state') ∧ feed.Steady ∧
      feed.rows.head? = rows.head? := by
  obtain ⟨feed, state', hf, hsteady, hrows⟩ := h hint state
  refine ⟨feed, state', hf, hsteady, ?_⟩
  rcases hrows with hrows | ⟨n, rfl, hn, rest, hrest⟩
  · rw [hrows]
  · have hzero : n.toNat ≠ 0 := fun hz => hhint (congrArg some (UInt64.toNat_inj.1 hz))
    have hne : feed.rows ≠ [] := fun hnil => hzero (Nat.le_zero.1 (by rwa [hnil] at hn))
    rw [← hrest, List.head?_append_of_ne_nil _ hne]

end Storage

/-- Selections of a query are answered from a list, with the rows that the window
of their text picks; a raw statement is always answered with the same list. -/
def Database.Serves (db : Database σ) (q : Query) (rows given : List Row) : Prop :=
  ∀ e, db.storage.Gives (q.selectStatement e) <|
    match q.draft.raw with
    | some _ => given
    | none => (RowWindow.ofStatement (q.selectStatement e)).pick rows

namespace Query

/-- What the first pull of a cursor comes to that is opened so. -/
def firstPull (opening : Task σ Cursor) (hydrate : Hydrator α) (c : Connection σ) : Outcome (Option α) :=
  match opening c with
  | (.ok cursor, _) => (cursor.next hydrate).outcome
  | (.failed f, _) => .failed f
  | (.stalled, _) => .stalled

/-- Where a check fails, no cursor is opened. -/
theorem firstPull_ofExcept {β : Type} (check : Except Fault β) (opening : β → Task σ Cursor) (hydrate : Hydrator α)
    (c : Connection σ) :
    firstPull (Task.ofExcept check >>= opening) hydrate c =
      match check with
      | .ok b => firstPull (opening b) hydrate c
      | .error f => .failed f := by
  cases check <;> rfl

variable {db : Database σ} {q : Query} {rows given : List Row}

theorem outcome_firstRow (hydrate : Hydrator α) {statement : Statement} (h : db.storage.Gives statement rows)
    (c : Connection σ) : (firstRow db hydrate statement c).1 = hydrate.head rows := by
  have hhint : (some 1 : Option UInt64) ≠ some 0 := by decide
  obtain ⟨feed, state, hf, hsteady, hhead⟩ := h.head hhint c.state
  have hpull := Cursor.outcome_next_ofSource hydrate (s := ⟨c.opened, feed⟩) hsteady none
  simp only [firstRow, bind, Task.bind, db.storage.openSource_eq _ _ c hf, Outcome.map_ok, pullOne]
  exact hpull.trans (hydrate.head_congr hhead)

theorem rowsHint_ne_zero (q : Query) : q.rowsHint ≠ some 0 := fun h => by
  obtain ⟨l, -, hl⟩ := Option.map_eq_some_iff.1 h
  have hcap := toNat_saturate (l.toNat + 1)
  rw [hl] at hcap
  have : (0 : UInt64).toNat = 0 := rfl
  omega

theorem firstPull_rows (hydrate : Hydrator α) (h : db.storage.Gives (q.selectStatement .oneMore) rows)
    (c : Connection σ) : firstPull (q.rows db) hydrate c = hydrate.head rows := by
  obtain ⟨feed, state, hf, hsteady, hhead⟩ := h.head q.rowsHint_ne_zero c.state
  have hpull := Cursor.outcome_next_ofSource hydrate (s := ⟨c.opened, feed⟩) hsteady q.cursorLimit
  simpa [firstPull, rows_eq db q c hf] using hpull.trans (hydrate.head_congr hhead)

/-- The first row that a selection's window picks is the first from the query's
offset on, however many it asks for after that. -/
theorem head?_pick_selectStatement (hraw : q.draft.raw = none) {e : Extent} (he : q.limitFor e ≠ some 0)
    (hR : rows.length < 0x8000000000000000) :
    ((RowWindow.ofStatement (q.selectStatement e)).pick rows).head? =
      (rows.drop q.draft.bounds.window.offset).head? := by
  have hdrop : rows.drop ((q.draft.bounds.offset.map written).getD 0) = rows.drop q.draft.bounds.window.offset := by
    rw [← q.draft.bounds.drop_offset hR]
    cases q.draft.bounds.offset with
    | none => rfl
    | some o => exact drop_written hR o
  rw [ofStatement_selectStatement hraw, RowWindow.pick, hdrop]
  cases hl : q.limitFor e with
  | none => rfl
  | some l =>
    have hpos : written l ≠ 0 := fun hz => he <| hl.trans <| congrArg some <| UInt64.toNat_inj.1 <|
      (Nat.min_eq_zero_iff.1 hz).resolve_right (by decide)
    exact List.head?_take.trans (if_neg hpos)

theorem outcome_has (db : Database σ) (q : Query) (c : Connection σ) :
    (q.has db c).1 = (q.one db Hydrator.values c).1.map Option.isSome := by
  simp only [has, bind, Task.bind]
  rcases q.one db Hydrator.values c with ⟨_ | _ | _, c'⟩ <;> rfl

/-- A query for one row and the first pull of its cursor come to what the first row ahead is hydrated to. -/
theorem one_of_serves (hydrate : Hydrator α) (hR : rows.length < 0x8000000000000000) (hs : db.Serves q rows given)
    (c c' : Connection σ) :
    let first := hydrate.head <|
      match q.draft.raw with
      | some _ => given
      | none => rows.drop q.draft.bounds.window.offset
    (q.one db hydrate c).1 = first ∧ firstPull (q.rows db) hydrate c' = first := by
  have hone := outcome_firstRow hydrate (hs .single) c
  have hpull := firstPull_rows hydrate (hs .oneMore) c'
  cases hraw : q.draft.raw with
  | some raw =>
    rw [hraw] at hone hpull
    exact ⟨hone, hpull⟩
  | none =>
    rw [hraw] at hone hpull
    have hsingle : q.limitFor .single ≠ some 0 := show (some 1 : Option UInt64) ≠ some 0 by decide
    have hmore : q.limitFor .oneMore ≠ some 0 := by
      simpa only [rowsHint, cursorLimit, hraw, limitFor] using q.rowsHint_ne_zero
    exact ⟨hone.trans (hydrate.head_congr (head?_pick_selectStatement hraw hsingle hR)),
      hpull.trans (hydrate.head_congr (head?_pick_selectStatement hraw hmore hR))⟩

/-- **A single row is the first that the cursor gives.** From a backend that
answers the query's selections from a fixed list, whatever is projected:

* a query for one row comes to what the first pull of its cursor comes to, and
  this is what the first row from the window's start on is hydrated to;
* there is a row exactly if the first pull of the bare values gives one;
* a single value is the first pull of the selected values, and the first key
  the first pull of the keys; where one is refused, so is the other. -/
theorem single_rows (hydrate : Hydrator α) (hR : rows.length < 0x8000000000000000)
    (hs : ∀ projection, db.Serves { q with draft.projection := projection } rows given) (c c' : Connection σ) :
    let ahead := match q.draft.raw with
      | some _ => given
      | none => rows.drop q.draft.bounds.window.offset
    (q.one db hydrate c).1 = firstPull (q.rows db) hydrate c' ∧
    (q.one db hydrate c).1 = hydrate.head ahead ∧
    (∃ b, (q.has db c).1 = .ok b ∧
      (b ↔ ∃ values, firstPull (q.rows db) Hydrator.values c' = .ok (some values))) ∧
    (q.value db hydrate c).1 = firstPull (q.values db) hydrate c' ∧
    (q.firstKey db hydrate c).1 = firstPull (q.keys db) hydrate c' := by
  intro ahead
  obtain ⟨hone, hpull⟩ := one_of_serves hydrate hR (hs q.draft.projection) c c'
  refine ⟨hone.trans hpull.symm, hone, ?_, ?_, ?_⟩
  · obtain ⟨hone, hpull⟩ := one_of_serves Hydrator.values hR (hs q.draft.projection) c c'
    rw [Hydrator.head_values] at hone hpull
    refine ⟨_, (outcome_has db q c).trans (congrArg _ hone), ?_⟩
    rw [hpull, Option.isSome_iff_exists]
    simp only [Outcome.ok.injEq]
  · unfold value values
    rw [firstPull_ofExcept]
    cases q.requireSelection with
    | error f => rfl
    | ok u => exact hone.trans hpull.symm
  · unfold firstKey keys
    rw [firstPull_ofExcept]
    cases hkey : q.schema.key? with
    | none =>
      rw [selectKey_of_keyless hkey]
      rfl
    | some key =>
      rw [selectKey_eq_ok hkey]
      obtain ⟨hone, hpull⟩ := one_of_serves (q := q.reading key.name) hydrate hR (hs _) c c'
      exact hone.trans hpull.symm

/-- The third page of one row: the cursor asks for two rows and the query for one. -/
theorem single_rows_last_page :
    let q := { sampleDatabase.query sampleSchema with draft.bounds := ⟨some 1, some (.page 3)⟩ }
    Reachable sampleSchema sampleDatabase.dialect q ∧ sampleRows.length < 0x8000000000000000 ∧
      (∀ projection, sampleDatabase.Serves { q with draft.projection := projection } sampleRows []) ∧
      (q.selectStatement .single).sql = "SELECT \"n\" FROM \"t\" LIMIT 1 OFFSET 2" ∧
      (q.selectStatement .oneMore).sql = "SELECT \"n\" FROM \"t\" LIMIT 2 OFFSET 2" ∧
      (q.one sampleDatabase Hydrator.values (.fresh ())).1 = .ok (some [.ofInt 3]) ∧
      firstPull (q.rows sampleDatabase) Hydrator.values (.fresh ()) = .ok (some [.ofInt 3]) := by
  intro q
  have hq : Reachable sampleSchema sampleDatabase.dialect q := ⟨[.limit 1, .page 3], rfl⟩
  have hR : sampleRows.length < 0x8000000000000000 := by decide
  have hs : ∀ projection, sampleDatabase.Serves { q with draft.projection := projection } sampleRows [] :=
    fun _ _ => .of_answers (Storage.fixed_answers _ _ _ _) (Storage.fixed_honours _ _ _ _)
  obtain ⟨hpull, hone, -⟩ := single_rows Hydrator.values hR hs (.fresh ()) (.fresh ())
  exact ⟨hq, hR, hs, by decide, by decide, hone, hpull.symm.trans hone⟩

end Query

end TableQuery

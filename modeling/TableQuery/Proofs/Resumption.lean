/-
The pulls of a walk are bounded and can be resumed (`Walk.resumable`), over a
backend that may fail or stall at any call.

A pull can be cut short at a fetch or at a read, with the offset moved on, a
chunk left or a chunk held by then. At a fetch the walk waits between two
chunks, and the next pull makes the fetch again; at a read the chunk is held,
and when it has failed it refuses from then on. Only a chunk that knows of no
more rows ends a walk, and nothing leaves that end.
-/
import TableQuery.Proofs.LifeCycle
import TableQuery.Proofs.Storage.Fixed
import TableQuery.Proofs.Walk.Drain
import TableQuery.Proofs.Walk.Registers

namespace TableQuery

variable {σ α : Type}

namespace Cursor

theorem unclosed_ofSource (s : Source) (limit : Option UInt64) : (ofSource s limit).stage ≠ .closed := nofun

theorem unclosed_next (hydrate : Hydrator α) {c : Cursor} (h : c.stage ≠ .closed) :
    (c.next hydrate).cursor.stage ≠ .closed := by
  cases hs : c.source? with
  | some s => rcases stage_pull hydrate hs with hn | hn | hn <;> rw [hn] <;> nofun
  | none => rwa [stage_idle hydrate hs]

/-- A failure that is given out leaves nothing to give out. -/
theorem phase_of_failed (hydrate : Hydrator α) {c : Cursor} (h : c.stage ≠ .closed) {f : Fault}
    (ho : (c.next hydrate).outcome = .failed f) : (c.next hydrate).cursor.phase = .failed none := by
  cases hs : c.source? with
  | some s =>
    rw [next_of_source hs] at ho ⊢
    have hstep := pull_step hydrate c s
    generalize c.pull hydrate s = p at ho hstep
    cases hstep with
    | failed | unreadable => rfl
    | _ => cases ho
  | none =>
    unfold source? at hs
    unfold stage at h
    unfold next at ho ⊢
    split at ho <;> simp_all

end Cursor

namespace Walk

variable {db : Database σ} {hydrate : Hydrator α} {w : Walk}

/-- Every pull from now on gives nothing, and no call changes anything, at storage or in the walk. -/
def Ended (db : Database σ) (hydrate : Hydrator α) (w : Walk) : Prop :=
  ∀ calls c, (keeping db hydrate).live calls (w, c) = ⟨.replicate (CursorCall.pulls calls) (.ok none), (w, c), []⟩

/-- Every pull is refused until the walk is closed, and changes nothing, at storage or in the walk. -/
def Refuses (db : Database σ) (hydrate : Hydrator α) (w : Walk) : Prop :=
  ∀ n c, (keeping db hydrate).live (.replicate n .next) (w, c) =
    ⟨.replicate n (.failed .cursorFailed), (w, c), []⟩

theorem ended_of_finished (h : w.stage = .finished) : w.Ended db hydrate := fun calls c => by
  have hnext : (keeping db hydrate).next (w, c) = (.ok none, (w, c), []) := by
    simp only [keeping, next_finished db hydrate h, Connection.since, List.drop_length]
  have hclose : (keeping db hydrate).close (w, c) = ((w, c), []) := by
    have hstays : { w with stage := .finished } = w := by rw [← h]
    simp only [keeping, close, drop, h, hstays, Connection.record, List.append_nil]
  exact Keeping.live_of_still hnext hclose calls

theorem refuses_of_failed {chunk : Cursor} (h : w.stage = .reading chunk) (hp : chunk.phase = .failed none) :
    w.Refuses db hydrate := fun n c => by
  have hm : chunk.hasMore = false := by simp only [Cursor.hasMore, hp]
  have hstays : w.reading chunk = w := by rw [reading, ← h]
  have hnext : w.next db hydrate c = (.failed .cursorFailed, w, c) := by
    rw [next_of_chunk db hydrate h hm, Cursor.next_of_failed hydrate hp]
    simp only [after, hstays, Connection.record, List.append_nil]
  refine Keeping.live_pulls_of_still ?_ n
  simp only [keeping, hnext, Connection.since, List.drop_length]

/-- A chunk that fails a pull refuses all others, as long as the walk keeps it. -/
theorem refuses_after {chunk : Cursor} (h : chunk.stage ≠ .closed) {f : Fault}
    (ho : (chunk.next hydrate).outcome = .failed f) : (w.after (chunk.next hydrate)).Refuses db hydrate := by
  have hafter : (w.after (chunk.next hydrate)).stage = .reading (chunk.next hydrate).cursor := by
    rw [after, ho]
    rfl
  exact refuses_of_failed hafter (Cursor.phase_of_failed hydrate h ho)

/-! ## Between calls -/

/-- A chunk has a row at least, and the one that is read has not been closed. -/
structure Intact (w : Walk) : Prop where
  chunkSize : w.chunkSize ≠ 0
  unclosed : ∀ chunk, w.stage = .reading chunk → chunk.stage ≠ .closed

theorem intact_after (hw : w.chunkSize ≠ 0) {chunk : Cursor} (h : chunk.stage ≠ .closed) :
    (w.after (chunk.next hydrate)).Intact := by
  refine ⟨(alike_after w _).chunkSize ▸ hw, fun chunk' hs => ?_⟩
  unfold after advance at hs
  split at hs
  · split at hs <;> cases hs
  · cases hs
    exact Cursor.unclosed_next hydrate h

theorem Intact.opening (h : w.Intact) {w₁ : Walk} (ho : w.opening? = some w₁) : w₁.Intact := by
  obtain ⟨halike, hstage⟩ := alike_opening ho
  exact ⟨halike.chunkSize ▸ h.chunkSize, fun chunk hs => by rw [hstage] at hs; cases hs⟩

theorem Intact.next (h : w.Intact) (c : Connection σ) : (w.next db hydrate c).2.1.Intact := by
  have hstep := next_step db hydrate h.chunkSize c
  generalize w.next db hydrate c = result at hstep
  cases hstep with
  | finished => exact h
  | reads hs => exact intact_after h.chunkSize (h.unclosed _ hs)
  | lost ho => exact h.opening ho
  | opens ho _ hp => subst hp; exact intact_after (h.opening ho).chunkSize (Cursor.unclosed_ofSource _ _)

/-- No calls break a query's walk. -/
theorem intact_live (db : Database σ) (hydrate : Hydrator α) (q : Query) (c : Connection σ)
    (calls : List CursorCall) :
    ((keeping db hydrate).live calls (ofQuery db q, c)).state.1.Intact :=
  Keeping.live_invariant (I := fun s : Walk × Connection σ => s.1.Intact) (fun s h => h.next s.2)
    (fun _ h => ⟨h.chunkSize, fun _ hs => by cases hs⟩) calls ⟨chunkSize_ofQuery db q, nofun⟩

/-- A walk that waits between two chunks begins its next pull with the fetch of the second. -/
theorem head?_since_of_between (h : w.Intact) (hb : w.stage = .between) (c : Connection σ) :
    (c.since (w.next db hydrate c).2.2).head? =
      some (.fetched (w.current.selectStatement .oneMore) w.current.rowsHint) := by
  rcases hf : db.storage.fetch (w.current.selectStatement .oneMore) w.current.rowsHint c.state with ⟨answer, state⟩
  rw [next_between db hydrate hb, openChunk_eq db hydrate h.chunkSize c hf]
  cases answer <;> rw [Connection.since_append rfl] <;> rfl

/-- The only fetch among the events of an opening is the one that it begins with. -/
theorem eq_of_mem_opening {events : List Event} (h : events.countP Event.isFetched = 0)
    {statement statement' : Statement} {hint hint' : Option UInt64} {id : Nat}
    (hmem : .fetched statement hint ∈ .fetched statement' hint' :: .opened id :: events) :
    statement = statement' ∧ hint = hint' := by
  rcases List.mem_cons.1 hmem with hmem | hmem
  · cases hmem
    exact ⟨rfl, rfl⟩
  · rcases List.mem_cons.1 hmem with hmem | hmem
    · cases hmem
    · exact absurd rfl (List.countP_eq_zero.1 h _ hmem)

/-! ## A pull and the pulls after it -/

/-- **The pulls of a walk are bounded and can be resumed.** After any calls on
the walk of a query, over any backend:

* the loop that pulls are ends within two rounds each time;
* a pull makes one fetch at most. If this is not answered with rows, that is
  what the pull comes to, and the next pull begins with the same fetch, whatever
  has become of the connection;
* after a failure that is not that of a fetch, every pull is refused without
  touching storage, until the walk is closed;
* after a pull that finds the end, and after closing, every pull finds the end
  without touching storage. -/
theorem resumable (db : Database σ) (hydrate : Hydrator α) (q : Query) (c₀ : Connection σ)
    (calls : List CursorCall) {w w' : Walk} {c c' : Connection σ} {outcome : Outcome (Option α)}
    (hlife : ((keeping db hydrate).live calls (ofQuery db q, c₀)).state = (w, c))
    (hpull : w.next db hydrate c = (outcome, w', c')) :
    (∀ rounds,
      (WalkRegisters.live? db hydrate (rounds + 2) calls (.ofQuery db q, c₀)).map Lived.state =
        some (w.registers, c) ∧
      w.registers.pull db hydrate (rounds + 2) c = some (outcome, w'.registers, c')) ∧
    (c'.events = c.events ++ c.since c' ∧ (c.since c').countP Event.isFetched ≤ 1 ∧
      ∀ statement hint, .fetched statement hint ∈ c.since c' →
        ∀ answer state, db.storage.fetch statement hint c.state = (answer, state) →
          c'.state = state ∧
          ((∀ feed, answer ≠ .ok feed) → outcome = answer.map (fun _ => none) ∧
            ∀ c'' : Connection σ,
              (c''.since (w'.next db hydrate c'').2.2).head? = some (.fetched statement hint))) ∧
    (∀ f, outcome = .failed f →
      (∀ statement hint, .fetched statement hint ∈ c.since c' →
        ∃ feed, (db.storage.fetch statement hint c.state).1 = .ok feed) →
      w'.Refuses db hydrate) ∧
    (outcome = .ok none → w'.Ended db hydrate) ∧
    w.close.1.Ended db hydrate := by
  have hintact : w.Intact := by
    have h := intact_live db hydrate q c₀ calls
    rwa [hlife] at h
  have hfinished := finished_of_next db hydrate hintact.chunkSize c
  have hstep := next_step db hydrate hintact.chunkSize c
  rw [hpull] at hfinished hstep
  refine ⟨fun rounds => ⟨?_, ?_⟩, ?_⟩
  · rw [← registers_ofQuery, registers_live, Option.map_some, Lived.map, hlife]
  · rw [registers_pull, hpull]
  rw [← and_assoc]
  refine ⟨?_, fun h => ended_of_finished (hfinished h), ended_of_finished rfl⟩
  cases hstep with
  | finished =>
    rw [Connection.since, List.drop_length]
    refine ⟨⟨(List.append_nil _).symm, Nat.zero_le 1, fun _ _ h => absurd h List.not_mem_nil⟩, fun f ho => ?_⟩
    cases ho
  | @reads chunk hs hm =>
    have hnone := Cursor.countP_isFetched_next hydrate chunk
    rw [Connection.since_append rfl]
    refine ⟨⟨rfl, hnone ▸ Nat.zero_le 1, fun _ _ h => ?_⟩, fun f ho _ => refuses_after (hintact.unclosed chunk hs) ho⟩
    exact absurd rfl (List.countP_eq_zero.1 hnone _ h)
  | lost hopen hf hlost =>
    rw [Connection.since_append rfl]
    refine ⟨⟨rfl, Nat.le_refl 1, fun statement hint h answer' state' hf' => ?_⟩, fun f _ hall => ?_⟩
    · cases List.mem_singleton.1 h
      cases hf.symm.trans hf'
      exact ⟨rfl, fun _ => ⟨rfl, head?_since_of_between (hintact.opening hopen) (alike_opening hopen).2⟩⟩
    · obtain ⟨feed, hfeed⟩ := hall _ _ (List.mem_singleton_self _)
      rw [hf] at hfeed
      exact absurd hfeed (hlost feed)
  | @opens w₁ feed state _ hopen hf hp =>
    subst hp
    have hnone := Cursor.countP_isFetched_next hydrate (.ofSource ⟨c.opened, feed⟩ w₁.current.cursorLimit)
    rw [Connection.since_append rfl]
    refine ⟨⟨rfl, ?_, fun statement hint h answer' state' hf' => ?_⟩,
      fun f ho _ => refuses_after (Cursor.unclosed_ofSource _ _) ho⟩
    · rw [List.countP_cons, List.countP_cons, hnone]
      exact Nat.le_refl 1
    · obtain ⟨rfl, rfl⟩ := eq_of_mem_opening hnone h
      cases hf.symm.trans hf'
      exact ⟨rfl, fun hlost => absurd rfl (hlost feed)⟩

/-- A stalled fetch is made again; the failure of the row that it then brings
is given out once, and the walk refuses until it is closed. -/
theorem resumable_stalled_fetch :
    let lost : Fault := .execution ⟨.connectivity, none, "closed"⟩
    let db : Database Script := ⟨Script.storage .sqlite, .default⟩
    let walk := ofQuery db (db.query sampleSchema)
    let c : Connection Script := .fresh ⟨[.stalled, .ok ⟨["n"], [.failed lost]⟩], []⟩
    let first := walk.next db Hydrator.values c
    let second := first.2.1.next db Hydrator.values first.2.2
    first.1 = .stalled ∧ second.1 = .failed lost ∧
      (∀ c' : Connection Script, (c'.since (first.2.1.next db Hydrator.values c').2.2).head? =
        some (.fetched (walk.current.selectStatement .oneMore) (some 5001))) ∧
      second.2.1.Refuses db Hydrator.values ∧ first.2.1.close.1.Ended db Hydrator.values := by
  intro lost db walk c first second
  have hstalled : first.1 = .stalled := rfl
  have hfailed : second.1 = .failed lost := rfl
  have hfetched : c.since first.2.2 = [.fetched (walk.current.selectStatement .oneMore) (some 5001)] := rfl
  obtain ⟨-, ⟨-, -, hagain⟩, -⟩ := resumable db Hydrator.values (db.query sampleSchema) c [] (w := walk) (c := c) rfl
    (show walk.next db Hydrator.values c = (first.1, first.2) from rfl)
  obtain ⟨-, -, hrefuses, -, hended⟩ := resumable db Hydrator.values (db.query sampleSchema) c [.next]
    (w := first.2.1) (c := first.2.2) rfl (show _ = (second.1, second.2) from rfl)
  refine ⟨hstalled, hfailed, ?_, hrefuses lost hfailed ?_, hended⟩
  · exact ((hagain _ _ (hfetched ▸ List.mem_singleton_self _) .stalled _ rfl).2 fun _ h => by cases h).2
  · intro statement hint h
    exact ⟨_, rfl⟩

end Walk

end TableQuery

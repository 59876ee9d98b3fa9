/-
The life of a cursor, through any calls in any order (`Cursor.life_cycle`).

A pull that stalls and is given up is a call like any other. What one call can
do to the stage is read off the steps of a pull (`stage_next`, `stage_close`);
where the source stands, and what a limit has to do with the flag and the kept
failure, is the invariant `Living`. A cursor that has come to an end stays
there, and each end has its own answer to further pulls.
-/
import Mathlib.Logic.Relation
import TableQuery.Proofs.Cursor.Progress
import TableQuery.Proofs.Cursor.Registers

namespace TableQuery

namespace Stage

def isFinal : Stage → Bool
  | fresh | streaming => false
  | exhausted | closed | failed => true

/-- The moves from stage to stage. -/
inductive Move : Stage → Stage → Prop where
  | start : Move fresh streaming
  | closeFresh : Move fresh closed
  | exhaust : Move streaming exhausted
  | close : Move streaming closed
  | fail : Move streaming failed

end Stage

/-! ## After the end -/

namespace Registers

variable {α : Type} {r : Registers}

theorem close_of_final (h : r.stage.isFinal) : r.close = (r, []) := by
  unfold close
  split
  · next hs => rw [hs] at h; cases h
  · next hs => rw [hs] at h; cases h
  · rfl

theorem live_of_closed (hydrate : Hydrator α) (h : r.stage = .closed) (calls : List CursorCall) :
    (keeping hydrate).live calls r = ⟨.replicate (CursorCall.pulls calls) (.failed .cursorClosed), r, []⟩ :=
  Keeping.live_of_still (by simp only [keeping, next, h]) (close_of_final (by rw [h]; rfl)) calls

theorem live_of_exhausted (hydrate : Hydrator α) (h : r.stage = .exhausted) (calls : List CursorCall) :
    (keeping hydrate).live calls r = ⟨.replicate (CursorCall.pulls calls) (.ok none), r, []⟩ :=
  Keeping.live_of_still (by simp only [keeping, next, h]) (close_of_final (by rw [h]; rfl)) calls

/-- What `n` pulls after a failure come to: one gives the kept failure, if there
is one, and the others are refused. -/
def answers (kept : Option Fault) (n : Nat) : List (Outcome (Option α)) :=
  (kept.toList.map .failed ++ .replicate n (.failed .cursorFailed)).take n

theorem live_of_failed (hydrate : Hydrator α) (h : r.stage = .failed) (calls : List CursorCall) :
    ∃ kept, (keeping hydrate).live calls r =
      ⟨answers r.kept (CursorCall.pulls calls), { r with kept }, []⟩ := by
  obtain ⟨source, _, limit, yielded, hasMore, kept⟩ := r
  cases h
  -- Once a kept failure is given out, nothing changes any more.
  have hgiven : ∀ calls, (keeping hydrate).live calls ⟨source, .failed, limit, yielded, hasMore, none⟩ =
      ⟨.replicate (CursorCall.pulls calls) (.failed .cursorFailed),
        ⟨source, .failed, limit, yielded, hasMore, none⟩, []⟩ :=
    Keeping.live_of_still rfl rfl
  cases kept with
  | none =>
    refine ⟨none, (hgiven calls).trans ?_⟩
    simp [answers]
  | some f =>
    induction calls with
    | nil => exact ⟨some f, rfl⟩
    | cons call calls ih =>
      cases call with
      | next =>
        have hfirst : (keeping hydrate).next ⟨source, .failed, limit, yielded, hasMore, some f⟩ =
            (.failed f, ⟨source, .failed, limit, yielded, hasMore, none⟩, []) := rfl
        refine ⟨none, ?_⟩
        rw [Keeping.live, hfirst]
        simp only [hgiven, CursorCall.pulls, List.count_cons_self]
        simp [answers]
      | close =>
        obtain ⟨kept, ih⟩ := ih
        have hcount : CursorCall.pulls (.close :: calls) = CursorCall.pulls calls :=
          List.count_cons_of_ne (by decide)
        rw [hcount]
        exact ⟨kept, ih⟩

/-- The ends are never left, and nothing happens at storage there. -/
theorem live_of_final (hydrate : Hydrator α) (h : r.stage.isFinal) (calls : List CursorCall) :
    ((keeping hydrate).live calls r).state.stage = r.stage ∧ ((keeping hydrate).live calls r).events = [] := by
  cases hs : r.stage with
  | fresh | streaming => rw [hs] at h; cases h
  | exhausted => rw [live_of_exhausted hydrate hs]; exact ⟨hs, rfl⟩
  | closed => rw [live_of_closed hydrate hs]; exact ⟨hs, rfl⟩
  | failed =>
    obtain ⟨kept, hlive⟩ := live_of_failed hydrate hs calls
    rw [hlive]
    exact ⟨hs, rfl⟩

end Registers

namespace Cursor

variable {α : Type}

/-! ## Stages -/

theorem isSome_source?_iff (c : Cursor) : c.source?.isSome ↔ c.stage = .fresh ∨ c.stage = .streaming := by
  unfold source? stage
  cases c.phase <;> simp

/-- From a source that is held, a pull starts the stream and may end it. -/
theorem stage_pull (hydrate : Hydrator α) {c : Cursor} {s : Source} (h : c.source? = some s) :
    (c.next hydrate).cursor.stage = .streaming ∨ (c.next hydrate).cursor.stage = .exhausted ∨
      (c.next hydrate).cursor.stage = .failed := by
  rw [next_of_source h]
  have hstep := pull_step hydrate c s
  generalize c.pull hydrate s = p at hstep
  cases hstep with
  | stalled | row | lastThenStall => exact .inl rfl
  | ended | lastThenEnd | lastThenRow => exact .inr (.inl rfl)
  | failed | unreadable | lastThenFailure => exact .inr (.inr rfl)

/-- Without a source, a pull leaves the stage as it is. -/
theorem stage_idle (hydrate : Hydrator α) {c : Cursor} (h : c.source? = none) :
    (c.next hydrate).cursor.stage = c.stage := by
  unfold source? at h
  unfold next
  split
  · simp_all
  · simp_all
  · rfl
  · rfl
  · next hp => simp only [stage, hp]
  · rfl

/-- Rows past the limit are known of at the end of the rows only. -/
theorem stage_of_hasMore {c : Cursor} (h : c.hasMore) : c.stage = .exhausted := by
  unfold hasMore at h
  unfold stage
  cases hp : c.phase <;> simp_all

theorem close_of_none {c : Cursor} (h : c.source? = none) : c.close = (c, []) := by
  unfold source? at h
  unfold close
  split <;> simp_all

theorem close_of_source {c : Cursor} {s : Source} (h : c.source? = some s) :
    c.close = (c.gone .closed, [.released s.id]) := by
  unfold close drop
  rw [h]
  unfold source? at h
  split
  · rfl
  · rfl
  · next hf hs =>
    split at h
    · next hp => exact absurd hp (hf _)
    · next hp => exact absurd hp (hs _)
    · cases h

theorem moves_of_source {c : Cursor} (h : c.source?.isSome) :
    Relation.ReflTransGen Stage.Move c.stage .streaming := by
  rcases c.isSome_source?_iff.1 h with h | h
  · rw [h]
    exact .single .start
  · rw [h]

theorem stage_next (hydrate : Hydrator α) (c : Cursor) :
    Relation.ReflTransGen Stage.Move c.stage (c.next hydrate).cursor.stage := by
  cases hs : c.source? with
  | none => rw [stage_idle hydrate hs]
  | some s =>
    have hstream := c.moves_of_source (by rw [hs]; rfl)
    rcases stage_pull hydrate hs with h | h | h
    · rwa [h]
    · rw [h]
      exact hstream.tail .exhaust
    · rw [h]
      exact hstream.tail .fail

theorem stage_close (c : Cursor) : Relation.ReflTransGen Stage.Move c.stage c.close.1.stage := by
  cases hs : c.source? with
  | none => rw [close_of_none hs]
  | some s =>
    rw [close_of_source hs]
    rcases c.isSome_source?_iff.1 (by rw [hs]; rfl) with h | h
    · rw [h]
      exact .single .closeFresh
    · rw [h]
      exact .single .close

theorem stage_live (hydrate : Hydrator α) (calls : List CursorCall) (c : Cursor) :
    Relation.ReflTransGen Stage.Move c.stage ((keeping hydrate).live calls c).state.stage :=
  Keeping.live_invariant (k := keeping hydrate) (I := fun c' => Relation.ReflTransGen Stage.Move c.stage c'.stage)
    (fun c' h => h.trans (stage_next hydrate c')) (fun c' h => h.trans c'.stage_close) calls .refl

theorem next_ne_fresh (hydrate : Hydrator α) (c : Cursor) : (c.next hydrate).cursor.stage ≠ .fresh := by
  cases hs : c.source? with
  | none =>
    rw [stage_idle hydrate hs]
    intro h
    have := c.isSome_source?_iff.2 (.inl h)
    rw [hs] at this
    cases this
  | some s => rcases stage_pull hydrate hs with h | h | h <;> rw [h] <;> decide

theorem close_ne_fresh (c : Cursor) : c.close.1.stage ≠ .fresh := by
  rcases c with ⟨_ | _ | _ | _ | _, limit, yielded⟩ <;> exact Stage.noConfusion

/-- A cursor is fresh until the first call. -/
theorem stage_eq_fresh_iff (hydrate : Hydrator α) (calls : List CursorCall) {c : Cursor} (h : c.stage = .fresh) :
    ((keeping hydrate).live calls c).state.stage = .fresh ↔ calls = [] := by
  have hkept : ∀ calls {c : Cursor}, c.stage ≠ .fresh → ((keeping hydrate).live calls c).state.stage ≠ .fresh :=
    Keeping.live_invariant (fun c _ => next_ne_fresh hydrate c) (fun c _ => c.close_ne_fresh)
  constructor
  · intro hlive
    cases calls with
    | nil => rfl
    | cons call calls =>
      cases call with
      | next => exact absurd hlive (hkept calls (next_ne_fresh hydrate c))
      | close => exact absurd hlive (hkept calls c.close_ne_fresh)
  · rintro rfl
    exact h

/-! ## What is held and kept -/

/-- Where a cursor opened with this source and limit stands. -/
structure Living (source : Source) (limit : Option UInt64) (c : Cursor) : Prop where
  limited : c.limit = limit
  held : ∀ s, c.source? = some s → ∃ turns, turns <:+ source.feed.pulls ∧ s = source.left turns
  more : c.hasMore → c.atLimit
  kept : ∀ f, c.kept? = some f → c.atLimit

namespace Living

variable {source : Source} {limit : Option UInt64} {c : Cursor}

theorem ofSource (source : Source) (limit : Option UInt64) : (Cursor.ofSource source limit).Living source limit where
  limited := rfl
  held s hs := by cases hs; exact ⟨_, List.suffix_refl _, rfl⟩
  more h := by cases h
  kept f h := by cases h

/-- At an end; rows past the limit and a failure there are found at the limit only. -/
theorem ended (hlimit : c.limit = limit) (hs : c.source? = none) (hmore : c.hasMore → c.atLimit)
    (hkept : ∀ f, c.kept? = some f → c.atLimit) : c.Living source limit where
  limited := hlimit
  held s h := by rw [hs] at h; cases h
  more := hmore
  kept := hkept

theorem going (hlimit : c.limit = limit) {turns : List (Outcome (List Value))}
    (hturns : turns <:+ source.feed.pulls) : (c.going (source.left turns)).Living source limit where
  limited := hlimit
  held s h := by cases h; exact ⟨turns, hturns, rfl⟩
  more h := by cases h
  kept f h := by cases h

theorem next (h : c.Living source limit) (hydrate : Hydrator α) :
    (c.next hydrate).cursor.Living source limit := by
  have hlimit := h.limited
  cases hs : c.source? with
  | some s =>
    obtain ⟨turns, hturns, rfl⟩ := h.held s hs
    -- The turns that are left after one or two of them are a suffix still.
    have hone : ∀ {turn rest}, turns = turn :: rest → rest <:+ source.feed.pulls := fun hp =>
      (hp ▸ List.suffix_cons _ _ : _ <:+ turns).trans hturns
    rw [next_of_source hs]
    have hstep := pull_step hydrate c (source.left turns)
    generalize c.pull hydrate (source.left turns) = p at hstep
    cases hstep with
    | ended | failed | unreadable | lastThenEnd =>
      exact .ended hlimit rfl (fun hm => by cases hm) (fun _ hk => by cases hk)
    | stalled hp => exact .going hlimit (hone hp)
    | row hp hr hl => exact going (c := c.counted) hlimit (hone hp)
    | lastThenRow hp hr hl => exact .ended hlimit rfl (fun _ => hl) (fun _ hk => by cases hk)
    | lastThenFailure hp hr hl => exact .ended hlimit rfl (fun hm => by cases hm) (fun _ _ => hl)
    | lastThenStall hp hr hl =>
      exact going (c := c.counted) hlimit ((List.suffix_cons _ _).trans (hone hp))
  | none =>
    have hstep := idle_step hydrate hs
    generalize c.next hydrate = p at hstep
    cases hstep with
    | exhausted | refused => exact h
    | kept => exact .ended hlimit rfl (fun hm => by cases hm) (fun _ hk => by cases hk)

theorem close (h : c.Living source limit) : c.close.1.Living source limit := by
  cases hs : c.source? with
  | some s =>
    rw [close_of_source hs]
    exact .ended h.limited rfl (fun hm => by cases hm) (fun _ hk => by cases hk)
  | none => rwa [close_of_none hs]

/-- **Any calls keep the invariant.** -/
theorem live (hydrate : Hydrator α) (calls : List CursorCall) (h : c.Living source limit) :
    ((keeping hydrate).live calls c).state.Living source limit :=
  Keeping.live_invariant (fun _ h => h.next hydrate) (fun _ h => h.close) calls h

end Living

/-- A failure is kept by the pull that hands out the last row within the limit, and by no other. -/
theorem kept_next_iff (hydrate : Hydrator α) {c : Cursor} {s : Source} (hs : c.source? = some s) (f : Fault) :
    (c.next hydrate).cursor.kept? = some f ↔
      ∃ values a rest, s.feed.pulls = .ok values :: .failed f :: rest ∧
        hydrate ⟨s.feed.columns, values⟩ = .ok a ∧ (∃ l, c.limit = some l ∧ l.toNat ≤ c.yielded + 1) ∧
        (c.next hydrate).outcome = .ok (some a) := by
  have hlimit : c.counted.atLimit ↔ ∃ l, c.limit = some l ∧ l.toNat ≤ c.yielded + 1 := atLimit_iff
  rw [next_of_source hs]
  have hstep := pull_step hydrate c s
  generalize c.pull hydrate s = p at hstep
  constructor
  · intro hk
    cases hstep with
    | lastThenFailure hp hr hl =>
      cases hk
      exact ⟨_, _, _, hp, hr, hlimit.1 hl, rfl⟩
    | _ => cases hk
  · rintro ⟨values, a, rest, hp, hr, hl, ho⟩
    cases hstep with
    | lastThenFailure hp' =>
      cases hp.symm.trans hp'
      rfl
    | lastThenEnd hp' | lastThenRow hp' => cases hp.symm.trans hp'
    | row hp' hr' hl' => rw [hlimit.2 hl] at hl'; cases hl'
    | _ => cases ho

/-- **The life of a cursor.** After any calls on a cursor, with registers `r`,
and any more calls:

* the registers are those of the cursor that is run;
* the stage only moves on; it is `fresh` until the first call; an end is never
  left, and closing there changes nothing;
* the source, with the turns it has left, is held in the first two stages only;
* at each end, further pulls have the answers of that end: a closed cursor
  refuses, an exhausted one has nothing, and a failed one gives a kept failure
  once and then refuses;
* a failure is kept by the pull that hands out the last row within the limit
  and finds the failure right after it, and by no other;
* rows past the limit are known of at the end of the rows only, with as many
  counted as the limit says. -/
theorem life_cycle (hydrate : Hydrator α) (source : Source) (limit : Option UInt64)
    (calls more : List CursorCall) :
    let life := (Registers.keeping hydrate).live calls (.ofSource source limit)
    let r := life.state
    let later := (Registers.keeping hydrate).live more r
    life = ((keeping hydrate).live calls (ofSource source limit)).map registers ∧
    Relation.ReflTransGen Stage.Move r.stage later.state.stage ∧
    (r.stage = .fresh ↔ calls = []) ∧
    (r.stage.isFinal → later.state.stage = r.stage ∧ later.events = [] ∧ r.close = (r, [])) ∧
    (r.source.isSome ↔ r.stage = .fresh ∨ r.stage = .streaming) ∧
    (∀ s, r.source = some s → ∃ turns, turns <:+ source.feed.pulls ∧ s = source.left turns) ∧
    (r.stage = .closed → later.outcomes = .replicate (CursorCall.pulls more) (.failed .cursorClosed)) ∧
    (r.stage = .exhausted → later.outcomes = .replicate (CursorCall.pulls more) (.ok none)) ∧
    (r.stage = .failed → later.outcomes =
      (r.kept.toList.map .failed ++ .replicate (CursorCall.pulls more) (.failed .cursorFailed)).take
        (CursorCall.pulls more)) ∧
    (∀ s f, r.source = some s → ((r.next hydrate).2.1.kept = some f ↔
      ∃ values a rest, s.feed.pulls = .ok values :: .failed f :: rest ∧
        hydrate ⟨s.feed.columns, values⟩ = .ok a ∧ (∃ l, limit = some l ∧ l.toNat ≤ r.yielded + 1) ∧
        (r.next hydrate).1 = .ok (some a))) ∧
    (r.hasMore → r.stage = .exhausted ∧ ∃ l, limit = some l ∧ l.toNat ≤ r.yielded) := by
  intro life r later
  have hlife : life = ((keeping hydrate).live calls (ofSource source limit)).map registers :=
    registers_live hydrate calls (ofSource source limit)
  have hliving : ((keeping hydrate).live calls (ofSource source limit)).state.Living source limit :=
    (Living.ofSource source limit).live hydrate calls
  have hfresh := stage_eq_fresh_iff hydrate calls (c := ofSource source limit) rfl
  generalize (keeping hydrate).live calls (ofSource source limit) = l at hlife hliving hfresh
  have hr : r = l.state.registers := congrArg Lived.state hlife
  have hlater : later = ((keeping hydrate).live more l.state).map registers := by
    rw [← registers_live, ← hr]
  have hmoves : Relation.ReflTransGen Stage.Move r.stage later.state.stage := by
    rw [hlater, hr]
    exact stage_live hydrate more l.state
  refine ⟨hlife, hmoves, ?_, ?_, ?_, ?_, ?_, ?_, ?_, ?_, ?_⟩
  · rw [hr]
    exact hfresh
  · intro hfinal
    obtain ⟨hstage, hevents⟩ := Registers.live_of_final hydrate hfinal more
    exact ⟨hstage, hevents, Registers.close_of_final hfinal⟩
  · rw [hr]
    exact l.state.isSome_source?_iff
  · rw [hr]
    exact hliving.held
  · intro hclosed
    exact congrArg Lived.outcomes (Registers.live_of_closed hydrate hclosed more)
  · intro hexhausted
    exact congrArg Lived.outcomes (Registers.live_of_exhausted hydrate hexhausted more)
  · intro hfailed
    obtain ⟨kept, hlive⟩ := Registers.live_of_failed hydrate hfailed more
    exact congrArg Lived.outcomes hlive
  · intro s f hs
    rw [hr] at hs ⊢
    rw [registers_next, ← hliving.limited]
    exact kept_next_iff hydrate hs f
  · intro hmore
    rw [hr] at hmore ⊢
    obtain ⟨lim, hlim, hle⟩ := atLimit_iff.1 (hliving.more hmore)
    exact ⟨stage_of_hasMore hmore, lim, hliving.limited.symm.trans hlim, hle⟩

/-- The failure past the limit comes after the row, and once. -/
example : ((Registers.keeping .ok).live [.next, .close, .next, .next]
    (.ofSource ⟨0, ⟨["bar"], [.ok [.null], .failed (.noPrimaryKey "foo")]⟩⟩ (some 1))).outcomes =
      [.ok (some ⟨["bar"], [.null]⟩), .failed (.noPrimaryKey "foo"), .failed .cursorFailed] := rfl

end Cursor

end TableQuery

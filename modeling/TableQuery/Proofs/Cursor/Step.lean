/-
What one pull of a cursor can do, said once.

A pull reads one turn of the source, or two when the row it read is the last
within the limit. `PullStep` lists the nine ways this can go, with the
cursor and the events that each leaves; `pull_step` says that there are no
others. A cursor without a source reads nothing (`idle_step`). What holds of
every pull is proved from these, and nothing else looks into `pull`,
`lookAhead` and `next`.
-/
import TableQuery.Cursor

namespace TableQuery

/-- The source with these turns left. -/
def Source.left (s : Source) (pulls : List (Outcome (List Value))) : Source :=
  { s with feed.pulls := pulls }

theorem Source.next_nil {s : Source} (h : s.feed.pulls = []) : s.next = (.ok none, s) := by
  simp only [Source.next, h]

theorem Source.next_cons {s : Source} {pull : Outcome (List Value)} {rest : List (Outcome (List Value))}
    (h : s.feed.pulls = pull :: rest) :
    s.next = (pull.map fun values => some ⟨s.feed.columns, values⟩, s.left rest) := by
  simp only [Source.next, h, Source.left]

/-- A source is read or let go. -/
def Event.isQuiet : Event → Bool
  | pulled _ | released _ => true
  | _ => false

namespace Cursor

variable {α : Type}

/-- The cursor with one more row counted. -/
def counted (c : Cursor) : Cursor := { c with yielded := c.yielded + 1 }

/-- The cursor after its source is let go. -/
def gone (c : Cursor) (p : Phase) : Cursor := { c with phase := p }

/-- The cursor going on with its source. -/
def going (c : Cursor) (s : Source) : Cursor := { c with phase := .streaming s }

/-- What a pull from a source comes to. -/
inductive PullStep (hydrate : Hydrator α) (c : Cursor) (s : Source) : Pulled (Option α) → Prop where
  | ended (h : s.feed.pulls = []) :
    PullStep hydrate c s ⟨.ok none, c.gone (.exhausted false), [.pulled s.id, .released s.id]⟩
  | stalled {rest} (h : s.feed.pulls = .stalled :: rest) :
    PullStep hydrate c s ⟨.stalled, c.going (s.left rest), [.pulled s.id]⟩
  | failed {f rest} (h : s.feed.pulls = .failed f :: rest) :
    PullStep hydrate c s ⟨.failed f, c.gone (.failed none), [.pulled s.id, .released s.id]⟩
  | unreadable {values f rest} (h : s.feed.pulls = .ok values :: rest)
    (hr : hydrate ⟨s.feed.columns, values⟩ = .error f) :
    PullStep hydrate c s ⟨.failed f, c.gone (.failed none), [.pulled s.id, .released s.id]⟩
  | row {values a rest} (h : s.feed.pulls = .ok values :: rest)
    (hr : hydrate ⟨s.feed.columns, values⟩ = .ok a) (hl : c.counted.atLimit = false) :
    PullStep hydrate c s ⟨.ok (some a), c.counted.going (s.left rest), [.pulled s.id]⟩
  /-- The last row within the limit, and none after it. -/
  | lastThenEnd {values a} (h : s.feed.pulls = [.ok values])
    (hr : hydrate ⟨s.feed.columns, values⟩ = .ok a) (hl : c.counted.atLimit) :
    PullStep hydrate c s
      ⟨.ok (some a), c.counted.gone (.exhausted false), [.pulled s.id, .pulled s.id, .released s.id]⟩
  /-- The last row within the limit, and one after it. -/
  | lastThenRow {values a more rest} (h : s.feed.pulls = .ok values :: .ok more :: rest)
    (hr : hydrate ⟨s.feed.columns, values⟩ = .ok a) (hl : c.counted.atLimit) :
    PullStep hydrate c s
      ⟨.ok (some a), c.counted.gone (.exhausted true), [.pulled s.id, .pulled s.id, .released s.id]⟩
  /-- The failure after the last row within the limit is kept. -/
  | lastThenFailure {values a f rest} (h : s.feed.pulls = .ok values :: .failed f :: rest)
    (hr : hydrate ⟨s.feed.columns, values⟩ = .ok a) (hl : c.counted.atLimit) :
    PullStep hydrate c s
      ⟨.ok (some a), c.counted.gone (.failed (some f)), [.pulled s.id, .pulled s.id, .released s.id]⟩
  /-- The last row within the limit is counted, and lost with the pull. -/
  | lastThenStall {values a rest} (h : s.feed.pulls = .ok values :: .stalled :: rest)
    (hr : hydrate ⟨s.feed.columns, values⟩ = .ok a) (hl : c.counted.atLimit) :
    PullStep hydrate c s ⟨.stalled, c.counted.going (s.left rest), [.pulled s.id, .pulled s.id]⟩

theorem pull_step (hydrate : Hydrator α) (c : Cursor) (s : Source) :
    PullStep hydrate c s (c.pull hydrate s) := by
  unfold pull
  cases h : s.feed.pulls with
  | nil =>
    rw [Source.next_nil h]
    exact .ended h
  | cons pull rest =>
    rw [Source.next_cons h]
    cases pull with
    | stalled => exact .stalled h
    | failed f => exact .failed h
    | ok values =>
      simp only [Outcome.map]
      cases hr : hydrate ⟨s.feed.columns, values⟩ with
      | error f => exact .unreadable h hr
      | ok a =>
        cases hl : c.counted.atLimit with
        | false =>
          have hl' : atLimit { c with phase := .streaming (s.left rest), yielded := c.yielded + 1 } = false := hl
          simp only [hl', Bool.false_eq_true, if_false]
          exact .row h hr hl
        | true =>
          have hl' : atLimit { c with phase := .streaming (s.left rest), yielded := c.yielded + 1 } = true := hl
          simp only [hl', if_true, lookAhead]
          -- The turn after the row's decides what the look past the limit finds.
          cases rest with
          | nil =>
            rw [Source.next_nil (s := s.left []) rfl]
            exact .lastThenEnd h hr hl
          | cons more rest =>
            rw [Source.next_cons (s := s.left (more :: rest)) rfl]
            cases more with
            | stalled => exact .lastThenStall h hr hl
            | failed f => exact .lastThenFailure h hr hl
            | ok values => exact .lastThenRow h hr hl

/-- A pull goes one way only. -/
theorem PullStep.eq {hydrate : Hydrator α} {c : Cursor} {s : Source} {p : Pulled (Option α)}
    (h : PullStep hydrate c s p) : c.pull hydrate s = p := by
  -- Whether the limit is reached is asked of the cursor after the row is counted.
  have hlimit : ∀ s, atLimit { c with phase := .streaming s, yielded := c.yielded + 1 } = c.counted.atLimit :=
    fun _ => rfl
  unfold pull
  cases h with
  | ended hp => rw [Source.next_nil hp]; rfl
  | stalled hp | failed hp => rw [Source.next_cons hp]; rfl
  | unreadable hp hr => simp [Source.next_cons hp, hr]; rfl
  | row hp hr hl =>
    rw [Source.next_cons hp]
    simp only [Outcome.map, hr, hlimit, hl, Bool.false_eq_true, if_false]
    rfl
  | lastThenEnd hp hr hl | lastThenRow hp hr hl | lastThenFailure hp hr hl | lastThenStall hp hr hl =>
    rw [Source.next_cons hp]
    simp only [Outcome.map, hr, hlimit, hl, if_true]
    rfl

theorem next_of_source {hydrate : Hydrator α} {c : Cursor} {s : Source} (h : c.source? = some s) :
    c.next hydrate = c.pull hydrate s := by
  unfold source? at h
  unfold next
  split at h
  all_goals simp_all

theorem next_of_step {hydrate : Hydrator α} {c : Cursor} {s : Source} {p : Pulled (Option α)}
    (hs : c.source? = some s) (h : PullStep hydrate c s p) : c.next hydrate = p :=
  (next_of_source hs).trans h.eq

/-- What a pull comes to when no source is held. -/
inductive IdleStep (c : Cursor) : Pulled (Option α) → Prop where
  | exhausted {more} (h : c.phase = .exhausted more) : IdleStep c ⟨.ok none, c, []⟩
  | refused (f : Fault) : IdleStep c ⟨.failed f, c, []⟩
  | kept (f : Fault) : IdleStep c ⟨.failed f, c.gone (.failed none), []⟩

theorem idle_step (hydrate : Hydrator α) {c : Cursor} (h : c.source? = none) :
    IdleStep c (c.next hydrate) := by
  unfold source? at h
  unfold next
  split
  · simp_all
  · simp_all
  · next more hp => exact .exhausted hp
  · exact .refused _
  · exact .kept _
  · exact .refused _

theorem next_of_exhausted (hydrate : Hydrator α) {c : Cursor} {more : Bool} (h : c.phase = .exhausted more) :
    c.next hydrate = ⟨.ok none, c, []⟩ := by
  simp only [next, h]

theorem next_of_failed (hydrate : Hydrator α) {c : Cursor} (h : c.phase = .failed none) :
    c.next hydrate = ⟨.failed .cursorFailed, c, []⟩ := by
  simp only [next, h]

theorem hasMore_of_source {c : Cursor} {s : Source} (h : c.source? = some s) : c.hasMore = false := by
  unfold source? at h
  unfold hasMore
  cases hp : c.phase <;> simp_all

section

variable {hydrate : Hydrator α} {c : Cursor} {s : Source} {rest : List (Outcome (List Value))}

theorem next_of_stalled (hydrate : Hydrator α) (hs : c.source? = some s) (hp : s.feed.pulls = .stalled :: rest) :
    c.next hydrate = ⟨.stalled, c.going (s.left rest), [.pulled s.id]⟩ :=
  next_of_step hs (.stalled hp)

/-- A row below the limit is handed out, and the cursor goes on. -/
theorem next_of_row (hs : c.source? = some s) {values : List Value} (hp : s.feed.pulls = .ok values :: rest)
    {a : α} (hr : hydrate ⟨s.feed.columns, values⟩ = .ok a) (hl : c.counted.atLimit = false) :
    c.next hydrate = ⟨.ok (some a), c.counted.going (s.left rest), [.pulled s.id]⟩ :=
  next_of_step hs (.row hp hr hl)

end

/-- A source that has come to its end has nothing past the limit. -/
theorem exhausted_of_source {hydrate : Hydrator α} {c : Cursor} {s : Source} (hs : c.source? = some s)
    (h : (c.next hydrate).outcome = .ok none) : (c.next hydrate).cursor.phase = .exhausted false := by
  rw [next_of_source hs] at h ⊢
  have hstep := pull_step hydrate c s
  generalize c.pull hydrate s = p at h hstep
  cases hstep with
  | ended => rfl
  | _ => cases h

/-- A pull that finds the end leaves an exhausted cursor. -/
theorem exhausted_of_next (hydrate : Hydrator α) (c : Cursor) (h : (c.next hydrate).outcome = .ok none) :
    ∃ more, (c.next hydrate).cursor.phase = .exhausted more := by
  cases hs : c.source? with
  | some s => exact ⟨false, exhausted_of_source hs h⟩
  | none =>
    have hstep := idle_step hydrate hs
    generalize c.next hydrate = p at h hstep
    cases hstep with
    | exhausted hp => exact ⟨_, hp⟩
    | refused | kept => cases h

/-- A pull that finds the end leaves the flag as it is. -/
theorem hasMore_of_ended {hydrate : Hydrator α} {c : Cursor} (h : (c.next hydrate).outcome = .ok none) :
    (c.next hydrate).cursor.hasMore = c.hasMore := by
  cases hs : c.source? with
  | some s =>
    rw [hasMore_of_source hs]
    simp only [hasMore, exhausted_of_source hs h]
  | none =>
    have hstep := idle_step hydrate hs
    generalize c.next hydrate = p at h hstep
    cases hstep with
    | exhausted => rfl
    | refused | kept => cases h

/-- With rows past the limit known of, the rows have come to their end. -/
theorem phase_of_hasMore {c : Cursor} (h : c.hasMore = true) : c.phase = .exhausted true := by
  unfold hasMore at h
  split at h
  · next more hp => rw [hp, h]
  · cases h

/-- A pull does nothing else at storage. -/
theorem isQuiet_next (hydrate : Hydrator α) (c : Cursor) : (c.next hydrate).events.all Event.isQuiet := by
  cases hs : c.source? with
  | some s =>
    rw [next_of_source hs]
    have hstep := pull_step hydrate c s
    generalize c.pull hydrate s = p at hstep
    cases hstep <;> rfl
  | none =>
    have hstep := idle_step hydrate hs
    generalize c.next hydrate = p at hstep
    cases hstep <;> rfl

theorem limit_next (hydrate : Hydrator α) (c : Cursor) : (c.next hydrate).cursor.limit = c.limit := by
  cases hs : c.source? with
  | some s =>
    rw [next_of_source hs]
    have hstep := pull_step hydrate c s
    generalize c.pull hydrate s = p at hstep
    cases hstep <;> rfl
  | none =>
    have hstep := idle_step hydrate hs
    generalize c.next hydrate = p at hstep
    cases hstep <;> rfl

end Cursor

end TableQuery

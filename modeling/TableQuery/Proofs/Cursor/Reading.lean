/-
Three ways to read a cursor to its end agree (`Cursor.three_readings`): pull
after pull, polling the stream that it is made, and collecting.

The stream asks on its own whether it is over, before every pull. That it
stops exactly where the pulls have nothing new to tell is the point: a cursor
that has failed is over once its failure was given out, and not while it still
keeps one.

What there is to read is said once, as a relation (`ReadsTo`), and each way of
reading follows it.
-/
import TableQuery.Proofs.Course

namespace TableQuery

variable {α : Type}

/-! ## What pulls come to -/

/-- The items that pulls hand out. -/
def handedOut (outcomes : List (Outcome (Option α))) : List α :=
  outcomes.filterMap fun
    | .ok handed => handed
    | _ => none

/-- The first failure among them. -/
def firstFailure? (outcomes : List (Outcome (Option α))) : Option Fault :=
  outcomes.findSome? fun
    | .failed f => some f
    | _ => none

/-- Items, and then the failure that ended them, if one did. -/
def resultsOf (items : List α) (failure : Option Fault) : List (Except Fault α) :=
  items.map .ok ++ failure.toList.map .error

@[simp]
theorem length_resultsOf (items : List α) (failure : Option Fault) :
    (resultsOf items failure).length = items.length + failure.toList.length := by
  simp [resultsOf]

theorem take_resultsOf (items : List α) (failure : Option Fault) (n : Nat) :
    (resultsOf items failure).take n =
      resultsOf (items.take n) (if items.length < n then failure else none) := by
  unfold resultsOf
  rw [List.take_append, ← List.map_take, List.length_map]
  split
  · next h =>
    obtain ⟨k, rfl⟩ := Nat.exists_eq_add_of_lt h
    have hpast : items.length + k + 1 - items.length = k + 1 := by omega
    rw [hpast]
    cases failure <;> simp
  · next h => simp [Nat.sub_eq_zero_of_le (Nat.le_of_not_lt h)]

namespace Course

/-- A course's rows are what its pulls hand out. -/
theorem handedOut_outcomes (c : Course α) (n : Nat) : handedOut (c.outcomes n) = c.rows.take n := by
  have hending : ∀ n, handedOut (ending c.failure n : List (Outcome (Option α))) = [] := fun n => by
    cases n with
    | zero => rfl
    | succ n => cases c.failure <;> simp [ending, handedOut]
  rw [outcomes]
  generalize c.rows.take n = rows
  induction rows with
  | nil => exact hending _
  | cons a rows ih => exact congrArg (a :: ·) ih

/-- Its failure comes right after them. -/
theorem firstFailure?_outcomes (c : Course α) (n : Nat) :
    firstFailure? (c.outcomes n) = if c.rows.length < n then c.failure else none := by
  have hending : ∀ n, firstFailure? (ending c.failure n : List (Outcome (Option α))) =
      if 0 < n then c.failure else none := fun n => by
    cases n with
    | zero => rfl
    | succ n => cases c.failure <;> simp [ending, firstFailure?]
  have hlt : (c.rows.length < n) = (0 < n - c.rows.length) := propext Nat.sub_pos_iff_lt.symm
  simp only [hlt]
  rw [← hending, outcomes]
  generalize c.rows.take n = rows
  induction rows with
  | nil => rfl
  | cons a rows ih => exact ih

end Course

namespace Cursor

/-! ## Streams -/

/-- One poll of the stream that a cursor is made: the next result, or that the
stream is over. One that is over makes no pull. -/
def poll (hydrate : Hydrator α) (c : Cursor) : Pulled (Option (Except Fault α)) :=
  if c.isOver then ⟨.ok none, c, []⟩ else
    let p := c.next hydrate
    match p.outcome with
    | .ok handed => ⟨.ok (handed.map .ok), p.cursor, p.events⟩
    | .failed f => ⟨.ok (some (.error f)), p.cursor, p.events⟩
    | .stalled => ⟨.stalled, p.cursor, p.events⟩

/-- The results that `n` polls give, up to the one that finds the stream over. -/
def polled (hydrate : Hydrator α) : Nat → Cursor → List (Except Fault α)
  | 0, _ => []
  | n + 1, c =>
    match c.poll hydrate with
    | ⟨.ok (some r), c', _⟩ => r :: polled hydrate n c'
    | _ => []

theorem polled_of_over {hydrate : Hydrator α} {c : Cursor} (h : c.isOver = true) (n : Nat) :
    c.polled hydrate n = [] := by
  cases n with
  | zero => rfl
  | succ n => simp only [polled, poll, h, if_true]

/-! ## One pull, and the rest -/

theorem stream_eq (hydrate : Hydrator α) {c : Cursor} (h : c.isOver = false) :
    c.stream hydrate =
      match c.next hydrate with
      | ⟨.ok (some a), c', events⟩ =>
        let rest := c'.stream hydrate
        ⟨rest.outcome.map (.ok a :: ·), rest.cursor, events ++ rest.events⟩
      | ⟨.ok none, c', events⟩ => ⟨.ok [], c', events⟩
      | ⟨.failed f, c', events⟩ => ⟨.ok [.error f], c', events⟩
      | ⟨.stalled, c', events⟩ => ⟨.stalled, c', events⟩ := by
  rw [stream, if_neg (Bool.eq_false_iff.1 h)]
  split <;> next hn => simp only [hn]

theorem collect_eq (hydrate : Hydrator α) (c : Cursor) :
    c.collect hydrate =
      match c.next hydrate with
      | ⟨.ok (some a), c', events⟩ =>
        let rest := c'.collect hydrate
        ⟨rest.outcome.map (a :: ·), rest.cursor, events ++ rest.events⟩
      | ⟨.ok none, c', events⟩ => ⟨.ok [], c', events⟩
      | ⟨.failed f, c', events⟩ => ⟨.failed f, c', events⟩
      | ⟨.stalled, c', events⟩ => ⟨.stalled, c', events⟩ := by
  rw [collect]
  split <;> next hn => simp only [hn]

/-! ## Readings -/

/-- What there is to read of a cursor: the items that it hands out, and the
failure that comes after them. -/
inductive ReadsTo (hydrate : Hydrator α) : Cursor → List α → Option Fault → Prop where
  | row {c c' a events items failure} (ho : c.isOver = false) (hn : c.next hydrate = ⟨.ok (some a), c', events⟩)
    (h : ReadsTo hydrate c' items failure) : ReadsTo hydrate c (a :: items) failure
  | ended {c c' events more} (hn : c.next hydrate = ⟨.ok none, c', events⟩) (hp : c'.phase = .exhausted more) :
    ReadsTo hydrate c [] none
  | failed {c c' f events} (ho : c.isOver = false) (hn : c.next hydrate = ⟨.failed f, c', events⟩)
    (hp : c'.phase = .failed none) : ReadsTo hydrate c [] (some f)

/-- A failure that is kept is what the next pull comes to. -/
theorem next_of_kept (hydrate : Hydrator α) {c : Cursor} {f : Fault} (h : c.kept? = some f) :
    c.next hydrate = ⟨.failed f, c.gone (.failed none), []⟩ := by
  unfold kept? at h
  split at h
  · next hp =>
    subst h
    simp only [next, hp]
    rfl
  · cases h

namespace ReadsTo

variable {hydrate : Hydrator α} {c : Cursor} {items : List α} {failure : Option Fault}

/-- **Pull after pull**: the items, then the failure once, and then the same answer always. -/
theorem outcomes (h : c.ReadsTo hydrate items failure) (n : Nat) :
    (c.pulls hydrate n).outcomes = Course.outcomes ⟨items, failure, false⟩ n := by
  induction h generalizing n with
  | @row c c' a events items failure ho hn h ih =>
    cases n with
    | zero =>
      rw [Course.outcomes_zero]
      rfl
    | succ n =>
      rw [pulls_succ hn, ih n]
      exact (Course.outcomes_cons a ⟨items, failure, false⟩ n).symm
  | ended hn hp =>
    cases n with
    | zero => rfl
    | succ n => rw [pulls_succ hn, pulls_of_still (next_of_exhausted hydrate hp)]; rfl
  | failed ho hn hp =>
    cases n with
    | zero => rfl
    | succ n => rw [pulls_succ hn, pulls_of_still (next_of_failed hydrate hp)]; rfl

/-- **Polling the stream**: the items and the failure, and nothing after it. -/
theorem polled (h : c.ReadsTo hydrate items failure) (n : Nat) :
    c.polled hydrate n = (resultsOf items failure).take n := by
  induction h generalizing n with
  | row ho hn h ih =>
    cases n with
    | zero => rfl
    | succ n => simp [Cursor.polled, poll, ho, hn, ih, resultsOf]
  | @ended c c' events more hn hp =>
    cases n with
    | zero => rfl
    | succ n => cases ho : c.isOver <;> simp [Cursor.polled, poll, ho, hn, resultsOf]
  | @failed c c' f events ho hn hp =>
    have hover : c'.isOver = true := by simp only [isOver, hp]
    cases n with
    | zero => rfl
    | succ n => simp [Cursor.polled, poll, ho, hn, polled_of_over hover, resultsOf]

/-- The whole stream. -/
theorem stream (h : c.ReadsTo hydrate items failure) :
    (c.stream hydrate).outcome = .ok (resultsOf items failure) := by
  induction h with
  | row ho hn h ih =>
    rw [stream_eq hydrate ho, hn]
    dsimp only
    rw [ih]
    rfl
  | @ended c c' events more hn hp =>
    cases ho : c.isOver with
    | true =>
      rw [Cursor.stream, if_pos ho]
      rfl
    | false =>
      rw [stream_eq hydrate ho, hn]
      rfl
  | failed ho hn hp =>
    rw [stream_eq hydrate ho, hn]
    rfl

/-- **Collecting**: all the items, or the failure. -/
theorem collect (h : c.ReadsTo hydrate items failure) :
    (c.collect hydrate).outcome = failure.elim (.ok items) .failed := by
  induction h with
  | @row c c' a events items failure ho hn h ih =>
    rw [collect_eq, hn]
    dsimp only
    rw [ih]
    cases failure <;> rfl
  | ended hn hp | failed ho hn hp =>
    rw [collect_eq, hn]
    rfl

/-- A failure that is kept after some pulls comes after all the items, and these were handed out. -/
theorem of_kept (h : c.ReadsTo hydrate items failure) {n : Nat} {f : Fault}
    (hk : (c.pulls hydrate n).state.kept? = some f) : failure = some f ∧ items.length ≤ n := by
  induction h generalizing n with
  | row ho hn h ih =>
    cases n with
    | zero => cases hn.symm.trans (next_of_kept hydrate hk)
    | succ n =>
      rw [pulls_succ hn] at hk
      obtain ⟨hf, hle⟩ := ih hk
      exact ⟨hf, Nat.succ_le_succ hle⟩
  | ended hn hp =>
    cases n with
    | zero => cases hn.symm.trans (next_of_kept hydrate hk)
    | succ n =>
      rw [pulls_succ hn, pulls_of_still (next_of_exhausted hydrate hp)] at hk
      simp only [kept?, hp] at hk
      cases hk
  | failed ho hn hp =>
    cases n with
    | zero =>
      cases hn.symm.trans (next_of_kept hydrate hk)
      exact ⟨rfl, Nat.zero_le 0⟩
    | succ n =>
      rw [pulls_succ hn, pulls_of_still (next_of_failed hydrate hp)] at hk
      simp only [kept?, hp] at hk
      cases hk

end ReadsTo

/-- With a source held, the stream is not over. -/
theorem isOver_of_source {c : Cursor} {s : Source} (h : c.source? = some s) : c.isOver = false := by
  unfold source? at h
  unfold isOver
  cases hp : c.phase <;> simp_all

/-- Over a source that never stalls there is something to read, no more than one result a turn. -/
theorem exists_readsTo (hydrate : Hydrator α) (columns : List String)
    (turns : List (Except Fault (List Value))) {c : Cursor} {s : Source} (hs : c.source? = some s)
    (hf : s.feed = .ofTurns columns turns) :
    ∃ items failure, c.ReadsTo hydrate items failure ∧ (resultsOf items failure).length ≤ turns.length := by
  have ho := isOver_of_source hs
  induction turns generalizing c s with
  | nil =>
    exact ⟨[], none, .ended (next_of_step hs (.ended (by rw [hf]; rfl))) rfl, Nat.le_refl 0⟩
  | cons turn turns ih =>
    obtain ⟨id, feed⟩ := s
    cases hf
    cases turn with
    | error f =>
      exact ⟨[], some f, .failed ho (next_of_step hs (.failed rfl)) rfl, Nat.le_add_left 1 _⟩
    | ok values =>
      cases hr : hydrate ⟨columns, values⟩ with
      | error f =>
        exact ⟨[], some f, .failed ho (next_of_step hs (.unreadable rfl hr)) rfl, Nat.le_add_left 1 _⟩
      | ok a =>
        cases hl : c.counted.atLimit with
        | false =>
          obtain ⟨items, failure, hrest, hle⟩ := ih (c := c.counted.going ⟨id, .ofTurns columns turns⟩) rfl rfl rfl
          exact ⟨a :: items, failure, .row ho (next_of_step hs (.row rfl hr hl)) hrest, Nat.succ_le_succ hle⟩
        | true =>
          -- The turn after the last row within the limit is looked at with it.
          cases turns with
          | nil =>
            exact ⟨[a], none, .row ho (next_of_step hs (.lastThenEnd rfl hr hl)) (.ended rfl rfl), Nat.le_refl 1⟩
          | cons turn turns =>
            cases turn with
            | ok more =>
              exact ⟨[a], none, .row ho (next_of_step hs (.lastThenRow rfl hr hl)) (.ended rfl rfl),
                Nat.le_add_left 1 _⟩
            | error f =>
              exact ⟨[a], some f, .row ho (next_of_step hs (.lastThenFailure rfl hr hl)) (.failed rfl rfl rfl),
                Nat.le_add_left 2 _⟩

/-- **Three ways to read a cursor.** Of a fresh cursor over a source that comes
to these turns, with any limit:

* `n` polls of the stream give what `n` pulls do: the items that these hand out,
  and then the first failure among them, and nothing after it;
* as many pulls as there are turns tell all: the stream is their items and the
  failure, and collecting comes to the failure, or without one to the items;
* a failure that the cursor keeps, having found it past the limit, is not lost:
  it comes after the items handed out so far, and ends the stream. -/
theorem three_readings (hydrate : Hydrator α) (id : Nat) (columns : List String)
    (turns : List (Except Fault (List Value))) (limit : Option UInt64) (n : Nat) :
    let c := ofSource ⟨id, .ofTurns columns turns⟩ limit
    let life := c.pulls hydrate n
    let items := handedOut life.outcomes
    let failure := firstFailure? life.outcomes
    c.polled hydrate n = items.map .ok ++ failure.toList.map .error ∧
    (turns.length ≤ n →
      (c.stream hydrate).outcome = .ok (items.map .ok ++ failure.toList.map .error) ∧
      (c.collect hydrate).outcome = failure.elim (.ok items) .failed) ∧
    ∀ f, life.state.kept? = some f →
      (c.stream hydrate).outcome = .ok (items.map .ok ++ [.error f]) ∧ (c.collect hydrate).outcome = .failed f := by
  intro c life items failure
  obtain ⟨all, failed, hreads, hle⟩ := exists_readsTo hydrate columns turns (c := c) rfl rfl
  have hitems : items = all.take n :=
    (congrArg handedOut (hreads.outcomes n)).trans (Course.handedOut_outcomes _ n)
  have hfailure : failure = if all.length < n then failed else none :=
    (congrArg firstFailure? (hreads.outcomes n)).trans (Course.firstFailure?_outcomes _ n)
  refine ⟨?_, fun hn => ?_, fun f hk => ?_⟩
  · rw [hitems, hfailure]
    exact (hreads.polled n).trans (take_resultsOf all failed n)
  · -- There are no more results than turns, so that the pulls show them all.
    rw [length_resultsOf] at hle
    have hall : items = all := hitems.trans (List.take_of_length_le (by omega))
    have hfail : failure = failed := by
      rw [hfailure]
      split
      · rfl
      · cases failed with
        | none => rfl
        | some f => simp at hle; omega
    rw [hall, hfail]
    exact ⟨hreads.stream, hreads.collect⟩
  · obtain ⟨rfl, hall⟩ := hreads.of_kept hk
    rw [hitems, List.take_of_length_le hall]
    exact ⟨hreads.stream, hreads.collect⟩

/-- Two rows within the limit and a failure past it, which the stream gives
after them and collecting comes to; and a limit of zero, which lets a row through. -/
theorem three_readings_kept_failure :
    let lost : Fault := .execution ⟨.connectivity, none, "closed"⟩
    let turns : List (Except Fault (List Value)) := [.ok [.ofInt 1], .ok [.ofInt 2], .error lost]
    let c (limit : UInt64) := ofSource ⟨0, .ofTurns ["_id"] turns⟩ (some limit)
    turns.length ≤ 3 ∧ ((c 2).pulls Hydrator.values 2).state.kept? = some lost ∧
      ((c 2).stream Hydrator.values).outcome = .ok [.ok [.ofInt 1], .ok [.ofInt 2], .error lost] ∧
      ((c 2).collect Hydrator.values).outcome = .failed lost ∧
      ((c 0).stream Hydrator.values).outcome = .ok [.ok [.ofInt 1]] ∧
      ((c 0).collect Hydrator.values).outcome = .ok [[.ofInt 1]] := by
  intro lost turns c
  have hturns : turns.length ≤ 3 := Nat.le_refl 3
  have hkept : ((c 2).pulls Hydrator.values 2).state.kept? = some lost := rfl
  obtain ⟨hstream, hcollect⟩ := (three_readings Hydrator.values 0 ["_id"] turns (some 2) 2).2.2 lost hkept
  obtain ⟨hstream', hcollect'⟩ := (three_readings Hydrator.values 0 ["_id"] turns (some 0) 3).2.1 hturns
  exact ⟨hturns, hkept, hstream, hcollect, hstream', hcollect'⟩

end Cursor

end TableQuery

/-
Cursors: pulling the rows of a source one by one, hydrating each.

With a limit, the source was asked for one row more. That row is read right
after the last one within the limit, only to tell whether there are more,
and it is never handed out; if reading it fails, the failure is kept for the
next pull. The source is held while the cursor is fresh or streaming and is
released on the way out of that: at the end, on a failure, on closing, or
when the cursor is dropped.
-/
import TableQuery.Storage

namespace TableQuery

/-- Where a cursor stands in its life. -/
inductive Phase where
  /-- Nothing has been pulled. -/
  | fresh (source : Source)
  | streaming (source : Source)
  /-- The rows have come to an end or to the limit; `more` says that there
  are rows past the limit. -/
  | exhausted (more : Bool)
  | closed
  /-- A failure was returned, or is kept for the next pull. -/
  | failed (kept : Option Fault)
deriving DecidableEq, Repr

structure Cursor where
  phase : Phase
  limit : Option UInt64
  /-- The rows counted as handed out. -/
  yielded : Nat
deriving DecidableEq, Repr

/-- What a pull came to, the cursor after it, and what happened at storage. -/
structure Pulled (α : Type) where
  outcome : Outcome α
  cursor : Cursor
  events : List Event
deriving DecidableEq, Repr

namespace Cursor

variable {α : Type}

def ofSource (s : Source) (limit : Option UInt64) : Cursor := ⟨.fresh s, limit, 0⟩

/-- The source a cursor holds. -/
def source? (c : Cursor) : Option Source :=
  match c.phase with
  | .fresh s | .streaming s => some s
  | _ => none

/-- Rows past the limit are known to exist. -/
def hasMore (c : Cursor) : Bool :=
  match c.phase with
  | .exhausted more => more
  | _ => false

/-- As many rows have been counted as the limit allows. -/
def atLimit (c : Cursor) : Bool :=
  match c.limit with
  | some l => l.toNat ≤ c.yielded
  | none => false

/-- Reads the row past the limit, then hands `a` out. A stall here ends the
pull with `a` counted and not handed out. -/
def lookAhead (c : Cursor) (s : Source) (a : α) (before : List Event) : Pulled (Option α) :=
  let (pull, s') := s.next
  let pulled := before ++ [.pulled s.id]
  match pull with
  | .ok row => ⟨.ok (some a), { c with phase := .exhausted row.isSome }, pulled ++ [.released s.id]⟩
  | .failed f => ⟨.ok (some a), { c with phase := .failed (some f) }, pulled ++ [.released s.id]⟩
  | .stalled => ⟨.stalled, { c with phase := .streaming s' }, pulled⟩

/-- Pulls a row from the source the cursor holds. -/
def pull (hydrate : Hydrator α) (c : Cursor) (s : Source) : Pulled (Option α) :=
  let (pull, s') := s.next
  let pulled := [.pulled s.id]
  match pull with
  | .stalled => ⟨.stalled, { c with phase := .streaming s' }, pulled⟩
  | .failed f => ⟨.failed f, { c with phase := .failed none }, pulled ++ [.released s.id]⟩
  | .ok none => ⟨.ok none, { c with phase := .exhausted false }, pulled ++ [.released s.id]⟩
  | .ok (some row) =>
    match hydrate row with
    | .error f => ⟨.failed f, { c with phase := .failed none }, pulled ++ [.released s.id]⟩
    | .ok a =>
      let c := { c with phase := .streaming s', yielded := c.yielded + 1 }
      if c.atLimit then c.lookAhead s' a pulled else ⟨.ok (some a), c, pulled⟩

/-- Pulls the next row; nothing once the rows have come to an end. A closed
cursor refuses, and so does a failed one, after giving out a kept failure. -/
def next (hydrate : Hydrator α) (c : Cursor) : Pulled (Option α) :=
  match c.phase with
  | .fresh s | .streaming s => c.pull hydrate s
  | .exhausted _ => ⟨.ok none, c, []⟩
  | .closed => ⟨.failed .cursorClosed, c, []⟩
  | .failed (some f) => ⟨.failed f, { c with phase := .failed none }, []⟩
  | .failed none => ⟨.failed .cursorFailed, c, []⟩

/-- The release of a source that is still held. -/
def drop (c : Cursor) : List Event :=
  match c.source? with
  | some s => [.released s.id]
  | none => []

/-- Ends an unfinished cursor early. -/
def close (c : Cursor) : Cursor × List Event :=
  match c.phase with
  | .fresh _ | .streaming _ => ({ c with phase := .closed }, c.drop)
  | _ => (c, [])

/-- The pulls its source has left. -/
def remaining (c : Cursor) : Nat :=
  match c.source? with
  | some s => s.feed.pulls.length
  | none => 0

theorem remaining_of_phase {c : Cursor} {s : Source}
    (h : c.phase = .fresh s ∨ c.phase = .streaming s) :
    c.remaining = s.feed.pulls.length := by
  rcases h with h | h <;> simp [remaining, source?, h]

/-- A source that gives a row has a turn less to give. -/
theorem length_of_next {s s' : Source} {row : Row} (h : s.next = (.ok (some row), s')) :
    s'.feed.pulls.length < s.feed.pulls.length := by
  unfold Source.next at h
  split at h
  · cases h
  · rename_i pull rest hp
    simp only [Prod.mk.injEq] at h
    simp [← h.2, hp]

theorem remaining_pull_lt {hydrate : Hydrator α} {c : Cursor} {s : Source} {a : α}
    (h : (c.pull hydrate s).outcome = .ok (some a)) :
    (c.pull hydrate s).cursor.remaining < s.feed.pulls.length := by
  unfold pull at h ⊢
  rcases hn : s.next with ⟨_ | _ | _, s'⟩ <;> simp only [hn] at h ⊢ <;> try cases h
  rename_i row
  cases row with
  | none => cases h
  | some row =>
    have hlt := length_of_next hn
    cases hh : hydrate row with
    | error f => simp [hh] at h
    | ok b =>
      simp only [hh] at h ⊢
      split
      · rename_i hl
        unfold lookAhead
        rcases hn' : s'.next with ⟨_ | _ | _, s''⟩
        case ok | failed => simp only [remaining, source?]; omega
        case stalled => simp [hl, lookAhead, hn'] at h
      · simpa [remaining, source?] using hlt

/-- A pull that hands a row out uses up a turn of the source. -/
theorem remaining_next_lt (hydrate : Hydrator α) (c : Cursor) {a : α}
    (h : (c.next hydrate).outcome = .ok (some a)) :
    (c.next hydrate).cursor.remaining < c.remaining := by
  unfold next at h ⊢
  split <;> rename_i hp <;> simp only [hp] at h
  · rw [remaining_of_phase (.inl hp)]; exact remaining_pull_lt h
  · rw [remaining_of_phase (.inr hp)]; exact remaining_pull_lt h
  all_goals cases h

/-- All rows still to come; a failure or stall ends it, and the rows before
are lost. -/
def collect (hydrate : Hydrator α) (c : Cursor) : Pulled (List α) :=
  match h : c.next hydrate with
  | ⟨.ok (some a), c', events⟩ =>
    have : c'.remaining < c.remaining := by
      have := remaining_next_lt hydrate c (a := a) (by rw [h])
      rwa [h] at this
    let rest := collect hydrate c'
    ⟨rest.outcome.map (a :: ·), rest.cursor, events ++ rest.events⟩
  | ⟨.ok none, c', events⟩ => ⟨.ok [], c', events⟩
  | ⟨.failed f, c', events⟩ => ⟨.failed f, c', events⟩
  | ⟨.stalled, c', events⟩ => ⟨.stalled, c', events⟩
termination_by c.remaining

/-- Nothing more will come, not even a failure. -/
def isOver (c : Cursor) : Bool :=
  match c.phase with
  | .exhausted _ | .closed | .failed none => true
  | _ => false

/-- The rows still to come, as a stream of results that ends after the first
failure. -/
def stream (hydrate : Hydrator α) (c : Cursor) : Pulled (List (Except Fault α)) :=
  if c.isOver then ⟨.ok [], c, []⟩ else
    match h : c.next hydrate with
    | ⟨.ok (some a), c', events⟩ =>
      have : c'.remaining < c.remaining := by
        have := remaining_next_lt hydrate c (a := a) (by rw [h])
        rwa [h] at this
      let rest := stream hydrate c'
      ⟨rest.outcome.map (.ok a :: ·), rest.cursor, events ++ rest.events⟩
    | ⟨.ok none, c', events⟩ => ⟨.ok [], c', events⟩
    | ⟨.failed f, c', events⟩ => ⟨.ok [.error f], c', events⟩
    | ⟨.stalled, c', events⟩ => ⟨.stalled, c', events⟩
termination_by c.remaining

end Cursor

end TableQuery

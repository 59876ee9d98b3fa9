/-
A cursor kept in separate registers: its source, the stage of its life, the
failure kept for the next pull, the count and the flag, each set on its own. A
pull sets some of them before a read and some after it, and one that is given
up leaves them as they stood at the read.

`Cursor` holds its source, flag and failure within its phase, so it cannot be
in most of the states that registers can. What calls do to the two is the same
(`registers_next`, `registers_close`), and so is what any calls do
(`Keeping.live_map`).
-/
import TableQuery.Proofs.Cursor.Step

namespace TableQuery

/-! ## Calls -/

/-- A call on a cursor. -/
inductive CursorCall where
  | next
  | close
deriving DecidableEq, Repr

/-- The pulls among calls. -/
def CursorCall.pulls (calls : List CursorCall) : Nat := calls.count .next

/-- A way to keep a cursor, with what each call does to it. -/
structure Keeping (S α : Type) where
  next : S → Outcome (Option α) × S × List Event
  close : S → S × List Event

/-- What some calls came to: the outcomes of the pulls among them, the state
after them, and what happened at storage. -/
structure Lived (S α : Type) where
  outcomes : List (Outcome (Option α))
  state : S
  events : List Event

def Lived.map {S T α : Type} (f : S → T) (l : Lived S α) : Lived T α :=
  ⟨l.outcomes, f l.state, l.events⟩

namespace Keeping

variable {S T α : Type}

/-- Makes calls one after the other, whatever they come to. -/
@[simp]
def live (k : Keeping S α) : List CursorCall → S → Lived S α
  | [], s => ⟨[], s, []⟩
  | .next :: calls, s =>
    let (outcome, s, events) := k.next s
    let rest := k.live calls s
    ⟨outcome :: rest.outcomes, rest.state, events ++ rest.events⟩
  | .close :: calls, s =>
    let (s, events) := k.close s
    let rest := k.live calls s
    ⟨rest.outcomes, rest.state, events ++ rest.events⟩

/-- What each call keeps, any calls keep. -/
theorem live_invariant {k : Keeping S α} {I : S → Prop} (hnext : ∀ s, I s → I (k.next s).2.1)
    (hclose : ∀ s, I s → I (k.close s).1) (calls : List CursorCall) {s : S} (h : I s) :
    I (k.live calls s).state := by
  induction calls generalizing s with
  | nil => exact h
  | cons call calls ih =>
    cases call with
    | next => exact ih (hnext s h)
    | close => exact ih (hclose s h)

/-- Where no call changes anything, every pull has the same answer. -/
theorem live_of_still {k : Keeping S α} {s : S} {o : Outcome (Option α)} (hnext : k.next s = (o, s, []))
    (hclose : k.close s = (s, [])) (calls : List CursorCall) :
    k.live calls s = ⟨.replicate (CursorCall.pulls calls) o, s, []⟩ := by
  induction calls with
  | nil => rfl
  | cons call calls ih =>
    cases call with
    | next =>
      simp [hnext, ih, CursorCall.pulls, List.replicate_succ]
    | close =>
      have hcount : (CursorCall.close :: calls).count .next = calls.count .next := List.count_cons_of_ne (by decide)
      simp [hclose, ih, CursorCall.pulls, hcount]

/-- Where a pull changes nothing, all pulls have the same answer. -/
theorem live_pulls_of_still {k : Keeping S α} {s : S} {o : Outcome (Option α)} (h : k.next s = (o, s, []))
    (n : Nat) : k.live (.replicate n .next) s = ⟨.replicate n o, s, []⟩ := by
  induction n with
  | zero => rfl
  | succ n ih => simp [List.replicate_succ, h, ih]

/-- Two ways that agree on each call agree on any calls. -/
theorem live_map {k : Keeping S α} {k' : Keeping T α} {f : S → T}
    (hnext : ∀ s, k'.next (f s) = ((k.next s).1, f (k.next s).2.1, (k.next s).2.2))
    (hclose : ∀ s, k'.close (f s) = (f (k.close s).1, (k.close s).2)) (calls : List CursorCall) (s : S) :
    k'.live calls (f s) = (k.live calls s).map f := by
  induction calls generalizing s with
  | nil => rfl
  | cons call calls ih =>
    cases call with
    | next => simp [hnext, ih, Lived.map]
    | close => simp [hclose, ih, Lived.map]

end Keeping

/-! ## The registers -/

/-- The stages of a cursor's life. -/
inductive Stage where
  | fresh | streaming | exhausted | closed | failed
deriving DecidableEq, Repr

structure Registers where
  source : Option Source
  stage : Stage
  limit : Option UInt64
  /-- The rows counted as handed out. -/
  yielded : Nat
  hasMore : Bool
  /-- The failure kept for the next pull. -/
  kept : Option Fault
deriving DecidableEq, Repr

namespace Registers

variable {α : Type}

def ofSource (s : Source) (limit : Option UInt64) : Registers :=
  ⟨some s, .fresh, limit, 0, false, none⟩

def atLimit (r : Registers) : Bool :=
  match r.limit with
  | some l => l.toNat ≤ r.yielded
  | none => false

/-- Comes to an end, and lets the source go if it is still there. -/
def finish (r : Registers) (stage : Stage) : Registers × List Event :=
  ({ r with stage, source := none }, (r.source.map fun s => .released s.id).toList)

/-- Reads the row past the limit; a failure is kept. -/
def lookAhead (r : Registers) : Outcome Unit × Registers × List Event :=
  match r.source with
  | none => (.ok (), r, [])
  | some s =>
    let (pull, s') := s.next
    let r := { r with source := some s' }
    match pull with
    | .stalled => (.stalled, r, [.pulled s.id])
    | .ok extra =>
      let (r, released) := { r with hasMore := extra.isSome }.finish .exhausted
      (.ok (), r, .pulled s.id :: released)
    | .failed f =>
      let (r, released) := { r with kept := some f }.finish .failed
      (.ok (), r, .pulled s.id :: released)

/-- Reads a row from the source, and the one past the limit after the last within it. -/
def pull (hydrate : Hydrator α) (r : Registers) (s : Source) : Outcome (Option α) × Registers × List Event :=
  let (pull, s') := s.next
  let r := { r with source := some s' }
  match pull with
  | .stalled => (.stalled, r, [.pulled s.id])
  | .failed f =>
    let (r, released) := r.finish .failed
    (.failed f, r, .pulled s.id :: released)
  | .ok none =>
    let (r, released) := r.finish .exhausted
    (.ok none, r, .pulled s.id :: released)
  | .ok (some row) =>
    match hydrate row with
    | .error f =>
      let (r, released) := r.finish .failed
      (.failed f, r, .pulled s.id :: released)
    | .ok a =>
      let r := { r with yielded := r.yielded + 1 }
      if r.atLimit then
        let (look, r, events) := r.lookAhead
        (look.map fun _ => some a, r, .pulled s.id :: events)
      else (.ok (some a), r, [.pulled s.id])

/-- Pulls the next row. -/
def next (hydrate : Hydrator α) (r : Registers) : Outcome (Option α) × Registers × List Event :=
  match r.stage with
  | .closed => (.failed .cursorClosed, r, [])
  | .failed => (.failed (r.kept.getD .cursorFailed), { r with kept := none }, [])
  | .exhausted => (.ok none, r, [])
  | .fresh | .streaming =>
    let r := { r with stage := .streaming }
    match r.source with
    | some s => r.pull hydrate s
    -- Never taken, by `Cursor.life_cycle`: in these two stages there is a source.
    | none => (.ok none, { r with stage := .exhausted }, [])

/-- Ends an unfinished cursor early. -/
def close (r : Registers) : Registers × List Event :=
  match r.stage with
  | .fresh | .streaming => r.finish .closed
  | _ => (r, [])

def keeping (hydrate : Hydrator α) : Keeping Registers α := ⟨next hydrate, close⟩

end Registers

/-! ## The registers of a cursor -/

namespace Cursor

variable {α : Type}

def stage (c : Cursor) : Stage :=
  match c.phase with
  | .fresh _ => .fresh
  | .streaming _ => .streaming
  | .exhausted _ => .exhausted
  | .closed => .closed
  | .failed _ => .failed

/-- The failure kept for the next pull. -/
def kept? (c : Cursor) : Option Fault :=
  match c.phase with
  | .failed kept => kept
  | _ => none

def keeping (hydrate : Hydrator α) : Keeping Cursor α where
  next c := ((c.next hydrate).outcome, (c.next hydrate).cursor, (c.next hydrate).events)
  close := close

def registers (c : Cursor) : Registers :=
  ⟨c.source?, c.stage, c.limit, c.yielded, c.hasMore, c.kept?⟩

/-- With a source held, nothing is kept and no rows past the limit are known of. -/
theorem registers_of_source {c : Cursor} {s : Source} (h : c.source? = some s) :
    { c.registers with stage := .streaming } = ⟨some s, .streaming, c.limit, c.yielded, false, none⟩ := by
  unfold source? at h
  unfold registers source? hasMore kept?
  cases hp : c.phase <;> simp_all

/-- Reading from a source does to the registers what it does to the cursor. -/
theorem registers_pull (hydrate : Hydrator α) {c : Cursor} {s : Source} (h : c.source? = some s) :
    { c.registers with stage := .streaming }.pull hydrate s =
      ((c.pull hydrate s).outcome, (c.pull hydrate s).cursor.registers, (c.pull hydrate s).events) := by
  rw [registers_of_source h, Registers.pull]
  have hstep := pull_step hydrate c s
  generalize c.pull hydrate s = p at hstep
  -- Whether the limit is reached is asked of the registers after the row is counted.
  have hlimit : ∀ source, (Registers.mk source .streaming c.limit (c.yielded + 1) false none).atLimit =
      c.counted.atLimit := fun _ => rfl
  cases hstep with
  | ended hp => simp only [Source.next_nil hp]; rfl
  | stalled hp | failed hp => simp only [Source.next_cons hp, Outcome.map]; rfl
  | unreadable hp hr => simp only [Source.next_cons hp, Outcome.map, hr]; rfl
  | row hp hr hl =>
    simp only [Source.next_cons hp, Outcome.map, hr, hlimit, hl, Bool.false_eq_true, if_false]
    rfl
  | lastThenEnd hp hr hl | lastThenRow hp hr hl | lastThenFailure hp hr hl | lastThenStall hp hr hl =>
    simp only [Source.next_cons hp, Outcome.map, hr, hlimit, hl, if_true]
    rfl

theorem registers_next (hydrate : Hydrator α) (c : Cursor) :
    c.registers.next hydrate =
      ((c.next hydrate).outcome, (c.next hydrate).cursor.registers, (c.next hydrate).events) := by
  cases hs : c.source? with
  | some s =>
    rw [next_of_source hs, ← registers_pull hydrate hs]
    unfold source? at hs
    unfold Registers.next
    cases hp : c.phase <;> simp_all [registers, stage, source?]
  | none =>
    unfold source? at hs
    unfold Registers.next next
    rcases c with ⟨p, limit, yielded⟩
    cases p with
    | fresh | streaming => cases hs
    | exhausted | closed => rfl
    | failed kept => cases kept <;> rfl

@[simp]
theorem registers_close (c : Cursor) : c.registers.close = (c.close.1.registers, c.close.2) := by
  rcases c with ⟨_ | _ | _ | _ | _, limit, yielded⟩ <;> rfl

/-- **Registers live as the cursor does.** -/
theorem registers_live (hydrate : Hydrator α) (calls : List CursorCall) (c : Cursor) :
    (Registers.keeping hydrate).live calls c.registers = ((keeping hydrate).live calls c).map registers :=
  Keeping.live_map (registers_next hydrate) registers_close calls c

end Cursor

end TableQuery

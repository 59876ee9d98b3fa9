/-
Bounds kept as three numbers, each set on its own: the limit, an offset and a
page. Setting an offset clears the page, and setting a page the offset.

`Bounds` has one place for where its window starts, so it can hold no offset
beside a page. What builder calls do to the two is the same (`registers_apply`),
and so is what any calls do (`registers_applyAll`).
-/
import TableQuery.Proofs.Query.Reach

namespace TableQuery

structure BoundRegisters where
  limit : Option UInt64
  offset : Option UInt64
  page : Option UInt64
deriving DecidableEq, Repr

namespace BoundRegisters

def empty : BoundRegisters := ⟨none, none, none⟩

def setLimit (r : BoundRegisters) (n : UInt64) : Except Fault BoundRegisters :=
  if n = 0 then .error (.invalidBounds .zeroLimit) else .ok { r with limit := some n }

def setOffset (r : BoundRegisters) (n : UInt64) : BoundRegisters :=
  { r with offset := some n, page := none }

def setPage (r : BoundRegisters) (n : UInt64) : Except Fault BoundRegisters :=
  if n = 0 then .error (.invalidBounds .zeroPage)
  else if r.limit.isNone then .error (.invalidBounds .pageWithoutLimit)
  else .ok { r with page := some n, offset := none }

/-- The rows to pass over: those of the pages before, or as many as the offset says. -/
def passedOver (r : BoundRegisters) : Option UInt64 :=
  match r.page, r.limit with
  | some p, some l => some (saturate ((p.toNat - 1) * l.toNat))
  | _, _ => r.offset

/-- What a builder call sets of the three. -/
def apply (r : BoundRegisters) : Edit → Except Fault BoundRegisters
  | .limit n => r.setLimit n
  | .offset n => .ok (r.setOffset n)
  | .page n => r.setPage n
  | _ => .ok r

def applyAll (r : BoundRegisters) : List Edit → Except Fault BoundRegisters
  | [] => .ok r
  | e :: rest => do (← r.apply e).applyAll rest

end BoundRegisters

namespace Bounds

def registers (b : Bounds) : BoundRegisters where
  limit := b.limit
  offset := match b.start with
    | some (.offset n) => some n
    | _ => none
  page := b.page

@[simp]
theorem passedOver_registers (b : Bounds) : b.registers.passedOver = b.offset := by
  obtain ⟨_ | l, _ | n | p⟩ := b <;> rfl

@[simp]
theorem setLimit_registers (b : Bounds) (n : UInt64) :
    b.registers.setLimit n = (b.withLimit n).map registers := by
  unfold withLimit BoundRegisters.setLimit
  split <;> rfl

@[simp]
theorem setPage_registers (b : Bounds) (n : UInt64) :
    b.registers.setPage n = (b.withPage n).map registers := by
  obtain ⟨_ | l, start⟩ := b <;> unfold withPage BoundRegisters.setPage <;> split <;> rfl

/-- A page is counted from 1, and stands beside a limit and no offset: the rows
to pass over are those of the pages before. -/
theorem Valid.registers_of_page {b : Bounds} (h : b.Valid) {p : UInt64} (hp : b.registers.page = some p) :
    p ≠ 0 ∧ b.registers.offset = none ∧
      ∃ l, b.registers.limit = some l ∧ b.offset = some (saturate ((p.toNat - 1) * l.toNat)) := by
  obtain ⟨limit, _ | n | p'⟩ := b
  · cases hp
  · cases hp
  · cases hp
    obtain ⟨hzero, hlimit⟩ := h.page p rfl
    obtain ⟨l, rfl⟩ := Option.ne_none_iff_exists'.1 hlimit
    exact ⟨hzero, rfl, l, rfl, rfl⟩

end Bounds

namespace Query

variable {q q' : Query}

theorem Changes.bounds_eq {part : DraftPart} (h : Changes part q q') (hpart : part ≠ .window) :
    q'.draft.bounds = q.draft.bounds := by
  induction h with
  | refl => rfl
  | tail _ hc ih =>
    rw [← ih]
    cases hc with
    | limit | offset | page => exact absurd rfl hpart
    | _ => rfl

/-- **A call sets the three numbers as it sets the bounds.** -/
theorem registers_apply {e : Edit} (h : q.apply e = .ok q') :
    q.draft.bounds.registers.apply e = .ok q'.draft.bounds.registers := by
  -- Only three of the calls are about the window.
  have hother : e.isWindow = false → q'.draft.bounds = q.draft.bounds := fun he => by
    obtain ⟨part, hc, hpart⟩ := apply_changes h
    exact hc.bounds_eq fun hw => Bool.false_ne_true (he.symm.trans (hpart hw))
  cases e with
  | limit n =>
    obtain ⟨b, hb, hq⟩ := Except.bind_eq_ok.1 h
    cases hq
    exact (Bounds.setLimit_registers _ n).trans (by rw [hb]; rfl)
  | offset n =>
    cases h
    rfl
  | page n =>
    obtain ⟨b, hb, hq⟩ := Except.bind_eq_ok.1 h
    cases hq
    exact (Bounds.setPage_registers _ n).trans (by rw [hb]; rfl)
  | _ =>
    rw [hother rfl]
    rfl

/-- **Any calls set the three numbers as they set the bounds.** -/
theorem registers_applyAll {edits : List Edit} (h : q.applyAll edits = .ok q') :
    q.draft.bounds.registers.applyAll edits = .ok q'.draft.bounds.registers := by
  induction edits generalizing q with
  | nil =>
    cases h
    rfl
  | cons e rest ih =>
    obtain ⟨q₁, h₁, h⟩ := Except.bind_eq_ok.1 h
    exact Except.bind_eq_ok.2 ⟨_, registers_apply h₁, ih h⟩

end Query

end TableQuery

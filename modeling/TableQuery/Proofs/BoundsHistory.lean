/-
The latest calls decide what bounds are (`Bounds.latest_decides`).

Limit, offset, page and clearing can be called in any order and any number of
times, and some calls are refused. What bounds say afterwards is told by the calls
that were accepted since they were last cleared: the limit by the last one about
it, and where the window starts by the last one about that. A page is worth its
rows at the limit of the moment, which may have been set after it.

The same calls on the three numbers, each set on its own, come to the same.
-/
import Mathlib.Data.List.DropRight
import TableQuery.Proofs.Query.Bounds

namespace TableQuery

namespace BoundsCall

def limit? : BoundsCall → Option UInt64
  | limit n => some n
  | _ => none

def start? : BoundsCall → Option WindowStart
  | offset n => some (.offset n)
  | page n => some (.page n)
  | _ => none

/-- The calls after the last that clears. -/
def sinceClear (calls : List BoundsCall) : List BoundsCall := calls.rtakeWhile (· ≠ .clear)

@[simp]
theorem sinceClear_concat (calls : List BoundsCall) (c : BoundsCall) :
    sinceClear (calls ++ [c]) = if c = .clear then [] else sinceClear calls ++ [c] := by
  rw [sinceClear, List.rtakeWhile_concat]
  by_cases h : c = .clear <;> simp [sinceClear, h]

/-- The last limit of some calls. -/
def lastLimit? (calls : List BoundsCall) : Option UInt64 := (calls.filterMap limit?).getLast?

/-- The last offset or page of some calls. -/
def lastStart? (calls : List BoundsCall) : Option WindowStart := (calls.filterMap start?).getLast?

end BoundsCall

namespace BoundRegisters

/-- What a call on bounds alone sets of the three. -/
def step (r : BoundRegisters) : BoundsCall → Except Fault BoundRegisters
  | .limit n => r.setLimit n
  | .offset n => .ok (r.setOffset n)
  | .page n => r.setPage n
  | .clear => .ok empty

/-- Makes calls one after the other; one that fails sets nothing. -/
def stepAll (r : BoundRegisters) (calls : List BoundsCall) : BoundRegisters :=
  calls.foldl (fun r c => (r.step c).toOption.getD r) r

end BoundRegisters

namespace Bounds

open BoundsCall

/-- The calls that are accepted, when they are made one after the other. -/
def accepted (b : Bounds) : List BoundsCall → List BoundsCall
  | [] => []
  | c :: rest =>
    match b.call c with
    | (.ok (), b') => c :: b'.accepted rest
    | (.error _, b') => b'.accepted rest

/-! ## One call -/

variable {b b' : Bounds} {c : BoundsCall}

theorem call_of_ok (h : b.apply c = .ok b') : b.call c = (.ok (), b') := by rw [call, h]

theorem call_of_error {fault : Fault} (h : b.apply c = .error fault) : b.call c = (.error fault, b) := by
  rw [call, h]

theorem fst_call_eq_error_iff {fault : Fault} : (b.call c).1 = .error fault ↔ b.apply c = .error fault := by
  cases h : b.apply c with
  | ok b' => simp [call_of_ok h]
  | error e => simp [call_of_error h]

theorem call_of_refused {fault : Fault} (h : (b.call c).1 = .error fault) : (b.call c).2 = b := by
  rw [call_of_error (fst_call_eq_error_iff.1 h)]

/-- What an accepted call sets. -/
theorem apply_cases (h : b.apply c = .ok b') :
    (∃ n ≠ 0, c = .limit n ∧ b' = { b with limit := some n }) ∨
      (∃ n, c = .offset n ∧ b' = { b with start := some (.offset n) }) ∨
      (∃ n ≠ 0, c = .page n ∧ b.limit ≠ none ∧ b' = { b with start := some (.page n) }) ∨
      c = .clear ∧ b' = .empty := by
  cases c with
  | limit n =>
    simp only [apply, withLimit] at h
    split at h
    · cases h
    · next hn => exact .inl ⟨n, hn, rfl, (Except.ok.inj h).symm⟩
  | offset n => exact .inr (.inl ⟨n, rfl, (Except.ok.inj h).symm⟩)
  | page n =>
    simp only [apply, withPage] at h
    split at h
    · cases h
    · next hn =>
      split at h
      · cases h
      · next hl => exact .inr (.inr (.inl ⟨n, hn, rfl, by simpa using hl, (Except.ok.inj h).symm⟩))
  | clear => exact .inr (.inr (.inr ⟨rfl, (Except.ok.inj h).symm⟩))

/-- A call is refused for one of three reasons. -/
theorem apply_eq_error_iff {fault : Fault} :
    b.apply c = .error fault ↔
      (c = .limit 0 ∧ fault = .invalidBounds .zeroLimit) ∨ (c = .page 0 ∧ fault = .invalidBounds .zeroPage) ∨
        ∃ n ≠ 0, c = .page n ∧ b.limit = none ∧ fault = .invalidBounds .pageWithoutLimit := by
  cases c with
  | limit n =>
    by_cases hn : n = 0
    · simp [apply, withLimit, hn, @eq_comm _ _ fault]
    · simp [apply, withLimit, hn]
  | page n =>
    by_cases hn : n = 0
    · simp [apply, withPage, hn, @eq_comm _ _ fault]
    · by_cases hl : b.limit = none
      · simp [apply, withPage, hn, hl, @eq_comm _ _ fault]
      · simp [apply, withPage, hn, hl]
  | offset n | clear => simp [apply]

theorem Valid.apply (hb : b.Valid) (h : b.apply c = .ok b') : b'.Valid := by
  obtain ⟨n, hn, -, rfl⟩ | ⟨n, -, rfl⟩ | ⟨n, hn, -, hl, rfl⟩ | ⟨-, rfl⟩ := apply_cases h
  · exact ⟨fun he => hn (Option.some.inj he), fun p hp => ⟨(hb.page p hp).1, nofun⟩⟩
  · exact ⟨hb.limit, nofun⟩
  · exact ⟨hb.limit, fun p hp => by cases hp; exact ⟨hn, hl⟩⟩
  · exact ⟨nofun, nofun⟩

/-! ## Any calls -/

@[simp]
theorem callAll_cons (b : Bounds) (c : BoundsCall) (calls : List BoundsCall) :
    b.callAll (c :: calls) = (b.call c).2.callAll calls := rfl

@[simp]
theorem callAll_concat (b : Bounds) (calls : List BoundsCall) (c : BoundsCall) :
    b.callAll (calls ++ [c]) = ((b.callAll calls).call c).2 := by
  rw [callAll, List.foldl_concat]
  rfl

@[simp]
theorem accepted_concat (b : Bounds) (calls : List BoundsCall) (c : BoundsCall) :
    b.accepted (calls ++ [c]) =
      b.accepted calls ++ (if ((b.callAll calls).call c).1 = .ok () then [c] else []) := by
  induction calls generalizing b with
  | nil =>
    cases h : b.apply c with
    | ok b' => simp [accepted, callAll, call_of_ok h]
    | error fault => simp [accepted, callAll, call_of_error h]
  | cons first calls ih =>
    cases h : b.apply first with
    | ok b' => simp [accepted, call_of_ok h, ih b']
    | error fault => simp [accepted, call_of_error h, ih b]

/-- Bounds as some calls have set them, none of which cleared. -/
structure Told (recent : List BoundsCall) (b : Bounds) : Prop where
  limit : b.limit = lastLimit? recent
  start : b.start = lastStart? recent
  uncleared : .clear ∉ recent
  valid : b.Valid

theorem told_empty : Told [] empty := ⟨rfl, rfl, List.not_mem_nil, ⟨nofun, nofun⟩⟩

theorem Told.apply {recent : List BoundsCall} (hb : Told recent b) (h : b.apply c = .ok b') :
    Told (if c = .clear then [] else recent ++ [c]) b' := by
  have hvalid := hb.valid.apply h
  obtain ⟨n, -, rfl, rfl⟩ | ⟨n, rfl, rfl⟩ | ⟨n, -, rfl, -, rfl⟩ | ⟨rfl, rfl⟩ := apply_cases h
  · exact ⟨by simp [lastLimit?, BoundsCall.limit?], by simp [hb.start, lastStart?, start?], by simp [hb.uncleared],
      hvalid⟩
  · exact ⟨by simp [hb.limit, lastLimit?, BoundsCall.limit?], by simp [lastStart?, start?], by simp [hb.uncleared],
      hvalid⟩
  · exact ⟨by simp [hb.limit, lastLimit?, BoundsCall.limit?], by simp [lastStart?, start?], by simp [hb.uncleared],
      hvalid⟩
  · exact told_empty

theorem told_callAll (calls : List BoundsCall) :
    Told (sinceClear (empty.accepted calls)) (empty.callAll calls) := by
  induction calls using List.reverseRecOn with
  | nil => exact told_empty
  | append_singleton calls c ih =>
    cases h : (empty.callAll calls).apply c with
    | ok b' => simpa [call_of_ok h] using ih.apply h
    | error fault => simpa [call_of_error h] using ih

/-! ### On the three numbers -/

@[simp]
theorem registers_step (b : Bounds) (c : BoundsCall) : b.registers.step c = (b.apply c).map registers := by
  cases c with
  | limit n => exact b.setLimit_registers n
  | offset n => rfl
  | page n => exact b.setPage_registers n
  | clear => rfl

@[simp]
theorem registers_callAll (b : Bounds) (calls : List BoundsCall) :
    b.registers.stepAll calls = (b.callAll calls).registers := by
  induction calls generalizing b with
  | nil => rfl
  | cons c calls ih =>
    have hstep : (b.registers.step c).toOption.getD b.registers = (b.call c).2.registers := by
      rw [registers_step, call]
      cases b.apply c <;> rfl
    rw [callAll_cons, ← ih, ← hstep]
    rfl

/-! ## What bounds say -/

namespace Told

variable {recent : List BoundsCall}

theorem offset_of_none (h : Told recent b) (hs : lastStart? recent = none) : b.offset = none := by
  rw [offset, h.start, hs]

theorem offset_of_offset (h : Told recent b) {n : UInt64} (hs : lastStart? recent = some (.offset n)) :
    b.offset = some n := by
  rw [offset, h.start, hs]

/-- A page is worth its rows at the limit as it is now. -/
theorem offset_of_page (h : Told recent b) {p : UInt64} (hp : lastStart? recent = some (.page p)) :
    ∃ l o, b.limit = some l ∧ b.offset = some o ∧
      o.toNat = min ((p.toNat - 1) * l.toNat) 0xFFFFFFFFFFFFFFFF := by
  have hstart := h.start.trans hp
  obtain ⟨-, hlimit⟩ := h.valid.page p hstart
  obtain ⟨l, hl⟩ := Option.ne_none_iff_exists'.1 hlimit
  exact ⟨l, _, hl, by rw [offset, hstart, hl], toNat_saturate _⟩

theorem page_eq_some_iff (h : Told recent b) {p : UInt64} : b.page = some p ↔ lastStart? recent = some (.page p) := by
  rw [← h.start, Bounds.page]
  split
  · next n hn => simp [hn]
  · next hn => exact ⟨nofun, fun he => (hn p he).elim⟩

/-- A page has a limit beside it, so bounds say nothing only where nothing was set. -/
theorem isEmpty_iff (h : Told recent b) : b.isEmpty ↔ recent = [] := by
  constructor
  · intro hempty
    obtain ⟨hlimit, hoffset⟩ : b.limit = none ∧ b.offset = none := by simpa [isEmpty] using hempty
    have hstart : b.start = none := by
      obtain ⟨_ | l, _ | n | p⟩ := b
      · rfl
      · cases hoffset
      · exact absurd rfl (h.valid.page p rfl).2
      · cases hlimit
      · cases hlimit
      · cases hlimit
    rw [h.limit, lastLimit?, List.getLast?_eq_none_iff, List.filterMap_eq_nil_iff] at hlimit
    rw [h.start, lastStart?, List.getLast?_eq_none_iff, List.filterMap_eq_nil_iff] at hstart
    refine List.eq_nil_iff_forall_not_mem.2 fun c hmem => ?_
    cases c with
    | limit n => cases hlimit _ hmem
    | offset n | page n => cases hstart _ hmem
    | clear => exact h.uncleared hmem
  · rintro rfl
    simp [isEmpty, h.limit, h.offset_of_none rfl, lastLimit?]

end Told

/-- **The latest accepted calls decide what bounds are**, after any calls on empty ones.

* A call is refused if it is for a limit or a page of zero, or for a page while no
  limit was accepted since the bounds were last cleared; then they stay as they are.
* The limit is the last one accepted since then.
* The rows to pass over are told by the last offset or page accepted since then:
  none, as many as the offset says, or those of the pages before, at the limit of
  now, or the largest number if they are more.
* There is a page exactly if that was one, and the bounds are empty exactly if no
  call was accepted since they were last cleared.
* The three numbers, each set on its own, are these bounds' own after the same calls:
  an accepted offset clears the page, and an accepted page the offset. -/
theorem latest_decides (calls : List BoundsCall) :
    let b := empty.callAll calls
    let recent := sinceClear (empty.accepted calls)
    (∀ c fault, (b.call c).1 = .error fault ↔
        (c = .limit 0 ∧ fault = .invalidBounds .zeroLimit) ∨ (c = .page 0 ∧ fault = .invalidBounds .zeroPage) ∨
          ∃ n ≠ 0, c = .page n ∧ lastLimit? recent = none ∧ fault = .invalidBounds .pageWithoutLimit) ∧
      (∀ c fault, (b.call c).1 = .error fault → (b.call c).2 = b) ∧
      b.limit = lastLimit? recent ∧
      (lastStart? recent = none → b.offset = none) ∧
      (∀ n, lastStart? recent = some (.offset n) → b.offset = some n) ∧
      (∀ p, lastStart? recent = some (.page p) → ∃ l o, b.limit = some l ∧ b.offset = some o ∧
        o.toNat = min ((p.toNat - 1) * l.toNat) 0xFFFFFFFFFFFFFFFF) ∧
      (∀ p, b.page = some p ↔ lastStart? recent = some (.page p)) ∧
      (b.isEmpty ↔ recent = []) ∧
      BoundRegisters.empty.stepAll calls = b.registers := by
  intro b recent
  have htold : Told recent b := told_callAll calls
  refine ⟨fun c fault => ?_, fun c fault => call_of_refused, htold.limit, htold.offset_of_none,
    fun n => htold.offset_of_offset, fun p => htold.offset_of_page, fun p => htold.page_eq_some_iff, htold.isEmpty_iff,
    registers_callAll empty calls⟩
  rw [fst_call_eq_error_iff, apply_eq_error_iff, htold.limit]

/-- Refused calls in between, an offset that a page replaces, and a limit that is
set after the page. -/
theorem latest_decides_late_limit :
    let calls := [.page 3, .limit 5, .clear, .page 2, .limit 7, .offset 9, .page 4, .limit 0, .limit 2]
    let b := empty.callAll calls
    sinceClear (empty.accepted calls) = [.limit 7, .offset 9, .page 4, .limit 2] ∧
      b.limit = some 2 ∧ b.page = some 4 ∧ (∃ o, b.offset = some o ∧ o.toNat = 6) ∧
      ((b.call (.limit 0)).1 = .error (.invalidBounds .zeroLimit) ∧ (b.call (.limit 0)).2 = b) ∧
      BoundRegisters.empty.stepAll calls = ⟨some 2, none, some 4⟩ := by
  intro calls b
  obtain ⟨hrefused, hkept, hlimit, -, -, hpage, hshown, -, hnumbers⟩ := latest_decides calls
  obtain ⟨l, o, hl, ho, hrows⟩ := hpage 4 (by decide)
  have hnow : b.limit = some 2 := hlimit.trans (by decide)
  obtain rfl : l = 2 := Option.some.inj (hl.symm.trans hnow)
  have hzero := (hrefused (.limit 0) _).2 (.inl ⟨rfl, rfl⟩)
  exact ⟨by decide, hnow, (hshown 4).2 (by decide), ⟨o, ho, hrows.trans (by decide)⟩, ⟨hzero, hkept _ _ hzero⟩,
    hnumbers.trans (by decide)⟩

end Bounds

end TableQuery

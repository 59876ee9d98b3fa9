/-
The queries that builder calls lead to.

A call that succeeds makes changes to one part of the draft (`apply_changes`),
and `Change` says what each of them does and what was checked before it. What
every change keeps holds of every query that can be reached
(`Reachable.invariant`); the first of these facts is that of the bounds, that a
limit is never zero and a page never stands without one (`Reachable.bounds`).
-/
import Mathlib.Logic.Relation
import TableQuery.Query.Edit

namespace TableQuery

@[simp] theorem Except.ok_bind {ε α β : Type} (a : α) (f : α → Except ε β) : (Except.ok a >>= f) = f a := rfl

@[simp] theorem Except.error_bind {ε α β : Type} (e : ε) (f : α → Except ε β) : (.error e >>= f) = .error e := rfl

theorem Except.bind_eq_ok {ε α β : Type} {x : Except ε α} {f : α → Except ε β} {b : β} :
    (x >>= f) = .ok b ↔ ∃ a, x = .ok a ∧ f a = .ok b := by
  cases x with
  | error e => exact ⟨fun h => (by cases h), fun ⟨_, h, _⟩ => (by cases h)⟩
  | ok a => exact ⟨fun h => ⟨a, rfl, h⟩, fun ⟨_, h, hf⟩ => (by cases h; exact hf)⟩

/-- The parts of a draft. -/
inductive DraftPart where
  | conditions | order | projection | window | raw | assignments
deriving DecidableEq, Repr

/-- The calls about the limit and about where the window starts. -/
def Edit.isWindow : Edit → Bool
  | .limit _ | .offset _ | .page _ => true
  | _ => false

namespace Query

/-- One change to a part of the draft, with what has to hold for it. -/
inductive Change (q : Query) : DraftPart → Query → Prop where
  | condition {field : String} {op : Operator} {operands : List Value} {part : Option DatePart} {p : Predicate}
    (h : Predicate.make q.schema field op operands part = .ok p) :
    Change q .conditions { q with draft.predicates := q.draft.predicates ++ [p] }
  | sort {name : String} {f : Field} (h : q.schema.require name = .ok f) (direction : Direction)
    (order : List Value) :
    Change q .order { q with draft.sorts := SortKey.put q.draft.sorts (.make f.name direction order) }
  | select {name : String} {f : Field} (h : q.schema.require name = .ok f) :
    Change q .projection { q with draft.projection := q.draft.projection.add f.name }
  | wildcard : Change q .projection { q with draft.projection.wildcard := true }
  | clear : Change q .projection { q with draft.projection := .empty }
  | limit {n : UInt64} (h : n ≠ 0) : Change q .window { q with draft.bounds.limit := some n }
  | offset (n : UInt64) : Change q .window { q with draft.bounds.start := some (.offset n) }
  | page {n : UInt64} (h : n ≠ 0) (hl : q.draft.bounds.limit ≠ none) :
    Change q .window { q with draft.bounds.start := some (.page n) }
  | raw (r : RawStatement) : Change q .raw { q with draft.raw := some r }
  | assign {name : String} {f : Field} (h : q.schema.require name = .ok f) (v : Value) :
    Change q .assignments { q with draft.assignments := Assignment.put q.draft.assignments f.name v }

/-- Any number of changes to one part. -/
def Changes (part : DraftPart) : Query → Query → Prop :=
  Relation.ReflTransGen fun q q' => Change q part q'

theorem Change.changes {part : DraftPart} {q q' : Query} (h : Change q part q') : Changes part q q' :=
  .single h

section

variable {q q' : Query}

theorem addCondition_change {field : String} {op : Operator} {operands : List Value}
    {part : Option DatePart} (h : q.addCondition field op operands part = .ok q') :
    Change q .conditions q' := by
  obtain ⟨p, hp, hq⟩ := Except.bind_eq_ok.1 h
  cases hq
  exact .condition hp

theorem filterParts_changes {field : String} {op : Operator} {keywords : List String}
    (h : q.filterParts field op keywords = .ok q') : Changes .conditions q q' := by
  induction keywords generalizing q with
  | nil =>
    cases h
    exact .refl
  | cons keyword rest ih =>
    rw [filterParts] at h
    obtain ⟨⟨part, values⟩, -, h⟩ := Except.bind_eq_ok.1 h
    obtain ⟨q₁, h₁, h⟩ := Except.bind_eq_ok.1 h
    exact .head (addCondition_change h₁) (ih h)

theorem filterDate_changes {verb field : String} {keywords : List String}
    (h : q.filterDate verb field keywords = .ok q') : Changes .conditions q q' := by
  obtain ⟨op, -, h⟩ := Except.bind_eq_ok.1 h
  exact filterParts_changes h

theorem sortBy_change {field : String} {direction : Direction} {order : List Value}
    (h : q.sortBy field direction order = .ok q') : Change q .order q' := by
  obtain ⟨f, hf, hq⟩ := Except.bind_eq_ok.1 h
  cases hq
  exact .sort hf direction order

theorem selectField_change {field : String} (h : q.selectField field = .ok q') :
    Change q .projection q' := by
  unfold selectField at h
  split at h
  · cases h
    exact .wildcard
  · obtain ⟨f, hf, hq⟩ := Except.bind_eq_ok.1 h
    cases hq
    exact .select hf

theorem select_changes {fields : List String} (h : q.select fields = .ok q') :
    Changes .projection q q' := by
  induction fields generalizing q with
  | nil =>
    cases h
    exact .refl
  | cons field rest ih =>
    obtain ⟨q₁, h₁, h⟩ := Except.bind_eq_ok.1 h
    exact .head (selectField_change h₁) (ih h)

theorem limit_change {n : UInt64} (h : q.limit n = .ok q') : Change q .window q' := by
  obtain ⟨b, hb, hq⟩ := Except.bind_eq_ok.1 h
  cases hq
  unfold Bounds.withLimit at hb
  split at hb
  · cases hb
  · next hn =>
    cases hb
    exact .limit hn

theorem page_change {n : UInt64} (h : q.page n = .ok q') : Change q .window q' := by
  obtain ⟨b, hb, hq⟩ := Except.bind_eq_ok.1 h
  cases hq
  unfold Bounds.withPage at hb
  split at hb
  · cases hb
  · next hn =>
    split at hb
    · cases hb
    · next hl =>
      cases hb
      exact .page hn (by simpa using hl)

theorem assign_change {field : String} {v : Value} (h : q.assign field v = .ok q') :
    Change q .assignments q' := by
  obtain ⟨f, hf, hq⟩ := Except.bind_eq_ok.1 h
  cases hq
  exact .assign hf v

theorem assignAll_changes {fields : List (String × Value)} (h : q.assignAll fields = .ok q') :
    Changes .assignments q q' := by
  induction fields generalizing q with
  | nil =>
    cases h
    exact .refl
  | cons pair rest ih =>
    obtain ⟨q₁, h₁, h⟩ := Except.bind_eq_ok.1 h
    exact .head (assign_change h₁) (ih h)

theorem call_changes {name : String} {args : List Value} (h : q.call name args = .ok q') :
    ∃ part, Changes part q q' ∧ part ≠ .window := by
  obtain ⟨m, -, h⟩ := Except.bind_eq_ok.1 h
  obtain ⟨⟨field, args⟩, -, h⟩ := Except.bind_eq_ok.1 h
  dsimp only at h
  split at h
  · exact ⟨_, (addCondition_change h).changes, by decide⟩
  · exact ⟨_, (sortBy_change h).changes, by decide⟩
  · exact ⟨_, (sortBy_change h).changes, by decide⟩
  · split at h
    · obtain ⟨names, -, h⟩ := Except.bind_eq_ok.1 h
      exact ⟨_, select_changes h, by decide⟩
    · split at h
      · cases h
      · exact ⟨_, select_changes h, by decide⟩

theorem callWith_changes {name : String} {keywords : List String}
    (h : q.callWith name keywords = .ok q') : Changes .conditions q q' := by
  obtain ⟨m, -, h⟩ := Except.bind_eq_ok.1 h
  split at h
  · split at h
    · exact filterDate_changes h
    · cases h
    · exact filterDate_changes h
  · cases h

/-- **A builder call changes one part of the draft**, in steps of `Change`; the
window is changed by the calls that are about it only. -/
theorem apply_changes {e : Edit} (h : q.apply e = .ok q') :
    ∃ part, Changes part q q' ∧ (part = .window → e.isWindow) := by
  cases e with
  | filter | filterPart => exact ⟨_, (addCondition_change h).changes, nofun⟩
  | filterBy =>
    obtain ⟨op, -, h⟩ := Except.bind_eq_ok.1 h
    exact ⟨_, (addCondition_change h).changes, nofun⟩
  | filterDate => exact ⟨_, filterDate_changes h, nofun⟩
  | sortBy => exact ⟨_, (sortBy_change h).changes, nofun⟩
  | select => exact ⟨_, select_changes h, nofun⟩
  | selectEverything =>
    cases h
    exact ⟨_, Change.wildcard.changes, nofun⟩
  | clearSelection =>
    cases h
    exact ⟨_, Change.clear.changes, nofun⟩
  | limit => exact ⟨_, (limit_change h).changes, fun _ => rfl⟩
  | offset n =>
    cases h
    exact ⟨_, (Change.offset n).changes, fun _ => rfl⟩
  | page => exact ⟨_, (page_change h).changes, fun _ => rfl⟩
  | raw sql params =>
    cases h
    exact ⟨_, (Change.raw ⟨sql, params⟩).changes, nofun⟩
  | assign => exact ⟨_, (assign_change h).changes, nofun⟩
  | assignAll => exact ⟨_, assignAll_changes h, nofun⟩
  | call =>
    obtain ⟨part, hc, hpart⟩ := call_changes h
    exact ⟨part, hc, fun he => absurd he hpart⟩
  | callWith => exact ⟨_, callWith_changes h, nofun⟩

end

/-! ## Reachable queries -/

/-- Builder calls, none of which failed, lead to the query from the empty one. -/
def Reachable (s : Schema) (d : Dialect) (q : Query) : Prop :=
  ∃ edits, (ofSchema s d).applyAll edits = .ok q

/-- What every change keeps, any number of them keep. -/
theorem Changes.invariant {P : Query → Prop} (step : ∀ {part q q'}, P q → Change q part q' → P q')
    {part : DraftPart} {q q' : Query} (hq : P q) (h : Changes part q q') : P q' := by
  induction h with
  | refl => exact hq
  | tail _ hc ih => exact step ih hc

/-- What holds of the empty query and is kept by every change holds of every query. -/
theorem Reachable.invariant {s : Schema} {d : Dialect} (P : Query → Prop) (start : P (ofSchema s d))
    (step : ∀ {part q q'}, P q → Change q part q' → P q') {q : Query} (h : Reachable s d q) : P q := by
  obtain ⟨edits, h⟩ := h
  generalize ofSchema s d = q₀ at start h
  induction edits generalizing q₀ with
  | nil =>
    cases h
    exact start
  | cons e rest ih =>
    obtain ⟨q₁, h₁, h⟩ := Except.bind_eq_ok.1 h
    obtain ⟨part, hc, -⟩ := apply_changes h₁
    exact ih q₁ (hc.invariant step start) h

theorem Change.fixed {part : DraftPart} {q q' : Query} (h : Change q part q') :
    q'.schema = q.schema ∧ q'.dialect = q.dialect := by
  cases h <;> exact ⟨rfl, rfl⟩

/-- Calls change neither the schema nor the dialect. -/
theorem Reachable.fixed {s : Schema} {d : Dialect} {q : Query} (h : Reachable s d q) :
    q.schema = s ∧ q.dialect = d :=
  h.invariant (fun q => q.schema = s ∧ q.dialect = d) ⟨rfl, rfl⟩ fun hq hc =>
    ⟨hc.fixed.1.trans hq.1, hc.fixed.2.trans hq.2⟩

end Query

/-- Bounds as calls leave them: no limit is zero, and no page either, nor is there one without a limit. -/
structure Bounds.Valid (b : Bounds) : Prop where
  limit : b.limit ≠ some 0
  page : ∀ n, b.start = some (.page n) → n ≠ 0 ∧ b.limit ≠ none

theorem Query.Change.bounds {part : DraftPart} {q q' : Query} (h : Change q part q')
    (hq : q.draft.bounds.Valid) : q'.draft.bounds.Valid := by
  cases h with
  | limit hn => exact ⟨fun hl => hn (Option.some.inj hl), fun n hs => ⟨(hq.page n hs).1, nofun⟩⟩
  | offset n => exact ⟨hq.limit, nofun⟩
  | page hn hl => exact ⟨hq.limit, fun n hs => by cases hs; exact ⟨hn, hl⟩⟩
  | _ => exact hq

theorem Query.Reachable.bounds {s : Schema} {d : Dialect} {q : Query} (h : Reachable s d q) :
    q.draft.bounds.Valid :=
  h.invariant (fun q => q.draft.bounds.Valid) ⟨nofun, nofun⟩ fun hq hc => hc.bounds hq

end TableQuery

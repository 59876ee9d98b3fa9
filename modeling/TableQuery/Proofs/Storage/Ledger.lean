/-
The ledger of sources: what the events at storage say of each, and what is
held of them.

A source is not yet opened, or it is opened, pulled since, and held once, or
it was released after all its pulls and is held no more (`Standing`). That
every source stands in one of these ways (`Accounted`) is kept by each event,
if only held sources are pulled and released. What a run of events does to
the sources held is said without the others (`Takes`, `Keeps`).
-/
import TableQuery.Storage

namespace TableQuery

/-- The source an event is about. -/
def Event.source? : Event → Option Nat
  | opened id | pulled id | released id => some id
  | _ => none

namespace Ledger

/-- What has happened to a source, in order. -/
def about (events : List Event) (id : Nat) : List Event := events.filter fun e => e.source? == some id

/-- The sources opened. -/
def opened (events : List Event) : Nat := events.countP Event.isOpened

/-- Opened once, and only pulled since. -/
def Open (events : List Event) (id : Nat) : Prop :=
  ∃ n, about events id = .opened id :: List.replicate n (.pulled id)

/-- Opened once, released once, and pulled only in between. -/
def Settled (events : List Event) (id : Nat) : Prop :=
  ∃ n, about events id = .opened id :: List.replicate n (.pulled id) ++ [.released id]

/-- How a source stands, if these are the sources held. -/
inductive Standing (events : List Event) (held : List Nat) (id : Nat) : Prop where
  | unopened (hid : opened events ≤ id) (hn : held.count id = 0) (h : about events id = [])
  | held (hid : id < opened events) (hn : held.count id = 1) (h : Open events id)
  | settled (hid : id < opened events) (hn : held.count id = 0) (h : Settled events id)

/-- Every source stands in one of these ways. -/
def Accounted (events : List Event) (held : List Nat) : Prop := ∀ id, Standing events held id

variable {events : List Event} {held held' : List Nat} {id : Nat}

theorem about_of_ne {e : Event} (h : e.source? ≠ some id) : about (events ++ [e]) id = about events id := by
  simp [about, h]

theorem about_of_eq {e : Event} (h : e.source? = some id) : about (events ++ [e]) id = about events id ++ [e] := by
  simp [about, h]

/-- An event that opens nothing leaves the sources it is not about where they stand. -/
theorem Standing.of_ne (h : Standing events held id) {e : Event} (he : e.source? ≠ some id)
    (ho : e.isOpened = false) (hn : held'.count id = held.count id) : Standing (events ++ [e]) held' id := by
  have hcount : opened (events ++ [e]) = opened events := by simp [opened, List.countP_append, ho]
  cases h with
  | unopened hid hz h => exact .unopened (hcount ▸ hid) (hn.trans hz) ((about_of_ne he).trans h)
  | held hid ho h =>
    obtain ⟨n, h⟩ := h
    exact .held (hcount ▸ hid) (hn.trans ho) ⟨n, (about_of_ne he).trans h⟩
  | settled hid hz h =>
    obtain ⟨n, h⟩ := h
    exact .settled (hcount ▸ hid) (hn.trans hz) ⟨n, (about_of_ne he).trans h⟩

/-- A held source is open, and held once. -/
theorem Accounted.open_of_mem (h : Accounted events held) (hid : id ∈ held) :
    id < opened events ∧ held.count id = 1 ∧ Open events id := by
  have hpos := List.count_pos_iff.2 hid
  cases h id with
  | unopened _ hn _ | settled _ hn _ => omega
  | held hlt hn h => exact ⟨hlt, hn, h⟩

theorem Accounted.open_of_held (h : Accounted events (id :: held)) :
    id < opened events ∧ held.count id = 0 ∧ Open events id := by
  obtain ⟨hlt, hn, ho⟩ := h.open_of_mem List.mem_cons_self
  rw [List.count_cons_self] at hn
  exact ⟨hlt, by omega, ho⟩

namespace Accounted

theorem nil : Accounted [] [] := fun id => .unopened (Nat.zero_le id) rfl rfl

theorem perm (h : Accounted events held) (hp : held.Perm held') : Accounted events held' := fun id => by
  have hn := hp.count_eq id
  cases h id with
  | unopened hid hz h => exact .unopened hid (hn ▸ hz) h
  | held hid ho h => exact .held hid (hn ▸ ho) h
  | settled hid hz h => exact .settled hid (hn ▸ hz) h

theorem call (h : Accounted events held) {e : Event} (he : e.isCall) : Accounted (events ++ [e]) held := fun id => by
  cases e with
  | fetched | executed => exact (h id).of_ne nofun rfl rfl
  | _ => cases he

theorem opened (h : Accounted events held) :
    Accounted (events ++ [.opened (opened events)]) (Ledger.opened events :: held) := fun id => by
  have hcount : Ledger.opened (events ++ [.opened (Ledger.opened events)]) = Ledger.opened events + 1 := by
    simp [Ledger.opened, List.countP_append, Event.isOpened]
  by_cases hid : id = Ledger.opened events
  · subst hid
    have hself : (Ledger.opened events :: held).count (Ledger.opened events) =
        held.count (Ledger.opened events) + 1 := List.count_cons_self
    cases h (Ledger.opened events) with
    | unopened _ hz habout =>
      refine .held (by omega) (by omega) ⟨0, ?_⟩
      rw [about_of_eq rfl, habout]
      rfl
    | held hlt => exact absurd hlt (Nat.lt_irrefl _)
    | settled hlt => exact absurd hlt (Nat.lt_irrefl _)
  · have hne : Event.source? (.opened (Ledger.opened events)) ≠ some id := fun he => hid (Option.some.inj he).symm
    have hn : (Ledger.opened events :: held).count id = held.count id := List.count_cons_of_ne (Ne.symm hid)
    cases h id with
    | unopened hle hz habout => exact .unopened (by omega) (hn.trans hz) ((about_of_ne hne).trans habout)
    | held hlt ho habout =>
      obtain ⟨n, habout⟩ := habout
      exact .held (by omega) (hn.trans ho) ⟨n, (about_of_ne hne).trans habout⟩
    | settled hlt hz habout =>
      obtain ⟨n, habout⟩ := habout
      exact .settled (by omega) (hn.trans hz) ⟨n, (about_of_ne hne).trans habout⟩

/-- A fetch that is answered opens the next source. -/
theorem fetched (h : Accounted events held) (statement : Statement) (hint : Option UInt64) :
    Accounted (events ++ [.fetched statement hint, .opened (Ledger.opened events)])
      (Ledger.opened events :: held) := by
  have hcount : Ledger.opened (events ++ [.fetched statement hint]) = Ledger.opened events := by
    simp [Ledger.opened, List.countP_append, Event.isOpened]
  have hopened := (h.call (e := .fetched statement hint) rfl).opened
  rwa [hcount, List.append_assoc] at hopened

theorem pulled (h : Accounted events (id :: held)) : Accounted (events ++ [.pulled id]) (id :: held) := fun i => by
  by_cases hi : i = id
  · subst hi
    obtain ⟨hlt, hz, n, habout⟩ := h.open_of_held
    have hcount : Ledger.opened (events ++ [.pulled i]) = Ledger.opened events := by
      simp [Ledger.opened, List.countP_append, Event.isOpened]
    refine .held (hcount ▸ hlt) (by rw [List.count_cons_self, hz]) ⟨n + 1, ?_⟩
    rw [about_of_eq rfl, habout, List.cons_append, List.replicate_succ']
  · exact (h i).of_ne (fun he => hi (Option.some.inj he).symm) rfl rfl

theorem released (h : Accounted events (id :: held)) : Accounted (events ++ [.released id]) held := fun i => by
  by_cases hi : i = id
  · subst hi
    obtain ⟨hlt, hz, n, habout⟩ := h.open_of_held
    have hcount : Ledger.opened (events ++ [.released i]) = Ledger.opened events := by
      simp [Ledger.opened, List.countP_append, Event.isOpened]
    refine .settled (hcount ▸ hlt) hz ⟨n, ?_⟩
    rw [about_of_eq rfl, habout]
  · exact (h i).of_ne (fun he => hi (Option.some.inj he).symm) rfl (List.count_cons_of_ne (Ne.symm hi)).symm

/-- What was opened stands somewhere, and if nothing is held, it is settled. -/
theorem settled (h : Accounted events held) (hn : id ∉ held) (ho : .opened id ∈ events) : Settled events id := by
  cases h id with
  | unopened _ _ habout =>
    have hmem : .opened id ∈ about events id := List.mem_filter.2 ⟨ho, by simp [Event.source?]⟩
    rw [habout] at hmem
    cases hmem
  | held _ hone _ => exact absurd (List.count_eq_zero.2 hn) (by omega)
  | settled _ _ hs => exact hs

end Accounted

/-! ## What becomes of what is held -/

/-- These events take what is held from `before` to `after`, whatever else is held. -/
def Takes (before : List Nat) (es : List Event) (after : List Nat) : Prop :=
  ∀ events others, Accounted events (before ++ others) → Accounted (events ++ es) (after ++ others)

namespace Takes

variable {es es' : List Event} {before middle after : List Nat}

theorem refl (held : List Nat) : Takes held [] held := fun events others h => by rwa [List.append_nil]

theorem trans (h : Takes before es middle) (h' : Takes middle es' after) : Takes before (es ++ es') after :=
  fun events others ha => by
    rw [← List.append_assoc]
    exact h' _ _ (h _ _ ha)

theorem pulled (id : Nat) : Takes [id] [.pulled id] [id] := fun _ _ h => h.pulled

theorem released (id : Nat) : Takes [id] [.released id] [] := fun _ _ h => h.released

/-- Letting go of one thing after another. -/
theorem append (h : Takes before es []) (h' : Takes middle es' []) : Takes (before ++ middle) (es ++ es') [] :=
  fun events others ha => by
    rw [List.append_assoc] at ha
    rw [← List.append_assoc]
    exact h' _ _ (h _ _ ha)

end Takes

/-- Between these two states of a connection, what is held goes from `before` to `after`. -/
def Keeps {σ : Type} (c c' : Connection σ) (before after : List Nat) : Prop :=
  ∀ others, Accounted c.events (before ++ others) → Accounted c'.events (after ++ others)

theorem Takes.keeps {σ : Type} {es : List Event} {before after : List Nat} (h : Takes before es after)
    (c : Connection σ) : Keeps c (c.record es) before after := fun others => h c.events others

theorem Keeps.trans {σ : Type} {c c' c'' : Connection σ} {before middle after : List Nat}
    (h : Keeps c c' before middle) (h' : Keeps c' c'' middle after) : Keeps c c'' before after :=
  fun others ha => h' others (h others ha)

end Ledger

end TableQuery

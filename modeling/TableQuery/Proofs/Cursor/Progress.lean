/-
A cursor's progress: `Reached rows k lost` says that the first `k` rows of
the source's `rows` have been read, all but `lost` of them handed out, and
where that leaves the cursor.

Every pull reads the next row and hands it out, or leaves the cursor where it
is (`Reached.next`), with one exception: a pull that is given up while it
looks past the limit. By then the last row is read and counted, and no later
pull hands it out.
-/
import TableQuery.Proofs.Cursor.Step
import TableQuery.Proofs.Pulling

namespace TableQuery

/-! ## The rows of a source -/

/-- The rows among the turns of a feed, whatever stalls and failures stand
between them. -/
def Feed.rows (f : Feed) : List Row :=
  f.pulls.filterMap fun
    | .ok values => some ⟨f.columns, values⟩
    | _ => none

/-- The rows a source has left to give. -/
def Source.rows (s : Source) : List Row := s.feed.rows

section

variable {s : Source} {rest : List (Outcome (List Value))}

theorem Source.rows_nil (h : s.feed.pulls = []) : s.rows = [] := by
  simp [Source.rows, Feed.rows, h]

theorem Source.rows_ok {values : List Value} (h : s.feed.pulls = .ok values :: rest) :
    s.rows = ⟨s.feed.columns, values⟩ :: (s.left rest).rows := by
  simp [Source.rows, Feed.rows, Source.left, h]

theorem Source.rows_stalled (h : s.feed.pulls = .stalled :: rest) : s.rows = (s.left rest).rows := by
  simp [Source.rows, Feed.rows, Source.left, h]

end

theorem getElem?_of_drop_eq_cons {β : Type} {bs rest : List β} {k : Nat} {b : β}
    (h : bs.drop k = b :: rest) : bs[k]? = some b ∧ bs.drop (k + 1) = rest ∧ k < bs.length := by
  have hk : k < bs.length := by
    have := congrArg List.length h
    simp only [List.length_drop, List.length_cons] at this
    omega
  rw [List.drop_eq_getElem_cons hk] at h
  obtain ⟨hb, hrest⟩ := List.cons.inj h
  exact ⟨by rw [List.getElem?_eq_getElem hk, hb], hrest, hk⟩

/-! ## Progress -/

namespace Cursor

variable {α : Type}

/-- A cursor, to be pulled again and again. -/
def puller (hydrate : Hydrator α) : Puller Cursor α where
  pull c := ((c.next hydrate).outcome, (c.next hydrate).cursor)
  position := yielded

theorem atLimit_iff {c : Cursor} : c.atLimit ↔ ∃ l, c.limit = some l ∧ l.toNat ≤ c.yielded := by
  unfold atLimit
  split
  · next l h => simp [h]
  · next h => simp [h]

/-- One row more leaves the cursor below its limit. -/
theorem counted_atLimit_iff {c : Cursor} :
    c.counted.atLimit = false ↔ ∀ l, c.limit = some l → c.yielded + 1 < l.toNat := by
  rw [Bool.eq_false_iff, ne_eq, atLimit_iff]
  constructor
  · exact fun h l hl => Nat.lt_of_not_le fun hle => h ⟨l, hl, hle⟩
  · rintro h ⟨l, hl, hle⟩
    exact Nat.not_lt_of_le hle (h l hl)

theorem loses_of_stalled {hydrate : Hydrator α} {c : Cursor} (h : (c.next hydrate).outcome = .stalled) :
    (puller hydrate).loses c = decide (c.yielded < (c.next hydrate).cursor.yielded) := by
  simp only [Puller.loses, puller, h]

/-- The first `k` of the rows have been read, `lost` of them in vain. A limit of zero lets one through. -/
structure Reached (c : Cursor) (rows : List Row) (k lost : Nat) : Prop where
  counted : c.yielded = k
  within : k ≤ rows.length
  held : ∀ s, c.source? = some s → s.rows = rows.drop k
  ended : ∀ more, c.phase = .exhausted more →
    if more then c.atLimit ∧ k < rows.length else k = rows.length
  limited : lost = 0 → ∀ l, c.limit = some l → k ≤ max l.toNat 1
  below : lost = 0 → ∀ s, c.source? = some s → ∀ l, c.limit = some l → k < max l.toNat 1

theorem reached_ofSource (s : Source) (limit : Option UInt64) : (ofSource s limit).Reached s.rows 0 0 where
  counted := rfl
  within := Nat.zero_le _
  held s' hs := by cases hs; rfl
  ended more hp := by cases hp
  limited _ _ _ := Nat.zero_le _
  below _ _ _ _ _ := Nat.lt_of_lt_of_le Nat.zero_lt_one (Nat.le_max_right ..)

namespace Reached

variable {c : Cursor} {rows : List Row} {k lost : Nat}

/-- What holds of a cursor that lost nothing is enough, whatever was lost before it. -/
theorem of_none (h : c.Reached rows k 0) : c.Reached rows k lost where
  counted := h.counted
  within := h.within
  held := h.held
  ended := h.ended
  limited _ := h.limited rfl
  below _ := h.below rfl

/-- A cursor that lets its source go stays where it is. -/
theorem gone (h : c.Reached rows k lost) {p : Phase} (hp : (c.gone p).source? = none)
    (ho : ∀ more, p = .exhausted more → if more then c.atLimit ∧ k < rows.length else k = rows.length) :
    (c.gone p).Reached rows k lost where
  counted := h.counted
  within := h.within
  held s hs := by rw [hp] at hs; cases hs
  ended := ho
  limited := h.limited
  below _ s hs := by rw [hp] at hs; cases hs

theorem going (h : c.Reached rows k lost) {s s' : Source} (hs : c.source? = some s)
    (hs' : s'.rows = rows.drop k) : (c.going s').Reached rows k lost where
  counted := h.counted
  within := h.within
  held s₁ h₁ := by cases h₁; exact hs'
  ended more hp := by cases hp
  limited := h.limited
  below hl _ _ := h.below hl s hs

/-- A row is read, and the source is let go. -/
theorem readLast (h : c.Reached rows k lost) {s : Source} (hs : c.source? = some s) (hk : k < rows.length)
    {p : Phase} (hp : (c.counted.gone p).source? = none)
    (ho : ∀ more, p = .exhausted more →
      if more then c.counted.atLimit ∧ k + 1 < rows.length else k + 1 = rows.length) :
    (c.counted.gone p).Reached rows (k + 1) lost where
  counted := congrArg (· + 1) h.counted
  within := hk
  held s' hs' := by rw [hp] at hs'; cases hs'
  ended := ho
  limited hl l hlim := h.below hl s hs l hlim
  below _ s' hs' := by rw [hp] at hs'; cases hs'

/-- A row is read, and the cursor goes on; at the limit only if that row is lost. -/
theorem read (h : c.Reached rows k lost) {s : Source} (hs : c.source? = some s) (hk : k < rows.length)
    {s' : Source} (hs' : s'.rows = rows.drop (k + 1)) {lost' : Nat}
    (hlost : lost' = 0 → lost = 0 ∧ c.counted.atLimit = false) :
    (c.counted.going s').Reached rows (k + 1) lost' where
  counted := congrArg (· + 1) h.counted
  within := hk
  held s₁ h₁ := by cases h₁; exact hs'
  ended more hp := by cases hp
  limited hl l hlim := h.below (hlost hl).1 s hs l hlim
  below hl _ _ l hlim := by
    have hbelow := counted_atLimit_iff.1 (hlost hl).2 l hlim
    have hcount := h.counted
    omega

theorem pull (h : c.Reached rows k lost) {s : Source} (hs : c.source? = some s) (hydrate : Hydrator α) :
    Moves hydrate rows k lost (c.yielded < (c.pull hydrate s).cursor.yielded)
      ((c.pull hydrate s).cursor.Reached rows) (c.pull hydrate s).outcome := by
  have hrows := h.held s hs
  have hstep := pull_step hydrate c s
  generalize c.pull hydrate s = p at hstep
  -- A row that is read is the `k`-th; what the source has left follows it.
  have hrow : ∀ {values rest}, s.feed.pulls = .ok values :: rest →
      rows[k]? = some ⟨s.feed.columns, values⟩ ∧ rows.drop (k + 1) = (s.left rest).rows ∧ k < rows.length :=
    fun hp => getElem?_of_drop_eq_cons (hrows.symm.trans (Source.rows_ok hp))
  cases hstep with
  | ended hp =>
    refine h.gone rfl fun more hm => ?_
    cases hm
    have hnil : rows.drop k = [] := hrows.symm.trans (Source.rows_nil hp)
    exact Nat.le_antisymm h.within (List.drop_eq_nil_iff.1 hnil)
  | stalled hp =>
    exact .stays (decide_eq_false (Nat.lt_irrefl c.yielded))
      (h.going hs ((Source.rows_stalled hp).symm.trans hrows))
  | failed hp | unreadable hp hr => exact h.gone rfl (fun _ hm => by cases hm)
  | row hp hr hl =>
    obtain ⟨hget, hdrop, hk⟩ := hrow hp
    exact ⟨_, hget, hr, h.read hs hk hdrop.symm fun hlost => ⟨hlost, hl⟩⟩
  | lastThenEnd hp hr hl =>
    obtain ⟨hget, hdrop, hk⟩ := hrow hp
    refine ⟨_, hget, hr, h.readLast hs hk rfl fun more hm => ?_⟩
    cases hm
    have hnil : rows.drop (k + 1) = [] := hdrop.trans (Source.rows_nil rfl)
    exact Nat.le_antisymm hk (List.drop_eq_nil_iff.1 hnil)
  | lastThenRow hp hr hl =>
    obtain ⟨hget, hdrop, hk⟩ := hrow hp
    refine ⟨_, hget, hr, h.readLast hs hk rfl fun more hm => ?_⟩
    cases hm
    exact ⟨hl, (getElem?_of_drop_eq_cons (hdrop.trans (Source.rows_ok rfl))).2.2⟩
  | lastThenFailure hp hr hl =>
    obtain ⟨hget, hdrop, hk⟩ := hrow hp
    exact ⟨_, hget, hr, h.readLast hs hk rfl fun more hm => by cases hm⟩
  | lastThenStall hp hr hl =>
    obtain ⟨hget, hdrop, hk⟩ := hrow hp
    exact .skips (decide_eq_true (Nat.lt_succ_self c.yielded))
      (h.read hs hk ((Source.rows_stalled rfl).symm.trans hdrop.symm) fun hz => by cases hz)

/-- **A pull reads the next row and hands it out, or loses it, or changes nothing.** -/
theorem next (h : c.Reached rows k lost) (hydrate : Hydrator α) :
    Moves hydrate rows k lost ((puller hydrate).loses c) ((c.next hydrate).cursor.Reached rows)
      (c.next hydrate).outcome := by
  have hmoves : Moves hydrate rows k lost (c.yielded < (c.next hydrate).cursor.yielded)
      ((c.next hydrate).cursor.Reached rows) (c.next hydrate).outcome := by
    cases hs : c.source? with
    | some s =>
      rw [next_of_source hs]
      exact h.pull hs hydrate
    | none =>
      have hstep := idle_step hydrate hs
      generalize c.next hydrate = p at hstep
      cases hstep with
      | exhausted | refused => exact h
      | kept => exact h.gone rfl (fun _ hm => by cases hm)
  exact hmoves.of_stalled fun ho => (loses_of_stalled ho).symm

theorem tracks (hydrate : Hydrator α) (rows : List Row) :
    Tracks (puller hydrate) hydrate rows fun c => c.Reached rows :=
  fun _ _ _ h => h.next hydrate

end Reached

end Cursor

end TableQuery

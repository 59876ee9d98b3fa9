/-
Pulls that are given up and made again: when a cursor still hands out the
first rows, within its limit, and counts what it hands out.

It does so exactly until a pull reads the last row within the limit and the
look past the limit then stalls (`spoils_iff`): that row is counted and gone,
and the next pull hands out the row after it. With a limit of zero, which no
query has, the first row is already one too many.
-/
import TableQuery.Proofs.Cursor.Progress

namespace TableQuery

variable {α : Type}

/-- Pulls that stall or hand out a row lead from some turns to others, with so
many pulls and so many rows on the way. -/
inductive Leads (hydrate : Hydrator α) (columns : List String) :
    List (Outcome (List Value)) → Nat → Nat → List (Outcome (List Value)) → Prop where
  | here {turns} : Leads hydrate columns turns 0 0 turns
  | stalled {turns i m rest} (h : Leads hydrate columns turns i m rest) :
    Leads hydrate columns (.stalled :: turns) (i + 1) m rest
  | row {values a turns i m rest} (hr : hydrate ⟨columns, values⟩ = .ok a)
    (h : Leads hydrate columns turns i m rest) :
    Leads hydrate columns (.ok values :: turns) (i + 1) (m + 1) rest

/-- Among the next `n` pulls, one reads the row that makes `yielded` rows as
many as the limit allows, and the turn after that row stalls. -/
def Source.Spoils (hydrate : Hydrator α) (s : Source) (limit : Option UInt64) (yielded n : Nat) : Prop :=
  ∃ l i m values a rest, limit = some l ∧ i < n ∧
    Leads hydrate s.feed.columns s.feed.pulls i m (.ok values :: rest) ∧
    hydrate ⟨s.feed.columns, values⟩ = .ok a ∧ yielded + m + 1 = max l.toNat 1 ∧
    (l = 0 ∨ rest.head? = some .stalled)

namespace Source.Spoils

variable {hydrate : Hydrator α} {s : Source} {turns : List (Outcome (List Value))} {limit : Option UInt64}
  {yielded n : Nat}

theorem stalled (hp : s.feed.pulls = .stalled :: turns) (h : (s.left turns).Spoils hydrate limit yielded n) :
    s.Spoils hydrate limit yielded (n + 1) := by
  obtain ⟨l, i, m, values, a, rest, hlim, hi, hleads, hr, hsum, hz⟩ := h
  exact ⟨l, i + 1, m, values, a, rest, hlim, by omega, hp ▸ .stalled hleads, hr, hsum, hz⟩

theorem row {values : List Value} {a : α} (hp : s.feed.pulls = .ok values :: turns)
    (hr : hydrate ⟨s.feed.columns, values⟩ = .ok a) (h : (s.left turns).Spoils hydrate limit (yielded + 1) n) :
    s.Spoils hydrate limit yielded (n + 1) := by
  obtain ⟨l, i, m, values', a', rest, hlim, hi, hleads, hr', hsum, hz⟩ := h
  exact ⟨l, i + 1, m + 1, values', a', rest, hlim, by omega, hp ▸ .row hr hleads, hr', by omega, hz⟩

end Source.Spoils

namespace Cursor

variable {hydrate : Hydrator α} {c : Cursor} {s : Source}

theorem given_of_row {a : α} (h : (c.next hydrate).outcome = .ok (some a)) (n : Nat) :
    (puller hydrate).given (n + 1) c = a :: (puller hydrate).given n (c.next hydrate).cursor := by
  have hpull : ((puller hydrate).pull c).1 = .ok (some a) := h
  rw [Puller.given, hpull]
  rfl

theorem given_of_none (h : ∀ a, (c.next hydrate).outcome ≠ .ok (some a)) (n : Nat) :
    (puller hydrate).given (n + 1) c = (puller hydrate).given n (c.next hydrate).cursor := by
  rw [Puller.given]
  split
  · next a ha => exact absurd ha (h a)
  · rfl

theorem given_of_stalled (h : (c.next hydrate).outcome = .stalled) (n : Nat) :
    (puller hydrate).given (n + 1) c = (puller hydrate).given n (c.next hydrate).cursor :=
  given_of_none (fun _ ha => by cases h.symm.trans ha) n

theorem losses_of_kept (h : (puller hydrate).loses c = false) (n : Nat) :
    (puller hydrate).losses (n + 1) c = (puller hydrate).losses n (c.next hydrate).cursor := by
  rw [Puller.losses, h]
  exact Nat.zero_add _

theorem loses_of_ne (h : (c.next hydrate).outcome ≠ .stalled) : (puller hydrate).loses c = false := by
  rw [Puller.loses]
  split
  · next hs => exact absurd hs h
  · rfl

theorem loses_of_row {a : α} (h : (c.next hydrate).outcome = .ok (some a)) :
    (puller hydrate).loses c = false :=
  loses_of_ne fun hs => by cases h.symm.trans hs

/-- A stall that counts no row loses none. -/
theorem loses_of_uncounted (h : (c.next hydrate).outcome = .stalled)
    (hy : (c.next hydrate).cursor.yielded = c.yielded) : (puller hydrate).loses c = false := by
  rw [loses_of_stalled h, hy]
  exact decide_eq_false (Nat.lt_irrefl _)

theorem limit_after (hydrate : Hydrator α) (n : Nat) (c : Cursor) :
    ((puller hydrate).after n c).limit = c.limit := by
  induction n generalizing c with
  | zero => rfl
  | succ n ih => exact (ih _).trans (limit_next hydrate c)

/-- A cursor without a source hands nothing out and loses nothing. -/
theorem idle (h : c.source? = none) (n : Nat) :
    (puller hydrate).given n c = [] ∧ (puller hydrate).losses n c = 0 := by
  induction n generalizing c with
  | zero => exact ⟨rfl, rfl⟩
  | succ n ih =>
    have hnext : (c.next hydrate).cursor.source? = none ∧ (∀ a, (c.next hydrate).outcome ≠ .ok (some a)) ∧
        (c.next hydrate).outcome ≠ .stalled := by
      have hstep := idle_step hydrate h
      generalize c.next hydrate = p at hstep
      cases hstep with
      | exhausted | refused => exact ⟨h, nofun, nofun⟩
      | kept => exact ⟨rfl, nofun, nofun⟩
    obtain ⟨hsource, hnone, hstall⟩ := hnext
    obtain ⟨hgiven, hlost⟩ := ih hsource
    exact ⟨(given_of_none hnone n).trans hgiven, (losses_of_kept (loses_of_ne hstall) n).trans hlost⟩

/-- The last row within the limit spoils a run by itself, if it is lost or the limit is zero. -/
theorem spoils_of_last (hbelow : ∀ l, c.limit = some l → c.yielded < max l.toNat 1) {values : List Value} {a : α}
    {rest : List (Outcome (List Value))} (hp : s.feed.pulls = .ok values :: rest)
    (hr : hydrate ⟨s.feed.columns, values⟩ = .ok a) (hl : c.counted.atLimit = true)
    (hz : c.limit = some 0 ∨ rest.head? = some .stalled) (n : Nat) :
    s.Spoils hydrate c.limit c.yielded (n + 1) := by
  obtain ⟨l, hlim, hle⟩ := atLimit_iff.1 hl
  have hlt := hbelow l hlim
  have hcount : c.counted.yielded = c.yielded + 1 := rfl
  refine ⟨l, 0, 0, values, a, rest, hlim, Nat.zero_lt_succ n, hp ▸ .here, hr, by omega, ?_⟩
  exact hz.imp_left fun hz => Option.some.inj (hlim.symm.trans hz)

/-- What spoils a run is found among the turns of the source. -/
theorem spoils_of_run (n : Nat) (hs : c.source? = some s)
    (hbelow : ∀ l, c.limit = some l → c.yielded < max l.toNat 1)
    (h : 0 < (puller hydrate).losses n c ∨ (c.limit = some 0 ∧ (puller hydrate).given n c ≠ [])) :
    s.Spoils hydrate c.limit c.yielded n := by
  induction n generalizing c s with
  | zero =>
    rcases h with h | ⟨-, h⟩
    · exact absurd h (Nat.lt_irrefl 0)
    · exact absurd rfl h
  | succ n ih =>
    have hnext : c.next hydrate = c.pull hydrate s := next_of_source hs
    have hstep := pull_step hydrate c s
    rw [← hnext] at hstep
    -- Once the source is let go, nothing more is lost or handed out.
    have hquiet : (c.next hydrate).outcome ≠ .stalled → (c.next hydrate).cursor.source? = none →
        c.limit = some 0 ∧ (puller hydrate).given (n + 1) c ≠ [] := fun ho hn => by
      refine h.resolve_left ?_
      rw [losses_of_kept (loses_of_ne ho), (idle hn n).2]
      exact Nat.lt_irrefl 0
    generalize hq : c.next hydrate = q at hstep hquiet
    cases hstep with
    | ended | failed | unreadable =>
      have hnone : (puller hydrate).given (n + 1) c = (puller hydrate).given n (c.next hydrate).cursor :=
        given_of_none (by rw [hq]; nofun) n
      rw [hq, (idle rfl n).1] at hnone
      exact absurd hnone (hquiet nofun rfl).2
    | stalled hp =>
      have hstall : (c.next hydrate).outcome = .stalled := by rw [hq]
      rw [losses_of_kept (loses_of_uncounted hstall (by rw [hq]; rfl)), given_of_stalled hstall, hq] at h
      exact .stalled hp (ih (c := c.going (s.left _)) rfl hbelow h)
    | row hp hr hl =>
      have hkept : (puller hydrate).loses c = false := loses_of_row (by rw [hq])
      have hbelow' : ∀ l, c.limit = some l → c.yielded + 1 < l.toNat := counted_atLimit_iff.1 hl
      have hlost : 0 < (puller hydrate).losses n (c.next hydrate).cursor := by
        rcases h with h | ⟨hz, -⟩
        · rwa [losses_of_kept hkept] at h
        · exact absurd (hbelow' 0 hz) (Nat.not_lt_zero _)
      rw [hq] at hlost
      exact .row hp hr (ih (c := c.counted.going (s.left _)) rfl
        (fun l hlim => Nat.lt_of_lt_of_le (hbelow' l hlim) (Nat.le_max_left ..)) (.inl hlost))
    | lastThenEnd hp hr hl => exact spoils_of_last hbelow hp hr hl (.inl (hquiet nofun rfl).1) n
    | lastThenRow hp hr hl => exact spoils_of_last hbelow hp hr hl (.inl (hquiet nofun rfl).1) n
    | lastThenFailure hp hr hl => exact spoils_of_last hbelow hp hr hl (.inl (hquiet nofun rfl).1) n
    | lastThenStall hp hr hl => exact spoils_of_last hbelow hp hr hl (.inr rfl) n

/-- The last row within the limit, if a stall follows it or the limit is zero. -/
theorem run_of_last (hs : c.source? = some s) {values : List Value} {rest : List (Outcome (List Value))}
    (hp : s.feed.pulls = .ok values :: rest) {a : α} (hr : hydrate ⟨s.feed.columns, values⟩ = .ok a) {l : UInt64}
    (hz : l = 0 ∨ rest.head? = some .stalled) (hlim : c.limit = some l)
    (hsum : c.yielded + 1 = max l.toNat 1) (n : Nat) :
    0 < (puller hydrate).losses (n + 1) c ∨ (l = 0 ∧ (puller hydrate).given (n + 1) c ≠ []) := by
  have hnext : c.next hydrate = c.pull hydrate s := next_of_source hs
  have hstep := pull_step hydrate c s
  rw [← hnext] at hstep
  -- A row that is handed out is one too many for a limit of zero, and nothing stalled after it.
  have hhanded : (c.next hydrate).outcome = .ok (some a) → rest.head? ≠ some .stalled →
      l = 0 ∧ (puller hydrate).given (n + 1) c ≠ [] := fun ho hhead => by
    rw [given_of_row ho]
    exact ⟨hz.resolve_right hhead, List.cons_ne_nil _ _⟩
  generalize hq : c.next hydrate = q at hstep hhanded
  cases hstep with
  | ended h | stalled h | failed h =>
    rw [hp] at h
    cases h
  | unreadable h he =>
    cases hp.symm.trans h
    cases hr.symm.trans he
  | row h _ hl =>
    have hbelow := counted_atLimit_iff.1 hl l hlim
    omega
  | lastThenEnd h hr' | lastThenRow h hr' | lastThenFailure h hr' =>
    cases hp.symm.trans h
    cases hr.symm.trans hr'
    exact .inr (hhanded rfl nofun)
  | lastThenStall h =>
    have hlost : (puller hydrate).loses c = true := by
      rw [loses_of_stalled (by rw [hq]), hq]
      exact decide_eq_true (Nat.lt_succ_self c.yielded)
    rw [Puller.losses, hlost]
    exact .inl (Nat.lt_of_lt_of_le Nat.zero_lt_one (Nat.le_add_right ..))

/-- Where the turns lead to the last row within the limit and a stall after it, that row is lost. -/
theorem run_of_leads {columns : List String} {turns rest : List (Outcome (List Value))} {i m : Nat}
    {values : List Value} (hleads : Leads hydrate columns turns i m (.ok values :: rest)) {a : α}
    (hr : hydrate ⟨columns, values⟩ = .ok a) {l : UInt64} (hz : l = 0 ∨ rest.head? = some .stalled)
    (hs : c.source? = some s) (hcolumns : s.feed.columns = columns) (hp : s.feed.pulls = turns)
    (hlim : c.limit = some l) (hsum : c.yielded + m + 1 = max l.toNat 1) {n : Nat} (hi : i < n) :
    0 < (puller hydrate).losses n c ∨ (l = 0 ∧ (puller hydrate).given n c ≠ []) := by
  generalize hlast : Outcome.ok values :: rest = last at hleads
  induction hleads generalizing c s n with
  | here =>
    subst hlast hcolumns
    obtain ⟨n, rfl⟩ := Nat.exists_eq_add_one.2 hi
    exact run_of_last hs hp hr hz hlim hsum n
  | @stalled turns i m rest' h ih =>
    obtain ⟨n, rfl⟩ := Nat.exists_eq_add_one.2 (Nat.lt_of_le_of_lt (Nat.zero_le _) hi)
    have hnext := next_of_stalled hydrate hs hp
    have hstall : (c.next hydrate).outcome = .stalled := by rw [hnext]
    have hrun := ih (c := c.going (s.left turns)) (s := s.left turns) rfl hcolumns rfl hlim hsum
      (Nat.lt_of_succ_lt_succ hi) hlast
    rw [losses_of_kept (loses_of_uncounted hstall (by rw [hnext]; rfl)), given_of_stalled hstall, hnext]
    exact hrun
  | @row values' a' turns i m rest' hr' h ih =>
    obtain ⟨n, rfl⟩ := Nat.exists_eq_add_one.2 (Nat.lt_of_le_of_lt (Nat.zero_le _) hi)
    have hbelow : c.counted.atLimit = false := counted_atLimit_iff.2 fun l' hl' => by
      cases hlim.symm.trans hl'
      omega
    have hnext := next_of_row hs hp (hcolumns ▸ hr') hbelow
    have hrow : (c.next hydrate).outcome = .ok (some a') := by rw [hnext]
    have hcount : (c.counted.going (s.left turns)).yielded = c.yielded + 1 := rfl
    have hrun := ih (c := c.counted.going (s.left turns)) (s := s.left turns) rfl hcolumns rfl hlim (by omega)
      (Nat.lt_of_succ_lt_succ hi) hlast
    rw [losses_of_kept (loses_of_row hrow), given_of_row hrow, hnext]
    exact hrun.imp_right fun hz => ⟨hz.1, List.cons_ne_nil _ _⟩

/-- **Pulls that are made again do no harm, exactly if no look past the limit
is given up**: what is handed out are the first rows, no more than the limit
allows, and the cursor counts them. -/
theorem faithful_iff (hydrate : Hydrator α) (s : Source) (limit : Option UInt64) (n : Nat) :
    let given := (puller hydrate).given n (ofSource s limit)
    ((s.rows.take given.length).map hydrate = given.map .ok ∧
      (∀ l, limit = some l → given.length ≤ l.toNat) ∧
      ((puller hydrate).after n (ofSource s limit)).yielded = given.length) ↔
    ¬ s.Spoils hydrate limit 0 n := by
  intro given
  have hbelow : ∀ l, limit = some l → (ofSource s limit).yielded < max l.toNat 1 := fun l _ =>
    Nat.lt_of_lt_of_le Nat.zero_lt_one (Nat.le_max_right ..)
  obtain ⟨hreached, -, hfirst⟩ := (Reached.tracks hydrate s.rows).run n (reached_ofSource s limit)
  have hcount := hreached.counted
  rw [Nat.zero_add] at hcount
  constructor
  · rintro ⟨-, hlim, hyielded⟩ ⟨l, i, m, values, a, rest, rfl, hi, hleads, hr, hsum, hz⟩
    rcases run_of_leads (c := ofSource s (some l)) hleads hr hz rfl rfl rfl rfl hsum hi with hlost | ⟨rfl, hgiven⟩
    · have hlen : given.length + (puller hydrate).losses n (ofSource s (some l)) = given.length :=
        hcount.symm.trans hyielded
      omega
    · exact hgiven (List.eq_nil_of_length_eq_zero (Nat.le_zero.1 (hlim 0 rfl)))
  · intro hspoils
    have hkept : (puller hydrate).losses n (ofSource s limit) = 0 :=
      Nat.eq_zero_of_not_pos fun hlost => hspoils (spoils_of_run n rfl hbelow (.inl hlost))
    have hgiven : limit = some 0 → given = [] := fun hz =>
      Classical.byContradiction fun hne => hspoils (spoils_of_run n rfl hbelow (.inr ⟨hz, hne⟩))
    rw [hkept, Nat.add_zero] at hcount
    refine ⟨hfirst hkept, fun l hl => ?_, hcount⟩
    have hle := hreached.limited (by rw [hkept]) l ((limit_after hydrate n _).trans hl)
    rw [hkept, Nat.zero_add, Nat.add_zero] at hle
    by_cases hz : l = 0
    · rw [hgiven (hz ▸ hl)]
      exact Nat.zero_le _
    · have hpos : l.toNat ≠ 0 := fun he => hz (UInt64.toNat_inj.1 he)
      exact Nat.le_trans hle (by omega)

end Cursor

end TableQuery

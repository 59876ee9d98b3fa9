/-
Draining a cursor whose source gives nothing but readable rows.

Such a cursor never fails or stalls (`Steady.next`), so collecting goes on to
the limit or to the last row (`collect_of_reached`), and what it knows then
about rows past the limit is right (`Reached.exhausted`).
-/
import TableQuery.Proofs.Cursor.Progress
import TableQuery.Sql.RowWindow

namespace TableQuery

/-- Every turn gives a row. -/
def Feed.Steady (f : Feed) : Prop := ∀ pull ∈ f.pulls, ∃ values, pull = .ok values

namespace Cursor

variable {α : Type} {hydrate : Hydrator α} {c : Cursor} {rows : List Row} {k lost : Nat}

/-- The source is steady, and is only let go at the end. -/
structure Steady (c : Cursor) : Prop where
  feed : ∀ s, c.source? = some s → s.feed.Steady
  ended : c.source? = none → ∃ more, c.phase = .exhausted more

theorem steady_ofSource {s : Source} (h : s.feed.Steady) (limit : Option UInt64) :
    (ofSource s limit).Steady where
  feed s' hs := by cases hs; exact h
  ended hs := by cases hs

theorem steady_going {s : Source} (h : s.feed.Steady) (c : Cursor) : (c.going s).Steady where
  feed s' hs := by cases hs; exact h
  ended hs := by cases hs

theorem steady_exhausted (c : Cursor) (more : Bool) : (c.gone (.exhausted more)).Steady where
  feed s hs := by cases hs
  ended _ := ⟨more, rfl⟩

theorem Steady.pull (h : c.Steady) (hk : c.Reached rows k lost) (hr : ∀ r ∈ rows, ∃ a, hydrate r = .ok a)
    {s : Source} (hs : c.source? = some s) :
    (∃ o, (c.pull hydrate s).outcome = .ok o) ∧ (c.pull hydrate s).cursor.Steady := by
  have hfeed := h.feed s hs
  have hrows := hk.held s hs
  have hstep := pull_step hydrate c s
  generalize c.pull hydrate s = p at hstep
  -- What is left of a steady feed is steady.
  have hleft : ∀ {pull rest}, s.feed.pulls = pull :: rest → (s.left rest).feed.Steady :=
    fun hp pull hm => hfeed pull (by rw [hp]; exact List.mem_cons_of_mem _ hm)
  cases hstep with
  | ended => exact ⟨⟨none, rfl⟩, steady_exhausted ..⟩
  | stalled hp =>
    obtain ⟨values, hv⟩ := hfeed .stalled (by simp [hp])
    cases hv
  | failed hp =>
    obtain ⟨values, hv⟩ := hfeed (.failed _) (by rw [hp]; exact List.mem_cons_self)
    cases hv
  | unreadable hp he =>
    have hmem : ⟨s.feed.columns, _⟩ ∈ rows :=
      List.mem_of_mem_drop (hrows ▸ Source.rows_ok hp ▸ List.mem_cons_self)
    obtain ⟨a, ha⟩ := hr _ hmem
    rw [he] at ha
    cases ha
  | row hp => exact ⟨⟨_, rfl⟩, steady_going (hleft hp) _⟩
  | lastThenEnd => exact ⟨⟨_, rfl⟩, steady_exhausted ..⟩
  | lastThenRow => exact ⟨⟨_, rfl⟩, steady_exhausted ..⟩
  | lastThenFailure hp =>
    obtain ⟨values, hv⟩ := hfeed (.failed _) (by rw [hp]; exact List.mem_cons_of_mem _ List.mem_cons_self)
    cases hv
  | lastThenStall hp =>
    obtain ⟨values, hv⟩ := hfeed .stalled (by simp [hp])
    cases hv

/-- A pull from a steady source comes to something. -/
theorem Steady.next (h : c.Steady) (hk : c.Reached rows k lost) (hr : ∀ r ∈ rows, ∃ a, hydrate r = .ok a) :
    (∃ o, (c.next hydrate).outcome = .ok o) ∧ (c.next hydrate).cursor.Steady := by
  cases hs : c.source? with
  | some s =>
    rw [next_of_source hs]
    exact h.pull hk hr hs
  | none =>
    obtain ⟨more, hp⟩ := h.ended hs
    have hn : c.next hydrate = ⟨.ok none, c, []⟩ := by simp only [Cursor.next, hp]
    rw [hn]
    exact ⟨⟨none, rfl⟩, h⟩

/-- The pull of a steady cursor hands out the next row, or it is the end. -/
theorem Steady.next_reached {f : Row → α} (hf : ∀ r ∈ rows, hydrate r = .ok (f r)) (h : c.Steady)
    (hk : c.Reached rows k lost) :
    (∃ r, rows[k]? = some r ∧ (c.next hydrate).outcome = .ok (some (f r)) ∧
      (c.next hydrate).cursor.Reached rows (k + 1) lost) ∨
    ((c.next hydrate).outcome = .ok none ∧ (c.next hydrate).cursor.Reached rows k lost ∧
      ∃ more, (c.next hydrate).cursor.phase = .exhausted more) := by
  obtain ⟨⟨o, ho⟩, -⟩ := h.next hk fun r hr => ⟨f r, hf r hr⟩
  have hmoves := hk.next hydrate
  rw [ho] at hmoves
  cases o with
  | none => exact .inr ⟨ho, hmoves, exhausted_of_next hydrate c ho⟩
  | some a =>
    obtain ⟨r, hget, hread, hnext⟩ := hmoves
    have hra : f r = a := Except.ok.inj ((hf r (List.mem_of_getElem? hget)).symm.trans hread)
    exact .inl ⟨r, hget, hra ▸ ho, hnext⟩

/-- **Collecting** hands out every row up to where the cursor is exhausted. -/
theorem collect_of_reached {f : Row → α} (hf : ∀ r ∈ rows, hydrate r = .ok (f r)) (h : c.Steady)
    (hk : c.Reached rows k lost) :
    ∃ n more, k ≤ n ∧ (c.collect hydrate).outcome = .ok (((rows.take n).drop k).map f) ∧
      (c.collect hydrate).cursor.Reached rows n lost ∧ (c.collect hydrate).cursor.phase = .exhausted more := by
  have hsteady := (h.next hk fun r hr => ⟨f r, hf r hr⟩).2
  have hnext := h.next_reached hf hk
  fun_induction Cursor.collect hydrate c generalizing k with
  | case1 c a c' events hp =>
    rename_i ih
    rw [hp] at hsteady hnext
    obtain ⟨r, hget, ho, hk'⟩ | ⟨ho, -⟩ := hnext
    · obtain ⟨n, more, hle, hcollect, hn, hphase⟩ := ih hsteady hk'
        (hsteady.next hk' fun r hr => ⟨f r, hf r hr⟩).2 (hsteady.next_reached hf hk')
      refine ⟨n, more, by omega, ?_, hn, hphase⟩
      have hlt : k < (rows.take n).length := by
        have := (List.getElem?_eq_some_iff.1 hget).1
        simp only [List.length_take]
        omega
      have hr : (rows.take n)[k] = r := by
        rw [List.getElem_take]
        exact (List.getElem?_eq_some_iff.1 hget).2
      cases ho
      rw [hcollect, List.drop_eq_getElem_cons hlt, hr]
      rfl
    · cases ho
  | case2 c c' events hp =>
    rw [hp] at hnext
    obtain ⟨r, -, ho, -⟩ | ⟨-, hk', more, hphase⟩ := hnext
    · cases ho
    · exact ⟨k, more, Nat.le_refl k, by simp, hk', hphase⟩
  | case3 c f c' events hp | case4 c c' events hp =>
    rw [hp] at hnext
    obtain ⟨r, -, ho, -⟩ | ⟨ho, -⟩ := hnext <;> cases ho

theorem limit_collect (hydrate : Hydrator α) (c : Cursor) : (c.collect hydrate).cursor.limit = c.limit := by
  fun_induction Cursor.collect hydrate c with
  | case1 c a c' events hp =>
    rename_i ih
    exact ih.trans (by rw [← limit_next hydrate c, hp])
  | case2 c c' events hp | case3 c f c' events hp | case4 c c' events hp =>
    rw [← limit_next hydrate c, hp]

namespace Reached

/-- Where a cursor that lost nothing ends: at the limit with rows left over, or at the last row. -/
theorem exhausted (h : c.Reached rows k 0) {more : Bool} (hp : c.phase = .exhausted more)
    (hz : c.limit ≠ some 0) :
    rows.take k = RowWindow.pick ⟨c.limit.map UInt64.toNat, 0⟩ rows ∧
      (more = true ↔ ∃ l, c.limit = some l ∧ l.toNat < rows.length) := by
  have ho := h.ended more hp
  have hlim : ∀ l, c.limit = some l → k ≤ l.toNat := fun l hl => by
    have hpos : l.toNat ≠ 0 := fun he => hz (hl.trans (congrArg some (UInt64.toNat_inj.1 he)))
    have := h.limited rfl l hl
    omega
  cases more with
  | true =>
    obtain ⟨⟨l, hl, hle⟩, hlt⟩ := (show c.atLimit ∧ k < rows.length from ho).imp_left atLimit_iff.1
    have hk : l.toNat = k := Nat.le_antisymm (h.counted ▸ hle) (hlim l hl)
    refine ⟨by simp [RowWindow.pick, hl, hk], fun _ => ⟨l, hl, hk ▸ hlt⟩, fun _ => rfl⟩
  | false =>
    have hk : k = rows.length := ho
    refine ⟨?_, fun hm => (by cases hm), fun ⟨l, hl, hlt⟩ => ?_⟩
    · cases hl : c.limit with
      | none => simp [RowWindow.pick, hk]
      | some l => simp [RowWindow.pick, List.take_of_length_le, hk ▸ hlim l hl, hk]
    · have := hlim l hl
      omega

end Reached

end Cursor

end TableQuery

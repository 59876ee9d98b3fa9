/-
Calls about different parts of a draft can be made in any order
(`Query.independent`).

A call sees its own part alone, so two calls about different parts succeed in
one order exactly if they do in the other, and leave the same query. Step by
step this carries over to chains of calls: only the order of the calls about
each part counts.
-/
import Mathlib.Data.List.Nodup
import TableQuery.Proofs.Query.Locality

namespace TableQuery.Query

variable {q q₁ q' : Query} {e e' : Edit}

/-! ## One step -/

/-- A call keeps every part but its own, and the schema and the dialect too. -/
theorem apply_keeps (h : q.apply e = .ok q') :
    q'.schema = q.schema ∧ q'.dialect = q.dialect ∧
      ∀ part, e.part? q.schema ≠ some part → q'.draft.AgreesOn part q.draft := by
  obtain ⟨hschema, hdialect⟩ := apply_fixed h
  refine ⟨hschema, hdialect, fun part hother => ?_⟩
  obtain ⟨own, hown⟩ := part?_of_apply h
  have hne : part ≠ own := fun he => hother (he ▸ hown)
  rw [eq_of_apply hown h]
  exact Draft.agreesOn_withPart _ _ hne

/-- Of two calls about different parts the second can be made first. -/
theorem apply_swap (hparts : e.part? q.schema ≠ e'.part? q.schema) (h : q.apply e = .ok q₁)
    (h' : q₁.apply e' = .ok q') : ∃ q₂, q.apply e' = .ok q₂ ∧ q₂.apply e = .ok q' := by
  obtain ⟨part, hpart⟩ := part?_of_apply h
  obtain ⟨part', hpart'⟩ := part?_of_apply h'
  rw [(apply_fixed h).1] at hpart'
  have hne : part ≠ part' := fun he => hparts (by rw [hpart, hpart', he])
  obtain ⟨a, rfl⟩ : ∃ a, q₁ = q.withPart part a := ⟨_, eq_of_apply hpart h⟩
  rw [apply_withPart hpart' hne.symm] at h'
  cases h₂ : q.apply e' with
  | error fault =>
    rw [h₂] at h'
    cases h'
  | ok q₂ =>
    rw [h₂] at h'
    cases h'
    obtain ⟨b, rfl⟩ : ∃ b, q₂ = q.withPart part' b := ⟨_, eq_of_apply hpart' h₂⟩
    refine ⟨_, rfl, ?_⟩
    rw [apply_withPart hpart hne, h]
    simp only [Except.map, withPart, Draft.withPart_comm _ _ _ hne]

/-! ## Chains -/

/-- A call can be made after those that are about other parts. -/
theorem applyAll_postpone {before after : List Edit} (hother : ∀ e' ∈ before, e.part? q.schema ≠ e'.part? q.schema)
    (h : q.applyAll (e :: (before ++ after)) = .ok q') : q.applyAll (before ++ e :: after) = .ok q' := by
  induction before generalizing q with
  | nil => exact h
  | cons e' before ih =>
    obtain ⟨q₁, h₁, h⟩ := Except.bind_eq_ok.1 h
    obtain ⟨q₂, h₂, h⟩ := Except.bind_eq_ok.1 h
    obtain ⟨q₃, h₃, h₄⟩ := apply_swap (hother e' List.mem_cons_self) h₁ h₂
    have hschema := (apply_fixed h₃).1
    refine Except.bind_eq_ok.2 ⟨q₃, h₃, ih (fun x hx => ?_) (Except.bind_eq_ok.2 ⟨q₂, h₄, h⟩)⟩
    rw [hschema]
    exact hother x (List.mem_cons_of_mem e' hx)

/-- Chains that have the same calls about each part, in the same order, lead to
the same query. -/
theorem applyAll_congr {edits edits' : List Edit}
    (hsame : ∀ part?, edits.filter (·.part? q.schema = part?) = edits'.filter (·.part? q.schema = part?))
    (h : q.applyAll edits = .ok q') : q.applyAll edits' = .ok q' := by
  induction edits generalizing q edits' with
  | nil =>
    cases edits' with
    | nil => exact h
    | cons e rest => simpa using hsame (e.part? q.schema)
  | cons e edits ih =>
    -- The first call of the one chain is the first of the other that is about its part.
    have hfirst := hsame (e.part? q.schema)
    rw [List.filter_cons_of_pos (by simp)] at hfirst
    obtain ⟨before, after, rfl, hbefore, -, hafter⟩ := List.filter_eq_cons_iff.1 hfirst.symm
    obtain ⟨q₁, h₁, h⟩ := Except.bind_eq_ok.1 h
    refine applyAll_postpone (fun e' he' => ?_) (Except.bind_eq_ok.2 ⟨q₁, h₁, ih (fun part? => ?_) h⟩)
    · simpa [eq_comm] using hbefore e' he'
    · rw [(apply_fixed h₁).1]
      by_cases hpart : e.part? q.schema = part?
      · subst hpart
        rw [List.filter_append, hafter, List.filter_eq_nil_iff.2 hbefore, List.nil_append]
      · have hother := hsame part?
        simpa [hpart] using hother

/-- **Calls about different parts of a draft are independent**, on every schema
and at every query.

* A call that succeeds changes its own part alone.
* Two calls about different parts that succeed one after the other succeed the
  other way round too, and lead to the same query, and so to the same statements.
* Of any chain of calls that succeed, only the order of those about each part
  counts. -/
theorem independent (q : Query) :
    (∀ e q', q.apply e = .ok q' → q'.schema = q.schema ∧ q'.dialect = q.dialect ∧
        ∀ part, e.part? q.schema ≠ some part → q'.draft.AgreesOn part q.draft) ∧
      (∀ e e' q', e.part? q.schema ≠ e'.part? q.schema →
        q.applyAll [e, e'] = .ok q' → q.applyAll [e', e] = .ok q') ∧
      ∀ edits edits' q',
        (∀ part?, edits.filter (·.part? q.schema = part?) = edits'.filter (·.part? q.schema = part?)) →
        q.applyAll edits = .ok q' → q.applyAll edits' = .ok q' := by
  refine ⟨fun e q' => apply_keeps, fun e e' q' hparts h => ?_, fun edits edits' q' => applyAll_congr⟩
  change q.applyAll ([e'] ++ e :: []) = .ok q'
  refine applyAll_postpone (fun x hx => ?_) h
  rwa [List.mem_singleton.1 hx]

/-- A page stays behind its limit; where the calls about other parts stand is free. -/
theorem independent_of_page :
    let s : Schema := ⟨"t", [⟨"_id", .integer, true⟩, ⟨"born", .date, false⟩]⟩
    let q := ofSchema s .sqlite
    let sorted : Query := { q with draft.sorts := [⟨"_id", .desc, none⟩] }
    let month : Query := { sorted with draft.predicates := [⟨"born", .compare .eq (.ofInt 1), some .month⟩] }
    let paged : Query := { month with draft.bounds := ⟨some 5, some (.page 3)⟩ }
    (sorted.schema = s ∧ sorted.draft.AgreesOn .window q.draft) ∧
      q.applyAll [.callWith "is_born" ["month=1"], .call "desc" [.text "pk"]] = .ok month ∧
      q.applyAll [.call "desc" [.text "pk"], .callWith "is_born" ["month=1"]] = .ok month ∧
      q.applyAll [.limit 5, .callWith "is_born" ["month=1"], .page 3, .call "desc" [.text "pk"]] = .ok paged ∧
      q.applyAll [.call "desc" [.text "pk"], .limit 5, .page 3, .callWith "is_born" ["month=1"]] = .ok paged := by
  intro s q sorted month paged
  obtain ⟨hkeeps, hpairs, hchains⟩ := independent q
  have hsort : q.apply (.call "desc" [.text "pk"]) = .ok sorted := by decide +kernel
  have hpair : q.applyAll [.callWith "is_born" ["month=1"], .call "desc" [.text "pk"]] = .ok month := by
    decide +kernel
  have hchain : q.applyAll [.limit 5, .callWith "is_born" ["month=1"], .page 3, .call "desc" [.text "pk"]] =
      .ok paged := by decide +kernel
  obtain ⟨hschema, -, hwindow⟩ := hkeeps _ _ hsort
  refine ⟨⟨hschema, hwindow .window (by decide +kernel)⟩, hpair, hpairs _ _ _ (by decide +kernel) hpair, hchain,
    hchains _ _ _ (fun part? => ?_) hchain⟩
  rcases part? with _ | part
  · decide +kernel
  · cases part <;> decide +kernel

end TableQuery.Query

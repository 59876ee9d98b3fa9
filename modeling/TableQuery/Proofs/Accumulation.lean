/-
Sorts, chosen fields and assignments are kept in order, one for each field
(`Query.accumulates`).

Each of the three lists is what its entries come to, whatever calls made them and
whatever came in between: every field once, in the place where it first came,
with what it came with last. The chosen fields start anew when the selection is
cleared. Update, insertion and selection write the lists as they stand.
-/
import Mathlib.Data.List.DropRight
import TableQuery.Proofs.Query.Columns
import TableQuery.Proofs.Query.Entries
import TableQuery.Proofs.Query.Order

namespace TableQuery

/-! ## The latest of each key -/

/-- Some events kept by their keys: each key once, in the order in which the keys
first came, and with each its last event. -/
structure Latest {α : Type} (key : α → String) (events kept : List α) : Prop where
  keys : kept.map key = (events.map key).eraseDups
  once : (kept.map key).Nodup
  last : ∀ a ∈ kept, ∃ before after, events = before ++ a :: after ∧ ∀ b ∈ after, key b ≠ key a

theorem eraseDups_concat (names : List String) (name : String) :
    (names ++ [name]).eraseDups = addName names.eraseDups name := by
  rw [List.eraseDups_append, addName]
  by_cases h : name ∈ names
  · simp [List.removeAll, h]
  · simp [List.removeAll, h, List.eraseDups_cons]

namespace Latest

variable {α : Type} {key : α → String} {events kept kept' : List α}

theorem nil : Latest key [] [] := ⟨rfl, List.nodup_nil, fun _ h => absurd h List.not_mem_nil⟩

/-- An event takes the place of the one that has its key, or goes behind all others. -/
theorem concat (h : Latest key events kept) {a : α} (hkeys : kept'.map key = addName (kept.map key) (key a))
    (hmem : ∀ b ∈ kept', b = a ∨ b ∈ kept) (hself : a ∈ kept') : Latest key (events ++ [a]) kept' := by
  have honce : (kept'.map key).Nodup := hkeys ▸ nodup_addName h.once (key a)
  refine ⟨?_, honce, ?_⟩
  · rw [hkeys, h.keys, List.map_append, List.map_singleton, eraseDups_concat]
  · intro b hb
    by_cases hba : b = a
    · subst hba
      exact ⟨events, [], rfl, fun _ h => absurd h List.not_mem_nil⟩
    · -- The event is another one than the last, and so has another key.
      have hkey : key a ≠ key b := fun he => hba (List.inj_on_of_nodup_map honce hself hb he).symm
      obtain ⟨before, after, rfl, hafter⟩ := h.last b ((hmem b hb).resolve_left hba)
      refine ⟨before, after ++ [a], by simp, ?_⟩
      intro c hc
      rcases List.mem_append.1 hc with hc | hc
      · exact hafter c hc
      · exact List.mem_singleton.1 hc ▸ hkey

end Latest

/-! ## What entries come to -/

namespace Entry

/-- The entries since the selection was last cleared. -/
def sinceClear (entries : List Entry) : List Entry := entries.rtakeWhile (· ≠ .clear)

theorem sinceClear_concat (entries : List Entry) (e : Entry) :
    sinceClear (entries ++ [e]) = if e = .clear then [] else sinceClear entries ++ [e] := by
  rw [sinceClear, List.rtakeWhile_concat]
  by_cases h : e = .clear <;> simp [sinceClear, h]

end Entry

namespace Gathered

theorem sorts_foldl (entries : List Entry) :
    Latest SortKey.field (entries.filterMap Entry.sort?) (entries.foldl enter empty).sorts := by
  induction entries using List.reverseRecOn with
  | nil => exact .nil
  | append_singleton entries e ih =>
    rw [List.foldl_concat, List.filterMap_append]
    cases e with
    | sort k => exact ih.concat (SortKey.fields_put _ k) (fun _ => SortKey.mem_put) (SortKey.self_mem_put _ k)
    | choose | everything | clear | assign => exact (List.append_nil _).symm ▸ ih

theorem assignments_foldl (entries : List Entry) :
    Latest Prod.fst (entries.filterMap Entry.assignment?) (entries.foldl enter empty).assignments := by
  induction entries using List.reverseRecOn with
  | nil => exact .nil
  | append_singleton entries e ih =>
    rw [List.foldl_concat, List.filterMap_append]
    cases e with
    | assign field v =>
      exact ih.concat (Assignment.fields_put _ field v) (fun _ => Assignment.mem_put)
        (Assignment.self_mem_put _ field v)
    | sort | choose | everything | clear => exact (List.append_nil _).symm ▸ ih

/-- What is chosen counts from the last clearing on. -/
theorem projection_foldl (entries : List Entry) :
    (entries.foldl enter empty).projection =
      ⟨((Entry.sinceClear entries).filterMap Entry.choice?).eraseDups, .everything ∈ Entry.sinceClear entries⟩ := by
  induction entries using List.reverseRecOn with
  | nil => rfl
  | append_singleton entries e ih =>
    rw [List.foldl_concat, Entry.sinceClear_concat]
    cases e with
    | clear => rfl
    | choose field =>
      have hfields : ((Entry.sinceClear entries ++ [Entry.choose field]).filterMap Entry.choice?).eraseDups =
          addName ((Entry.sinceClear entries).filterMap Entry.choice?).eraseDups field := by
        rw [List.filterMap_append]
        exact eraseDups_concat _ field
      rw [if_neg Entry.noConfusion, hfields]
      refine (Projection.add_eq _ field).trans ?_
      simp [ih]
    | everything => simp [enter, ih, Entry.choice?, List.filterMap_cons]
    | sort | assign => simp [enter, ih, Entry.choice?, List.filterMap_cons]

end Gathered

namespace Query

/-! ## What is written of it -/

/-- Update and insertion write the assignments in their order, each column with
the parameter that its value is bound as. -/
theorem assignments_written (q : Query) {k : StatementKind} (hk : k.writes) (hne : q.draft.assignments ≠ []) :
    ∃ statement, q.statementOf k = .ok statement ∧
      statement.targets? = some ((q.draft.assignments.zipIdx 1).map fun (a, n) => (a.1.toList, n)) ∧
      q.draft.assignments.map (·.2) <+: statement.params := by
  refine ⟨_, by rw [q.statementOf_of_writes hk, if_neg hne], targets?_statement hk hne, ?_⟩
  rw [Fragment.statement, params_fragment]
  cases k with
  | selection | count | deletion => cases hk
  | update => exact List.prefix_append _ _
  | insertion => exact List.prefix_refl _

/-- **Sorts, chosen fields and assignments accumulate by field.** After calls that
all succeed, whatever they are:

* the assignments are the fields that were assigned, in the order in which each
  was first, and once, each with the value that it was assigned last;
* the sorts are so too, with the direction and the list of the last sort;
* the projection is the fields chosen since the selection was last cleared, in the
  order in which each was first, and once, and whether all were, since then.

A field counts by its own name, also where it was called by the key's alias.
Update and insertion write the assignments in this order, each with its value. A
selection without a raw override is in the order of the sorts, and its columns
are all if they were asked for, else the chosen ones, else those declared, and
all again if there are none. -/
theorem accumulates {s : Schema} {d : Dialect} {edits : List Edit} {q : Query}
    (h : (ofSchema s d).applyAll edits = .ok q) :
    let entries := edits.flatMap (Edit.entries s)
    let recent := Entry.sinceClear entries
    let chosen := (recent.filterMap Entry.choice?).eraseDups
    Latest Prod.fst (entries.filterMap Entry.assignment?) q.draft.assignments ∧
      Latest SortKey.field (entries.filterMap Entry.sort?) q.draft.sorts ∧
      q.draft.projection = ⟨chosen, .everything ∈ recent⟩ ∧
      (∀ name ∈ s.names, s.ownName name = name) ∧
      (∀ key, s.key? = some key → Schema.keyAlias ∉ s.names → s.ownName Schema.keyAlias = key.name) ∧
      (∀ k : StatementKind, k.writes → q.draft.assignments ≠ [] → ∃ statement, q.statementOf k = .ok statement ∧
        statement.targets? = some ((q.draft.assignments.zipIdx 1).map fun (a, n) => (a.1.toList, n)) ∧
        q.draft.assignments.map (·.2) <+: statement.params) ∧
      ∀ e : Extent, ∃ written : Statement,
        written.order? = some (q.draft.sorts.map SortKey.asRead) ∧
        written.columns? = some (
          if .everything ∈ recent then .everything
          else if chosen ≠ [] then .named (chosen.map String.toList)
          else if s.names ≠ [] then .named (s.names.map String.toList)
          else .everything) ∧
        q.selectStatement e =
          match q.draft.raw with
          | none => written
          | some raw => ⟨raw.sql, raw.params⟩ := by
  intro entries recent chosen
  have henters := applyAll_enters h
  have hgathered : q.draft.gathered = entries.foldl Gathered.enter .empty := henters.gathered
  have hprojection : q.draft.projection = ⟨chosen, .everything ∈ recent⟩ :=
    (congrArg Gathered.projection hgathered).trans (Gathered.projection_foldl entries)
  refine ⟨?_, ?_, hprojection, fun _ => Schema.ownName_of_mem_names, fun _ => Schema.ownName_keyAlias,
    fun _ => q.assignments_written, fun e => ?_⟩
  · have hassignments : q.draft.assignments = (entries.foldl Gathered.enter .empty).assignments :=
      congrArg Gathered.assignments hgathered
    exact hassignments ▸ Gathered.assignments_foldl entries
  · have hsorts : q.draft.sorts = (entries.foldl Gathered.enter .empty).sorts := congrArg Gathered.sorts hgathered
    exact hsorts ▸ Gathered.sorts_foldl entries
  · refine ⟨_, q.order?_fragment e, ?_, ?_⟩
    · rw [q.columns?_fragment e, readColumns, hprojection, henters.schema]
      simp only [decide_eq_true_eq]
      rfl
    · rw [selectStatement]
      cases q.draft.raw <;> rfl

/-- The key goes by both of its names, `bar` is assigned twice, and what was chosen before the clearing is gone. -/
theorem accumulates_alias :
    let s : Schema := ⟨"foo", [⟨"_id", .integer, true⟩, ⟨"bar", .text, false⟩, ⟨"baz", .date, false⟩]⟩
    let edits : List Edit := [.assign "bar" (.text "x"), .sortBy "pk" .asc [], .select ["bar", "*"],
      .assign "pk" (.ofInt 1), .clearSelection, .select ["baz", "pk"], .sortBy "bar" .asc [.text "u"],
      .assignAll [("bar", .text "y"), ("_id", .ofInt 2)], .call "desc" [.text "_id"],
      .call "select" [.text "_id", .text "bar"]]
    let q : Query := { ofSchema s .sqlite with
      draft.sorts := [⟨"_id", .desc, none⟩, ⟨"bar", .asc, some [.text "u"]⟩]
      draft.projection := ⟨["baz", "_id", "bar"], false⟩
      draft.assignments := [("bar", .text "y"), ("_id", .ofInt 2)] }
    (ofSchema s .sqlite).applyAll edits = .ok q ∧
      Latest Prod.fst [("bar", .text "x"), ("_id", .ofInt 1), ("bar", .text "y"), ("_id", .ofInt 2)]
        q.draft.assignments ∧
      Latest SortKey.field [⟨"_id", .asc, none⟩, ⟨"bar", .asc, some [.text "u"]⟩, ⟨"_id", .desc, none⟩]
        q.draft.sorts ∧
      (∃ statement, q.statementOf .update = .ok statement ∧
        statement.targets? = some [("bar".toList, 1), ("_id".toList, 2)]) ∧
      q.statement = ⟨"SELECT \"baz\", \"_id\", \"bar\" FROM \"foo\" ORDER BY \"_id\" DESC, " ++
        "CASE \"bar\" WHEN ? THEN 0 ELSE 1 END ASC", [.text "u"]⟩ ∧
      q.statement.columns? = some (.named ["baz".toList, "_id".toList, "bar".toList]) := by
  intro s edits q
  have h : (ofSchema s .sqlite).applyAll edits = .ok q := by decide +kernel
  obtain ⟨hassignments, hsorts, -, -, -, hwrites, hselections⟩ := accumulates h
  obtain ⟨statement, hstatement, htargets, -⟩ := hwrites .update rfl (by decide)
  obtain ⟨written, -, hcolumns, hselect⟩ := hselections .own
  refine ⟨h, ?_, ?_, ⟨statement, hstatement, htargets⟩, by decide +kernel, ?_⟩
  · exact hassignments
  · exact hsorts
  · exact (congrArg Statement.columns? hselect).trans (hcolumns.trans (by decide +kernel))

end Query

end TableQuery

/-
What builder calls check, and what the lists that they add to keep.

A name is looked up before anything is done with it, so what stands in a draft
are names of declared fields (`Schema.mem_of_require`). Sorts, chosen fields
and assignments are three ways to add a name unless it is there already
(`addName`), so none of them ever has a name twice (`Schema.Lists.addName`).
-/
import Mathlib.Data.List.Nodup
import TableQuery.Proofs.Query.Reach

namespace TableQuery

namespace Schema

variable {s : Schema} {name : String} {f : Field}

theorem mem_of_lookup? (h : s.lookup? name = some f) : f ∈ s.fields := by
  unfold lookup? at h
  split at h
  · next hf =>
    cases h
    exact List.mem_of_find?_eq_some hf
  · split at h
    · exact List.mem_of_find?_eq_some h
    · cases h

theorem field?_of_not_mem (h : name ∉ s.names) : s.field? name = none := by
  refine List.find?_eq_none.2 fun f hf => ?_
  rw [decide_eq_true_eq]
  intro he
  exact h (he ▸ List.mem_map_of_mem hf)

/-- Only the key's alias stands for something that is not called so. -/
theorem lookup?_of_not_mem (h : name ∉ s.names) (ha : name ≠ keyAlias) : s.lookup? name = none := by
  simp only [lookup?, field?_of_not_mem h, if_neg ha]

theorem require_eq_ok : s.require name = .ok f ↔ s.lookup? name = some f := by
  unfold require
  split
  · next g hg => rw [hg, Except.ok.injEq, Option.some.injEq]
  · next hg => rw [hg]; exact ⟨nofun, nofun⟩

/-- A declared name stands for the first field so called. -/
theorem require_of_mem_names (h : name ∈ s.names) : ∃ f, s.require name = .ok f ∧ f.name = name := by
  obtain ⟨g, hg, rfl⟩ := List.mem_map.1 h
  cases hf : s.field? g.name with
  | none => exact absurd (List.find?_eq_none.1 hf g hg) (by simp)
  | some f =>
    unfold field? at hf
    have hname := List.find?_some hf
    exact ⟨f, require_eq_ok.2 (by unfold lookup? field?; rw [hf]), of_decide_eq_true hname⟩

theorem mem_of_require (h : s.require name = .ok f) : f ∈ s.fields := mem_of_lookup? (require_eq_ok.1 h)

theorem mem_names_of_require (h : s.require name = .ok f) : f.name ∈ s.names :=
  List.mem_map_of_mem (mem_of_require h)

/-- With distinct names, a declared field is the only one of its name. -/
theorem eq_of_name_eq (hs : s.names.Nodup) {g : Field} (hf : f ∈ s.fields) (hg : g ∈ s.fields)
    (h : g.name = f.name) : g = f :=
  List.inj_on_of_nodup_map hs hg hf h

/-- A field's own name stands for the field that any name of it stands for. -/
theorem lookup?_name (hs : s.names.Nodup) (h : s.lookup? name = some f) : s.lookup? f.name = some f := by
  obtain ⟨g, hg, hname⟩ := require_of_mem_names (List.mem_map_of_mem (mem_of_lookup? h))
  have hgf : g = f := eq_of_name_eq hs (mem_of_lookup? h) (mem_of_require hg) hname
  rw [require_eq_ok.1 hg, hgf]

end Schema

/-- A condition is made exactly for a declared field, as many operands as the
operator takes, a field that has the part, and one that has text to match. -/
theorem Predicate.make_eq_ok {s : Schema} {field : String} {op : Operator} {operands : List Value}
    {part : Option DatePart} {p : Predicate} :
    Predicate.make s field op operands part = .ok p ↔
      ∃ f test, s.require field = .ok f ∧ Test.of? op operands = some test ∧
        (part.isSome → f.type.hasDateParts) ∧ (op.takesPattern → f.type.admitsPattern) ∧
        p = ⟨f.name, test, part⟩ := by
  unfold Predicate.make
  rw [Except.bind_eq_ok]
  refine exists_congr fun f => ?_
  cases ht : Test.of? op operands with
  | none => simp
  | some test =>
    cases part.isSome <;> cases f.type.hasDateParts <;> cases op.takesPattern <;>
      cases f.type.admitsPattern <;> simp [eq_comm]

/-! ## Lists of names -/

/-- Adds a name after the others, unless it is among them. -/
def addName (names : List String) (name : String) : List String :=
  if name ∈ names then names else names ++ [name]

theorem addName_cons (first name : String) (names : List String) :
    addName (first :: names) name =
      if first = name then first :: names else first :: addName names name := by
  unfold addName
  by_cases h : first = name
  · simp [h]
  · by_cases hn : name ∈ names <;> simp [h, hn, Ne.symm h]

theorem nodup_addName {names : List String} (h : names.Nodup) (name : String) : (addName names name).Nodup := by
  unfold addName
  split
  · exact h
  · next hnew =>
    exact List.nodup_append.2 ⟨h, List.nodup_singleton name, fun a ha b hb he =>
      hnew (List.mem_singleton.1 hb ▸ he ▸ ha)⟩

theorem SortKey.fields_put (sorts : List SortKey) (sort : SortKey) :
    (put sorts sort).map (·.field) = addName (sorts.map (·.field)) sort.field := by
  induction sorts with
  | nil => rfl
  | cons t rest ih =>
    rw [put, List.map_cons, addName_cons]
    split
    · next h => rw [List.map_cons, h]
    · rw [List.map_cons, ih]

theorem Assignment.fields_put (assignments : List (String × Value)) (field : String) (v : Value) :
    (put assignments field v).map (·.1) = addName (assignments.map (·.1)) field := by
  induction assignments with
  | nil => rfl
  | cons a rest ih =>
    rw [put, List.map_cons, addName_cons]
    split
    · rfl
    · rw [List.map_cons, ih]

theorem Projection.add_eq (p : Projection) (field : String) :
    p.add field = { p with fields := addName p.fields field } := by
  unfold add addName
  split <;> rfl

theorem Projection.fields_add (p : Projection) (field : String) :
    (p.add field).fields = addName p.fields field := by
  rw [add_eq]

theorem SortKey.mem_put {sorts : List SortKey} {sort t : SortKey} (h : t ∈ put sorts sort) :
    t = sort ∨ t ∈ sorts := by
  induction sorts with
  | nil => exact .inl (List.mem_singleton.1 h)
  | cons u rest ih =>
    rw [put] at h
    split at h
    · exact (List.mem_cons.1 h).imp_right (List.mem_cons_of_mem _)
    · rcases List.mem_cons.1 h with rfl | h
      · exact .inr List.mem_cons_self
      · exact (ih h).imp_right (List.mem_cons_of_mem _)

theorem SortKey.self_mem_put (sorts : List SortKey) (sort : SortKey) : sort ∈ put sorts sort := by
  induction sorts with
  | nil => exact List.mem_singleton_self sort
  | cons t rest ih =>
    rw [put]
    split
    · exact List.mem_cons_self
    · exact List.mem_cons_of_mem t ih

theorem Assignment.self_mem_put (assignments : List (String × Value)) (field : String) (v : Value) :
    (field, v) ∈ put assignments field v := by
  induction assignments with
  | nil => exact List.mem_singleton_self _
  | cons a rest ih =>
    rw [put]
    split
    · next h => simp [h]
    · exact List.mem_cons_of_mem a ih

theorem Assignment.mem_put {assignments : List (String × Value)} {field : String} {v : Value} {a : String × Value}
    (h : a ∈ put assignments field v) : a = (field, v) ∨ a ∈ assignments := by
  induction assignments with
  | nil => exact .inl (List.mem_singleton.1 h)
  | cons b rest ih =>
    rw [put] at h
    split at h
    · next hb =>
      subst hb
      exact (List.mem_cons.1 h).imp_right (List.mem_cons_of_mem _)
    · rcases List.mem_cons.1 h with rfl | h
      · exact .inr List.mem_cons_self
      · exact (ih h).imp_right (List.mem_cons_of_mem _)

/-- Names of declared fields, none of them twice. -/
structure Schema.Lists (s : Schema) (names : List String) : Prop where
  declared : ∀ name ∈ names, name ∈ s.names
  distinct : names.Nodup

namespace Schema.Lists

variable {s : Schema} {names : List String} {name : String}

theorem nil : s.Lists [] := ⟨nofun, List.nodup_nil⟩

theorem addName (h : s.Lists names) (hn : name ∈ s.names) : s.Lists (addName names name) := by
  refine ⟨fun n hmem => ?_, nodup_addName h.distinct name⟩
  unfold TableQuery.addName at hmem
  split at hmem
  · exact h.declared n hmem
  · rcases List.mem_append.1 hmem with hmem | hmem
    · exact h.declared n hmem
    · cases List.mem_singleton.1 hmem
      exact hn

end Schema.Lists

end TableQuery

/-
How the name of a pseudo-method is read (`Method.ofName_append`).

A verb has no underscore in any of its spellings, so a name can be split in one
place only, at its first underscore, and trying the verbs longest first never
has a choice to make: what stands before the underscore is a verb or the name is
refused, and what stands after it is a field, or says that an argument is.
-/
import TableQuery.Proofs.Query.Checks

namespace TableQuery

open Text

namespace Verb

theorem not_mem_underscore {spelling : String} {verb : Verb} (h : (spelling, verb) ∈ spellings) :
    '_' ∉ spelling.toList := by
  have hall : ∀ p ∈ spellings, '_' ∉ p.1.toList := by decide
  exact hall _ h

theorem nodup_spellings : (spellings.map (·.1)).Nodup := by decide

/-- Each spelling is listed once, so it has one verb. -/
theorem ofName?_eq_some_iff {spelling : String} {verb : Verb} :
    ofName? spelling = some verb ↔ (spelling, verb) ∈ spellings := by
  constructor
  · intro h
    obtain ⟨e, hfind, rfl⟩ := Option.map_eq_some_iff.1 h
    have hname := List.find?_some hfind
    simp only [decide_eq_true_eq] at hname
    subst hname
    exact List.mem_of_find?_eq_some hfind
  · intro h
    have hall : ∀ p ∈ spellings, ofName? p.1 = some p.2 := by decide
    exact hall _ h

theorem ofName?_of_mem_underscore {name : String} (h : '_' ∈ name.toList) : ofName? name = none := by
  cases hv : ofName? name with
  | none => rfl
  | some verb => exact absurd h (not_mem_underscore (ofName?_eq_some_iff.1 hv))

end Verb

namespace Method

/-- In a list that has each key once, what there is to a key is one entry or none. -/
theorem filterMap_key {α β γ : Type} [DecidableEq α] {entries : List (α × β)} (hn : (entries.map (·.1)).Nodup)
    (key : α) (f : β → γ) :
    entries.filterMap (fun e => if e.1 = key then some (f e.2) else none) =
      ((entries.find? (·.1 = key)).map fun e => f e.2).toList := by
  induction entries with
  | nil => rfl
  | cons e entries ih =>
    simp only [List.map_cons, List.nodup_cons] at hn
    by_cases he : e.1 = key
    · have hrest : entries.filterMap (fun e => if e.1 = key then some (f e.2) else none) = [] := by
        refine List.filterMap_eq_nil_iff.2 fun e' hmem => if_neg fun he' => hn.1 ?_
        rw [he, ← he']
        exact List.mem_map_of_mem hmem
      simp [he, hrest]
    · simp [he, ih hn.2]

/-- Only the spelling before the first underscore leaves a rest. -/
theorem rest?_eq {spelling : String} (hs : '_' ∉ spelling.toList) {lead rest : List Char} (hl : '_' ∉ lead) :
    rest? spelling (lead ++ '_' :: rest) =
      if spelling = String.ofList lead ∧ rest ≠ [] then some rest else none := by
  unfold rest?
  split
  · next c cs h =>
    have hcut := congrArg (splitOnce? '_') (eq_append_of_after? h)
    rw [splitOnce?_append hl, splitOnce?_append hs] at hcut
    cases hcut
    rw [if_pos ⟨String.ofList_toList.symm, List.cons_ne_nil c cs⟩]
  · next h =>
    rw [if_neg]
    rintro ⟨rfl, hne⟩
    rw [String.toList_ofList, after?_append] at h
    cases rest with
    | nil => exact hne rfl
    | cons c cs => exact h c cs rfl

theorem rest?_of_not_mem {spelling : String} {name : List Char} (h : '_' ∉ name) : rest? spelling name = none := by
  unfold rest?
  split
  · next c cs ha =>
    rw [eq_append_of_after? ha] at h
    simp at h
  · rfl

theorem splits_eq (name : List Char) :
    splits name = (Verb.spellings.filterMap fun e => (rest? e.1 name).map fun rest => (rest, e.2)).mergeSort
      fun a b => a.1.length ≤ b.1.length := rfl

/-- **A name has one split at most**: at its first underscore, if a verb stands
before it and something after it. -/
theorem splits_append {lead : List Char} (hl : '_' ∉ lead) (rest : List Char) :
    splits (lead ++ '_' :: rest) =
      if rest = [] then [] else ((Verb.ofName? (String.ofList lead)).map (rest, ·)).toList := by
  have hfound : (Verb.spellings.filterMap fun e => (rest? e.1 (lead ++ '_' :: rest)).map fun rest => (rest, e.2)) =
      if rest = [] then [] else ((Verb.ofName? (String.ofList lead)).map (rest, ·)).toList := by
    have heach : ∀ e ∈ Verb.spellings, (rest? e.1 (lead ++ '_' :: rest)).map (fun rest => (rest, e.2)) =
        if e.1 = String.ofList lead then (if rest = [] then none else some (rest, e.2)) else none := by
      intro e he
      rw [rest?_eq (Verb.not_mem_underscore he) hl]
      by_cases hs : e.1 = String.ofList lead <;> by_cases hr : rest = [] <;> simp [hs, hr]
    rw [List.filterMap_congr heach]
    by_cases hr : rest = []
    · simp [hr]
    · simp only [hr, if_false]
      rw [filterMap_key Verb.nodup_spellings, Verb.ofName?, Option.map_map]
      rfl
  rw [splits_eq, hfound]
  split
  · exact List.mergeSort_nil
  · cases Verb.ofName? (String.ofList lead) with
    | none => exact List.mergeSort_nil
    | some verb => exact List.mergeSort_singleton _

theorem splits_of_not_mem {name : List Char} (h : '_' ∉ name) : splits name = [] := by
  have hfound : (Verb.spellings.filterMap fun e => (rest? e.1 name).map fun rest => (rest, e.2)) = [] :=
    List.filterMap_eq_nil_iff.2 fun e _ => by simp only [rest?_of_not_mem h, Option.map_none]
  rw [splits_eq, hfound]
  exact List.mergeSort_nil

/-- What a name asks for on a schema, read at its first underscore. -/
def ofParts (s : Schema) (name : String) (lead rest : List Char) : Except Fault Method :=
  match Verb.ofName? (String.ofList lead) with
  | none => .error (.invalidOperator name)
  | some verb =>
    if rest = [] then .error (.invalidOperator name)
    else
      match s.lookup? (String.ofList rest) with
      | some f => .ok ⟨verb, some f.name⟩
      | none =>
        if rest = explicitRest then .ok ⟨verb, none⟩
        else .error (.unknownField s.table (String.ofList rest))

theorem ofName_append (s : Schema) {name : String} {lead rest : List Char}
    (hname : name.toList = lead ++ '_' :: rest) (hl : '_' ∉ lead) :
    ofName s name = ofParts s name lead rest := by
  have hmem : '_' ∈ name.toList := by simp [hname]
  simp only [ofName, Verb.ofName?_of_mem_underscore hmem, hname, splits_append hl, ofParts]
  cases Verb.ofName? (String.ofList lead) with
  | none => simp
  | some verb =>
    by_cases hr : rest = []
    · simp [hr]
    · cases hf : s.lookup? (String.ofList rest) with
      | some f => simp [hr, hf]
      | none =>
        by_cases he : rest = explicitRest
        · subst he
          simp [hr, hf]
        · simp [hr, hf, he]

theorem ofName_of_not_mem (s : Schema) {name : String} (h : '_' ∉ name.toList) :
    ofName s name =
      match Verb.ofName? name with
      | some verb => .ok ⟨verb, none⟩
      | none => .error (.invalidOperator name) := by
  cases hv : Verb.ofName? name with
  | none => simp only [ofName, hv, splits_of_not_mem h]
  | some verb => simp only [ofName, hv]

/-- What stands in the verb's place: the text before the first underscore, or all of it. -/
def verbText (name : String) : String :=
  match splitOnce? '_' name.toList with
  | some (lead, _) => String.ofList lead
  | none => name

/-- What stands in the field's place, unless it says that an argument names the field. -/
def fieldText? (s : Schema) (name : String) : Option String :=
  match splitOnce? '_' name.toList with
  | some (_, rest) =>
    if rest = explicitRest ∧ String.ofList rest ∉ s.names then none else some (String.ofList rest)
  | none => none

/-- **What a name asks for** is the verb that stands in the verb's place, on the
field that stands in the field's place, if one stands there. -/
theorem of_ofName {s : Schema} {name : String} {m : Method} (h : ofName s name = .ok m) :
    Verb.ofName? (verbText name) = some m.verb ∧
      match fieldText? s name with
      | none => m.field = none
      | some text => ∃ f, s.lookup? text = some f ∧ m.field = some f.name := by
  by_cases hmem : '_' ∈ name.toList
  · obtain ⟨lead, rest, hname, hl⟩ := List.eq_append_cons_of_mem hmem
    rw [ofName_append s hname hl] at h
    simp only [verbText, fieldText?, hname, splitOnce?_append hl]
    unfold ofParts at h
    split at h
    · cases h
    · next verb hverb =>
      split at h
      · cases h
      · split at h
        · next f hf =>
          cases h
          refine ⟨hverb, ?_⟩
          rw [if_neg]
          · exact ⟨f, hf, rfl⟩
          · rintro ⟨rfl, hnot⟩
            rw [Schema.lookup?_of_not_mem hnot (by decide)] at hf
            cases hf
        · next hf =>
          split at h
          · next he =>
            cases h
            have hnot : String.ofList rest ∉ s.names := by
              intro hin
              obtain ⟨g, hg, -⟩ := Schema.require_of_mem_names hin
              rw [Schema.require_eq_ok.1 hg] at hf
              cases hf
            rw [if_pos ⟨he, hnot⟩]
            exact ⟨hverb, rfl⟩
          · cases h
  · rw [ofName_of_not_mem s hmem] at h
    simp only [verbText, fieldText?, splitOnce?_of_not_mem hmem]
    split at h
    · next verb hverb =>
      cases h
      exact ⟨hverb, rfl⟩
    · cases h

/-! ## Names that are put together from a spelling -/

section

variable {spelling : String} {verb : Verb}

theorem ofName_spelling (s : Schema) (hv : (spelling, verb) ∈ Verb.spellings) :
    ofName s spelling = .ok ⟨verb, none⟩ := by
  rw [ofName_of_not_mem s (Verb.not_mem_underscore hv), Verb.ofName?_eq_some_iff.2 hv]

theorem toList_joined (spelling rest : String) :
    (spelling ++ "_" ++ rest).toList = spelling.toList ++ '_' :: rest.toList := by
  rw [String.toList_append, String.toList_append, List.append_assoc]
  rfl

theorem ofName_joined (s : Schema) (hv : (spelling, verb) ∈ Verb.spellings) (rest : String) :
    ofName s (spelling ++ "_" ++ rest) = ofParts s (spelling ++ "_" ++ rest) spelling.toList rest.toList :=
  ofName_append s (toList_joined spelling rest) (Verb.not_mem_underscore hv)

theorem ofName_field {s : Schema} (hv : (spelling, verb) ∈ Verb.spellings) {name : String} (hne : name ≠ "")
    {f : Field} (hf : s.lookup? name = some f) : ofName s (spelling ++ "_" ++ name) = .ok ⟨verb, some f.name⟩ := by
  have hrest : name.toList ≠ [] := fun h => hne (String.toList_inj.1 h)
  simp only [ofName_joined s hv, ofParts, String.ofList_toList, Verb.ofName?_eq_some_iff.2 hv, hf, if_neg hrest]

/-- Unless a field has that name, `field` says that an argument names the field. -/
theorem ofName_explicit {s : Schema} (hv : (spelling, verb) ∈ Verb.spellings) (hs : "field" ∉ s.names) :
    ofName s (spelling ++ "_field") = .ok ⟨verb, none⟩ := by
  have hf : s.lookup? "field" = none := Schema.lookup?_of_not_mem hs (by decide)
  have hname : spelling ++ "_field" = spelling ++ "_" ++ "field" := by
    rw [String.append_assoc]
    rfl
  rw [hname, ofName_joined s hv]
  simp only [ofParts, String.ofList_toList, Verb.ofName?_eq_some_iff.2 hv, hf]
  rfl

end

end Method

/-! ## Arguments that name fields -/

namespace Query

variable {q : Query}

theorem fieldArgument_eq (v : Value) :
    q.fieldArgument v =
      match v.text? with
      | some name => .ok name
      | none => .error (.unknownField q.schema.table v.display) := by
  cases v <;> rfl

theorem mapM_fieldArgument {args : List Value} (h : ∀ v ∈ args, v.text?.isSome) :
    args.mapM q.fieldArgument = .ok (args.filterMap Value.text?) := by
  induction args with
  | nil => rfl
  | cons v rest ih =>
    simp only [List.mem_cons, forall_eq_or_imp] at h
    obtain ⟨name, hname⟩ := Option.isSome_iff_exists.1 h.1
    rw [List.mapM_cons, ih h.2, fieldArgument_eq, List.filterMap_cons, hname]
    rfl

/-- An argument that is no text names no field. -/
theorem mapM_fieldArgument_error {args : List Value} (h : ∃ v ∈ args, v.text? = none) :
    ∃ fault, args.mapM q.fieldArgument = .error fault := by
  induction args with
  | nil => exact absurd h (by simp)
  | cons v rest ih =>
    rw [List.mapM_cons, fieldArgument_eq]
    cases hv : v.text? with
    | none => exact ⟨_, rfl⟩
    | some name =>
      simp only [List.mem_cons, exists_eq_or_imp, hv, reduceCtorEq, false_or] at h
      obtain ⟨fault, hfault⟩ := ih h
      exact ⟨fault, by rw [hfault]; rfl⟩

/-- The names that arguments give are their texts. -/
theorem eq_of_mapM_fieldArgument {args : List Value} {names : List String}
    (h : args.mapM q.fieldArgument = .ok names) : names = args.filterMap Value.text? := by
  by_cases hall : ∀ v ∈ args, v.text?.isSome
  · rw [mapM_fieldArgument hall] at h
    exact (Except.ok.inj h).symm
  · simp only [not_forall, Bool.not_eq_true, Option.isSome_eq_false_iff, Option.isNone_iff_eq_none,
      exists_prop] at hall
    obtain ⟨fault, hfault⟩ := mapM_fieldArgument_error (q := q) hall
    rw [hfault] at h
    cases h

/-- The field of a method that has none is its first argument's. -/
theorem methodField_eq_ok {name field : String} {verb : Verb} {args rest : List Value}
    (h : q.methodField name ⟨verb, none⟩ args = .ok (field, rest)) : args = .text field :: rest := by
  cases args with
  | nil => cases h
  | cons v more =>
    obtain ⟨text, htext, h⟩ := Except.bind_eq_ok.1 h
    cases h
    cases v with
    | text s =>
      cases htext
      rfl
    | _ => cases htext

end Query

end TableQuery

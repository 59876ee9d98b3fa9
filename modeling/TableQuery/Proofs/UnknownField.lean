/-
A call that names a field which is not declared fails, with one exception
(`Query.unknown_field`).

Names are looked up where something is done with them: when a condition is made,
a sort put, a field chosen or assigned. Conditions on parts of a date are made
one for each keyword, so a call without keywords makes none and looks nothing
up. Such a call succeeds on any name, and leaves the query as it was.
-/
import TableQuery.Proofs.Query.Method

namespace TableQuery

/-! ## Names that calls give -/

/-- The names of fields that arguments give: `select` takes one in each of them,
other verbs in the first. -/
def Method.argumentNames (verb : Option Verb) (args : List Value) : List String :=
  match verb with
  | some .select => (args.filterMap Value.text?).filter (· ≠ Projection.everything)
  | _ => (args.take 1).filterMap Value.text?

/-- The names of fields that a call gives, which the wildcard's is none of. -/
def Edit.fieldNames (s : Schema) : Edit → List String
  | .filter field _ _ | .filterBy _ field _ | .filterDate _ field _ | .filterPart field _ _ _ => [field]
  | .sortBy field _ _ | .assign field _ => [field]
  | .select fields => fields.filter (· ≠ Projection.everything)
  | .assignAll fields => fields.map (·.1)
  | .call name args =>
    match Method.fieldText? s name with
    | some text => [text]
    | none => Method.argumentNames (Verb.ofName? (Method.verbText name)) args
  | .callWith name keywords =>
    match Method.fieldText? s name with
    | some text => [text]
    | none => keywords.take 1
  | .selectEverything | .clearSelection | .limit _ | .offset _ | .page _ | .raw _ _ => []

/-- The call is for conditions on parts of a date and has no keyword to make one of. -/
def Edit.AsksNothing (s : Schema) : Edit → Prop
  | .filterDate verb _ [] => ∃ op, Operator.ofName verb = .ok op
  | .callWith name [_] => ∃ op, Method.ofName s name = .ok ⟨.condition op, none⟩
  | _ => False

namespace Query

/-! ## What is looked up -/

section

variable {q q' : Query} {field : String}

theorem declares_of_require {s : Schema} {f : Field} (h : s.require field = .ok f) : s.declares field := by
  simp only [Schema.declares, Schema.require_eq_ok.1 h, Option.isSome_some]

theorem declares_of_addCondition {op : Operator} {operands : List Value} {part : Option DatePart}
    (h : q.addCondition field op operands part = .ok q') : q.schema.declares field := by
  obtain ⟨p, hp, -⟩ := Except.bind_eq_ok.1 h
  obtain ⟨f, -, hf, -⟩ := Predicate.make_eq_ok.1 hp
  exact declares_of_require hf

/-- A name is looked up with the first keyword. -/
theorem declares_of_filterParts {op : Operator} {keywords : List String} (hne : keywords ≠ [])
    (h : q.filterParts field op keywords = .ok q') : q.schema.declares field := by
  cases keywords with
  | nil => exact absurd rfl hne
  | cons keyword rest =>
    obtain ⟨⟨part, values⟩, -, h⟩ := Except.bind_eq_ok.1 h
    obtain ⟨q₁, h₁, -⟩ := Except.bind_eq_ok.1 h
    exact declares_of_addCondition h₁

theorem declares_of_sortBy {direction : Direction} {order : List Value}
    (h : q.sortBy field direction order = .ok q') : q.schema.declares field := by
  obtain ⟨f, hf, -⟩ := Except.bind_eq_ok.1 h
  exact declares_of_require hf

theorem declares_of_assign {v : Value} (h : q.assign field v = .ok q') : q.schema.declares field := by
  obtain ⟨f, hf, -⟩ := Except.bind_eq_ok.1 h
  exact declares_of_require hf

theorem declares_of_assignAll {fields : List (String × Value)} (h : q.assignAll fields = .ok q') :
    ∀ name ∈ fields.map (·.1), q.schema.declares name := by
  induction fields generalizing q with
  | nil => exact fun _ hmem => absurd hmem List.not_mem_nil
  | cons a rest ih =>
    obtain ⟨q₁, h₁, h⟩ := Except.bind_eq_ok.1 h
    intro name hmem
    rcases List.mem_cons.1 hmem with rfl | hmem
    · exact declares_of_assign h₁
    · exact (assign_change h₁).fixed.1 ▸ ih h name hmem

theorem declares_of_select {fields : List String} (h : q.select fields = .ok q') :
    ∀ name ∈ fields.filter (· ≠ Projection.everything), q.schema.declares name := by
  induction fields generalizing q with
  | nil => exact fun _ hmem => absurd hmem List.not_mem_nil
  | cons field rest ih =>
    obtain ⟨q₁, h₁, h⟩ := Except.bind_eq_ok.1 h
    have hschema : q₁.schema = q.schema := (selectField_change h₁).fixed.1
    intro name hmem
    simp only [List.mem_filter, List.mem_cons, decide_eq_true_eq] at hmem
    obtain ⟨rfl | hmem, hname⟩ := hmem
    · unfold selectField at h₁
      rw [if_neg hname] at h₁
      obtain ⟨f, hf, -⟩ := Except.bind_eq_ok.1 h₁
      exact declares_of_require hf
    · exact hschema ▸ ih h name (by simp [hmem, hname])

end

/-! ## Pseudo-methods -/

section

variable {q q' : Query}

/-- What a call has looked up when it succeeds. -/
theorem declares_of_call {name : String} {args : List Value} (h : q.call name args = .ok q') :
    ∀ field ∈ (Edit.call name args).fieldNames q.schema, q.schema.declares field := by
  obtain ⟨⟨verb, place⟩, hm, h⟩ := Except.bind_eq_ok.1 h
  obtain ⟨⟨field, rest⟩, hfield, h⟩ := Except.bind_eq_ok.1 h
  obtain ⟨hverb, hplace⟩ := Method.of_ofName hm
  simp only [Edit.fieldNames]
  split at hplace
  · next htext =>
    simp only at hplace
    subst hplace
    obtain rfl := methodField_eq_ok hfield
    simp only [htext, hverb]
    cases verb with
    | condition op =>
      intro name' hmem
      obtain rfl := List.mem_singleton.1 hmem
      exact declares_of_addCondition h
    | asc | desc =>
      intro name' hmem
      obtain rfl := List.mem_singleton.1 hmem
      exact declares_of_sortBy h
    | select =>
      change (rest.mapM q.fieldArgument >>= fun names => q.select (field :: names)) = .ok q' at h
      obtain ⟨names, hnames, hselect⟩ := Except.bind_eq_ok.1 h
      obtain rfl := eq_of_mapM_fieldArgument hnames
      exact declares_of_select hselect
  · next text htext =>
    obtain ⟨f, hf, -⟩ := hplace
    simp only [htext, List.mem_singleton, forall_eq, Schema.declares, hf, Option.isSome_some]

theorem declares_of_callWith {name : String} {keywords : List String} (h : q.callWith name keywords = .ok q')
    (hask : ¬(Edit.callWith name keywords).AsksNothing q.schema) :
    ∀ field ∈ (Edit.callWith name keywords).fieldNames q.schema, q.schema.declares field := by
  obtain ⟨⟨verb, place⟩, hm, h⟩ := Except.bind_eq_ok.1 h
  obtain ⟨hverb, hplace⟩ := Method.of_ofName hm
  simp only [Edit.fieldNames]
  split at hplace
  · next htext =>
    simp only at hplace
    subst hplace
    simp only [htext]
    cases verb with
    | condition op =>
      match keywords, h with
      | [field], _ => exact absurd ⟨op, hm⟩ hask
      | field :: keyword :: rest, h =>
        intro name' hmem
        obtain rfl := List.mem_singleton.1 hmem
        obtain ⟨op', -, h⟩ := Except.bind_eq_ok.1 h
        exact declares_of_filterParts (List.cons_ne_nil keyword rest) h
    | asc | desc | select => cases h
  · next text htext =>
    obtain ⟨f, hf, -⟩ := hplace
    simp only [htext, List.mem_singleton, forall_eq, Schema.declares, hf, Option.isSome_some]

end

/-! ## All calls -/

section

variable {q q' : Query} {e : Edit}

/-- Unless it asks for nothing, a call that succeeds has found every field that it names. -/
theorem declares_of_apply (h : q.apply e = .ok q') (hask : ¬e.AsksNothing q.schema) :
    ∀ name ∈ e.fieldNames q.schema, q.schema.declares name := by
  cases e with
  | filter | filterPart => simpa [Edit.fieldNames] using declares_of_addCondition h
  | filterBy =>
    obtain ⟨op, -, h⟩ := Except.bind_eq_ok.1 h
    simpa [Edit.fieldNames] using declares_of_addCondition h
  | filterDate verb field keywords =>
    obtain ⟨op, hop, h⟩ := Except.bind_eq_ok.1 h
    have hne : keywords ≠ [] := by
      rintro rfl
      exact hask ⟨op, hop⟩
    simpa [Edit.fieldNames] using declares_of_filterParts hne h
  | sortBy => simpa [Edit.fieldNames] using declares_of_sortBy h
  | select => exact declares_of_select h
  | assign => simpa [Edit.fieldNames] using declares_of_assign h
  | assignAll => exact declares_of_assignAll h
  | call => exact declares_of_call h
  | callWith => exact declares_of_callWith h hask
  | selectEverything | clearSelection | limit | offset | page | raw =>
    exact fun _ hmem => absurd hmem List.not_mem_nil

theorem apply_of_asksNothing (h : e.AsksNothing q.schema) : q.apply e = .ok q := by
  cases e with
  | filterDate verb field keywords =>
    cases keywords with
    | nil =>
      obtain ⟨op, hop⟩ := h
      simp [apply, filterDate, hop, filterParts]
    | cons => exact h.elim
  | callWith name keywords =>
    rcases keywords with _ | ⟨field, _ | ⟨second, rest⟩⟩
    · exact h.elim
    · obtain ⟨op, hm⟩ := h
      simp [apply, callWith, hm, filterDate, filterParts]
    · exact h.elim
  | _ => exact h.elim

end

/-- **Unknown fields do not pass, except where nothing is asked of them.** A call
that names a field for which the schema has none fails, unless it is for
conditions on parts of a date, with a verb that has an operator, and comes
without a keyword; such a call succeeds and leaves the query as it is. -/
theorem unknown_field (q : Query) (e : Edit) {name : String} (hname : name ∈ e.fieldNames q.schema)
    (hunknown : q.schema.lookup? name = none) :
    ((∃ fault, q.apply e = .error fault) ↔ ¬e.AsksNothing q.schema) ∧
      (e.AsksNothing q.schema → q.apply e = .ok q) := by
  refine ⟨⟨fun ⟨fault, hfault⟩ hask => ?_, fun hask => ?_⟩, apply_of_asksNothing⟩
  · rw [apply_of_asksNothing hask] at hfault
    cases hfault
  · cases h : q.apply e with
    | error fault => exact ⟨fault, rfl⟩
    | ok q' =>
      have hdeclared := declares_of_apply h hask name hname
      simp only [Schema.declares, hunknown] at hdeclared
      cases hdeclared

/-- The same condition fails with a keyword and passes without one. -/
theorem unknown_field_without_keyword :
    let q := ofSchema ((Schema.ofTable "foo").declareKey "_id" .integer) .sqlite
    q.schema.lookup? "born" = none ∧ q.apply (.filterDate "is" "born" []) = .ok q ∧
      ∃ fault, q.apply (.filterDate "is" "born" ["day=7"]) = .error fault := by
  intro q
  have hunknown : q.schema.lookup? "born" = none := by decide
  obtain ⟨-, hpasses⟩ := unknown_field q (.filterDate "is" "born" []) (List.mem_singleton.2 rfl) hunknown
  obtain ⟨hfails, -⟩ := unknown_field q (.filterDate "is" "born" ["day=7"]) (List.mem_singleton.2 rfl) hunknown
  exact ⟨hunknown, hpasses ⟨.compare .eq, rfl⟩, hfails.2 id⟩

end Query

end TableQuery

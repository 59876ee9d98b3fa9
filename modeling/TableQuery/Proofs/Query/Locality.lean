/-
A builder call sees one part of a draft (`Query.apply_within`).

Which part that is, the call itself says, and for a pseudo-method its name on the
schema does (`Edit.part?`). Set into any other draft, the part is changed in the
same way or refused with the same fault, and the rest of that draft is left as it
was: so a call neither reads another part nor resets one.
-/
import TableQuery.Proofs.Query.Reach

namespace TableQuery

/-! ## Drafts in parts -/

namespace Draft

/-- The draft with one part taken from another. -/
def withPart (d : Draft) (part : DraftPart) (source : Draft) : Draft :=
  match part with
  | .conditions => { d with predicates := source.predicates }
  | .order => { d with sorts := source.sorts }
  | .projection => { d with projection := source.projection }
  | .window => { d with bounds := source.bounds }
  | .raw => { d with raw := source.raw }
  | .assignments => { d with assignments := source.assignments }

/-- Two drafts have the same in one part. -/
def AgreesOn (part : DraftPart) (d d' : Draft) : Prop :=
  match part with
  | .conditions => d.predicates = d'.predicates
  | .order => d.sorts = d'.sorts
  | .projection => d.projection = d'.projection
  | .window => d.bounds = d'.bounds
  | .raw => d.raw = d'.raw
  | .assignments => d.assignments = d'.assignments

variable (d a b : Draft) {part part' : DraftPart}

@[simp]
theorem withPart_self (part : DraftPart) : d.withPart part d = d := by cases part <;> rfl

/-- What is taken is the part alone. -/
@[simp]
theorem withPart_of_withPart (part : DraftPart) : d.withPart part (a.withPart part b) = d.withPart part b := by
  cases part <;> rfl

theorem withPart_comm (h : part ≠ part') :
    (d.withPart part a).withPart part' b = (d.withPart part' b).withPart part a := by
  cases part <;> cases part' <;> first | rfl | exact absurd rfl h

theorem withPart_own (h : part ≠ part') : (d.withPart part a).withPart part' d = d.withPart part a := by
  simp [withPart_comm d a d h]

theorem agreesOn_withPart (h : part' ≠ part) : AgreesOn part' (d.withPart part a) d := by
  cases part <;> cases part' <;> first | rfl | exact absurd rfl h

end Draft

/-! ## Calls and their parts -/

/-- The part of a draft that a verb is about. -/
def Verb.part : Verb → DraftPart
  | condition _ => .conditions
  | asc | desc => .order
  | select => .projection

/-- The part of a draft that a call is about. A name that is no method has none. -/
def Edit.part? (s : Schema) : Edit → Option DraftPart
  | filter .. | filterBy .. | filterDate .. | filterPart .. => some .conditions
  | sortBy .. => some .order
  | select _ | selectEverything | clearSelection => some .projection
  | limit _ | offset _ | page _ => some .window
  | raw .. => some .raw
  | assign .. | assignAll _ => some .assignments
  | call name _ | callWith name _ =>
    match Method.ofName s name with
    | .ok m => some m.verb.part
    | .error _ => none

namespace Query

/-- The query with one part of its draft taken from another. -/
def withPart (q : Query) (part : DraftPart) (source : Draft) : Query :=
  { q with draft := q.draft.withPart part source }

/-- The query's own part within another draft. -/
def within (q : Query) (part : DraftPart) (d : Draft) : Query := { q with draft := d.withPart part q.draft }

@[simp]
theorem within_self (q : Query) (part : DraftPart) : q.within part q.draft = q := by
  simp [within]

@[simp]
theorem schema_within (q : Query) (part : DraftPart) (d : Draft) : (q.within part d).schema = q.schema := rfl

section

variable {q : Query} {d : Draft}

@[simp]
theorem addCondition_within {field : String} {op : Operator} {operands : List Value} {part : Option DatePart} :
    (q.within .conditions d).addCondition field op operands part =
      (q.addCondition field op operands part).map (·.within .conditions d) := by
  simp only [addCondition, within]
  cases Predicate.make q.schema field op operands part <;> rfl

@[simp]
theorem filterBy_within {verb field : String} {operands : List Value} :
    (q.within .conditions d).filterBy verb field operands =
      (q.filterBy verb field operands).map (·.within .conditions d) := by
  simp only [filterBy, filter]
  cases Operator.ofName verb with
  | error e => rfl
  | ok op => exact addCondition_within

@[simp]
theorem filterParts_within {field : String} {op : Operator} {keywords : List String} :
    (q.within .conditions d).filterParts field op keywords =
      (q.filterParts field op keywords).map (·.within .conditions d) := by
  induction keywords generalizing q with
  | nil => rfl
  | cons keyword rest ih =>
    simp only [filterParts]
    cases DatePart.ofKeyword keyword with
    | error e => rfl
    | ok parsed =>
      obtain ⟨part, values⟩ := parsed
      change ((q.within .conditions d).addCondition field op values part >>= (·.filterParts field op rest)) =
        (q.addCondition field op values part >>= (·.filterParts field op rest)).map _
      rw [addCondition_within]
      cases q.addCondition field op values part with
      | error e => rfl
      | ok q' => exact ih

@[simp]
theorem filterDate_within {verb field : String} {keywords : List String} :
    (q.within .conditions d).filterDate verb field keywords =
      (q.filterDate verb field keywords).map (·.within .conditions d) := by
  simp only [filterDate]
  cases Operator.ofName verb with
  | error e => rfl
  | ok op => exact filterParts_within

@[simp]
theorem sortBy_within {field : String} {direction : Direction} {order : List Value} :
    (q.within .order d).sortBy field direction order =
      (q.sortBy field direction order).map (·.within .order d) := by
  simp only [sortBy, within]
  cases q.schema.require field <;> rfl

@[simp]
theorem selectField_within {field : String} :
    (q.within .projection d).selectField field = (q.selectField field).map (·.within .projection d) := by
  simp only [selectField, within]
  split
  · rfl
  · cases q.schema.require field <;> rfl

@[simp]
theorem select_within {fields : List String} :
    (q.within .projection d).select fields = (q.select fields).map (·.within .projection d) := by
  induction fields generalizing q with
  | nil => rfl
  | cons field rest ih =>
    simp only [select, selectField_within]
    cases q.selectField field with
    | error e => rfl
    | ok q' => exact ih

@[simp]
theorem limit_within {n : UInt64} : (q.within .window d).limit n = (q.limit n).map (·.within .window d) := by
  simp only [limit, within, Draft.withPart]
  cases q.draft.bounds.withLimit n <;> rfl

@[simp]
theorem page_within {n : UInt64} : (q.within .window d).page n = (q.page n).map (·.within .window d) := by
  simp only [page, within, Draft.withPart]
  cases q.draft.bounds.withPage n <;> rfl

@[simp]
theorem assign_within {field : String} {v : Value} :
    (q.within .assignments d).assign field v = (q.assign field v).map (·.within .assignments d) := by
  simp only [assign, within]
  cases q.schema.require field <;> rfl

@[simp]
theorem assignAll_within {fields : List (String × Value)} :
    (q.within .assignments d).assignAll fields = (q.assignAll fields).map (·.within .assignments d) := by
  induction fields generalizing q with
  | nil => rfl
  | cons pair rest ih =>
    obtain ⟨field, v⟩ := pair
    simp only [assignAll, assign_within]
    cases q.assign field v with
    | error e => rfl
    | ok q' => exact ih

/-- A pseudo-method sees the part that its verb is about. -/
theorem call_within {name : String} {args : List Value} {m : Method} (hm : Method.ofName q.schema name = .ok m) :
    (q.within m.verb.part d).call name args = (q.call name args).map (·.within m.verb.part d) := by
  obtain ⟨verb, place⟩ := m
  have hfield : (q.within verb.part d).methodField name ⟨verb, place⟩ args = q.methodField name ⟨verb, place⟩ args :=
    rfl
  simp only [call, schema_within, hm]
  change ((q.within verb.part d).methodField name ⟨verb, place⟩ args >>= _) =
    (q.methodField name ⟨verb, place⟩ args >>= _).map _
  rw [hfield]
  cases q.methodField name ⟨verb, place⟩ args with
  | error e => rfl
  | ok found =>
    obtain ⟨field, rest⟩ := found
    cases verb with
    | condition op => exact addCondition_within
    | asc | desc => exact sortBy_within
    | select =>
      cases place with
      | none =>
        change (rest.mapM q.fieldArgument >>= fun names => (q.within .projection d).select (field :: names)) =
          (rest.mapM q.fieldArgument >>= fun names => q.select (field :: names)).map _
        cases rest.mapM q.fieldArgument with
        | error e => rfl
        | ok names => exact select_within
      | some own =>
        change (if rest ≠ [] then _ else (q.within .projection d).select [field]) =
          (if rest ≠ [] then _ else q.select [field]).map _
        split
        · rfl
        · exact select_within

/-- Keyword arguments are for conditions; with another verb they are refused. -/
theorem callWith_within {name : String} {keywords : List String} {m : Method}
    (hm : Method.ofName q.schema name = .ok m) :
    (q.within m.verb.part d).callWith name keywords = (q.callWith name keywords).map (·.within m.verb.part d) := by
  obtain ⟨verb, place⟩ := m
  simp only [callWith, schema_within, hm]
  cases verb with
  | condition op =>
    cases place with
    | some own => exact filterDate_within
    | none =>
      cases keywords with
      | nil => rfl
      | cons field rest => exact filterDate_within
  | asc | desc | select => rfl

/-- **A call sees its own part of the draft and no other**: within any draft, it
makes of that part the same, or fails with the same fault. -/
theorem apply_within {e : Edit} {part : DraftPart} (h : e.part? q.schema = some part) :
    (q.within part d).apply e = (q.apply e).map (·.within part d) := by
  cases e with
  | call name args =>
    simp only [Edit.part?] at h
    split at h
    · next m hm =>
      cases h
      exact call_within hm
    · cases h
  | callWith name keywords =>
    simp only [Edit.part?] at h
    split at h
    · next m hm =>
      cases h
      exact callWith_within hm
    · cases h
  | selectEverything | clearSelection | offset | raw =>
    cases h
    rfl
  | _ =>
    cases h
    simp [apply, filter, filterPart]

/-- A call that succeeds is about some part. -/
theorem part?_of_apply {e : Edit} {q' : Query} (h : q.apply e = .ok q') : ∃ part, e.part? q.schema = some part := by
  cases e with
  | call name args =>
    obtain ⟨m, hm, -⟩ := Except.bind_eq_ok.1 h
    exact ⟨m.verb.part, by simp only [Edit.part?, hm]⟩
  | callWith name keywords =>
    obtain ⟨m, hm, -⟩ := Except.bind_eq_ok.1 h
    exact ⟨m.verb.part, by simp only [Edit.part?, hm]⟩
  | _ => exact ⟨_, rfl⟩

theorem apply_fixed {e : Edit} {q' : Query} (h : q.apply e = .ok q') :
    q'.schema = q.schema ∧ q'.dialect = q.dialect := by
  obtain ⟨part, hchanges, -⟩ := apply_changes h
  exact hchanges.invariant (P := fun q' => q'.schema = q.schema ∧ q'.dialect = q.dialect)
    (fun hq hc => ⟨hc.fixed.1.trans hq.1, hc.fixed.2.trans hq.2⟩) ⟨rfl, rfl⟩

/-- A call leaves the query as it was, but for its own part of the draft. -/
theorem eq_of_apply {e : Edit} {part : DraftPart} {q' : Query} (hpart : e.part? q.schema = some part)
    (h : q.apply e = .ok q') : q' = q.withPart part q'.draft := by
  obtain ⟨hschema, hdialect⟩ := apply_fixed h
  have hwithin := apply_within (d := q.draft) hpart
  rw [within_self, h] at hwithin
  calc q' = q'.within part q.draft := Except.ok.inj hwithin
    _ = q.withPart part q'.draft := by rw [within, withPart, hschema, hdialect]

/-- Another part changes nothing of what a call does, whatever it holds. -/
theorem apply_withPart {e : Edit} {part other : DraftPart} (hpart : e.part? q.schema = some part)
    (hne : part ≠ other) : (q.withPart other d).apply e = (q.apply e).map (·.withPart other d) := by
  have hwithin : q.withPart other d = q.within part (q.draft.withPart other d) := by
    rw [withPart, within, Draft.withPart_own _ _ hne.symm]
  rw [hwithin, apply_within hpart]
  cases h : q.apply e with
  | error fault => rfl
  | ok q' =>
    obtain ⟨a, rfl⟩ : ∃ a, q' = q.withPart part a := ⟨_, eq_of_apply hpart h⟩
    simp only [Except.map, within, withPart, Draft.withPart_of_withPart, Draft.withPart_comm _ _ _ hne]

end

end Query

end TableQuery

/-
Pseudo-methods do what the typed calls do (`Query.call_typed`).

A name such as `gte_age` is looked up twice: `age` when the name is read, and
the name of the field it stands for when the call is made. On a schema whose
fields have different names the second look-up finds the first one's field, so
nothing is lost by it. What a call without any argument says of itself is the
one difference between `gte_field` and `gte`: its fault names the method.
-/
import TableQuery.Proofs.Query.Method

namespace TableQuery

/-- The canonical spelling of an operator and any other name the same operator. -/
theorem Operator.ofName_eq_ok {spelling : String} {op : Operator}
    (h : (spelling, Verb.condition op) ∈ Verb.spellings) : Operator.ofName spelling = .ok op := by
  simp only [Operator.ofName, Verb.ofName?_eq_some_iff.2 h]

namespace Query

variable {q : Query}

/-! ## A field under its own name -/

section

variable {name : String} {f : Field}

theorem addCondition_name (hs : q.schema.names.Nodup) (hf : q.schema.lookup? name = some f) (op : Operator)
    (operands : List Value) (part : Option DatePart) :
    q.addCondition f.name op operands part = q.addCondition name op operands part := by
  simp only [addCondition, Predicate.make, Schema.require, Schema.lookup?_name hs hf, hf]

theorem sortBy_name (hs : q.schema.names.Nodup) (hf : q.schema.lookup? name = some f) (direction : Direction)
    (order : List Value) : q.sortBy f.name direction order = q.sortBy name direction order := by
  simp only [sortBy, Schema.require, Schema.lookup?_name hs hf, hf]

theorem filterParts_name (hs : q.schema.names.Nodup) (hf : q.schema.lookup? name = some f) (op : Operator)
    (keywords : List String) : q.filterParts f.name op keywords = q.filterParts name op keywords := by
  induction keywords generalizing q with
  | nil => rfl
  | cons keyword rest ih =>
    simp only [filterParts, filterPart]
    cases DatePart.ofKeyword keyword with
    | error e => rfl
    | ok pv =>
      simp only [Except.ok_bind, addCondition_name hs hf]
      cases hq : q.addCondition name op pv.2 (some pv.1) with
      | error e => rfl
      | ok q' =>
        have hschema : q'.schema = q.schema := (addCondition_change hq).fixed.1
        exact ih (hschema ▸ hs) (hschema ▸ hf)

/-- Neither the field nor the name that stands for it is the wildcard. -/
theorem select_name (hs : q.schema.names.Nodup) (hw : Projection.everything ∉ q.schema.names)
    (hf : q.schema.lookup? name = some f) : q.select [f.name] = q.select [name] := by
  have hfield : f.name ≠ Projection.everything := fun he =>
    hw (he ▸ List.mem_map_of_mem (Schema.mem_of_lookup? hf))
  have hname : name ≠ Projection.everything := by
    rintro rfl
    rw [Schema.lookup?_of_not_mem hw (by decide)] at hf
    cases hf
  simp only [select, selectField, if_neg hfield, if_neg hname, Schema.require, Schema.lookup?_name hs hf, hf]

end

/-! ## Calls by name -/

/-- The call that a verb's spelling stands for, on a field that is named apart. -/
def typedCall (q : Query) (spelling field : String) (args : List Value) : Verb → Except Fault Query
  | .condition _ => q.filterBy spelling field args
  | .asc => q.sortBy field .asc args
  | .desc => q.sortBy field .desc args
  | .select => q.select (field :: args.filterMap Value.text?)

section

variable {spelling : String} {verb : Verb}

/-- With an argument, a name that leaves the field to it says nothing but its verb. -/
theorem call_eq_of_ofName {name name' : String} {m : Method} (h : Method.ofName q.schema name = .ok m)
    (h' : Method.ofName q.schema name' = .ok m) {args : List Value} (hargs : args ≠ []) :
    q.call name args = q.call name' args := by
  cases args with
  | nil => exact absurd rfl hargs
  | cons v rest =>
    obtain ⟨verb, field⟩ := m
    simp only [call, h, h']
    cases field <;> rfl

theorem call_nil {name : String} (h : Method.ofName q.schema name = .ok ⟨verb, none⟩) :
    q.call name [] = .error (.unknownField q.schema.table name) := by
  simp only [call, h]
  rfl

theorem call_field (hs : q.schema.names.Nodup) (hw : Projection.everything ∉ q.schema.names)
    (hv : (spelling, verb) ∈ Verb.spellings) {name : String} (hne : name ≠ "") {f : Field}
    (hf : q.schema.lookup? name = some f) {args : List Value} (hargs : verb = .select → args = []) :
    q.call (spelling ++ "_" ++ name) args = q.typedCall spelling name args verb := by
  simp only [call, Method.ofName_field hv hne hf, methodField, Except.ok_bind]
  cases verb with
  | condition op => simp [typedCall, filterBy, filter, Operator.ofName_eq_ok hv, addCondition_name hs hf]
  | asc | desc => exact sortBy_name hs hf _ args
  | select =>
    obtain rfl := hargs rfl
    exact select_name hs hw hf

/-- A field is chosen by its name alone. -/
theorem call_select_field (hv : (spelling, Verb.select) ∈ Verb.spellings) {name : String} (hne : name ≠ "")
    {f : Field} (hf : q.schema.lookup? name = some f) {args : List Value} (hargs : args ≠ []) :
    q.call (spelling ++ "_" ++ name) args = .error (.invalidOperandCount "select" f.name "no" args.length) := by
  simp [call, Method.ofName_field hv hne hf, methodField, hargs]

theorem call_text (hv : (spelling, verb) ∈ Verb.spellings) (name : String) {args : List Value}
    (hargs : verb = .select → ∀ v ∈ args, v.text?.isSome) :
    q.call spelling (.text name :: args) = q.typedCall spelling name args verb := by
  simp only [call, Method.ofName_spelling q.schema hv, methodField, fieldArgument, Except.ok_bind, pure_bind]
  cases verb with
  | condition op => simp [typedCall, filterBy, filter, Operator.ofName_eq_ok hv]
  | asc | desc => rfl
  | select => simp [mapM_fieldArgument (hargs rfl), typedCall]

theorem call_select_value (hv : (spelling, Verb.select) ∈ Verb.spellings) (name : String) {args : List Value}
    (hargs : ∃ v ∈ args, v.text? = none) : ∃ fault, q.call spelling (.text name :: args) = .error fault := by
  obtain ⟨fault, hfault⟩ := mapM_fieldArgument_error (q := q) hargs
  exact ⟨fault, by simp [call, Method.ofName_spelling q.schema hv, methodField, fieldArgument, hfault]⟩

theorem callWith_field (hs : q.schema.names.Nodup) {op : Operator}
    (hv : (spelling, Verb.condition op) ∈ Verb.spellings) {name : String} (hne : name ≠ "") {f : Field}
    (hf : q.schema.lookup? name = some f) (keywords : List String) :
    q.callWith (spelling ++ "_" ++ name) keywords = q.filterDate spelling name keywords := by
  simp [callWith, Method.ofName_field hv hne hf, filterDate, Operator.ofName_eq_ok hv,
    filterParts_name hs hf]

end

/-- **Pseudo-methods do what the typed calls do.** On a schema whose fields have
different names, none of them the wildcard's: a verb's spelling before a
declared field's name calls what the verb stands for on that field, with the
same outcome, a new query or a fault; a bare spelling takes the field, declared
or not, from its first argument. `select` takes no argument but names of fields,
and none if its own name has one. With `field` in the field's place the name
says as much as the bare spelling, unless a field is called so; without any
argument both fail, each with its own name in the fault. -/
theorem call_typed (q : Query) (hs : q.schema.names.Nodup) (hw : Projection.everything ∉ q.schema.names)
    {spelling : String} {verb : Verb} (hv : (spelling, verb) ∈ Verb.spellings) (name : String)
    (args : List Value) (keywords : List String) :
    (name ≠ "" → q.schema.declares name →
      ((verb = .select → args = []) →
        q.call (spelling ++ "_" ++ name) args = q.typedCall spelling name args verb) ∧
      (verb = .select → args ≠ [] → ∃ fault, q.call (spelling ++ "_" ++ name) args = .error fault) ∧
      (∀ op, verb = .condition op →
        q.callWith (spelling ++ "_" ++ name) keywords = q.filterDate spelling name keywords)) ∧
    ((verb = .select → ∀ v ∈ args, v.text?.isSome) →
      q.call spelling (.text name :: args) = q.typedCall spelling name args verb) ∧
    (verb = .select → (∃ v ∈ args, v.text? = none) →
      ∃ fault, q.call spelling (.text name :: args) = .error fault) ∧
    ("field" ∉ q.schema.names →
      (args ≠ [] → q.call (spelling ++ "_field") args = q.call spelling args) ∧
      q.call (spelling ++ "_field") [] = .error (.unknownField q.schema.table (spelling ++ "_field")) ∧
      q.call spelling [] = .error (.unknownField q.schema.table spelling)) := by
  refine ⟨fun hne hd => ?_, fun h => call_text hv name h, fun hsel h => ?_, fun hfield => ?_⟩
  · obtain ⟨f, hf⟩ := Option.isSome_iff_exists.1 hd
    refine ⟨fun h => call_field hs hw hv hne hf h, fun hsel h => ?_, fun op hop => ?_⟩
    · subst hsel
      exact ⟨_, call_select_field hv hne hf h⟩
    · subst hop
      exact callWith_field hs hv hne hf keywords
  · subst hsel
    exact call_select_value hv name h
  · have hexplicit := Method.ofName_explicit hv hfield
    have hbare := Method.ofName_spelling q.schema hv
    exact ⟨fun h => call_eq_of_ofName hexplicit hbare h, call_nil hexplicit, call_nil hbare⟩

/-- A field whose name starts with a verb is found under another verb, and not
its own verb's. -/
theorem call_typed_nested_verb :
    let s := ((Schema.ofTable "foo").declare "in_stock" .bool).declare "stock" .integer
    let q := ofSchema s .sqlite
    s.names.Nodup ∧ Projection.everything ∉ s.names ∧ ("is", Verb.condition (.compare .eq)) ∈ Verb.spellings ∧
      q.call "is_in_stock" [.bool true] = q.filterBy "is" "in_stock" [.bool true] ∧
      q.call "in_stock" [.ofInt 1] = q.filterBy "in" "stock" [.ofInt 1] ∧
      q.call "is_field" [.text "stock", .ofInt 1] = q.filterBy "is" "stock" [.ofInt 1] := by
  intro s q
  have hs : s.names.Nodup := by decide
  have hw : Projection.everything ∉ s.names := by decide
  have his : ("is", Verb.condition (.compare .eq)) ∈ Verb.spellings := by decide
  have hin : ("in", Verb.condition .among) ∈ Verb.spellings := by decide
  obtain ⟨hfield, -⟩ := call_typed q hs hw his "in_stock" [.bool true] []
  obtain ⟨hstock, -⟩ := call_typed q hs hw hin "stock" [.ofInt 1] []
  obtain ⟨-, htext, -, -⟩ := call_typed q hs hw his "stock" [.ofInt 1] []
  obtain ⟨-, -, -, hexplicit⟩ := call_typed q hs hw his "stock" [.text "stock", .ofInt 1] []
  refine ⟨hs, hw, his, (hfield (by decide) (by decide)).1 nofun, (hstock (by decide) (by decide)).1 nofun, ?_⟩
  exact ((hexplicit (by decide)).1 nofun).trans (htext nofun)

/-- Without any argument the two names of one method do not fail with the same fault. -/
theorem call_names_itself :
    let q := ofSchema (Schema.ofTable "foo") .sqlite
    q.schema.names.Nodup ∧ Projection.everything ∉ q.schema.names ∧ "field" ∉ q.schema.names ∧
      ("is", Verb.condition (.compare .eq)) ∈ Verb.spellings ∧
      q.call ("is" ++ "_field") [] = .error (.unknownField "foo" "is_field") ∧
      q.call "is" [] = .error (.unknownField "foo" "is") ∧ q.call ("is" ++ "_field") [] ≠ q.call "is" [] := by
  decide +kernel

end Query

end TableQuery

/-
What builder calls enter into the sorts, the projection and the assignments.

Each call comes to a list of entries, under the names of the fields that its
names stand for (`Edit.entries`), and does with them what entering one after the
other does (`apply_enters`); calls about other parts have none. So these three
lists are what entering all entries of all calls makes of empty ones
(`applyAll_enters`).
-/
import TableQuery.Proofs.Query.Method

namespace TableQuery

/-- The name of the field that a name stands for. -/
def Schema.ownName (s : Schema) (name : String) : String := ((s.lookup? name).map (·.name)).getD name

namespace Schema

theorem ownName_of_require {s : Schema} {name : String} {f : Field} (h : s.require name = .ok f) :
    s.ownName name = f.name := by
  rw [ownName, require_eq_ok.1 h]
  rfl

theorem ownName_of_mem_names {s : Schema} {name : String} (h : name ∈ s.names) : s.ownName name = name := by
  obtain ⟨f, hf, hname⟩ := require_of_mem_names h
  rw [ownName_of_require hf, hname]

/-- The alias of the key and the key's own name are one name. -/
theorem ownName_keyAlias {s : Schema} {key : Field} (hkey : s.key? = some key) (halias : keyAlias ∉ s.names) :
    s.ownName keyAlias = key.name := by
  have hlookup : s.lookup? keyAlias = some key := by simp only [lookup?, field?_of_not_mem halias, if_pos, hkey]
  rw [ownName, hlookup]
  rfl

end Schema

/-- One thing that is added to the sorts, the projection or the assignments. -/
inductive Entry where
  | sort (k : SortKey)
  | choose (field : String)
  | everything
  | clear
  | assign (field : String) (v : Value)
deriving DecidableEq, Repr

namespace Entry

def sorted (s : Schema) (name : String) (direction : Direction) (order : List Value) : Entry :=
  sort (.make (s.ownName name) direction order)

def chosen (s : Schema) (name : String) : Entry :=
  if name = Projection.everything then everything else choose (s.ownName name)

def assigned (s : Schema) (pair : String × Value) : Entry := assign (s.ownName pair.1) pair.2

def sort? : Entry → Option SortKey
  | sort k => some k
  | _ => none

def choice? : Entry → Option String
  | choose field => some field
  | _ => none

def assignment? : Entry → Option (String × Value)
  | assign field v => some (field, v)
  | _ => none

end Entry

/-- What a verb enters on a field. -/
def Verb.entries (s : Schema) (field : String) (args : List Value) : Verb → List Entry
  | condition _ => []
  | asc => [.sorted s field .asc args]
  | desc => [.sorted s field .desc args]
  | select => (field :: args.filterMap Value.text?).map (.chosen s)

/-- What a method enters: on its own field, or on its first argument's. -/
def Method.entries (s : Schema) (m : Method) (args : List Value) : List Entry :=
  match m.field, args with
  | some field, args => m.verb.entries s field args
  | none, .text field :: rest => m.verb.entries s field rest
  | none, _ => []

/-- What a call enters. -/
def Edit.entries (s : Schema) : Edit → List Entry
  | sortBy field direction order => [.sorted s field direction order]
  | select fields => fields.map (.chosen s)
  | selectEverything => [.everything]
  | clearSelection => [.clear]
  | assign field v => [.assigned s (field, v)]
  | assignAll fields => fields.map (.assigned s)
  | call name args =>
    match Method.ofName s name with
    | .ok m => m.entries s args
    | .error _ => []
  | filter .. | filterBy .. | filterDate .. | filterPart .. | limit _ | offset _ | page _ | raw .. | callWith .. => []

/-- The parts of a draft that calls enter into. -/
structure Gathered where
  sorts : List SortKey
  projection : Projection
  assignments : List (String × Value)

def Gathered.empty : Gathered := ⟨[], .empty, []⟩

def Gathered.enter (g : Gathered) : Entry → Gathered
  | .sort k => { g with sorts := SortKey.put g.sorts k }
  | .choose field => { g with projection := g.projection.add field }
  | .everything => { g with projection.wildcard := true }
  | .clear => { g with projection := .empty }
  | .assign field v => { g with assignments := Assignment.put g.assignments field v }

def Draft.gathered (d : Draft) : Gathered := ⟨d.sorts, d.projection, d.assignments⟩

namespace Query

/-- One query becomes the other by these entries, as far as they go. -/
structure Enters (q : Query) (entries : List Entry) (q' : Query) : Prop where
  schema : q'.schema = q.schema
  gathered : q'.draft.gathered = entries.foldl Gathered.enter q.draft.gathered

variable {q q₁ q' : Query}

theorem Enters.refl (q : Query) : Enters q [] q := ⟨rfl, rfl⟩

theorem Enters.append {entries more : List Entry} (h : Enters q entries q₁) (h' : Enters q₁ more q') :
    Enters q (entries ++ more) q' where
  schema := h'.schema.trans h.schema
  gathered := by rw [h'.gathered, h.gathered, List.foldl_append]

/-- Changes to other parts enter nothing. -/
theorem Changes.enters {part : DraftPart} (h : Changes part q q')
    (hpart : part = .conditions ∨ part = .window ∨ part = .raw) : Enters q [] q' := by
  induction h with
  | refl => exact .refl q
  | tail _ hc ih =>
    cases hc with
    | condition | limit | offset | page | raw => exact ih.append ⟨rfl, rfl⟩
    | sort | select | wildcard | clear | assign => simp at hpart

theorem sortBy_enters {field : String} {direction : Direction} {order : List Value}
    (h : q.sortBy field direction order = .ok q') : Enters q [.sorted q.schema field direction order] q' := by
  obtain ⟨f, hf, hq⟩ := Except.bind_eq_ok.1 h
  cases hq
  refine ⟨rfl, ?_⟩
  rw [Entry.sorted, Schema.ownName_of_require hf]
  rfl

theorem selectField_enters {field : String} (h : q.selectField field = .ok q') :
    Enters q [.chosen q.schema field] q' := by
  unfold selectField at h
  split at h
  · next heverything =>
    cases h
    refine ⟨rfl, ?_⟩
    rw [Entry.chosen, if_pos heverything]
    rfl
  · next hfield =>
    obtain ⟨f, hf, hq⟩ := Except.bind_eq_ok.1 h
    cases hq
    refine ⟨rfl, ?_⟩
    rw [Entry.chosen, if_neg hfield, Schema.ownName_of_require hf]
    rfl

theorem select_enters {fields : List String} (h : q.select fields = .ok q') :
    Enters q (fields.map (.chosen q.schema)) q' := by
  induction fields generalizing q with
  | nil =>
    cases h
    exact .refl _
  | cons field rest ih =>
    obtain ⟨q₁, h₁, h⟩ := Except.bind_eq_ok.1 h
    have hfirst := selectField_enters h₁
    have hrest := ih h
    rw [hfirst.schema] at hrest
    exact hfirst.append hrest

theorem assign_enters {field : String} {v : Value} (h : q.assign field v = .ok q') :
    Enters q [.assigned q.schema (field, v)] q' := by
  obtain ⟨f, hf, hq⟩ := Except.bind_eq_ok.1 h
  cases hq
  refine ⟨rfl, ?_⟩
  rw [Entry.assigned, Schema.ownName_of_require hf]
  rfl

theorem assignAll_enters {fields : List (String × Value)} (h : q.assignAll fields = .ok q') :
    Enters q (fields.map (.assigned q.schema)) q' := by
  induction fields generalizing q with
  | nil =>
    cases h
    exact .refl _
  | cons pair rest ih =>
    obtain ⟨q₁, h₁, h⟩ := Except.bind_eq_ok.1 h
    have hfirst := assign_enters h₁
    have hrest := ih h
    rw [hfirst.schema] at hrest
    exact hfirst.append hrest

/-- A pseudo-method enters what its verb does on its field. -/
theorem call_enters {name : String} {args : List Value} (h : q.call name args = .ok q') :
    Enters q ((Edit.call name args).entries q.schema) q' := by
  obtain ⟨⟨verb, place⟩, hm, h⟩ := Except.bind_eq_ok.1 h
  obtain ⟨⟨field, rest⟩, hfield, h⟩ := Except.bind_eq_ok.1 h
  have hentries : (Edit.call name args).entries q.schema = verb.entries q.schema field rest := by
    simp only [Edit.entries, hm, Method.entries]
    cases place with
    | some own =>
      cases hfield
      rfl
    | none =>
      obtain rfl := methodField_eq_ok hfield
      rfl
  rw [hentries]
  cases verb with
  | condition op => exact (addCondition_change h).changes.enters (.inl rfl)
  | asc | desc => exact sortBy_enters h
  | select =>
    cases place with
    | none =>
      change (rest.mapM q.fieldArgument >>= fun names => q.select (field :: names)) = .ok q' at h
      obtain ⟨names, hnames, hselect⟩ := Except.bind_eq_ok.1 h
      obtain rfl := eq_of_mapM_fieldArgument hnames
      exact select_enters hselect
    | some own =>
      change (if rest ≠ [] then .error (.invalidOperandCount "select" field "no" rest.length) else q.select [field]) =
        .ok q' at h
      split at h
      · cases h
      · next hrest =>
        obtain rfl : rest = [] := not_not.1 hrest
        exact select_enters h

/-- **A call enters its entries**, and nothing else, into the sorts, the
projection and the assignments. -/
theorem apply_enters {e : Edit} (h : q.apply e = .ok q') : Enters q (e.entries q.schema) q' := by
  cases e with
  | filter | filterPart => exact (addCondition_change h).changes.enters (.inl rfl)
  | filterBy =>
    obtain ⟨op, -, h⟩ := Except.bind_eq_ok.1 h
    exact (addCondition_change h).changes.enters (.inl rfl)
  | filterDate => exact (filterDate_changes h).enters (.inl rfl)
  | sortBy => exact sortBy_enters h
  | select => exact select_enters h
  | selectEverything | clearSelection =>
    cases h
    exact ⟨rfl, rfl⟩
  | limit => exact (limit_change h).changes.enters (.inr (.inl rfl))
  | offset n =>
    cases h
    exact (Change.offset n).changes.enters (.inr (.inl rfl))
  | page => exact (page_change h).changes.enters (.inr (.inl rfl))
  | raw sql params =>
    cases h
    exact (Change.raw ⟨sql, params⟩).changes.enters (.inr (.inr rfl))
  | assign => exact assign_enters h
  | assignAll => exact assignAll_enters h
  | call => exact call_enters h
  | callWith => exact (callWith_changes h).enters (.inl rfl)

/-- **Calls enter all their entries**, one call after the other. -/
theorem applyAll_enters {edits : List Edit} (h : q.applyAll edits = .ok q') :
    Enters q (edits.flatMap (Edit.entries q.schema)) q' := by
  induction edits generalizing q with
  | nil =>
    cases h
    exact .refl _
  | cons e rest ih =>
    obtain ⟨q₁, h₁, h⟩ := Except.bind_eq_ok.1 h
    have hfirst := apply_enters h₁
    have hrest := ih h
    rw [hfirst.schema] at hrest
    exact hfirst.append hrest

end Query

end TableQuery

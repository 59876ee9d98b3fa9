/-
A pseudo-method's name has one split at most, so the verbs may be tried in any
order (`Method.single_split`).

The verbs are tried longest first, as if one name could be read in two ways. No
spelling has an underscore, so the rest of a name after a verb and an underscore
is always what follows the first one: `gte_x` starts with `gt`, but goes on
with `e`. A list of one split at most has nothing to sort and nothing to prefer.
-/
import TableQuery.Proofs.Query.Method

namespace TableQuery

open Text

/-! ## Lists with a key -/

section

variable {α κ : Type} [DecidableEq κ] {key : α → κ} {entries others : List α}

theorem find?_key_eq_some_iff (hn : (entries.map key).Nodup) {k : κ} {e : α} :
    entries.find? (key · = k) = some e ↔ e ∈ entries ∧ key e = k := by
  constructor
  · intro h
    exact ⟨List.mem_of_find?_eq_some h, of_decide_eq_true (List.find?_some h :)⟩
  · rintro ⟨he, rfl⟩
    cases hfind : entries.find? (key · = key e) with
    | none =>
      rw [List.find?_eq_none] at hfind
      exact absurd (decide_eq_true rfl) (hfind e he)
    | some e' =>
      have hkey : key e' = key e := of_decide_eq_true (List.find?_some hfind :)
      rw [List.inj_on_of_nodup_map hn (List.mem_of_find?_eq_some hfind) he hkey]

/-- What a list has to a key does not depend on its order, if it has each key once. -/
theorem find?_key_of_perm (h : entries.Perm others) (hn : (others.map key).Nodup) (k : κ) :
    entries.find? (key · = k) = others.find? (key · = k) := by
  have hn' : (entries.map key).Nodup := (h.map key).nodup_iff.2 hn
  apply Option.ext
  intro e
  rw [find?_key_eq_some_iff hn', find?_key_eq_some_iff hn, h.mem_iff]

end

namespace Method

/-! ## The search for a split -/

/-- The splits of a name by the verbs of a vocabulary, in its order. -/
def found (vocabulary : List (String × Verb)) (name : List Char) : List (List Char × Verb) :=
  vocabulary.filterMap fun (spelling, verb) => (rest? spelling name).map fun rest => (rest, verb)

/-- What is made of some splits: the first whose rest is a field, else the first
that leaves the field to an argument, else the fault of the first. -/
def ofSplits (s : Schema) (name : String) : List (List Char × Verb) → Except Fault Method
  | [] => .error (.invalidOperator name)
  | first :: more =>
    let named := (first :: more).findSome? fun (rest, verb) =>
      (s.lookup? (String.ofList rest)).map fun f => Method.mk verb (some f.name)
    match named with
    | some m => .ok m
    | none =>
      match (first :: more).find? (·.1 = explicitRest) with
      | some (_, verb) => .ok ⟨verb, none⟩
      | none => .error (.unknownField s.table (String.ofList first.1))

/-- Reads a name by a vocabulary, whose splits are tried in the order that
`arrange` puts them in. -/
def search (vocabulary : List (String × Verb)) (arrange : List (List Char × Verb) → List (List Char × Verb))
    (s : Schema) (name : String) : Except Fault Method :=
  match (vocabulary.find? (·.1 = name)).map (·.2) with
  | some verb => .ok ⟨verb, none⟩
  | none => ofSplits s name (arrange (found vocabulary name.toList))

theorem ofName_eq_search (s : Schema) (name : String) :
    ofName s name = search Verb.spellings (·.mergeSort fun a b => a.1.length ≤ b.1.length) s name := by
  unfold ofName search ofSplits
  rfl

/-! ## One split at most -/

theorem length_splits_le (name : List Char) : (splits name).length ≤ 1 := by
  by_cases h : '_' ∈ name
  · obtain ⟨lead, rest, rfl, hl⟩ := List.eq_append_cons_of_mem h
    rw [splits_append hl]
    split
    · simp
    · cases Verb.ofName? (String.ofList lead) <;> simp
  · simp [splits_of_not_mem h]

/-- In whatever order, by a vocabulary in whatever order, the splits are the same. -/
theorem arranged_eq_splits {vocabulary : List (String × Verb)} (hv : vocabulary.Perm Verb.spellings)
    {arrange : List (List Char × Verb) → List (List Char × Verb)} (ha : ∀ l, (arrange l).Perm l) (name : List Char) :
    arrange (found vocabulary name) = splits name := by
  have hsorted : (splits name).Perm (found Verb.spellings name) := List.mergeSort_perm _ _
  have hperm : (arrange (found vocabulary name)).Perm (splits name) :=
    (ha _).trans ((hv.filterMap _).trans hsorted.symm)
  have hlength := length_splits_le name
  cases h : splits name with
  | nil =>
    rw [h] at hperm
    exact hperm.eq_nil
  | cons split more =>
    rw [h] at hperm hlength
    obtain rfl : more = [] := List.eq_nil_of_length_eq_zero (by simpa using hlength)
    exact List.perm_singleton.1 hperm

/-- A name is a spelling, an underscore and a rest in one way only. -/
theorem split_unique {e e' : String × Verb} (he : e ∈ Verb.spellings) (he' : e' ∈ Verb.spellings)
    {rest rest' : String} (h : e.1 ++ "_" ++ rest = e'.1 ++ "_" ++ rest') : e = e' ∧ rest = rest' := by
  have hcut : splitOnce? '_' (e.1 ++ "_" ++ rest).toList = splitOnce? '_' (e'.1 ++ "_" ++ rest').toList := by rw [h]
  have hlead : '_' ∉ e.1.toList := Verb.not_mem_underscore he
  have hlead' : '_' ∉ e'.1.toList := Verb.not_mem_underscore he'
  rw [toList_joined, toList_joined, splitOnce?_append hlead, splitOnce?_append hlead'] at hcut
  simp only [Option.some.injEq, Prod.mk.injEq, String.toList_inj] at hcut
  exact ⟨List.inj_on_of_nodup_map Verb.nodup_spellings he he' hcut.1, hcut.2⟩

/-- What a name asks for, if only its first underscore is looked at. -/
def atFirstUnderscore (s : Schema) (name : String) : Except Fault Method :=
  match Verb.ofName? name with
  | some verb => .ok ⟨verb, none⟩
  | none =>
    match splitOnce? '_' name.toList with
    | some (lead, rest) => ofParts s name lead rest
    | none => .error (.invalidOperator name)

theorem ofName_eq_atFirstUnderscore (s : Schema) (name : String) : ofName s name = atFirstUnderscore s name := by
  by_cases hmem : '_' ∈ name.toList
  · obtain ⟨lead, rest, hname, hl⟩ := List.eq_append_cons_of_mem hmem
    rw [ofName_append s hname hl]
    simp only [atFirstUnderscore, Verb.ofName?_of_mem_underscore hmem, hname, splitOnce?_append hl]
  · cases hverb : Verb.ofName? name <;>
      simp only [ofName_of_not_mem s hmem, atFirstUnderscore, splitOnce?_of_not_mem hmem, hverb]

/-- **A name is read at its first underscore, whatever is tried first.** Of every
name on every schema:

* a verb's spelling asks for this verb, and leaves the field to an argument; any
  other name asks for the verb before its first underscore and the field whose
  name follows, or for no field behind which `field` follows; without a verb
  before it or a rest after it, the operator is invalid, and otherwise the field
  unknown by that rest;
* it is a spelling, an underscore and a rest in one way at most, and so has one
  split at most;
* the verbs can be listed in any order, and the splits tried in any other. -/
theorem single_split (s : Schema) (name : String) :
    ofName s name = atFirstUnderscore s name ∧
    (∀ e ∈ Verb.spellings, ∀ e' ∈ Verb.spellings, ∀ rest rest', name = e.1 ++ "_" ++ rest →
      name = e'.1 ++ "_" ++ rest' → e = e' ∧ rest = rest') ∧
    (splits name.toList).length ≤ 1 ∧
    ∀ vocabulary arrange, vocabulary.Perm Verb.spellings → (∀ l, (arrange l).Perm l) →
      search vocabulary arrange s name = ofName s name := by
  refine ⟨ofName_eq_atFirstUnderscore s name, ?_, length_splits_le _, ?_⟩
  · rintro e he e' he' rest rest' rfl h
    exact split_unique he he' h
  · intro vocabulary arrange hv ha
    rw [ofName_eq_search]
    unfold search
    rw [find?_key_of_perm hv Verb.nodup_spellings, arranged_eq_splits hv ha]
    rfl

/-- Read with the shortest verb first and the list of verbs from behind: fields
that start with a verb or an underscore, one called as the key's alias, and one
called `field`. -/
theorem single_split_reversed :
    let s : Schema := ⟨"t", [⟨"_id", .integer, true⟩, ⟨"in_stock", .bool, false⟩, ⟨"stock", .integer, false⟩,
      ⟨"pk", .text, false⟩, ⟨"field", .text, false⟩]⟩
    let read := search Verb.spellings.reverse List.reverse s
    (∀ l : List (List Char × Verb), l.reverse.Perm l) ∧ Verb.spellings.reverse.Perm Verb.spellings ∧
      (∀ e ∈ Verb.spellings, ∀ rest, "gte__id" = e.1 ++ "_" ++ rest →
        e = ("gte", .condition (.compare .gte)) ∧ rest = "_id") ∧
      read "is_in_stock" = .ok ⟨.condition (.compare .eq), some "in_stock"⟩ ∧
      read "in_stock" = .ok ⟨.condition .among, some "stock"⟩ ∧
      read "gte__id" = .ok ⟨.condition (.compare .gte), some "_id"⟩ ∧
      read "desc_pk" = .ok ⟨.desc, some "pk"⟩ ∧ read "asc_field" = .ok ⟨.asc, some "field"⟩ ∧
      read "gt_e" = .error (.unknownField "t" "e") ∧ read "in_" = .error (.invalidOperator "in_") := by
  intro s read
  have hread : ∀ name, read name = atFirstUnderscore s name := by
    intro name
    obtain ⟨hfirst, -, -, hany⟩ := single_split s name
    exact (hany _ _ (List.reverse_perm _) (fun l => List.reverse_perm l)).trans hfirst
  obtain ⟨-, hunique, -⟩ := single_split s "gte__id"
  refine ⟨fun l => List.reverse_perm l, List.reverse_perm _,
    fun e he rest h => hunique e he _ (by decide) rest "_id" h rfl, ?_, ?_, ?_, ?_, ?_, ?_, ?_⟩
  all_goals
    rw [hread]
    decide

end Method

end TableQuery

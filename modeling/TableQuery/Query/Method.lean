/-
Pseudo-methods: names made of a verb, `_` and a field, such as `gte_age`.

The verbs are tried longest first, and a split counts only when its rest
names a field, so a field whose own name starts with a verb is still found.
A bare verb, and a verb followed by `_field`, leave the field to the
arguments of the call.
-/
import TableQuery.Query.Verb
import TableQuery.Schema
import TableQuery.Text.Blank

namespace TableQuery

open Text

/-- What a pseudo-method asks for; without a field, the call's arguments
name it. -/
structure Method where
  verb : Verb
  field : Option String
deriving DecidableEq, Repr

namespace Method

/-- The rest of a name after a verb's spelling and `_`, unless nothing is left. -/
def rest? (spelling : String) (name : List Char) : Option (List Char) :=
  match after? spelling.toList name with
  | some ('_' :: c :: cs) => some (c :: cs)
  | _ => none

/-- Every way to split a name, the longest verb first. -/
def splits (name : List Char) : List (List Char × Verb) :=
  let found := Verb.spellings.filterMap fun (spelling, verb) =>
    (rest? spelling name).map fun rest => (rest, verb)
  found.mergeSort fun a b => a.1.length ≤ b.1.length

/-- The rest that marks the form whose field is an argument. -/
def explicitRest : List Char := "field".toList

/-- What `name` asks for on a schema. -/
def ofName (s : Schema) (name : String) : Except Fault Method :=
  match Verb.ofName? name with
  | some verb => .ok ⟨verb, none⟩
  | none =>
    match splits name.toList with
    | [] => .error (.invalidOperator name)
    | first :: more =>
      let named := (first :: more).findSome? fun (rest, verb) =>
        (s.lookup? (String.ofList rest)).map fun f => Method.mk verb (some f.name)
      match named with
      | some m => .ok m
      | none =>
        match (first :: more).find? (·.1 = explicitRest) with
        | some (_, verb) => .ok ⟨verb, none⟩
        | none => .error (.unknownField s.table (String.ofList first.1))

end Method

end TableQuery

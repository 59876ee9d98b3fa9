/-
The parameters of a fragment and the placeholders in its text.

What binds a value writes one placeholder in its place, so a fragment's text
has as many placeholders as it has parameters, numbered from the left
(`filter_isPlaceholder_lexemes`). With every placeholder numbered, the two
dialects read the same (`numbered_lexemesFrom`).
-/
import TableQuery.Proofs.Sql.Reading
import TableQuery.Sql.Binding

namespace TableQuery

@[simp]
theorem Piece.isPlaceholder_lexeme (p : Piece) (d : Dialect) (index : Nat) :
    (p.lexeme d index).isPlaceholder = p.param?.isSome := by
  cases p with
  | symbol s =>
    rw [lexeme]
    split <;> rfl
  | raw text =>
    rw [lexeme]
    unfold rawLexeme
    split <;> rfl
  | _ => rfl

namespace Fragment

/-! ## Parameters -/

@[simp] theorem params_nil : params [] = [] := rfl

@[simp] theorem params_cons (p : Piece) (f : Fragment) :
    params (p :: f) = p.param?.toList ++ params f := by
  cases p <;> rfl

theorem length_params_cons (p : Piece) (f : Fragment) :
    (params (p :: f)).length = p.arity + (params f).length := by
  rw [params_cons, List.length_append]
  cases p <;> rfl

@[simp] theorem params_append (f g : Fragment) : params (f ++ g) = params f ++ params g :=
  List.filterMap_append

@[simp] theorem params_separated (sep : Symbol) (fs : List Fragment) :
    params (separated sep fs) = fs.flatMap params := by
  cases fs with
  | nil => rfl
  | cons f fs =>
    have hrest : params (fs.flatMap (.symbol sep :: ·)) = fs.flatMap params := List.filterMap_flatMap
    rw [separated_cons, params_append, hrest, List.flatMap_cons]

@[simp] theorem params_enclosed (f : Fragment) : params (enclosed f) = params f := by
  simp [enclosed]

@[simp] theorem params_call (name : String) (args : Fragment) : params (call name args) = params args := by
  simp [call]

@[simp] theorem params_nameList (names : List String) : params (nameList names) = [] := by
  simp [nameList, List.flatMap_map]

@[simp] theorem params_placeholderList (vs : List Value) : params (placeholderList vs) = vs := by
  simp [placeholderList, List.flatMap_map]

@[simp] theorem params_assignments (pairs : List (String × Value)) :
    params (assignments pairs) = pairs.map (·.2) := by
  simp [assignments, List.flatMap_map, ← List.map_eq_flatMap]

/-! ## Placeholders -/

@[simp]
theorem length_lexemesFrom (d : Dialect) (count : Nat) (f : Fragment) :
    (f.lexemesFrom d count).length = f.length := by
  induction f generalizing count with
  | nil => rfl
  | cons p f ih => rw [lexemesFrom, List.length_cons, List.length_cons, ih]

/-- The lexeme of each piece stands at the piece's place, and a placeholder is
numbered by those before it. -/
theorem getElem?_lexemesFrom (d : Dialect) (count : Nat) (f : Fragment) (i : Nat) :
    (f.lexemesFrom d count)[i]? =
      f[i]?.map fun p => p.lexeme d (count + (params (f.take i)).length + 1) := by
  induction f generalizing count i with
  | nil => rfl
  | cons p f ih =>
    cases i with
    | zero => rfl
    | succ i =>
      rw [lexemesFrom, List.getElem?_cons_succ, ih, List.getElem?_cons_succ, List.take_succ_cons,
        length_params_cons, Nat.add_assoc count]

@[simp]
theorem lexemesFrom_append (d : Dialect) (count : Nat) (f g : Fragment) :
    lexemesFrom d count (f ++ g) =
      lexemesFrom d count f ++ lexemesFrom d (count + f.params.length) g := by
  induction f generalizing count with
  | nil => rfl
  | cons p f ih =>
    rw [List.cons_append, lexemesFrom, ih, length_params_cons, ← Nat.add_assoc]
    rfl

theorem mem_lexemesFrom {d : Dialect} {count : Nat} {f : Fragment} {l : Lexeme}
    (h : l ∈ lexemesFrom d count f) : ∃ p ∈ f, ∃ index, l = p.lexeme d index := by
  induction f generalizing count with
  | nil => cases h
  | cons p f ih =>
    rw [lexemesFrom] at h
    rcases List.mem_cons.1 h with rfl | h
    · exact ⟨p, by simp, _, rfl⟩
    · obtain ⟨q, hq, he⟩ := ih h
      exact ⟨q, by simp [hq], he⟩

/-- With its placeholders numbered, the text of a fragment reads as it does
in the dialect that numbers them. -/
@[simp]
theorem numbered_lexemesFrom (d : Dialect) (count : Nat) (f : Fragment) :
    Lexeme.numbered count (f.lexemesFrom d count) = f.lexemesFrom .postgresql count := by
  induction f generalizing count with
  | nil => rfl
  | cons p f ih =>
    rw [lexemesFrom, lexemesFrom, ← ih]
    cases p with
    | param v => cases d <;> rfl
    | _ => exact Lexeme.numbered_cons (Piece.isPlaceholder_lexeme _ d (count + 1)) _ _

end Fragment

end TableQuery

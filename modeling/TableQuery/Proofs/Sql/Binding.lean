/-
Written lists of assignments, names and placeholders, as a reader of bindings
takes them: each column of `"column" = $n` gets the parameter of its place
(`settings?_assignments`), and so does each of a list of names that a list of
as many placeholders follows (`insertions?_lists`).
-/
import TableQuery.Proofs.Sql.Parameters

namespace TableQuery

namespace Fragment

/-- Single pieces with a symbol between each two read as their lexemes with
that symbol's between. -/
theorem lexemesFrom_separated (d : Dialect) (count : Nat) (sep : Symbol) (ps : List Piece) :
    lexemesFrom d count (separated sep (ps.map fun p => [p])) =
      (lexemesFrom d count ps).intersperse ((Piece.symbol sep).lexeme d 0) := by
  induction ps generalizing count with
  | nil => rfl
  | cons p ps ih =>
    cases ps with
    | nil => rfl
    | cons q ps =>
      show p.lexeme d (count + 1) :: (Piece.symbol sep).lexeme d 0 ::
        lexemesFrom d (count + p.arity) (separated sep ((q :: ps).map fun p => [p])) = _
      rw [ih]
      rfl

@[simp]
theorem lexemesFrom_names (d : Dialect) (count : Nat) (names : List String) :
    lexemesFrom d count (names.map .ident) = names.map fun name => .ident name.toList := by
  induction names generalizing count with
  | nil => rfl
  | cons name names ih =>
    rw [List.map_cons, lexemesFrom, ih]
    rfl

@[simp]
theorem lexemesFrom_params (count : Nat) (vs : List Value) :
    lexemesFrom .postgresql count (vs.map .param) =
      (List.range' (count + 1) vs.length).map fun n => .placeholder (some n) := by
  induction vs generalizing count with
  | nil => rfl
  | cons v vs ih =>
    rw [List.map_cons, lexemesFrom, ih]
    rfl

@[simp]
theorem lexemesFrom_nameList (d : Dialect) (count : Nat) (names : List String) :
    lexemesFrom d count (nameList names) =
      (names.map fun name => .ident name.toList).intersperse (.sign .comma) := by
  have := lexemesFrom_separated d count .comma (names.map .ident)
  rwa [lexemesFrom_names, List.map_map] at this

@[simp]
theorem lexemesFrom_placeholderList (count : Nat) (vs : List Value) :
    lexemesFrom .postgresql count (placeholderList vs) =
      ((List.range' (count + 1) vs.length).map fun n => .placeholder (some n)).intersperse (.sign .comma) := by
  have := lexemesFrom_separated .postgresql count .comma (vs.map .param)
  rwa [lexemesFrom_params, List.map_map] at this

end Fragment

namespace Binding

open Fragment

/-- What no comma follows is the last setting. -/
theorem settings?_last (c : List Char) (n : Nat) {rest : List Lexeme}
    (hr : rest.head? ≠ some (.sign .comma)) :
    settings? (.ident c :: .sign .eq :: .placeholder (some n) :: rest) = some [(c, n)] := by
  rw [settings?]
  rintro ls rfl
  exact hr rfl

/-- Each column of written assignments gets the parameter of its place. -/
theorem settings?_assignments {pairs : List (String × Value)} (hne : pairs ≠ []) (count : Nat)
    {rest : List Lexeme} (hr : rest.head? ≠ some (.sign .comma)) :
    settings? (lexemesFrom .postgresql count (assignments pairs) ++ rest) =
      some ((pairs.zipIdx (count + 1)).map fun (pair, n) => (pair.1.toList, n)) := by
  induction pairs generalizing count with
  | nil => exact absurd rfl hne
  | cons pair pairs ih =>
    cases pairs with
    | nil => exact settings?_last pair.1.toList (count + 1) hr
    | cons next pairs =>
      have ih := ih (by simp) (count + 1)
      show settings? (.ident pair.1.toList :: .sign .eq :: .placeholder (some (count + 1)) ::
        .sign .comma :: (lexemesFrom .postgresql (count + 1) (assignments (next :: pairs)) ++ rest)) = _
      rw [settings?, ih]
      rfl

/-- A list between commas is read to its end. -/
theorem listed?_intersperse {α : Type} {item? : Lexeme → Option α} {ls : List Lexeme} {as : List α}
    (hne : ls ≠ []) (hitems : ls.map item? = as.map some) (rest : List Lexeme) :
    listed? item? (ls.intersperse (.sign .comma) ++ .sign .rparen :: rest) = some (as, rest) := by
  induction ls generalizing as with
  | nil => exact absurd rfl hne
  | cons l ls ih =>
    cases as with
    | nil => cases hitems
    | cons a as =>
      obtain ⟨ha, hitems⟩ := List.cons.inj hitems
      cases ls with
      | nil =>
        cases as with
        | nil =>
          show listed? item? (l :: .sign .rparen :: rest) = _
          rw [listed?, ha]
          rfl
        | cons => cases hitems
      | cons m ls =>
        show listed? item? (l :: .sign .comma :: ((m :: ls).intersperse (.sign .comma) ++ .sign .rparen :: rest)) = _
        rw [listed?, ha, ih (by simp) hitems]
        rfl

/-- Each name of a list gets the parameter of its place in the list of placeholders. -/
theorem insertions?_lists {pairs : List (String × Value)} (hne : pairs ≠ []) (rest : List Lexeme) :
    insertions? (lexemesFrom .postgresql 0 (nameList (pairs.map (·.1))) ++
        .sign .rparen :: .word Symbol.VALUES.text.toList :: .sign .lparen ::
          (lexemesFrom .postgresql 0 (placeholderList (pairs.map (·.2))) ++ .sign .rparen :: rest)) =
      some ((pairs.zipIdx 1).map fun (pair, n) => (pair.1.toList, n)) := by
  have hcolumns : ∀ more, listed? column?
      (((pairs.map (·.1)).map fun name => .ident name.toList).intersperse (.sign .comma) ++
        .sign .rparen :: more) = some (pairs.map fun pair => pair.1.toList, more) :=
    listed?_intersperse (by simpa using hne) (by simp only [List.map_map]; rfl)
  have hnumbers : listed? number?
      (((List.range' 1 pairs.length).map fun n => .placeholder (some n)).intersperse (.sign .comma) ++
        .sign .rparen :: rest) = some (List.range' 1 pairs.length, rest) :=
    listed?_intersperse (by simpa using hne) (by simp only [List.map_map]; rfl) rest
  have hzip : (pairs.map fun pair => pair.1.toList).zip (List.range' 1 pairs.length) =
      (pairs.zipIdx 1).map fun (pair, n) => (pair.1.toList, n) := by
    rw [List.zipIdx_eq_zip_range', List.zip_map_left]
    rfl
  rw [lexemesFrom_nameList, lexemesFrom_placeholderList, List.length_map, insertions?, hcolumns]
  dsimp only
  rw [hnumbers]
  dsimp only
  rw [if_pos ⟨rfl, by simp⟩, hzip]

end Binding

end TableQuery

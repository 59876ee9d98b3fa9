/-
The columns of a query, as they are read off its selections
(`columns?_fragment`).

Between `SELECT` and the first `FROM` stand names between commas, or a star for
every column that there is. There is no comma in a name, nor `FROM` among the
columns, so a reader finds their end and takes them apart.
-/
import TableQuery.Proofs.SameRows

namespace TableQuery

/-! ## Reading columns -/

inductive ColumnList where
  | everything
  | named (names : List (List Char))
deriving DecidableEq, Repr

namespace ColumnList

/-- Reads a name that stands alone. -/
def name? : List Term → Option (List Char)
  | [.lexeme (.ident name)] => some name
  | _ => none

def read? (ts : List Term) : Option ColumnList :=
  if ts = [.lexeme (.sign .star)] then some everything
  else ((ts.splitOn (.lexeme (.sign .comma))).mapM name?).map named

def ofTerms? : List Term → Option ColumnList
  | word :: ts => if word = .word .SELECT then read? (ts.takeWhile (· ≠ .word .FROM)) else none
  | [] => none

end ColumnList

/-- The columns that a statement asks to read. -/
def Statement.columns? (s : Statement) : Option ColumnList := s.terms?.bind ColumnList.ofTerms?

namespace ColumnList

theorem read?_nameList {names : List String} (hne : names ≠ []) :
    read? ((Fragment.nameList names).map Piece.term) = some (named (names.map String.toList)) := by
  have hnames : ∀ f ∈ names.map Fragment.ident, (∀ p ∈ f, p.isProper) ∧ .symbol .comma ∉ f := by
    intro f hf
    obtain ⟨name, -, rfl⟩ := List.mem_map.1 hf
    simp [Piece.isProper]
  have hsplit := Fragment.splitOn_map_separated (by simpa using hne) hnames
  have hstar : (Fragment.nameList names).map Piece.term ≠ [.lexeme (.sign .star)] := by
    obtain ⟨name, rest, rfl⟩ := List.exists_cons_of_ne_nil hne
    cases rest with
    | nil => simp [Fragment.nameList, Fragment.separated, Piece.term, Piece.lexeme]
    | cons other rest => simp [Fragment.nameList, Fragment.separated]
  have hname : (name? ∘ List.map Piece.term) ∘ Fragment.ident = fun name => pure name.toList := rfl
  rw [read?, if_neg hstar]
  refine (congrArg (fun parts => (List.mapM name? parts).map named) hsplit).trans ?_
  rw [List.mapM_map, List.mapM_map, hname, List.mapM_pure]
  rfl

end ColumnList

namespace Query

open Fragment

/-- The columns that a query reads, to a reader: every one by the wildcard, else
the chosen ones, else those that are declared, if any are. -/
def readColumns (q : Query) : ColumnList :=
  let named := fun names : List String => ColumnList.named (names.map String.toList)
  if q.draft.projection.wildcard then .everything
  else if q.draft.projection.fields ≠ [] then named q.draft.projection.fields
  else if q.schema.names ≠ [] then named q.schema.names
  else .everything

theorem read?_columns (q : Query) : ColumnList.read? (q.columns.map Piece.term) = some q.readColumns := by
  unfold columns readColumns
  split
  · rfl
  · cases hchosen : q.draft.projection.fields with
    | nil =>
      cases hdeclared : q.schema.names with
      | nil => rfl
      | cons name rest => exact ColumnList.read?_nameList (List.cons_ne_nil name rest)
    | cons name rest => exact ColumnList.read?_nameList (List.cons_ne_nil name rest)

/-- **The columns that a selection's text asks for** are those of its query. -/
theorem columns?_fragment (q : Query) (e : Extent) :
    ((q.fragment (.selection e)).statement q.dialect).columns? = some q.readColumns := by
  have hparts : q.fragment (.selection e) =
      .symbol .SELECT :: (q.columns ++ .symbol .FROM :: (q.table ++ q.conditions ++ q.order ++ q.range e)) := by
    simp [fragment, selectFragment]
  have hproper : ∀ p ∈ q.columns, p.isProper := by
    intro p hp
    refine q.isProper_fragment (.selection e) p ?_
    rw [hparts]
    exact List.mem_cons_of_mem _ (List.mem_append_left _ hp)
  have hstay : ∀ t ∈ q.columns.map Piece.term, decide (t ≠ .word .FROM) = true := by
    intro t ht
    rw [decide_eq_true_eq]
    rintro rfl
    exact word_not_mem_map_term (s := .FROM) hproper rfl (q.not_mem_columns (by decide) (by decide)) ht
  rw [Statement.columns?, terms?_statement q.dialect (q.isPlain_fragment _), Option.bind_some, hparts, List.map_cons,
    List.map_append, List.map_cons, Piece.term_symbol rfl, Piece.term_symbol rfl, ColumnList.ofTerms?, if_pos rfl,
    List.takeWhile_append_of_pos hstay, List.takeWhile_cons_of_neg (by simp), List.append_nil, q.read?_columns]

end Query

end TableQuery

/-
The order of a query's rows, as it is read off its selections
(`order?_fragment`).

A sort is written as its key and its direction: the column, or a `CASE` that
gives each value of a list its place and all others the list's length. There is
no comma in a key, and only a sort says `ORDER`.
-/
import TableQuery.Proofs.Query.Parts
import TableQuery.Sql.RowOrder

namespace TableQuery

namespace SimpleCase

theorem readBranches?_when (v : Value) (n : Int) (ts : List Term) :
    readBranches? (.word .WHEN :: .value v :: .word .THEN :: .lexeme (.integer n) :: ts) =
      (readBranches? ts).map fun (branches, otherwise) => ((v, n) :: branches, otherwise) := if_pos ⟨rfl, rfl⟩

theorem read?_case (column : List Char) (ts : List Term) :
    read? (.word .CASE :: .lexeme (.ident column) :: ts) =
      (readBranches? ts).map fun (branches, otherwise) => ⟨column, branches, otherwise⟩ := by
  rw [read?, if_pos rfl]

end SimpleCase

namespace RowOrder

theorem ofTerms?_of_not_mem {ts : List Term} (h : .word .ORDER ∉ ts) : ofTerms? ts = some [] := by
  have hskip : ∀ t ∈ ts, decide (t ≠ .word .ORDER) = true := fun t ht => decide_eq_true fun he => h (he ▸ ht)
  rw [ofTerms?, ← List.append_nil ts, List.dropWhile_append_of_pos hskip]
  rfl

/-- The keys stand between the first `ORDER BY` and the window. -/
theorem ofTerms?_map {before keys tail : Fragment} (hbefore : .word .ORDER ∉ before.map Piece.term)
    (hkeys : ∀ t ∈ keys.map Piece.term, (!ends t) = true) (htail : (tail.map Piece.term).takeWhile (!ends ·) = []) :
    ofTerms? ((before ++ (.symbol .ORDER :: .symbol .BY :: keys ++ tail)).map Piece.term) =
      ((keys.map Piece.term).splitOn (.lexeme (.sign .comma))).mapM read? := by
  have hskip : ∀ t ∈ before.map Piece.term, decide (t ≠ .word .ORDER) = true :=
    fun t ht => decide_eq_true fun he => hbefore (he ▸ ht)
  rw [ofTerms?, List.map_append, List.dropWhile_append_of_pos hskip, List.cons_append, List.cons_append, List.map_cons,
    List.map_cons, Piece.term_symbol rfl, Piece.term_symbol rfl, List.dropWhile_cons_of_neg (by simp), List.map_append]
  dsimp only
  rw [if_pos rfl, List.takeWhile_append_of_pos hkeys, htail, List.append_nil]

end RowOrder

namespace SortKey

/-- The `CASE` over a column that gives the values of a list their places. -/
def ranking (column : String) (vs : List Value) : SimpleCase :=
  ⟨column.toList, vs.zipIdx.map fun (v, i) => (v, (i : Int)), vs.length⟩

/-- A sort, to a reader. -/
def asRead (s : SortKey) : RowOrder :=
  ⟨match s.ranks with
    | none => .column s.field.toList
    | some vs => .rank (ranking s.field vs), s.direction = .desc⟩

theorem readBranches?_branches (rank : Nat) (vs : List Value) (n : Int) :
    SimpleCase.readBranches? ((branches rank vs ++ [Piece.symbol .ELSE, .number n, .symbol .END]).map Piece.term) =
      some ((vs.zipIdx rank).map fun (v, i) => (v, (i : Int)), n) := by
  induction vs generalizing rank with
  | nil => rfl
  | cons v vs ih =>
    rw [branches, List.cons_append, List.cons_append, List.cons_append, List.cons_append]
    exact (SimpleCase.readBranches?_when v rank _).trans (by rw [ih (rank + 1)]; rfl)

theorem read?_key (s : SortKey) : OrderKey.read? (s.key.map Piece.term) = some s.asRead.key := by
  unfold key asRead
  cases s.ranks with
  | none => rfl
  | some vs =>
    have hcase := SimpleCase.read?_case s.field.toList
      ((branches 0 vs ++ [Piece.symbol .ELSE, .number vs.length, .symbol .END]).map Piece.term)
    rw [readBranches?_branches] at hcase
    exact congrArg (Option.map OrderKey.rank) hcase

theorem read?_sort (s : SortKey) :
    RowOrder.read? ((s.key ++ [Piece.symbol s.direction.symbol]).map Piece.term) = some s.asRead := by
  rw [List.map_append, List.map_singleton, RowOrder.read?, List.getLast?_concat, List.dropLast_concat, s.read?_key]
  unfold asRead
  cases s.direction <;> rfl

/-- The pieces of a sort read as themselves, and there is no comma among them. -/
theorem isProper_sort (s : SortKey) :
    (∀ p ∈ s.key ++ [Piece.symbol s.direction.symbol], p.isProper) ∧
      .symbol .comma ∉ s.key ++ [Piece.symbol s.direction.symbol] := by
  constructor
  · intro p hp
    refine Piece.isProper_of_inStatement (List.all_eq_true.1 (?_ : List.all _ _) p hp)
    rw [List.all_append, Query.all_key (Piece.spans_inStatement _)]
    rfl
  · refine Fragment.not_mem_of_all_ne ?_
    rw [List.all_append, Query.all_key (Piece.spans_ne (by decide))]
    cases s.direction <;> rfl

end SortKey

namespace Query

open Fragment

theorem order_nil {q : Query} (h : q.draft.sorts = []) : q.order = [] := by
  unfold order
  rw [h]

theorem order_cons {q : Query} (h : q.draft.sorts ≠ []) :
    q.order = .symbol .ORDER :: .symbol .BY ::
      separated .comma (q.draft.sorts.map fun s => s.key ++ [.symbol s.direction.symbol]) := by
  unfold order
  split
  · next hnil => exact absurd hnil h
  · rfl

/-- A window starts with a word that ends the keys. -/
theorem takeWhile_range (q : Query) (e : Extent) : ((q.range e).map Piece.term).takeWhile (!RowOrder.ends ·) = [] := by
  unfold range
  split
  case h_3 => split <;> rfl
  all_goals rfl

theorem not_ends_of_mem_order (q : Query) : ∀ t ∈ q.order.map Piece.term, (!RowOrder.ends t) = true := by
  intro t ht
  have hproper : ∀ p ∈ q.order, p.isProper := fun p hp =>
    Piece.isProper_of_inStatement (List.all_eq_true.1 (q.all_order (Piece.spans_inStatement _)) p hp)
  have hne : ∀ s : Symbol, s.isSign = false → s ∉ orderSymbols → t ≠ .word s := fun s hs hmem he =>
    word_not_mem_map_term hproper hs (not_mem_of_all_ne (q.all_order (Piece.spans_ne hmem))) (he ▸ ht)
  simp [RowOrder.ends, hne .LIMIT rfl (by decide), hne .OFFSET rfl (by decide)]

theorem order_not_mem_before (q : Query) (e : Extent) :
    .symbol .ORDER ∉ q.beforeConditions (.selection e) ++ q.conditions := by
  have hcolumns := all_columns (P := fun p => p ≠ .symbol .ORDER) rfl rfl (fun _ => rfl) q
  have hconditions := all_conditions (Piece.spans_ne (s := .ORDER) (by decide)) q
  refine not_mem_of_all_ne ?_
  simp only [beforeConditions, List.all_append, hcolumns, hconditions]
  rfl

/-- **The order that a selection's text asks for** is that of its query's sorts. -/
theorem order?_fragment (q : Query) (e : Extent) :
    ((q.fragment (.selection e)).statement q.dialect).order? = some (q.draft.sorts.map SortKey.asRead) := by
  have hproper := q.isProper_fragment (.selection e)
  rw [Statement.order?, terms?_statement q.dialect (q.isPlain_fragment _), Option.bind_some]
  rw [q.fragment_parts (by nofun), ← List.append_assoc, afterConditions] at hproper ⊢
  have hbefore := word_not_mem_map_term (fun p hp => hproper p (List.mem_append_left _ hp)) rfl
    (q.order_not_mem_before e)
  by_cases hs : q.draft.sorts = []
  · have hrange : .symbol .ORDER ∉ q.range e := not_mem_of_all_ne (all_range rfl rfl (fun _ => rfl) q e)
    have hafter := word_not_mem_map_term (fun p hp => hproper p (by simp [hp])) rfl hrange
    have hnone := List.not_mem_append hbefore hafter
    rw [← List.map_append] at hnone
    rw [order_nil hs, List.nil_append, RowOrder.ofTerms?_of_not_mem hnone, hs]
    rfl
  · have hsorts : ∀ f ∈ q.draft.sorts.map fun s => s.key ++ [Piece.symbol s.direction.symbol],
        (∀ p ∈ f, p.isProper) ∧ .symbol .comma ∉ f := fun f hf => by
      obtain ⟨s, -, rfl⟩ := List.mem_map.1 hf
      exact s.isProper_sort
    have hsplit := splitOn_map_separated (by simpa using hs) hsorts
    have hread : (fun s : SortKey => RowOrder.read? ((s.key ++ [Piece.symbol s.direction.symbol]).map Piece.term)) =
        fun s => pure s.asRead := funext SortKey.read?_sort
    have hstay := q.not_ends_of_mem_order
    rw [order_cons hs, List.map_cons, List.map_cons] at hstay
    have hkeys := fun t ht => hstay t (List.mem_cons_of_mem _ (List.mem_cons_of_mem _ ht))
    rw [order_cons hs, RowOrder.ofTerms?_map hbefore hkeys (q.takeWhile_range e)]
    refine (congrArg (List.mapM RowOrder.read?) hsplit).trans ?_
    rw [List.mapM_map, List.mapM_map]
    exact (congrArg (List.mapM · q.draft.sorts) hread).trans List.mapM_pure

end Query

end TableQuery

/-
The pieces of a query's statements.

Names, numbers and values aside, every statement without a raw override is
made of the symbols of its kind and of texts from one short list
(`all_fragment`), which a reader takes for one lexeme each and for no symbol
(`isProper_fragment`). So only a selection has a window to read
(`window?_fragment`).
-/
import TableQuery.Proofs.Query.Window
import TableQuery.Proofs.Sql.Outline
import TableQuery.Query.Kind

namespace TableQuery

/-- The text that statements write as it is. -/
def statementTexts : List String := "count" :: "ct" :: clauseTexts

namespace Piece

/-- A piece of a statement. -/
def inStatement : Piece → Bool
  | raw text => text ∈ statementTexts
  | _ => true

theorem isProper_of_inStatement {p : Piece} (h : p.inStatement) : p.isProper := by
  cases p with
  | raw text =>
    have all : ∀ t ∈ statementTexts, (raw t).isProper := by decide
    exact all text (by simpa [inStatement] using h)
  | _ => rfl

theorem spans_inStatement (symbols : List Symbol) : Spans inStatement symbols where
  symbol _ _ := rfl
  raw _ ht := decide_eq_true (List.mem_cons_of_mem _ (List.mem_cons_of_mem _ ht))
  ident _ := rfl
  number _ := rfl
  param _ := rfl

end Piece

def selectionSymbols : List Symbol :=
  [.SELECT, .FROM, .star, .comma, .LIMIT, .OFFSET] ++ conditionSymbols ++ orderSymbols

/-- The symbols that a kind of statement is made of. -/
def StatementKind.symbols : StatementKind → List Symbol
  | selection _ => selectionSymbols
  | count => [.SELECT, .FROM, .star, .AS, .lparen, .rparen] ++ conditionSymbols
  | deletion => [.DELETE, .FROM] ++ conditionSymbols
  | update => [.UPDATE, .SET, .comma, .eq] ++ conditionSymbols
  | insertion => [.INSERT, .INTO, .VALUES, .RETURNING, .comma, .lparen, .rparen]

namespace Query

theorem all_returning {P : Piece → Bool} (hr : P (.symbol .RETURNING)) (hi : ∀ name, P (.ident name)) (q : Query) :
    q.returning.all P := by
  unfold returning
  split <;> simp [hr, hi]

/-- What is true of the symbols of a kind, and of names, numbers, values and
texts, is true of every piece of its statement. -/
theorem all_fragment {P : Piece → Bool} {k : StatementKind} (h : Piece.Spans P k.symbols)
    (ht : ∀ t ∈ statementTexts, P (.raw t)) (q : Query) : (q.fragment k).all P := by
  have htable : q.table.all P := by simp [table, h.ident]
  have hconditions : conditionSymbols ⊆ k.symbols → q.conditions.all P := fun hsub => q.all_conditions (h.mono hsub)
  cases k with
  | selection e =>
    replace h : Piece.Spans P selectionSymbols := h
    have horder := q.all_order (h.mono (List.subset_append_right ..))
    have hcolumns := q.all_columns (h.symbol .star (by decide)) (h.symbol .comma (by decide)) h.ident
    have hrange := q.all_range (h.symbol .LIMIT (by decide)) (h.symbol .OFFSET (by decide)) h.number e
    have hwhere : q.conditions.all P := q.all_conditions (h.mono (by decide))
    simp (disch := decide) [fragment, selectFragment, hcolumns, htable, hwhere, horder, hrange, h.symbol]
  | count => simp (disch := decide) [fragment, countFragment, countHead, htable, hconditions, h.symbol, ht]
  | deletion => simp (disch := decide) [fragment, deleteFragment, htable, hconditions, h.symbol]
  | update =>
    have hset := Fragment.all_assignments (h.symbol .comma (by decide)) (h.symbol .eq (by decide)) h.ident h.param
      q.draft.assignments
    simp (disch := decide) [fragment, updateFragment, htable, hset, hconditions, h.symbol]
  | insertion =>
    have hcomma := h.symbol .comma (by decide)
    have hnames := Fragment.all_nameList hcomma h.ident (q.draft.assignments.map (·.1))
    have hvalues := Fragment.all_placeholderList hcomma h.param (q.draft.assignments.map (·.2))
    have hreturning := q.all_returning (h.symbol .RETURNING (by decide)) h.ident
    simp (disch := decide) [fragment, insertFragment, htable, hnames, hvalues, hreturning, h.symbol]

theorem inStatement_fragment (q : Query) (k : StatementKind) : (q.fragment k).all Piece.inStatement :=
  all_fragment (Piece.spans_inStatement _) (fun _ ht => decide_eq_true ht) q

/-- Every piece of a statement reads as itself. -/
theorem isProper_fragment (q : Query) (k : StatementKind) : ∀ p ∈ q.fragment k, p.isProper :=
  fun p hp => Piece.isProper_of_inStatement (List.all_eq_true.1 (q.inStatement_fragment k) p hp)

theorem lexemes?_fragment (q : Query) (k : StatementKind) :
    ((q.fragment k).statement q.dialect).lexemes? = some ((q.fragment k).lexemes q.dialect) :=
  Fragment.lexemes?_statement q.dialect fun p hp => Piece.isPlain_of_isProper (q.isProper_fragment k p hp)

/-- Only a selection has a window. -/
theorem window?_fragment (q : Query) {k : StatementKind} (hk : ∀ e, k ≠ .selection e) :
    ((q.fragment k).statement q.dialect).window? = some [] := by
  have hsymbol : ∀ word : Symbol, word = .LIMIT ∨ word = .OFFSET → .symbol word ∉ q.fragment k := fun word hw => by
    refine Fragment.not_mem_of_all_ne (all_fragment (Piece.spans_ne ?_) (fun _ _ => rfl) q)
    cases k with
    | selection e => exact absurd rfl (hk e)
    | _ => rcases hw with rfl | rfl <;> decide
  have hnone : ∀ word : Symbol, word = .LIMIT ∨ word = .OFFSET →
      .word word.text.toList ∉ (q.fragment k).lexemes q.dialect := fun word hw hmem => by
    obtain ⟨p, hp, index, he⟩ := Fragment.mem_lexemesFrom hmem
    have hword : (Piece.symbol word).lexeme q.dialect index = .word word.text.toList := by
      rcases hw with rfl | rfl <;> rfl
    exact hsymbol word hw (Piece.eq_symbol_of_lexeme_eq (q.isProper_fragment k p hp) (hword.trans he) ▸ hp)
  rw [Statement.window?, q.lexemes?_fragment, Option.map_some, ← List.append_nil ((q.fragment k).lexemes _),
    RowWindow.arguments_append hnone]
  rfl

end Query

end TableQuery

/-
Faithful rendering: a reader of a statement's text gets one lexeme for each
piece that the query's parts were put together from, in their order
(`reads_as_pieces`).

Names may hold anything. Their quotes are doubled, so none ends its own
quoting; and wherever two pieces stand without a space between them, the
second one cannot be taken for more of the first.
-/
import TableQuery.Proofs.Query.Pieces

namespace TableQuery.Query

/-- **Rendering is faithful.** Without a raw override, the statement of a kind
is the text of its fragment, and what a reader makes of this text are the
lexemes of the fragment's pieces: as many as there are pieces, and at each
place that of the piece there, a placeholder's number being its place among
the placeholders. -/
theorem reads_as_pieces (q : Query) (hraw : q.draft.raw = none) (k : StatementKind)
    (hk : k.writes → q.draft.assignments ≠ []) :
    let pieces := q.fragment k
    let lexemes := pieces.lexemes q.dialect
    q.statementOf k = .ok (pieces.statement q.dialect) ∧
      (pieces.statement q.dialect).lexemes? = some lexemes ∧ lexemes.length = pieces.length ∧
      ∀ (i : Nat) (p : Piece), pieces[i]? = some p →
        lexemes[i]? = some (p.lexeme q.dialect ((Fragment.params (pieces.take i)).length + 1)) := by
  intro pieces lexemes
  refine ⟨statementOf_eq_ok hraw hk, q.lexemes?_fragment k, pieces.length_lexemesFrom q.dialect 0, ?_⟩
  intro i p hp
  have hlexeme := pieces.getElem?_lexemesFrom q.dialect 0 i
  rwa [hp, Option.map_some, Nat.zero_add] at hlexeme

/-- Names that hold quotes, a placeholder, a parenthesis or nothing at all, and
a comparison right after a parenthesis. -/
theorem reads_as_pieces_odd_names :
    let s : Schema := ⟨"we\"ird ?", [⟨"", .integer, true⟩, ⟨"$1\" (", .datetime, false⟩]⟩
    let q : Query := { ofSchema s .postgresql with
      draft.predicates := [⟨"$1\" (", .compare .gte (.ofInt 7), some .day⟩]
      draft.assignments := [("", .ofInt 1)] }
    q.draft.raw = none ∧ (StatementKind.update.writes → q.draft.assignments ≠ []) ∧
      q.statementOf .update = .ok ⟨"UPDATE \"we\"\"ird ?\" SET \"\" = $1 " ++
        "WHERE CAST(EXTRACT(DAY FROM \"$1\"\" (\") AS INTEGER)>= $2", [.ofInt 1, .ofInt 7]⟩ ∧
      ((q.fragment .update).statement .postgresql).lexemes? = some
        [.word "UPDATE".toList, .ident "we\"ird ?".toList, .word "SET".toList, .ident [], .sign .eq,
          .placeholder (some 1), .word "WHERE".toList, .word "CAST".toList, .sign .lparen,
          .word "EXTRACT".toList, .sign .lparen, .word "DAY".toList, .word "FROM".toList,
          .ident "$1\" (".toList, .sign .rparen, .word "AS".toList, .word "INTEGER".toList,
          .sign .rparen, .sign .ge, .placeholder (some 2)] := by
  intro s q
  have hk : StatementKind.update.writes → q.draft.assignments ≠ [] := by decide
  obtain ⟨hstatement, hread, -⟩ := q.reads_as_pieces rfl .update hk
  exact ⟨rfl, hk, hstatement.trans (congrArg Except.ok (by decide)), hread⟩

end TableQuery.Query

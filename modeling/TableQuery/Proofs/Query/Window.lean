/-
The window of a selection: the rows that a reader of its text is asked for
are the query's limit and offset, each stopped at the largest signed number
of 64 bits (`ofStatement_selectStatement`).

Everything before the window's clause is made of pieces that say neither
`LIMIT` nor `OFFSET` (`inClause`): names stand between quotes, so a table or
column called `LIMIT` asks for nothing.
-/
import TableQuery.Proofs.Query.Vocabulary
import TableQuery.Proofs.Sql.Parameters
import TableQuery.Sql.RowWindow

namespace TableQuery

/-! ## Pieces of clauses -/

namespace Piece

/-- A piece of a clause other than the window. -/
def inClause : Piece → Bool
  | symbol s => s ≠ .LIMIT && s ≠ .OFFSET
  | raw text => text ∈ clauseTexts
  | _ => true

theorem isPlain_of_inClause {p : Piece} (h : p.inClause) : p.isPlain := by
  cases p with
  | raw text =>
    have all : ∀ t ∈ clauseTexts, readsAsOne t.toList := by decide
    exact all text (by simpa [inClause] using h)
  | _ => rfl

theorem lexeme_of_inClause {p : Piece} (h : p.inClause) (d : Dialect) (index : Nat) {word : Symbol}
    (hw : word = .LIMIT ∨ word = .OFFSET) : p.lexeme d index ≠ .word word.text.toList := by
  cases p with
  | symbol s =>
    simp only [inClause, Bool.and_eq_true, decide_eq_true_eq] at h
    have same : ∀ s ∈ Symbol.all, s ≠ .LIMIT → s ≠ .OFFSET →
        (symbol s).lexeme .sqlite 0 ≠ .word Symbol.LIMIT.text.toList ∧
        (symbol s).lexeme .sqlite 0 ≠ .word Symbol.OFFSET.text.toList := by decide
    have hs := same s (Symbol.mem_all s) h.1 h.2
    rcases hw with rfl | rfl
    · exact hs.1
    · exact hs.2
  | raw text =>
    have all : ∀ t ∈ clauseTexts, rawLexeme t.toList ≠ .word Symbol.LIMIT.text.toList ∧
        rawLexeme t.toList ≠ .word Symbol.OFFSET.text.toList := by decide
    have ht := all text (by simpa [inClause] using h)
    rcases hw with rfl | rfl
    · exact ht.1
    · exact ht.2
  | ident | number | param => simp [lexeme]

end Piece

theorem Piece.spans_isPlain {symbols : List Symbol} : Piece.Spans Piece.isPlain symbols where
  symbol _ _ := rfl
  raw t ht := isPlain_of_inClause (p := .raw t) (decide_eq_true ht)
  ident _ := rfl
  number _ := rfl
  param _ := rfl

theorem Piece.spans_inClause {symbols : List Symbol} (hl : .LIMIT ∉ symbols) (ho : .OFFSET ∉ symbols) :
    Piece.Spans Piece.inClause symbols where
  symbol s hs := by
    simp only [inClause, Bool.and_eq_true, decide_eq_true_eq]
    exact ⟨fun he => hl (he ▸ hs), fun he => ho (he ▸ hs)⟩
  raw _ ht := decide_eq_true ht
  ident _ := rfl
  number _ := rfl
  param _ := rfl

namespace Query

/-- A selection up to its window. -/
def selectHead (q : Query) : Fragment :=
  .symbol .SELECT :: q.columns ++ .symbol .FROM :: q.table ++ q.conditions ++ q.order

theorem inClause_selectHead (q : Query) : q.selectHead.all Piece.inClause := by
  have ht : q.table.all Piece.inClause := rfl
  have hcolumns := all_columns (P := Piece.inClause) rfl rfl (fun _ => rfl) q
  have hconditions := all_conditions (Piece.spans_inClause (by decide) (by decide)) q
  have horder := all_order (Piece.spans_inClause (by decide) (by decide)) q
  simp only [selectHead, List.cons_append, List.all_append, List.all_cons, hcolumns, ht, hconditions, horder]
  rfl

theorem isPlain_range (q : Query) (e : Extent) : ∀ p ∈ q.range e, p.isPlain :=
  List.all_eq_true.1 (all_range (P := Piece.isPlain) rfl rfl (fun _ => rfl) q e)

end Query

/-! ## The lexemes of a selection -/

namespace RowWindow

theorem arguments_cons {l : Lexeme} (h : ∀ word : Symbol, word = .LIMIT ∨ word = .OFFSET → l ≠ .word word.text.toList)
    (ls : List Lexeme) : arguments (l :: ls) = arguments ls := by
  by_cases hw : ∃ cs n rest, l = .word cs ∧ ls = .integer n :: rest
  · obtain ⟨cs, n, rest, rfl, rfl⟩ := hw
    have hnone : ([.LIMIT, .OFFSET] : List Symbol).filter (cs = ·.text.toList) = [] := by
      simp only [List.filter_eq_nil_iff, decide_eq_true_eq]
      intro word hword hc
      exact h word (by simpa using hword) (by rw [hc])
    rw [arguments, hnone]
    rfl
  · rw [arguments]
    exact fun cs n rest hl hls => hw ⟨cs, n, rest, hl, hls⟩

theorem arguments_word {word : Symbol} (hw : word = .LIMIT ∨ word = .OFFSET) (n : Int) (ls : List Lexeme) :
    arguments (.word word.text.toList :: .integer n :: ls) = (word, n) :: arguments ls := by
  have hone : ([.LIMIT, .OFFSET] : List Symbol).filter (word.text.toList = ·.text.toList) = [word] := by
    rcases hw with rfl | rfl <;> decide
  rw [arguments, hone, arguments_cons (by simp)]
  rfl

/-- Lexemes without the two words give a window no numbers. -/
theorem arguments_append {ls : List Lexeme}
    (h : ∀ word : Symbol, word = .LIMIT ∨ word = .OFFSET → .word word.text.toList ∉ ls) (more : List Lexeme) :
    arguments (ls ++ more) = arguments more := by
  induction ls with
  | nil => rfl
  | cons l ls ih =>
    have hl : ∀ word : Symbol, word = .LIMIT ∨ word = .OFFSET → l ≠ .word word.text.toList :=
      fun word hw he => h word hw (he ▸ List.mem_cons_self)
    rw [List.cons_append, arguments_cons hl, ih fun word hw hmem => h word hw (List.mem_cons_of_mem _ hmem)]

/-- The integer that follows one of the words is the first of its numbers. -/
theorem argument?_eq {word : Symbol} (hw : word = .LIMIT ∨ word = .OFFSET) (ls : List Lexeme) :
    argument? word ls = ((arguments ls).find? (·.1 = word)).map (·.2) := by
  fun_induction argument? word ls with
  | case1 n rest => rw [arguments_word hw, List.find?_cons_of_pos (by simp)]; rfl
  | case2 cs n rest hne ih =>
    have hnone : ((([.LIMIT, .OFFSET] : List Symbol).filter (cs = ·.text.toList)).map (·, n)).find? (·.1 = word) =
        none := by
      simp only [List.find?_eq_none, List.mem_map, List.mem_filter, decide_eq_true_eq]
      rintro _ ⟨word', ⟨-, hc⟩, rfl⟩ rfl
      exact hne hc
    rw [ih, arguments, List.find?_append, hnone, Option.none_or]
  | case3 l rest hl ih => rw [ih, arguments]; exact hl
  | case4 => rfl

end RowWindow

namespace Query

/-- What a row count is written as: stopped at the largest that SQL has. -/
def written (n : UInt64) : Nat := min n.toNat 0x7FFFFFFFFFFFFFFF

/-- The numbers of a window, each with its word. -/
def windowNumbers (q : Query) (e : Extent) : List (Symbol × Int) :=
  match q.limitFor e, q.draft.bounds.offset with
  | some l, some o => [(.LIMIT, written l), (.OFFSET, written o)]
  | some l, none => [(.LIMIT, written l)]
  | none, some o =>
    if q.dialect = .sqlite then [(.LIMIT, -1), (.OFFSET, written o)] else [(.OFFSET, written o)]
  | none, none => []

/-- The window's clause alone, read. -/
@[simp]
theorem arguments_range (q : Query) (e : Extent) (count : Nat) :
    RowWindow.arguments ((q.range e).lexemesFrom q.dialect count) = q.windowNumbers e := by
  have hword : ∀ s d index, (s = .LIMIT ∨ s = .OFFSET) →
      (Piece.symbol s).lexeme d index = .word s.text.toList := by
    rintro s d index (rfl | rfl) <;> rfl
  have hcount : ∀ n d index, (rowCount n).lexeme d index = .integer (written n) := fun _ _ _ => rfl
  unfold range windowNumbers
  rcases q.limitFor e with _ | l <;> rcases q.draft.bounds.offset with _ | o <;> dsimp only
  case none.none => rfl
  case none.some =>
    split
    · simp only [List.cons_append, List.nil_append, Fragment.lexemesFrom, hword, hcount, true_or, or_true]
      rw [show (Piece.number (-1)).lexeme q.dialect _ = .integer (-1) from rfl,
        RowWindow.arguments_word (.inl rfl), RowWindow.arguments_word (.inr rfl)]
      rfl
    · simp only [List.nil_append, Fragment.lexemesFrom, hword, hcount, or_true, RowWindow.arguments_word]
      rfl
  all_goals
    simp only [Fragment.lexemesFrom, hword, hcount, true_or, or_true, RowWindow.arguments_word]
    rfl

/-- The numbers in the text of a selection are those of its window. -/
theorem window?_selectFragment (q : Query) (e : Extent) :
    ((q.selectFragment e).statement q.dialect).window? = some (q.windowNumbers e) := by
  have hhead : ∀ p ∈ q.selectHead, p.inClause := List.all_eq_true.1 q.inClause_selectHead
  have hplain : ∀ p ∈ q.selectHead ++ q.range e, p.isPlain := fun p hp => by
    rcases List.mem_append.1 hp with hp | hp
    · exact Piece.isPlain_of_inClause (hhead p hp)
    · exact q.isPlain_range e p hp
  have hnone : ∀ word : Symbol, word = .LIMIT ∨ word = .OFFSET →
      .word word.text.toList ∉ q.selectHead.lexemesFrom q.dialect 0 := fun word hw hmem => by
    obtain ⟨p, hp, index, he⟩ := Fragment.mem_lexemesFrom hmem
    exact Piece.lexeme_of_inClause (hhead p hp) q.dialect index hw he.symm
  have hfragment : q.selectFragment e = q.selectHead ++ q.range e := rfl
  rw [hfragment, Statement.window?, Fragment.lexemes?_statement q.dialect hplain, Option.map_some,
    Fragment.lexemes, Fragment.lexemesFrom_append, RowWindow.arguments_append hnone, arguments_range]

theorem window?_selectStatement {q : Query} (hq : q.draft.raw = none) (e : Extent) :
    (q.selectStatement e).window? = some (q.windowNumbers e) := by
  rw [selectStatement, hq]
  exact q.window?_selectFragment e

/-- **The window that a selection's text asks for** is the query's own, for
any names in its schema. -/
theorem ofStatement_selectStatement {q : Query} (hq : q.draft.raw = none) (e : Extent) :
    RowWindow.ofStatement (q.selectStatement e) =
      ⟨(q.limitFor e).map written, (q.draft.bounds.offset.map written).getD 0⟩ := by
  obtain ⟨ls, hs, hnumbers⟩ := Option.map_eq_some_iff.1 (window?_selectStatement hq e)
  have hneg : ∀ n : Nat, ¬ (n : Int) < 0 := by omega
  rw [RowWindow.ofStatement, hs, Option.getD_some, RowWindow.ofLexemes, RowWindow.argument?_eq (.inl rfl),
    RowWindow.argument?_eq (.inr rfl), hnumbers]
  unfold windowNumbers
  rcases q.limitFor e with _ | l <;> rcases q.draft.bounds.offset with _ | o
  case none.some => cases q.dialect <;> rfl
  case none.none => rfl
  all_goals simp [hneg]

end Query

end TableQuery

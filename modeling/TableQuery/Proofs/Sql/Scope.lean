/-
The scope of a fragment's statement, piece by piece.

With its parameters in place, a statement reads as the terms of its pieces,
whatever the dialect (`terms?_statement`). Of proper pieces only a symbol reads
as a word of that name, so the table and the condition of a statement can be
found among its pieces (`scope?_statement`).
-/
import TableQuery.Proofs.Sql.Outline
import TableQuery.Sql.Scope

namespace TableQuery

namespace Piece

/-- What a piece is to a reader who has its value. -/
def term : Piece → Term
  | param v => .value v
  | p => .lexeme (p.lexeme .postgresql 0)

/-- Only a symbol reads as that symbol. -/
theorem term_eq_symbol_iff {p : Piece} (hp : p.isProper) {s : Symbol} : p.term = (symbol s).term ↔ p = .symbol s := by
  constructor
  · intro h
    cases p with
    | param => cases h
    | _ => exact eq_symbol_of_lexeme_eq hp (Term.lexeme.inj h).symm
  · rintro rfl
    rfl

theorem term_symbol {s : Symbol} (hs : s.isSign = false) : (symbol s).term = .word s := by
  show Term.lexeme ((symbol s).lexeme .postgresql 0) = _
  rw [lexeme_symbol, hs]
  rfl

end Piece

theorem Term.ofLexeme_of_not_isPlaceholder {l : Lexeme} (h : l.isPlaceholder = false) (params : List Value) :
    ofLexeme params l = lexeme l := by
  cases l with
  | placeholder => cases h
  | _ => rfl

theorem Scope.table?_cons {t : Term} (hf : .word .FROM ≠ t) (hu : .word .UPDATE ≠ t) (ts : List Term) :
    table? (t :: ts) = table? ts := by
  by_cases h : ∃ cs name rest, t = .lexeme (.word cs) ∧ ts = .lexeme (.ident name) :: rest
  · obtain ⟨cs, name, rest, rfl, rfl⟩ := h
    rw [table?, if_neg]
    rintro (rfl | rfl)
    · exact hf rfl
    · exact hu rfl
  · rw [table?]
    exact fun cs name rest ht hts => h ⟨cs, name, rest, ht, hts⟩

namespace Fragment

/-- The parameters of a fragment come to stand in the place of its placeholders. -/
theorem map_ofLexeme_lexemesFrom (before : List Value) (f : Fragment) :
    (f.lexemesFrom .postgresql before.length).map (Term.ofLexeme (before ++ f.params)) = f.map Piece.term := by
  induction f generalizing before with
  | nil => rfl
  | cons p f ih =>
    rw [lexemesFrom, List.map_cons, List.map_cons]
    cases p with
    | param v =>
      have ih := ih (before ++ [v])
      rw [List.length_append, List.append_assoc] at ih
      rw [show (Piece.param v).arity = [v].length from rfl, show params (.param v :: f) = [v] ++ params f from rfl, ih]
      simp [Piece.lexeme, Dialect.numbersPlaceholders, Term.ofLexeme, Piece.term]
    | symbol | ident | raw | number =>
      exact congr (congrArg List.cons (Term.ofLexeme_of_not_isPlaceholder (Piece.isPlaceholder_lexeme _ _ _) _))
        (ih before)

/-- **A statement reads as the terms of its pieces**, its values among them. -/
theorem terms?_statement (d : Dialect) {f : Fragment} (hf : ∀ p ∈ f, p.isPlain) :
    (f.statement d).terms? = some (f.map Piece.term) := by
  rw [Statement.terms?, lexemes?_statement d hf, Option.map_some, lexemes, numbered_lexemesFrom]
  exact congrArg some (map_ofLexeme_lexemesFrom [] f)

/-! ## The table and the condition -/

theorem symbol_not_mem_map_term {f : Fragment} (hf : ∀ p ∈ f, p.isProper) {s : Symbol} (h : .symbol s ∉ f) :
    (Piece.symbol s).term ∉ f.map Piece.term := by
  intro hmem
  obtain ⟨p, hp, he⟩ := List.mem_map.1 hmem
  rw [(Piece.term_eq_symbol_iff (hf p hp)).1 he] at hp
  exact h hp

theorem word_not_mem_map_term {f : Fragment} (hf : ∀ p ∈ f, p.isProper) {s : Symbol} (hs : s.isSign = false)
    (h : .symbol s ∉ f) : Term.word s ∉ f.map Piece.term :=
  Piece.term_symbol hs ▸ symbol_not_mem_map_term hf h

/-- What a symbol separates is read with the symbol's term between. -/
theorem map_separated {α : Type} (g : Piece → α) (sep : Symbol) (fs : List Fragment) :
    (separated sep fs).map g = [g (.symbol sep)].intercalate (fs.map (List.map g)) := by
  induction fs with
  | nil => rfl
  | cons f fs ih =>
    cases fs with
    | nil => simp [separated, List.intercalate]
    | cons f' fs =>
      show (f ++ .symbol sep :: separated sep (f' :: fs)).map g = _
      rw [List.map_append, List.map_cons, ih]
      simp [List.intercalate]

/-- Where the symbol stands nowhere else, a reader finds what it separates. -/
theorem splitOn_map_separated {sep : Symbol} {fs : List Fragment} (hne : fs ≠ [])
    (h : ∀ f ∈ fs, (∀ p ∈ f, p.isProper) ∧ .symbol sep ∉ f) :
    ((separated sep fs).map Piece.term).splitOn (Piece.symbol sep).term = fs.map (List.map Piece.term) := by
  rw [map_separated, List.splitOn_intercalate]
  · intro ts hts
    obtain ⟨f, hf, rfl⟩ := List.mem_map.1 hts
    exact symbol_not_mem_map_term (h f hf).1 (h f hf).2
  · simpa using hne

/-- Where no table is named, it is named by what follows. -/
theorem table?_append {f : Fragment} (hf : ∀ p ∈ f, p.isProper) (hfrom : .symbol .FROM ∉ f)
    (hupdate : .symbol .UPDATE ∉ f) (ts : List Term) : Scope.table? (f.map Piece.term ++ ts) = Scope.table? ts := by
  have hterms : ∀ {ts : List Term}, .word .FROM ∉ ts → .word .UPDATE ∉ ts → ∀ more,
      Scope.table? (ts ++ more) = Scope.table? more := by
    intro ts hf hu more
    induction ts with
    | nil => rfl
    | cons t ts ih =>
      rw [List.mem_cons, not_or] at hf hu
      rw [List.cons_append, Scope.table?_cons hf.1 hu.1, ih hf.2 hu.2]
  exact hterms (word_not_mem_map_term hf rfl hfrom) (word_not_mem_map_term hf rfl hupdate) ts

/-- What may follow a condition: the order or the window. -/
def isTail (f : Fragment) : Prop :=
  ∀ p ∈ f.head?, p = .symbol .ORDER ∨ p = .symbol .LIMIT ∨ p = .symbol .OFFSET

/-- The condition of a statement is what its clause says after `WHERE`. -/
theorem conditionOf_parts {before clause tail : Fragment}
    (hproper : ∀ p ∈ before ++ clause ++ tail, p.isProper)
    (hbefore : .symbol .WHERE ∉ before) (hwhere : .symbol .WHERE ∉ tail) (htail : tail.isTail)
    (hclause : clause = [] ∨ ∃ f, clause = .symbol .WHERE :: f ∧
      .symbol .ORDER ∉ f ∧ .symbol .LIMIT ∉ f ∧ .symbol .OFFSET ∉ f) :
    Scope.conditionOf ((before ++ clause ++ tail).map Piece.term) = (clause.drop 1).map Piece.term := by
  have hb : ∀ p ∈ before, p.isProper := fun p hp => hproper p (by simp [hp])
  have ht : ∀ p ∈ tail, p.isProper := fun p hp => hproper p (by simp [hp])
  have hskip : ∀ f : Fragment, (∀ p ∈ f, p.isProper) → .symbol .WHERE ∉ f → ∀ t ∈ f.map Piece.term,
      decide (t ≠ .word .WHERE) = true := fun f hf hmem t hmt => by
    rw [decide_eq_true_eq]
    rintro rfl
    exact word_not_mem_map_term hf rfl hmem hmt
  unfold Scope.conditionOf
  rw [List.append_assoc, List.map_append, List.dropWhile_append_of_pos (hskip before hb hbefore)]
  rcases hclause with rfl | ⟨f, rfl, horder, hlimit, hoffset⟩
  · rw [List.nil_append, ← List.append_nil (tail.map Piece.term),
      List.dropWhile_append_of_pos (hskip tail ht hwhere)]
    rfl
  · have hf : ∀ p ∈ f, p.isProper := fun p hp => hproper p (by simp [hp])
    have hstay : ∀ t ∈ f.map Piece.term, (!Scope.ends t) = true := by
      intro t hmt
      have hne : ∀ s : Symbol, s.isSign = false → .symbol s ∉ f → t ≠ .word s := fun s hs hmem he =>
        word_not_mem_map_term hf hs hmem (he ▸ hmt)
      simp [Scope.ends, hne _ rfl horder, hne _ rfl hlimit, hne _ rfl hoffset]
    have hstop : (tail.map Piece.term).takeWhile (!Scope.ends ·) = [] := by
      cases tail with
      | nil => rfl
      | cons p tail =>
        rcases htail p rfl with rfl | rfl | rfl <;> rfl
    rw [List.cons_append, List.map_cons, List.map_append]
    rw [show (Piece.symbol .WHERE).term = .word .WHERE from rfl, List.dropWhile_cons_of_neg (by simp),
      List.drop_one, List.tail_cons, List.takeWhile_append_of_pos hstay, hstop, List.append_nil]
    rfl

end Fragment

end TableQuery

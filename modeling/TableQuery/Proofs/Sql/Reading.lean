/-
What is written reads back: the lexemes of a fragment's text are the lexemes
of its pieces, one for each and in order (`readAll?_text`).

A name is written so that its own quotes cannot end it, and of two pieces
that are written without a space between them either the left one is a
parenthesis or the right one starts with a character that ends whatever
stands before it. Text written as it is takes part when it is a single word
or a single text literal (`isPlain`); a fragment may hold any names, numbers
and values.
-/
import TableQuery.Sql.Lexeme

namespace TableQuery

open Text

namespace Piece

/-- Text that is a word, or a literal with no apostrophe inside. -/
def readsAsOne : List Char → Bool
  | [] => false
  | '\'' :: cs => cs.getLast? = some '\'' && !cs.dropLast.contains '\''
  | c :: cs => Lexeme.isLetter c && cs.all fun c => Lexeme.isLetter c || c.isDigit

/-- A piece that reads as one lexeme. -/
def isPlain : Piece → Bool
  | raw text => readsAsOne text.toList
  | _ => true

/-- What such text is to a reader. -/
def rawLexeme : List Char → Lexeme
  | '\'' :: cs => .text cs.dropLast
  | cs => .word cs

/-- What a piece is to a reader; a placeholder is the `index`-th one. -/
def lexeme (d : Dialect) (index : Nat) : Piece → Lexeme
  | symbol s => if s.isPunctuation || s.isComparison || s = .star then .sign s else .word s.text.toList
  | ident name => .ident name.toList
  | raw text => rawLexeme text.toList
  | number n => .integer n
  | param _ => .placeholder (if d.numbersPlaceholders then some index else none)

end Piece

namespace Fragment

/-- The lexemes of a fragment, when `count` placeholders stand before it. -/
def lexemesFrom (d : Dialect) : Nat → Fragment → List Lexeme
  | _, [] => []
  | count, p :: rest => p.lexeme d (count + 1) :: lexemesFrom d (count + p.arity) rest

def lexemes (d : Dialect) (f : Fragment) : List Lexeme := f.lexemesFrom d 0

end Fragment

namespace Lexeme

/-- A text before which every lexeme ends: nothing, or a space, parenthesis
or comma first. -/
def Ends : List Char → Prop
  | [] => True
  | c :: _ => c = ' ' ∨ c = '(' ∨ c = ')' ∨ c = ','

/-- What ends a lexeme is no part of a word or number. -/
theorem Ends.not_part {c : Char} (h : Ends [c]) : (isLetter c || c.isDigit) = false := by
  rcases h with rfl | rfl | rfl | rfl <;> decide

theorem Ends.not_digit {c : Char} (h : Ends [c]) : c.isDigit = false := by
  rcases h with rfl | rfl | rfl | rfl <;> decide

theorem Ends.head?_ne {rest : List Char} (h : Ends rest) {c : Char} (hc : ¬ Ends [c]) :
    rest.head? ≠ some c := by
  cases rest with
  | nil => simp
  | cons d rest =>
    intro he
    cases Option.some.inj he
    exact hc h

/-! ## Runs of characters -/

theorem run_append {p : Char → Bool} (hp : ∀ {c}, Ends [c] → p c = false) {cs rest : List Char}
    (hcs : ∀ c ∈ cs, p c) (hr : Ends rest) :
    (cs ++ rest).takeWhile p = cs ∧ (cs ++ rest).dropWhile p = rest := by
  rw [List.takeWhile_append_of_pos hcs, List.dropWhile_append_of_pos hcs]
  cases rest with
  | nil => simp
  | cons c rest => simp [hp (c := c) hr]

theorem digits?_ofNat (n : Nat) {rest : List Char} (hr : Ends rest) :
    digits? (Decimal.ofNat n ++ rest) = some (n, rest) := by
  have hrun := run_append Ends.not_digit
    (fun c (hc : c ∈ Decimal.ofNat n) => Nat.isDigit_of_mem_toDigits (by decide) (by decide) hc) hr
  have hne : Decimal.ofNat n ≠ [] := Nat.toDigits_ne_nil
  simp only [digits?, hrun, if_neg hne, Decimal.value_ofNat]

/-! ## Quoted text -/

/-- The closing quote is found behind a text whose own quotes are doubled. -/
theorem unquote?_doubled (quote : Char) (cs : List Char) {rest : List Char}
    (hr : rest.head? ≠ some quote) :
    unquote? quote (cs.flatMap (fun c => if c = quote then [quote, quote] else [c]) ++ quote :: rest) =
      some (cs, rest) := by
  induction cs with
  | nil =>
    cases rest with
    | nil => simp [unquote?]
    | cons d rest =>
      have hd : d ≠ quote := fun h => hr (by simp [h])
      simp [unquote?, hd]
  | cons c cs ih =>
    rw [List.flatMap_cons, List.append_assoc]
    by_cases hc : c = quote
    · subst hc
      simp only [if_true, List.cons_append, List.nil_append]
      simp [unquote?, ih]
    · simp only [if_neg hc, List.cons_append, List.nil_append]
      -- `unquote?` looks at two characters: what follows `c` is not empty.
      generalize hs : List.flatMap _ cs ++ quote :: rest = tail at ih ⊢
      cases tail with
      | nil => simp at hs
      | cons d tail => simp [unquote?, hc, ih]

theorem flatMap_doubled_of_not_mem {quote : Char} {cs : List Char} (h : quote ∉ cs) :
    cs.flatMap (fun c => if c = quote then [quote, quote] else [c]) = cs := by
  induction cs with
  | nil => rfl
  | cons c cs ih =>
    simp only [List.mem_cons, not_or] at h
    rw [List.flatMap_cons, if_neg fun hc => h.1 hc.symm, ih h.2]
    rfl

/-! ## One piece -/

theorem not_isDigit_of_isLetter {c : Char} (hc : isLetter c) : c.isDigit = false := by
  rw [Bool.eq_false_iff]
  intro hdigit
  have hle : c.toNat ≤ '9'.toNat := (Char.isDigit_iff_toNat.1 hdigit).2
  have hupper (h : c.isUpper) : 'A'.val ≤ c.val ∧ c.val ≤ 'Z'.val := of_decide_eq_true h
  have hlower (h : c.isLower) : 'a'.val ≤ c.val := of_decide_eq_true (Bool.and_eq_true_iff.1 h).1
  rcases Bool.or_eq_true_iff.1 hc with halpha | hunder
  · rcases Bool.or_eq_true_iff.1 halpha with h | h
    · exact absurd (Nat.le_trans (hupper h).1 hle) (by decide)
    · exact absurd (Nat.le_trans (hlower h) hle) (by decide)
  · cases of_decide_eq_true hunder
    exact absurd hdigit (by decide)

/-- A letter starts nothing but a word. -/
theorem next?_of_isLetter {c : Char} (hc : isLetter c) (cs : List Char) :
    next? (c :: cs) = some (word (c :: cs.takeWhile fun c => isLetter c || c.isDigit),
      cs.dropWhile fun c => isLetter c || c.isDigit) := by
  have hd : c.isDigit = false := not_isDigit_of_isLetter hc
  unfold next?
  split
  any_goals (rename_i he; cases he; try exact absurd hc (by decide))
  simp [hc, hd]

theorem next?_word {c : Char} {cs rest : List Char} (hc : isLetter c)
    (hcs : ∀ c ∈ cs, isLetter c || c.isDigit) (hr : Ends rest) :
    next? (c :: cs ++ rest) = some (word (c :: cs), rest) := by
  have hrun := run_append Ends.not_part hcs hr
  rw [List.cons_append, next?_of_isLetter hc, hrun.1, hrun.2]

/-- A digit starts nothing but a number. -/
theorem next?_ofNat (n : Nat) {rest : List Char} (hr : Ends rest) :
    next? (Decimal.ofNat n ++ rest) = some (integer n, rest) := by
  have hread := digits?_ofNat n hr
  have hdigit : ∀ c ∈ Decimal.ofNat n, c.isDigit :=
    fun c hc => Nat.isDigit_of_mem_toDigits (by decide) (by decide) hc
  cases hs : Decimal.ofNat n with
  | nil => exact absurd hs Nat.toDigits_ne_nil
  | cons c cs =>
    have hc : c.isDigit := hdigit c (by simp [hs])
    rw [hs] at hread
    rw [List.cons_append] at hread ⊢
    unfold next?
    split
    any_goals (rename_i he; cases he; try exact absurd hc (by decide))
    simp [hc, hread]

theorem next?_ofInt (n : Int) {rest : List Char} (hr : Ends rest) :
    next? (Decimal.ofInt n ++ rest) = some (integer n, rest) := by
  cases n with
  | ofNat n => exact next?_ofNat n hr
  | negSucc n =>
    simp only [Decimal.ofInt, List.cons_append, next?, digits?_ofNat _ hr, Option.map_some]
    rfl

theorem next?_placeholder (d : Dialect) (index : Nat) {rest : List Char} (hr : Ends rest) :
    next? (d.placeholder index ++ rest) =
      some (placeholder (if d.numbersPlaceholders then some index else none), rest) := by
  cases d with
  | sqlite => rfl
  | postgresql =>
    simp only [Dialect.placeholder, List.cons_append, next?, digits?_ofNat _ hr, Option.map_some]
    rfl

theorem next?_quotedIdent (cs : List Char) {rest : List Char} (hr : Ends rest) :
    next? (quotedIdent cs ++ rest) = some (ident cs, rest) := by
  have hq : rest.head? ≠ some '"' := hr.head?_ne (by simp [Ends])
  simp only [quotedIdent, List.cons_append, List.append_assoc, List.nil_append, next?]
  rw [unquote?_doubled '"' cs hq]
  rfl

/-- A literal without apostrophes inside is closed by its last character. -/
theorem next?_literal {inside rest : List Char} (hi : '\'' ∉ inside) (hr : Ends rest) :
    next? ('\'' :: (inside ++ '\'' :: rest)) = some (text inside, rest) := by
  have hq : rest.head? ≠ some '\'' := hr.head?_ne (by simp [Ends])
  have := unquote?_doubled '\'' inside hq
  rw [flatMap_doubled_of_not_mem hi] at this
  simp only [next?, this, Option.map_some]

theorem next?_raw {cs rest : List Char} (h : Piece.readsAsOne cs) (hr : Ends rest) :
    next? (cs ++ rest) = some (Piece.rawLexeme cs, rest) := by
  cases cs with
  | nil => cases h
  | cons c cs =>
    by_cases hc : c = '\''
    · subst hc
      simp only [Piece.readsAsOne, Bool.and_eq_true, decide_eq_true_eq, Bool.not_eq_true',
        List.contains_eq_mem, decide_eq_false_iff_not] at h
      obtain ⟨inside, rfl⟩ := List.getLast?_eq_some_iff.1 h.1
      rw [List.dropLast_concat] at h
      simpa [Piece.rawLexeme] using next?_literal h.2 hr
    · simp only [Piece.readsAsOne, Bool.and_eq_true, List.all_eq_true] at h
      have hw : Piece.rawLexeme (c :: cs) = word (c :: cs) := by simp [Piece.rawLexeme, hc]
      rw [hw]
      exact next?_word h.1 h.2 hr

/-- A comparison sign is read whole, since no character of one follows it. -/
theorem next?_sign {s : Symbol} (hs : s.isComparison || s = .star || s = .comma) {rest : List Char}
    (hr : Ends rest) : next? (s.text.toList ++ rest) = some (sign s, rest) := by
  have heq : rest.head? ≠ some '=' := hr.head?_ne (by simp [Ends])
  cases s <;> try cases hs
  all_goals
    cases rest with
    | nil => rfl
    | cons c rest =>
      have hc : '=' ≠ c := fun h => heq (by rw [h]; rfl)
      simp [Symbol.text, next?, isLetter, sign?, signs, after?, hc]

/-- A parenthesis is a lexeme whatever follows it. -/
theorem next?_paren {s : Symbol} (hs : s = .lparen || s = .rparen) (rest : List Char) :
    next? (s.text.toList ++ rest) = some (sign s, rest) := by
  cases s <;> try cases hs
  all_goals simp [Symbol.text, next?, isLetter, sign?, signs, after?]

theorem next?_symbol (s : Symbol) {rest : List Char} (hr : Ends rest) :
    next? (s.text.toList ++ rest) =
      some (if s.isPunctuation || s.isComparison || s = .star then sign s else word s.text.toList, rest) := by
  by_cases hs : s.isPunctuation || s.isComparison || s = .star
  · rw [if_pos hs]
    by_cases hp : s = .lparen || s = .rparen
    · exact next?_paren hp rest
    · refine next?_sign ?_ hr
      cases s <;> simp_all [Symbol.isPunctuation, Symbol.isComparison]
  · rw [if_neg hs]
    have hread : Piece.readsAsOne s.text.toList ∧ Piece.rawLexeme s.text.toList = word s.text.toList := by
      cases s <;> first | exact absurd rfl hs | exact ⟨rfl, rfl⟩
    rw [next?_raw hread.1 hr, hread.2]

/-- A plain piece is read whole when what follows ends it. -/
theorem next?_text (d : Dialect) (index : Nat) {p : Piece} (hp : p.isPlain) {rest : List Char}
    (hr : Ends rest) : next? (p.text d index ++ rest) = some (p.lexeme d index, rest) := by
  cases p with
  | symbol s => exact next?_symbol s hr
  | ident name => exact next?_quotedIdent name.toList hr
  | raw text => exact next?_raw hp hr
  | number n => exact next?_ofInt n hr
  | param v => exact next?_placeholder d index hr

/-! ## Neighbours -/

theorem not_blank_of_readsAsOne {cs : List Char} (h : Piece.readsAsOne cs) :
    cs.head? ≠ some ' ' ∧ cs.getLast? ≠ some ' ' := by
  cases cs with
  | nil => simp
  | cons c cs =>
    by_cases hc : c = '\''
    · subst hc
      simp only [Piece.readsAsOne, Bool.and_eq_true, decide_eq_true_eq] at h
      refine ⟨by simp, ?_⟩
      rw [List.getLast?_cons, h.1]
      simp
    · simp only [Piece.readsAsOne, Bool.and_eq_true, List.all_eq_true] at h
      have hpart : ∀ x ∈ c :: cs, (isLetter x || x.isDigit) = true := fun x hx => by
        rcases List.mem_cons.1 hx with rfl | hx
        · simp [h.1]
        · exact h.2 x hx
      have hspace : ¬ (isLetter ' ' || ' '.isDigit) = true := by decide
      refine ⟨fun he => hspace (hpart _ ?_), fun he => hspace (hpart _ (List.mem_of_getLast? he))⟩
      exact List.mem_of_head? he

/-- Between plain pieces the space depends on nothing but what they are. -/
theorem spaced_of_isPlain {p q : Piece} (hp : p.isPlain) (hq : q.isPlain) :
    p.spaced q = p.needSpace q := by
  have he : p.endsBlank = false := by
    cases p with
    | raw text => simpa [Piece.endsBlank] using (not_blank_of_readsAsOne hp).2
    | _ => rfl
  have hs : q.startsBlank = false := by
    cases q with
    | raw text => simpa [Piece.startsBlank] using (not_blank_of_readsAsOne hq).1
    | _ => rfl
  simp [Piece.spaced, he, hs]

theorem readsAsWord_of_not_punctuation {p : Piece} (hl : p = .symbol .lparen → False)
    (hr : p = .symbol .rparen → False) (hc : p = .symbol .comma → False) :
    p.readsAsWord = !p.isComparison := by
  cases p with
  | symbol s => cases s <;> first | rfl | exact absurd rfl hl | exact absurd rfl hr | exact absurd rfl hc
  | _ => rfl

/-- Two pieces that stand together without a space: the left one is a
parenthesis, or the right one ends whatever is before it. -/
theorem ends_of_not_needSpace {p q : Piece} (h : p.needSpace q = false) (d : Dialect) (index : Nat)
    (rest : List Char) :
    (p = .symbol .lparen ∨ p = .symbol .rparen) ∨ Ends (q.text d index ++ rest) := by
  unfold Piece.needSpace at h
  split at h
  · exact .inr (.inr (.inr (.inl rfl)))
  · exact .inr (.inr (.inr (.inr rfl)))
  · exact .inl (.inl rfl)
  · cases h
  · exact .inl (.inr rfl)
  · exact .inr (.inr (.inl rfl))
  · exact .inr (.inr (.inl rfl))
  · exact .inr (.inr (.inl rfl))
  · exact .inr (.inr (.inl rfl))
  · -- Neither is punctuation: a comparison needs the space, and so do two words.
    next hpl hpc hpr hqr hqc hql _ _ _ =>
      rw [readsAsWord_of_not_punctuation hpl hpr hpc, readsAsWord_of_not_punctuation hql hqr hqc] at h
      cases hp : p.isComparison <;> cases hq : q.isComparison <;> simp [hp, hq] at h

/-! ## Statements -/

theorem readAll?_space (rest : List Char) : readAll? (' ' :: rest) = readAll? rest := by
  rw [readAll?]

theorem readAll?_of_next? {cs rest : List Char} {l : Lexeme} (h : next? cs = some (l, rest)) :
    readAll? cs = (readAll? rest).map (l :: ·) := by
  cases cs with
  | nil => cases h
  | cons c cs =>
    have hne : c ≠ ' ' := fun he => by
      subst he
      cases h
    rw [readAll?]
    · split
      · next hn => rw [h] at hn; cases hn
      · next hn => rw [h] at hn; cases hn; rfl
    · exact hne

end Lexeme

namespace Fragment

open Lexeme

/-- The number of spaces between a piece and what follows it. -/
def gap (p : Piece) : Fragment → Nat
  | [] => 0
  | q :: _ => if p.spaced q then 1 else 0

theorem gap_cons (p q : Piece) (f : Fragment) : gap p (q :: f) = if p.spaced q then 1 else 0 := rfl

theorem textFrom_cons (d : Dialect) (count : Nat) (p : Piece) (f : Fragment) :
    textFrom d count (p :: f) =
      p.text d (count + 1) ++ (List.replicate (gap p f) ' ' ++ textFrom d (count + p.arity) f) := by
  cases f with
  | nil => simp [textFrom, gap]
  | cons q f =>
    rw [textFrom, gap, List.append_assoc]
    split <;> rfl

/-- A piece is read whole, and what is left are the spaces after it and the text of the others. -/
theorem next?_textFrom (d : Dialect) {p : Piece} {f : Fragment} (hf : ∀ r ∈ p :: f, r.isPlain) (count : Nat) :
    next? (textFrom d count (p :: f)) =
      some (p.lexeme d (count + 1), List.replicate (gap p f) ' ' ++ textFrom d (count + p.arity) f) := by
  have hp := hf p (by simp)
  rw [textFrom_cons]
  cases f with
  | nil =>
    have hend : Ends [] := trivial
    exact next?_text d (count + 1) hp hend
  | cons q f =>
    rw [gap_cons, spaced_of_isPlain hp (hf q (by simp))]
    cases hs : p.needSpace q with
    | true =>
      have hr : Ends (' ' :: textFrom d (count + p.arity) (q :: f)) := .inl rfl
      exact next?_text d (count + 1) hp hr
    | false =>
      rw [textFrom_cons d (count + p.arity)]
      rcases ends_of_not_needSpace hs d (count + p.arity + 1) _ with (rfl | rfl) | hends
      · exact next?_paren rfl _
      · exact next?_paren rfl _
      · exact next?_text d (count + 1) hp hends

theorem readAll?_textFrom (d : Dialect) (f : Fragment) (hf : ∀ p ∈ f, p.isPlain) (count : Nat) :
    readAll? (f.textFrom d count) = some (f.lexemesFrom d count) := by
  have hspaces : ∀ n rest, readAll? (List.replicate n ' ' ++ rest) = readAll? rest := by
    intro n rest
    induction n with
    | zero => rfl
    | succ n ih => rw [List.replicate_succ, List.cons_append, readAll?_space, ih]
  induction f generalizing count with
  | nil => rw [textFrom, readAll?]; rfl
  | cons p f ih =>
    have ih := ih (fun q hq => hf q (by simp [hq])) (count + p.arity)
    rw [readAll?_of_next? (next?_textFrom d hf count), hspaces, ih]
    rfl

/-- **Reading undoes writing.** The lexemes of a statement written from plain
pieces are those of the pieces. -/
theorem lexemes?_statement (d : Dialect) {f : Fragment} (hf : ∀ p ∈ f, p.isPlain) :
    (f.statement d).lexemes? = some (f.lexemes d) := by
  rw [Statement.lexemes?, statement, String.toList_ofList]
  exact readAll?_textFrom d f hf 0

end Fragment

end TableQuery

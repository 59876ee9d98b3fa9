/-
The outline of a fragment: what is left of it when its values are taken out.

The text of a fragment depends on its outline alone (`textFrom_outline`), a
fragment is its outline together with its parameters (`eq_of_outline_eq`),
and the outline can be read off the lexemes (`outline_eq_of_lexemesFrom_eq`).
So two fragments that write the same statement are the same
(`eq_of_statement_eq`), if what they write as it is can neither be taken
apart by a reader nor for a symbol (`isProper`).
-/
import TableQuery.Proofs.Sql.Parameters

namespace TableQuery

namespace Symbol

@[simp]
theorem ofName?_name (s : Symbol) : ofName? s.name = some s := by
  have every : ∀ s ∈ all, ofName? s.name = some s := by decide +kernel
  exact every s s.mem_all

/-- A sign, to a reader. -/
def isSign (s : Symbol) : Bool := s.isPunctuation || s.isComparison || s = .star

theorem text_of_not_isSign {s : Symbol} (h : s.isSign = false) : s.text = s.name := by
  have every : ∀ s ∈ all, s.isSign = false → s.text = s.name := by decide
  exact every s s.mem_all h

/-- No two words are spelled alike. -/
theorem eq_of_text_eq {s t : Symbol} (hs : s.isSign = false) (ht : t.isSign = false)
    (h : s.text = t.text) : s = t := by
  rw [text_of_not_isSign hs, text_of_not_isSign ht] at h
  have := s.ofName?_name
  rw [h, t.ofName?_name] at this
  exact (Option.some.inj this).symm

end Symbol

namespace Piece

/-- A piece without its value. -/
def outline : Piece → Piece
  | param _ => param .null
  | p => p

@[simp] theorem outline_symbol (s : Symbol) : (symbol s).outline = symbol s := rfl

@[simp] theorem outline_raw (text : String) : (raw text).outline = raw text := rfl

@[simp] theorem outline_ident (name : String) : (ident name).outline = ident name := rfl

@[simp] theorem outline_number (n : Int) : (number n).outline = number n := rfl

@[simp] theorem outline_param (v : Value) : (param v).outline = param .null := rfl

@[simp]
theorem text_outline (d : Dialect) (index : Nat) (p : Piece) :
    p.outline.text d index = p.text d index := by
  cases p <;> rfl

@[simp] theorem arity_outline (p : Piece) : p.outline.arity = p.arity := by cases p <;> rfl

@[simp]
theorem spaced_outline (p q : Piece) : p.outline.spaced q.outline = p.spaced q := by
  cases p with
  | symbol s =>
    cases q with
    | param => cases s <;> rfl
    | _ => rfl
  | param =>
    cases q with
    | symbol t => cases t <;> rfl
    | _ => rfl
  | _ => cases q <;> rfl

/-- A piece that reads as one lexeme, and no other piece but one of another
value reads as that. -/
def isProper : Piece → Bool
  | raw text => readsAsOne text.toList && Symbol.all.all fun s => s.text ≠ text
  | _ => true

theorem isPlain_of_isProper {p : Piece} (h : p.isProper) : p.isPlain := by
  cases p with
  | raw text => exact (Bool.and_eq_true_iff.1 h).1
  | _ => rfl

theorem ne_text_of_isProper {text : String} (h : (raw text).isProper) (s : Symbol) : s.text ≠ text := by
  have hall := List.all_eq_true.1 (Bool.and_eq_true_iff.1 h).2 s s.mem_all
  exact of_decide_eq_true hall

/-- The text of a word or literal is read off its lexeme. -/
theorem eq_of_rawLexeme_eq {cs ds : List Char} (hc : readsAsOne cs) (hd : readsAsOne ds)
    (h : rawLexeme cs = rawLexeme ds) : cs = ds := by
  have literal : ∀ {cs : List Char}, readsAsOne ('\'' :: cs) → cs.dropLast ++ ['\''] = cs := fun h => by
    simp only [readsAsOne, Bool.and_eq_true, decide_eq_true_eq] at h
    obtain ⟨inside, rfl⟩ := List.getLast?_eq_some_iff.1 h.1
    rw [List.dropLast_concat]
  unfold rawLexeme at h
  split at h <;> split at h
  · next cs ds =>
    have := congrArg (· ++ ['\'']) (Lexeme.text.inj h)
    simp only [literal hc, literal hd] at this
    rw [this]
  · cases h
  · cases h
  · exact Lexeme.word.inj h

theorem lexeme_symbol (s : Symbol) (d : Dialect) (index : Nat) :
    (symbol s).lexeme d index = if s.isSign then .sign s else .word s.text.toList := rfl

theorem eq_of_lexeme_symbol_eq {s t : Symbol} {d : Dialect} {index : Nat}
    (h : (symbol s).lexeme d index = (symbol t).lexeme d index) : s = t := by
  rw [lexeme_symbol, lexeme_symbol] at h
  split at h <;> split at h
  · exact Lexeme.sign.inj h
  · cases h
  · cases h
  · next hs ht =>
    exact Symbol.eq_of_text_eq (Bool.eq_false_iff.2 hs) (Bool.eq_false_iff.2 ht)
      (String.toList_inj.1 (Lexeme.word.inj h))

theorem lexeme_symbol_ne_raw {text : String} (ht : (raw text).isProper) (s : Symbol) (d : Dialect)
    (index : Nat) : (symbol s).lexeme d index ≠ (raw text).lexeme d index := by
  intro h
  rw [lexeme_symbol] at h
  change _ = rawLexeme text.toList at h
  unfold rawLexeme at h
  split at h <;> split at h
  any_goals cases h
  exact ne_text_of_isProper ht s (String.toList_inj.1 (Lexeme.word.inj h))

/-- Nothing but a symbol reads as that symbol. -/
theorem eq_symbol_of_lexeme_eq {p : Piece} (hp : p.isProper) {s : Symbol} {d : Dialect} {index : Nat}
    (h : (symbol s).lexeme d index = p.lexeme d index) : p = .symbol s := by
  cases p with
  | symbol t => rw [eq_of_lexeme_symbol_eq h]
  | raw text => exact absurd h (lexeme_symbol_ne_raw hp s d index)
  | _ =>
    rw [lexeme_symbol] at h
    split at h <;> cases h

/-- Of proper pieces, the values alone cannot be read. -/
theorem outline_eq_of_lexeme_eq {p q : Piece} (hp : p.isProper) (hq : q.isProper) {d : Dialect}
    {index : Nat} (h : p.lexeme d index = q.lexeme d index) : p.outline = q.outline := by
  cases p <;> cases q
  case symbol.symbol s t => rw [eq_of_lexeme_symbol_eq h]
  case symbol.raw s text => exact absurd h (lexeme_symbol_ne_raw hq s d index)
  case raw.symbol text s => exact absurd h.symm (lexeme_symbol_ne_raw hp s d index)
  case raw.raw t u =>
    have := eq_of_rawLexeme_eq (Bool.and_eq_true_iff.1 hp).1 (Bool.and_eq_true_iff.1 hq).1 h
    rw [String.toList_inj.1 this]
  case ident.ident n m => rw [String.toList_inj.1 (Lexeme.ident.inj h)]
  case number.number n m => rw [Lexeme.integer.inj h]
  case param.param => rfl
  -- The lexemes of two other pieces are of different kinds.
  all_goals
    simp only [lexeme, rawLexeme] at h
    repeat' split at h
    all_goals cases h

end Piece

namespace Fragment

/-- A fragment without its values. -/
def outline (f : Fragment) : Fragment := f.map Piece.outline

@[simp] theorem outline_nil : outline [] = [] := rfl

@[simp] theorem outline_cons (p : Piece) (f : Fragment) : outline (p :: f) = p.outline :: outline f := rfl

@[simp] theorem outline_append (f g : Fragment) : outline (f ++ g) = outline f ++ outline g := List.map_append

@[simp]
theorem textFrom_outline (d : Dialect) (count : Nat) (f : Fragment) :
    f.outline.textFrom d count = f.textFrom d count := by
  induction f generalizing count with
  | nil => rfl
  | cons p f ih =>
    cases f with
    | nil => exact p.text_outline d (count + 1)
    | cons q f =>
      have ih := ih (count + p.arity)
      rw [outline_cons] at ih
      simp [textFrom, ih]

theorem params_cons_inj {p q : Piece} (ho : p.outline = q.outline) {f g : Fragment}
    (h : params (p :: f) = params (q :: g)) : p = q ∧ params f = params g := by
  cases p with
  | param v =>
    cases q with
    | param w =>
      obtain ⟨hv, h⟩ := List.cons.inj h
      exact ⟨by rw [hv], h⟩
    | _ => cases ho
  | _ =>
    cases q with
    | param w => cases ho
    | _ => exact ⟨ho, h⟩

theorem eq_of_outline_eq {f g : Fragment} (ho : f.outline = g.outline) (hp : f.params = g.params) :
    f = g := by
  induction f generalizing g with
  | nil => exact (List.map_eq_nil_iff.1 ho.symm).symm
  | cons p f ih =>
    cases g with
    | nil => cases ho
    | cons q g =>
      obtain ⟨hpq, hrest⟩ := List.cons.inj ho
      obtain ⟨rfl, hvalues⟩ := params_cons_inj hpq hp
      rw [ih hrest hvalues]

theorem outline_eq_of_lexemesFrom_eq {d : Dialect} {f g : Fragment} (hf : ∀ p ∈ f, p.isProper)
    (hg : ∀ p ∈ g, p.isProper) {count : Nat} (h : f.lexemesFrom d count = g.lexemesFrom d count) :
    f.outline = g.outline := by
  induction f generalizing g count with
  | nil =>
    cases g with
    | nil => rfl
    | cons q g => cases h
  | cons p f ih =>
    cases g with
    | nil => cases h
    | cons q g =>
      obtain ⟨hpq, h⟩ := List.cons.inj h
      have hout := Piece.outline_eq_of_lexeme_eq (hf p (by simp)) (hg q (by simp)) hpq
      have harity : p.arity = q.arity := by rw [← p.arity_outline, hout, q.arity_outline]
      rw [← harity] at h
      have hrest := ih (fun r hr => hf r (by simp [hr])) (fun r hr => hg r (by simp [hr])) h
      simp [hout, hrest]

/-- **A statement tells its fragment**, when all pieces are proper. -/
theorem eq_of_statement_eq {d : Dialect} {f g : Fragment} (hf : ∀ p ∈ f, p.isProper)
    (hg : ∀ p ∈ g, p.isProper) (h : f.statement d = g.statement d) : f = g := by
  have hread := congrArg Statement.lexemes? h
  rw [lexemes?_statement d fun p hp => Piece.isPlain_of_isProper (hf p hp),
    lexemes?_statement d fun p hp => Piece.isPlain_of_isProper (hg p hp)] at hread
  exact eq_of_outline_eq (outline_eq_of_lexemesFrom_eq hf hg (Option.some.inj hread))
    (congrArg Statement.params h)

end Fragment

end TableQuery

/-
Lexemes: what a reader of SQL makes of a statement's text.

A name stands between double quotes and a text between apostrophes, each
with its own quote written twice inside. A word is a run of letters, digits
and `_` that starts with none of the digits. Spaces part lexemes and mean
nothing else. Reading takes no part in writing statements; it says what the
written text means to whoever receives it.
-/
import TableQuery.Sql.Statement

namespace TableQuery

open Text

inductive Lexeme where
  | ident (name : List Char)
  | text (cs : List Char)
  | word (cs : List Char)
  | integer (n : Int)
  /-- A bound parameter: `?`, or `$` and its number. -/
  | placeholder (number : Option Nat)
  /-- A sign: a comparison, a parenthesis, the comma or the star. -/
  | sign (s : Symbol)
deriving DecidableEq, Repr

namespace Lexeme

/-- What stands before the closing quote, and what follows that quote. -/
def unquote? (quote : Char) : List Char → Option (List Char × List Char)
  | [] => none
  | [c] => if c = quote then some ([], []) else none
  | c :: d :: rest =>
    if c ≠ quote then (unquote? quote (d :: rest)).map fun (cs, rest) => (c :: cs, rest)
    else if d = quote then (unquote? quote rest).map fun (cs, rest) => (c :: cs, rest)
    else some ([], d :: rest)

theorem length_unquote? {quote : Char} {cs inside rest : List Char}
    (h : unquote? quote cs = some (inside, rest)) : rest.length < cs.length := by
  fun_induction unquote? quote cs generalizing inside with
  | case1 => cases h
  | case2 => cases h; simp
  | case3 => cases h
  | case4 _ _ _ _ ih | case5 _ _ _ ih =>
    obtain ⟨⟨_, _⟩, hu, he⟩ := Option.map_eq_some_iff.1 h
    cases he
    have := ih hu
    simp only [List.length_cons] at this ⊢
    omega
  | case6 => cases h; simp

/-- The signs, those first that others start. -/
def signs : List Symbol := [.ne, .le, .ge, .eq, .lt, .gt, .lparen, .rparen, .comma, .star]

/-- Reads a sign. -/
def sign? (cs : List Char) : Option (Lexeme × List Char) :=
  signs.findSome? fun s => (after? s.text.toList cs).map fun rest => (sign s, rest)

def isLetter (c : Char) : Bool := c.isAlpha || c = '_'

/-- Reads digits, and at least one. -/
def digits? (cs : List Char) : Option (Nat × List Char) :=
  let ds := cs.takeWhile Char.isDigit
  if ds = [] then none else some (Decimal.value ds, cs.dropWhile Char.isDigit)

/-- Reads the lexeme at the start of a text. -/
def next? : List Char → Option (Lexeme × List Char)
  | [] => none
  | '"' :: cs => (unquote? '"' cs).map fun (name, rest) => (ident name, rest)
  | '\'' :: cs => (unquote? '\'' cs).map fun (inside, rest) => (text inside, rest)
  | '?' :: cs => some (placeholder none, cs)
  | '$' :: cs => (digits? cs).map fun (n, rest) => (placeholder (some n), rest)
  | '-' :: cs => (digits? cs).map fun (n, rest) => (integer (-(n : Int)), rest)
  | c :: cs =>
    if c.isDigit then (digits? (c :: cs)).map fun (n, rest) => (integer n, rest)
    else if isLetter c then
      let more := fun c : Char => isLetter c || c.isDigit
      some (word (c :: cs.takeWhile more), cs.dropWhile more)
    else sign? (c :: cs)

theorem length_dropWhile_le (p : Char → Bool) (cs : List Char) :
    (cs.dropWhile p).length ≤ cs.length := (List.dropWhile_sublist p).length_le

theorem length_digits? {cs rest : List Char} {n : Nat} (h : digits? cs = some (n, rest)) :
    rest.length < cs.length := by
  simp only [digits?] at h
  split at h
  · cases h
  · rename_i hne
    cases h
    have := congrArg List.length (List.takeWhile_append_dropWhile (p := Char.isDigit) (l := cs))
    have := List.length_pos_iff.2 hne
    simp only [List.length_append] at *
    omega

theorem length_sign? {cs rest : List Char} {l : Lexeme} (h : sign? cs = some (l, rest)) :
    rest.length < cs.length := by
  obtain ⟨s, hs, h⟩ := List.exists_of_findSome?_eq_some h
  obtain ⟨_, ha, he⟩ := Option.map_eq_some_iff.1 h
  cases he
  have pos : ∀ s ∈ signs, 0 < s.text.toList.length := by decide
  have := congrArg List.length (eq_append_of_after? ha)
  have := pos s hs
  simp only [List.length_append] at *
  omega

/-- A lexeme takes up a part of the text. -/
theorem length_next? {cs rest : List Char} {l : Lexeme} (h : next? cs = some (l, rest)) :
    rest.length < cs.length := by
  unfold next? at h
  split at h
  · cases h
  · obtain ⟨⟨_, _⟩, hu, he⟩ := Option.map_eq_some_iff.1 h
    cases he
    exact Nat.lt_succ_of_lt (length_unquote? hu)
  · obtain ⟨⟨_, _⟩, hu, he⟩ := Option.map_eq_some_iff.1 h
    cases he
    exact Nat.lt_succ_of_lt (length_unquote? hu)
  · cases h; simp
  · obtain ⟨⟨_, _⟩, hd, he⟩ := Option.map_eq_some_iff.1 h
    cases he
    exact Nat.lt_succ_of_lt (length_digits? hd)
  · obtain ⟨⟨_, _⟩, hd, he⟩ := Option.map_eq_some_iff.1 h
    cases he
    exact Nat.lt_succ_of_lt (length_digits? hd)
  · split at h
    · obtain ⟨⟨_, _⟩, hd, he⟩ := Option.map_eq_some_iff.1 h
      cases he
      exact length_digits? hd
    · split at h
      · cases h
        exact Nat.lt_succ_of_le (length_dropWhile_le _ _)
      · exact length_sign? h

/-- Reads all lexemes of a text. -/
def readAll? (cs : List Char) : Option (List Lexeme) :=
  match cs with
  | [] => some []
  | ' ' :: rest => readAll? rest
  | c :: cs =>
    match h : next? (c :: cs) with
    | none => none
    | some (l, rest) =>
      have := length_next? h
      (readAll? rest).map (l :: ·)
termination_by cs.length
decreasing_by all_goals simp only [List.length_cons] at *; omega

end Lexeme

/-- The lexemes of a statement's text. -/
def Statement.lexemes? (s : Statement) : Option (List Lexeme) := Lexeme.readAll? s.sql.toList

end TableQuery

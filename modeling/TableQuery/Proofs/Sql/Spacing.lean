/-
The signs of comparison that a fragment writes, with the spaces around each.

A reader who counts spaces finds between two pieces the space that stands
there, so the spaces around a sign depend on its two neighbours alone
(`comparisons?_statement`). If no sign stands where two fragments meet, the
signs of both are those of one and then those of the other
(`comparisons_append`).
-/
import TableQuery.Proofs.Query.Vocabulary
import TableQuery.Proofs.Sql.Reading
import TableQuery.Sql.Spacing

namespace TableQuery

namespace Lexeme

theorem readSpaced?_of_next? {cs rest : List Char} {l : Lexeme} (h : next? cs = some (l, rest)) (count : Nat) :
    readSpaced? count cs = (readSpaced? 0 rest).map fun (ls, last) => ((count, l) :: ls, last) := by
  cases cs with
  | nil => cases h
  | cons c cs =>
    have hne : c ≠ ' ' := fun he => by
      subst he
      cases h
    rw [readSpaced?]
    · split
      · next hn => rw [h] at hn; cases hn
      · next hn => rw [h] at hn; cases hn; rfl
    · exact hne

theorem readSpaced?_spaces (count n : Nat) (rest : List Char) :
    readSpaced? count (List.replicate n ' ' ++ rest) = readSpaced? (count + n) rest := by
  induction n generalizing count with
  | zero => rfl
  | succ n ih =>
    rw [List.replicate_succ, List.cons_append, readSpaced?, ih]
    congr 1
    omega

end Lexeme

namespace Piece

/-- A sign of comparison between so many spaces; nothing, if the piece is none. -/
def comparison (before after : Nat) : Piece → List SpacedSign
  | symbol s => if s.isComparison then [⟨s, before, after⟩] else []
  | _ => []

theorem comparison_eq_nil {p : Piece} (h : p.isComparison = false) (before after : Nat) :
    p.comparison before after = [] := by
  cases p with
  | symbol s => exact if_neg (Bool.eq_false_iff.1 h)
  | _ => rfl

/-- No name, text or value reads as a sign. -/
theorem comparison_lexeme (d : Dialect) (index before after : Nat) (p : Piece) :
    (p.lexeme d index).comparison before after = p.comparison before after := by
  cases p with
  | symbol s => cases s <;> rfl
  | raw text =>
    show (rawLexeme text.toList).comparison before after = []
    unfold rawLexeme
    split <;> rfl
  | ident | number | param => rfl

end Piece

namespace Fragment

open Lexeme

/-! ## As they are read -/

/-- The lexemes of a fragment, each with the spaces before it, of which the first has `before`. -/
def spacedFrom (d : Dialect) : Nat → Nat → Fragment → List (Nat × Lexeme)
  | _, _, [] => []
  | count, before, p :: f => (before, p.lexeme d (count + 1)) :: spacedFrom d (count + p.arity) (gap p f) f

theorem readSpaced?_textFrom (d : Dialect) (f : Fragment) (hf : ∀ p ∈ f, p.isPlain) (count before : Nat) :
    readSpaced? before (f.textFrom d count) = some (f.spacedFrom d count before, if f = [] then before else 0) := by
  induction f generalizing count before with
  | nil => rw [textFrom, readSpaced?]; rfl
  | cons p f ih =>
    have ih := ih (fun q hq => hf q (by simp [hq])) (count + p.arity) (gap p f)
    rw [readSpaced?_of_next? (next?_textFrom d hf count), readSpaced?_spaces, Nat.zero_add, ih]
    cases f <;> rfl

/-- The signs of comparison of a fragment, each with the spaces around it, when `before` stand before
the fragment. -/
def comparisonsFrom : Nat → Fragment → List SpacedSign
  | _, [] => []
  | before, p :: f => p.comparison before (gap p f) ++ comparisonsFrom (gap p f) f

/-- The signs of comparison of a fragment. -/
def comparisons (f : Fragment) : List SpacedSign := f.comparisonsFrom 0

theorem comparisons_spacedFrom (d : Dialect) (f : Fragment) (count before : Nat) :
    Lexeme.comparisons 0 (f.spacedFrom d count before) = f.comparisonsFrom before := by
  induction f generalizing count before with
  | nil => rfl
  | cons p f ih =>
    have hafter : (spacedFrom d (count + p.arity) (gap p f) f).head?.elim 0 (·.1) = gap p f := by
      cases f <;> rfl
    rw [spacedFrom, Lexeme.comparisons, hafter, p.comparison_lexeme, ih, comparisonsFrom]

/-- **The signs that a statement's text has** are those of its fragment. -/
theorem comparisons?_statement (d : Dialect) {f : Fragment} (hf : ∀ p ∈ f, p.isPlain) :
    (f.statement d).comparisons? = some f.comparisons := by
  rw [Statement.comparisons?, statement, String.toList_ofList, text, readSpaced?_textFrom d f hf, Option.map_some]
  dsimp only
  rw [ite_self, comparisons_spacedFrom]
  rfl

/-! ## One fragment after another -/

/-- The spaces before a fragment matter only to a sign that starts it. -/
theorem comparisonsFrom_of_head? {f : Fragment} (h : ∀ p ∈ f.head?, p.isComparison = false) (before : Nat) :
    f.comparisonsFrom before = f.comparisons := by
  cases f with
  | nil => rfl
  | cons p f =>
    rw [comparisons, comparisonsFrom, comparisonsFrom, p.comparison_eq_nil (h p rfl), p.comparison_eq_nil (h p rfl)]

theorem comparisonsFrom_append {f g : Fragment} (hf : ∀ p ∈ f.getLast?, p.isComparison = false)
    (hg : ∀ p ∈ g.head?, p.isComparison = false) (before : Nat) :
    (f ++ g).comparisonsFrom before = f.comparisonsFrom before ++ g.comparisons := by
  induction f generalizing before with
  | nil => exact comparisonsFrom_of_head? hg before
  | cons p f ih =>
    cases f with
    | nil =>
      have hp := hf p rfl
      rw [List.singleton_append, comparisonsFrom, comparisonsFrom, p.comparison_eq_nil hp, p.comparison_eq_nil hp,
        comparisonsFrom_of_head? hg]
      rfl
    | cons q f =>
      have ih := ih (by rwa [List.getLast?_cons_cons] at hf) (gap p (q :: f))
      rw [List.cons_append, comparisonsFrom, comparisonsFrom, List.append_assoc, ← ih]
      rfl

/-- The signs of a fragment that neither starts nor ends in one. -/
structure Writes (f : Fragment) (signs : List SpacedSign) : Prop where
  starts : ∀ p ∈ f.head?, p.isComparison = false
  ends : ∀ p ∈ f.getLast?, p.isComparison = false
  comparisons : f.comparisons = signs

/-- Without any sign of comparison. -/
def Signless (f : Fragment) : Prop := f.all fun p => !p.isComparison

namespace Signless

variable {f g : Fragment} {p : Piece}

theorem not_isComparison (h : f.Signless) (hp : p ∈ f) : p.isComparison = false :=
  Bool.not_inj (List.all_eq_true.1 h p hp)

theorem symbol {s : Symbol} (h : s.isComparison = false) : Signless (.symbol s) := by
  simp [Signless, Piece.isComparison, h]

theorem append (hf : f.Signless) (hg : g.Signless) : (f ++ g).Signless := by
  rw [Signless, List.all_append, Bool.and_eq_true]
  exact ⟨hf, hg⟩

theorem tail (h : Signless (p :: f)) : f.Signless := (Bool.and_eq_true_iff.1 h).2

theorem comparisonsFrom_eq_nil (h : f.Signless) (before : Nat) : f.comparisonsFrom before = [] := by
  induction f generalizing before with
  | nil => rfl
  | cons p f ih =>
    rw [comparisonsFrom, p.comparison_eq_nil (h.not_isComparison List.mem_cons_self), ih h.tail]
    rfl

theorem writes (h : f.Signless) : f.Writes [] where
  starts _ hp := h.not_isComparison (List.mem_of_head? hp)
  ends _ hp := h.not_isComparison (List.mem_of_getLast? hp)
  comparisons := h.comparisonsFrom_eq_nil 0

/-- Behind a fragment without signs, the spaces are those after its last piece. -/
theorem comparisonsFrom_append (h : Signless (f ++ [p])) (g : Fragment) (before : Nat) :
    (f ++ p :: g).comparisonsFrom before = g.comparisonsFrom (gap p g) := by
  induction f generalizing before with
  | nil =>
    rw [List.nil_append, comparisonsFrom, p.comparison_eq_nil (h.not_isComparison List.mem_cons_self)]
    rfl
  | cons q f ih =>
    rw [List.cons_append, comparisonsFrom, q.comparison_eq_nil (h.not_isComparison List.mem_cons_self), ih h.tail]
    rfl

/-- A comparison with a value has one sign: the space before it depends on what ends the left side. -/
theorem writes_compared (h : Signless (f ++ [p])) {s : Symbol} (hs : s.isComparison) (v : Value) :
    Writes (f ++ [p] ++ [Piece.symbol s, .param v]) [⟨s, if p.spaced (.symbol s) then 1 else 0, 1⟩] where
  starts q hq := h.writes.starts q (by cases f <;> exact hq)
  ends q hq := by
    have hlast : (f ++ [p] ++ [Piece.symbol s, .param v]).getLast? = some (.param v) := by simp
    rw [hlast] at hq
    cases hq
    rfl
  comparisons := by
    have hafter : gap (.symbol s) [.param v] = 1 := by cases s <;> first | rfl | cases hs
    have hsign : ∀ before after, (Piece.symbol s).comparison before after = [⟨s, before, after⟩] :=
      fun _ _ => if_pos hs
    rw [List.append_assoc, List.singleton_append, comparisons, h.comparisonsFrom_append, gap_cons, comparisonsFrom,
      hsign, hafter]
    rfl

end Signless

namespace Writes

variable {f g : Fragment} {ss ts : List SpacedSign}

/-- No sign stands where two fragments meet. -/
theorem append (hf : f.Writes ss) (hg : g.Writes ts) : (f ++ g).Writes (ss ++ ts) where
  starts p hp := by
    rw [List.head?_append, Option.mem_def, Option.or_eq_some_iff] at hp
    exact hp.elim (hf.starts p) fun h => hg.starts p h.2
  ends p hp := by
    rw [List.getLast?_append, Option.mem_def, Option.or_eq_some_iff] at hp
    exact hp.elim (hg.ends p) fun h => hf.ends p h.2
  comparisons := by
    rw [Fragment.comparisons, comparisonsFrom_append hf.ends hg.starts, ← hf.comparisons, ← hg.comparisons]
    rfl

theorem separated {α : Type} {sep : Symbol} (hs : sep.isComparison = false) {f : α → Fragment}
    {ss : α → List SpacedSign} {as : List α} (h : ∀ a ∈ as, (f a).Writes (ss a)) :
    (Fragment.separated sep (as.map f)).Writes (as.flatMap ss) := by
  induction as with
  | nil => exact Signless.writes rfl
  | cons a as ih =>
    have hfirst := h a List.mem_cons_self
    have ih := ih fun b hb => h b (List.mem_cons_of_mem a hb)
    cases as with
    | nil => simpa [Fragment.separated] using hfirst
    | cons b as => exact hfirst.append ((Signless.symbol hs).writes.append ih)

end Writes

end Fragment

end TableQuery

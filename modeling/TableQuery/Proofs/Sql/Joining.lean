/-
Texts of fragments, joined and taken apart.

The text of a fragment is that of its pieces between the placeholders, with
the placeholders numbered on from those before it (`textFrom_eq_fill`). Where
one fragment follows another, the last of such texts and the first of the
others meet, with a space between them or none (`segments_append`).

Before a word there is a space, whatever stands there but an opening
parenthesis; so the text of fragments, the later of which start with a word,
is their texts with a space between (`textFrom_append`).
-/
import TableQuery.Proofs.Sql.Parameters

namespace TableQuery

/-- Segments of text with a placeholder between each two, numbered on from the
`count` placeholders before them. -/
def Dialect.fill (d : Dialect) : Nat → List (List Char) → List Char
  | _, [] => []
  | _, [s] => s
  | count, s :: t :: rest => s ++ d.placeholder (count + 1) ++ d.fill (count + 1) (t :: rest)

/-- Puts text before the first segment. -/
def prepend (cs : List Char) : List (List Char) → List (List Char)
  | [] => [cs]
  | s :: rest => (cs ++ s) :: rest

@[simp]
theorem prepend_ne_nil (cs : List Char) (ss : List (List Char)) : prepend cs ss ≠ [] := by
  cases ss <;> nofun

theorem length_prepend (cs : List Char) {ss : List (List Char)} (h : ss ≠ []) :
    (prepend cs ss).length = ss.length := by
  cases ss with
  | nil => exact absurd rfl h
  | cons s ss => rfl

theorem prepend_nil {ss : List (List Char)} (h : ss ≠ []) : prepend [] ss = ss := by
  cases ss with
  | nil => exact absurd rfl h
  | cons s ss => rfl

@[simp]
theorem prepend_prepend (cs ds : List Char) (ss : List (List Char)) :
    prepend cs (prepend ds ss) = prepend (cs ++ ds) ss := by
  cases ss with
  | nil => rfl
  | cons s ss => simp [prepend]

@[simp]
theorem Dialect.fill_prepend (d : Dialect) (count : Nat) (cs : List Char) (ss : List (List Char)) :
    d.fill count (prepend cs ss) = cs ++ d.fill count ss := by
  match ss with
  | [] => simp [prepend, fill]
  | [s] => rfl
  | s :: t :: rest => simp [prepend, fill]

/-- Segments after others: the first goes on where the last of the others ends. -/
def meld : List (List Char) → List (List Char) → List (List Char)
  | [], ts => ts
  | [s], ts => prepend s ts
  | s :: t :: ss, ts => s :: meld (t :: ss) ts

theorem length_meld {ss ts : List (List Char)} {m n : Nat} (hs : ss.length = m + 1) (ht : ts.length = n + 1) :
    (meld ss ts).length = m + n + 1 := by
  fun_induction meld ss ts generalizing m with
  | case1 => cases hs
  | case2 s ts =>
    cases hs
    rw [length_prepend _ (List.ne_nil_of_length_eq_add_one ht), ht, Nat.zero_add]
  | case3 s t ss ts ih =>
    cases m with
    | zero => cases hs
    | succ m =>
      rw [List.length_cons, ih (Nat.succ.inj hs) ht]
      omega

theorem meld_prepend (cs : List Char) {ss : List (List Char)} (h : ss ≠ []) (ts : List (List Char)) :
    meld (prepend cs ss) ts = prepend cs (meld ss ts) := by
  match ss with
  | [] => exact absurd rfl h
  | [s] => exact (prepend_prepend cs s ts).symm
  | s :: t :: ss => rfl

theorem meld_ne_nil {ss : List (List Char)} (h : ss ≠ []) (ts : List (List Char)) : meld ss ts ≠ [] := by
  match ss with
  | [] => exact absurd rfl h
  | [s] => exact prepend_ne_nil s ts
  | s :: t :: ss => nofun

theorem Dialect.fill_cons (d : Dialect) (count : Nat) (s : List Char) {ss : List (List Char)} (h : ss ≠ []) :
    d.fill count (s :: ss) = s ++ d.placeholder (count + 1) ++ d.fill (count + 1) ss := by
  cases ss with
  | nil => exact absurd rfl h
  | cons t ss => rfl

/-- The placeholders of later segments are numbered on from those of the earlier. -/
theorem Dialect.fill_meld (d : Dialect) (count : Nat) {ss : List (List Char)} {n : Nat} (hs : ss.length = n + 1)
    (ts : List (List Char)) : d.fill count (meld ss ts) = d.fill count ss ++ d.fill (count + n) ts := by
  fun_induction meld ss ts generalizing count n with
  | case1 => cases hs
  | case2 s ts =>
    cases hs
    exact d.fill_prepend count s ts
  | case3 s t ss ts ih =>
    cases n with
    | zero => cases hs
    | succ n =>
      rw [d.fill_cons count s (meld_ne_nil (List.cons_ne_nil t ss) ts), ih (count + 1) (Nat.succ.inj hs),
        d.fill_cons count s (List.cons_ne_nil t ss), List.append_assoc _ _ (d.fill _ ts), Nat.add_assoc count 1,
        Nat.add_comm 1]

/-- Placeholders without a number are the same wherever the text stands. -/
theorem Dialect.fill_sqlite (count : Nat) (ss : List (List Char)) :
    sqlite.fill count ss = sqlite.fill 0 ss := by
  induction ss generalizing count with
  | nil => rfl
  | cons s ss ih =>
    cases ss with
    | nil => rfl
    | cons t ss => rw [fill, fill, ih (count + 1), ih (0 + 1)]; rfl

namespace Piece

/-- What stands between two neighbours: one space, if they need it. -/
def between : Option Piece → Option Piece → List Char
  | some p, some q => if p.spaced q then [' '] else []
  | _, _ => []

@[simp]
theorem between_none (p : Option Piece) : between p none = [] := by cases p <;> rfl

theorem needSpace_of_readsAsWord {p q : Piece} (hp : p ≠ .symbol .lparen) (hq : q.readsAsWord) :
    p.needSpace q := by
  unfold needSpace
  split
  · cases hq
  · cases hq
  · exact absurd rfl hp
  · rfl
  · exact hq
  · cases hq
  · cases hq
  · cases hq
  · cases hq
  · -- What is left of the parenthesis is a comparison or a word.
    next hpl hpc hpr _ _ _ _ _ _ =>
      rw [Lexeme.readsAsWord_of_not_punctuation hpl hpr hpc, hq]
      cases p.isComparison <;> simp

/-- Puts the text of a piece before the segments: a placeholder stands between
two of them, anything else joins the first. -/
def onto (d : Dialect) (ss : List (List Char)) : Piece → List (List Char)
  | param _ => [] :: ss
  | p => prepend (p.text d 0) ss

theorem fill_onto (d : Dialect) (count : Nat) {ss : List (List Char)} (h : ss ≠ []) (p : Piece) :
    d.fill count (p.onto d ss) = p.text d (count + 1) ++ d.fill (count + p.arity) ss := by
  cases p with
  | param v =>
    cases ss with
    | nil => exact absurd rfl h
    | cons s ss => rfl
  | _ => exact d.fill_prepend count _ ss

theorem length_onto (d : Dialect) {ss : List (List Char)} (h : ss ≠ []) (p : Piece) :
    (p.onto d ss).length = ss.length + p.arity := by
  cases p with
  | param v => rfl
  | _ => exact length_prepend _ h

theorem meld_onto (d : Dialect) {ss : List (List Char)} (h : ss ≠ []) (ts : List (List Char)) (p : Piece) :
    meld (p.onto d ss) ts = p.onto d (meld ss ts) := by
  cases p with
  | param v =>
    cases ss with
    | nil => exact absurd rfl h
    | cons s ss => rfl
  | _ => exact meld_prepend _ h ts

end Piece

namespace Fragment

/-- The text of a fragment without its placeholders. -/
def segments (d : Dialect) : Fragment → List (List Char)
  | [] => [[]]
  | [p] => p.onto d [[]]
  | p :: q :: rest => p.onto d (prepend (if p.spaced q then [' '] else []) (segments d (q :: rest)))

@[simp]
theorem length_segments (d : Dialect) (f : Fragment) : (f.segments d).length = f.params.length + 1 := by
  induction f with
  | nil => rfl
  | cons p f ih =>
    cases f with
    | nil => rw [segments, p.length_onto d (List.cons_ne_nil _ _), length_params_cons, Nat.add_comm]; rfl
    | cons q f =>
      have hne : segments d (q :: f) ≠ [] := List.ne_nil_of_length_eq_add_one ih
      rw [segments, p.length_onto d (prepend_ne_nil _ _), length_prepend _ hne, ih, length_params_cons p]
      omega

@[simp]
theorem segments_ne_nil (d : Dialect) (f : Fragment) : f.segments d ≠ [] :=
  List.ne_nil_of_length_eq_add_one (f.length_segments d)

/-- **The text of a fragment** is its segments, with placeholders between them. -/
theorem textFrom_eq_fill (d : Dialect) (count : Nat) (f : Fragment) :
    f.textFrom d count = d.fill count (f.segments d) := by
  induction f generalizing count with
  | nil => rfl
  | cons p f ih =>
    cases f with
    | nil => simp [segments, p.fill_onto d count, textFrom, Dialect.fill]
    | cons q f => simp [segments, p.fill_onto d count, textFrom, ih]

/-! ## One fragment after another -/

/-- Where two fragments meet, the last segment of one and the first of the other become one. -/
theorem segments_append (d : Dialect) (f g : Fragment) :
    (f ++ g).segments d = meld (f.segments d) (prepend (Piece.between f.getLast? g.head?) (g.segments d)) := by
  induction f with
  | nil =>
    change g.segments d = prepend [] (prepend [] (g.segments d))
    simp [prepend_nil]
  | cons p f ih =>
    cases f with
    | nil =>
      -- What follows the last piece of `f` is the space and then `g`, if there is any.
      rw [segments, p.meld_onto d (List.cons_ne_nil _ _), meld, prepend_nil (prepend_ne_nil _ _)]
      cases g with
      | nil => rfl
      | cons q g => rfl
    | cons q f =>
      rw [List.getLast?_cons_cons, segments, p.meld_onto d (prepend_ne_nil _ _),
        meld_prepend _ (segments_ne_nil d _), ← ih]
      rfl

/-- The text of one fragment after another, whatever they end and start with. -/
theorem textFrom_append_between (d : Dialect) (count : Nat) (f g : Fragment) :
    (f ++ g).textFrom d count =
      f.textFrom d count ++ (Piece.between f.getLast? g.head? ++ g.textFrom d (count + f.params.length)) := by
  simp [textFrom_eq_fill, segments_append, d.fill_meld count (f.length_segments d)]

/-- Not empty, and not ending in an opening parenthesis. -/
def Closed (f : Fragment) : Prop := ∃ p, f.getLast? = some p ∧ p ≠ .symbol .lparen

theorem Closed.concat {p : Piece} (hp : p ≠ .symbol .lparen) (f : Fragment) : Closed (f ++ [p]) :=
  ⟨p, List.getLast?_concat, hp⟩

theorem Closed.append {g : Fragment} (h : Closed g) (f : Fragment) : Closed (f ++ g) := by
  obtain ⟨p, hp, hne⟩ := h
  exact ⟨p, by rw [List.getLast?_append, hp]; rfl, hne⟩

theorem Closed.enclosed (f : Fragment) : Closed (Fragment.enclosed f) := Closed.concat (by decide) _

theorem Closed.separated {sep : Symbol} {fs : List Fragment} (hne : fs ≠ []) (h : ∀ f ∈ fs, Closed f) :
    Closed (Fragment.separated sep fs) := by
  induction fs with
  | nil => exact absurd rfl hne
  | cons f fs ih =>
    cases fs with
    | nil => exact h f (by simp)
    | cons g fs =>
      have ih := ih (List.cons_ne_nil _ _) fun f hf => h f (by simp [hf])
      exact (ih.append [.symbol sep]).append f

theorem Closed.ne_nil {f : Fragment} (h : Closed f) : f ≠ [] := by
  rintro rfl
  obtain ⟨p, hp, -⟩ := h
  cases hp

/-- The text of a fragment after others: nothing, or a space and then its own. -/
def textAfter (d : Dialect) (count : Nat) (f : Fragment) : List Char :=
  if f = [] then [] else ' ' :: f.textFrom d count

@[simp]
theorem textAfter_nil (d : Dialect) (count : Nat) : textAfter d count [] = [] := rfl

theorem textAfter_of_ne_nil (d : Dialect) (count : Nat) {f : Fragment} (h : f ≠ []) :
    f.textAfter d count = ' ' :: f.textFrom d count := if_neg h

/-- Fragments that start with a word are written after a space. -/
theorem textFrom_append (d : Dialect) {f g : Fragment} (hplain : ∀ p ∈ f ++ g, p.isPlain) (hf : f.Closed)
    (hg : ∀ p ∈ g.head?, p.readsAsWord) (count : Nat) :
    (f ++ g).textFrom d count = f.textFrom d count ++ g.textAfter d (count + f.params.length) := by
  rw [textFrom_append_between]
  cases g with
  | nil => simp [textFrom]
  | cons q g =>
    obtain ⟨p, hp, hne⟩ := hf
    have hspace : p.spaced q = true := by
      rw [Lexeme.spaced_of_isPlain (hplain p (List.mem_append_left _ (List.mem_of_getLast? hp))) (hplain q (by simp))]
      exact Piece.needSpace_of_readsAsWord hne (hg q rfl)
    rw [hp, List.head?_cons, Piece.between, if_pos hspace, textAfter_of_ne_nil d _ (List.cons_ne_nil q g)]
    rfl

theorem textAfter_append (d : Dialect) {f g : Fragment} (hplain : ∀ p ∈ f ++ g, p.isPlain)
    (hf : f = [] ∨ f.Closed) (hg : ∀ p ∈ g.head?, p.readsAsWord) (count : Nat) :
    (f ++ g).textAfter d count = f.textAfter d count ++ g.textAfter d (count + f.params.length) := by
  rcases hf with rfl | hf
  · rfl
  · have happend : f ++ g ≠ [] := fun h => hf.ne_nil (List.append_eq_nil_iff.1 h).1
    rw [textAfter_of_ne_nil d count happend, textFrom_append d hplain hf hg, textAfter_of_ne_nil d count hf.ne_nil,
      List.cons_append]

/-- What a fragment writes after others, without its placeholders. -/
def template (d : Dialect) (f : Fragment) : List (List Char) :=
  if f = [] then [[]] else prepend [' '] (f.segments d)

theorem textAfter_eq_fill (d : Dialect) (count : Nat) (f : Fragment) :
    f.textAfter d count = d.fill count (f.template d) := by
  unfold textAfter template
  split
  · rfl
  · simp [textFrom_eq_fill]

@[simp]
theorem length_template (d : Dialect) (f : Fragment) : (f.template d).length = f.params.length + 1 := by
  unfold template
  split
  · next h => rw [h]; rfl
  · simp [length_prepend]

/-! ## Wording -/

/-- Plain pieces that start and end as words do. -/
structure Worded (f : Fragment) : Prop where
  plain : ∀ p ∈ f, p.isPlain
  starts : ∃ p, f.head? = some p ∧ p.readsAsWord
  closed : f.Closed

namespace Worded

variable {f g : Fragment}

theorem append (hf : f.Worded) (hg : g.Worded) : (f ++ g).Worded where
  plain p hp := (List.mem_append.1 hp).elim (hf.plain p) (hg.plain p)
  starts := by
    obtain ⟨p, hp, hword⟩ := hf.starts
    exact ⟨p, by rw [List.head?_append, hp]; rfl, hword⟩
  closed := hg.closed.append f

/-- Wordings are written with a space between. -/
theorem textFrom_append (hf : f.Worded) (hg : g.Worded) (d : Dialect) (count : Nat) :
    (f ++ g).textFrom d count = f.textFrom d count ++ ' ' :: g.textFrom d (count + f.params.length) := by
  obtain ⟨q, hq, hword⟩ := hg.starts
  have hhead : ∀ p ∈ g.head?, p.readsAsWord := fun p hp => by
    rw [hq] at hp
    cases hp
    exact hword
  rw [Fragment.textFrom_append d (hf.append hg).plain hf.closed hhead, textAfter_of_ne_nil d _ hg.closed.ne_nil]

theorem separated {sep : Symbol} {fs : List Fragment} (hsep : (Piece.symbol sep).isPlain) (hne : fs ≠ [])
    (h : ∀ f ∈ fs, f.Worded) : (Fragment.separated sep fs).Worded := by
  induction fs with
  | nil => exact absurd rfl hne
  | cons f fs ih =>
    have hf := h f List.mem_cons_self
    cases fs with
    | nil => exact hf
    | cons g fs =>
      have ih := ih (List.cons_ne_nil _ _) fun f hf => h f (List.mem_cons_of_mem _ hf)
      obtain ⟨p, hp, hword⟩ := hf.starts
      refine ⟨fun r hr => ?_, ⟨p, ?_, hword⟩, Closed.separated hne fun f hf => (h f hf).closed⟩
      · rcases List.mem_append.1 hr with hr | hr
        · exact hf.plain r hr
        · rcases List.mem_cons.1 hr with rfl | hr
          · exact hsep
          · exact ih.plain r hr
      · change (f ++ .symbol sep :: Fragment.separated sep (g :: fs)).head? = some p
        rw [List.head?_append, hp]
        rfl

theorem word {s : Symbol} (h : (Piece.symbol s).readsAsWord) : Worded (.symbol s) where
  plain p hp := by cases List.mem_singleton.1 hp; rfl
  starts := ⟨_, rfl, h⟩
  closed := Closed.concat (fun he => by cases he; cases h) []

theorem ident (name : String) : Worded (.ident name) where
  plain p hp := by cases List.mem_singleton.1 hp; rfl
  starts := ⟨_, rfl, rfl⟩
  closed := Closed.concat (by nofun) []

/-- After a word, a wording goes on with a space. -/
theorem segments_word (hf : f.Worded) {s : Symbol} (hs : s ≠ .lparen) (d : Dialect) :
    segments d (.symbol s :: f) = prepend (s.text.toList ++ [' ']) (segments d f) := by
  obtain ⟨q, rest, rfl⟩ := List.exists_cons_of_ne_nil hf.closed.ne_nil
  obtain ⟨p, hp, hword⟩ := hf.starts
  cases hp
  have hspace : (Piece.symbol s).spaced q = true := by
    rw [Lexeme.spaced_of_isPlain rfl (hf.plain q List.mem_cons_self)]
    exact Piece.needSpace_of_readsAsWord (fun he => hs (Piece.symbol.inj he)) hword
  rw [segments, hspace, if_pos rfl]
  exact prepend_prepend _ _ _

theorem nameList {names : List String} (h : names ≠ []) : Worded (.nameList names) :=
  .separated rfl (by simpa using h) fun f hf => by
    obtain ⟨name, -, rfl⟩ := List.mem_map.1 hf
    exact .ident name

theorem assignments {pairs : List (String × Value)} (h : pairs ≠ []) : Worded (.assignments pairs) :=
  .separated rfl (by simpa using h) fun f hf => by
    obtain ⟨⟨name, v⟩, -, rfl⟩ := List.mem_map.1 hf
    exact ⟨by simp [Piece.isPlain], ⟨_, rfl, rfl⟩, Closed.concat (by nofun) [.ident name, .symbol .eq]⟩

end Worded

end Fragment

end TableQuery

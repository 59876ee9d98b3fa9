/-
Rendering by parts (`compositional`).

Where one text follows another, no more has to be known of them than the two
pieces that meet, for the space between these, and the number of values before,
which later placeholders are numbered on from. So what an assembly writes can be
told from what its parts write, operation by operation (`rendering_eq`); and two
assemblies with the same pieces in the same order write the same, however they
were put together.
-/
import TableQuery.Proofs.Sql.Assembly
import TableQuery.Proofs.Sql.Joining

namespace TableQuery

/-- What can be told of a fragment once it is written: the pieces at its ends, the
text between its placeholders, and the values these stand for. -/
@[ext]
structure Rendering where
  first? : Option Piece
  last? : Option Piece
  segments : List (List Char)
  params : List Value
  length_segments : segments.length = params.length + 1

namespace Rendering

/-- Nothing is written. -/
def blank : Rendering := ⟨none, none, [[]], [], rfl⟩

/-- One text after another, with the space that the pieces that meet ask for. -/
def append (r s : Rendering) : Rendering where
  first? := r.first?.or s.first?
  last? := s.last?.or r.last?
  segments := meld r.segments (prepend (Piece.between r.last? s.first?) s.segments)
  params := r.params ++ s.params
  length_segments := by
    have hlater : (prepend (Piece.between r.last? s.first?) s.segments).length = s.params.length + 1 :=
      (length_prepend _ (List.ne_nil_of_length_eq_add_one s.length_segments)).trans s.length_segments
    rw [length_meld r.length_segments hlater, List.length_append]

instance : Append Rendering := ⟨append⟩

/-- Texts with another one between each two. -/
def separated (sep : Rendering) : List Rendering → Rendering
  | [] => blank
  | [r] => r
  | r :: rest => r ++ (sep ++ separated sep rest)

def statement (d : Dialect) (r : Rendering) : Statement := ⟨String.ofList (d.fill 0 r.segments), r.params⟩

/-- **One text after another**: the first, the space and the second, whose
placeholders are numbered on from those of the first. -/
theorem statement_append (d : Dialect) (r s : Rendering) :
    (r ++ s).statement d =
      ⟨(r.statement d).sql ++ String.ofList (Piece.between r.last? s.first?) ++
        String.ofList (d.fill r.params.length s.segments), r.params ++ s.params⟩ := by
  have htext : d.fill 0 (r ++ s).segments =
      d.fill 0 r.segments ++ (Piece.between r.last? s.first? ++ d.fill r.params.length s.segments) := by
    change d.fill 0 (meld r.segments (prepend (Piece.between r.last? s.first?) s.segments)) = _
    rw [d.fill_meld 0 r.length_segments, d.fill_prepend, Nat.zero_add]
  rw [statement, htext, String.ofList_append, String.ofList_append, ← String.append_assoc]
  rfl

end Rendering

/-! ## Fragments -/

namespace Fragment

def rendering (d : Dialect) (f : Fragment) : Rendering where
  first? := f.head?
  last? := f.getLast?
  segments := f.segments d
  params := f.params
  length_segments := f.length_segments d

@[simp]
theorem statement_rendering (d : Dialect) (f : Fragment) : (f.rendering d).statement d = f.statement d := by
  rw [statement, text, textFrom_eq_fill]
  rfl

theorem sql_statement (d : Dialect) (f : Fragment) : (f.statement d).sql = String.ofList (d.fill 0 (f.segments d)) :=
  congrArg Statement.sql (f.statement_rendering d).symm

@[simp]
theorem rendering_append (d : Dialect) (f g : Fragment) : (f ++ g).rendering d = f.rendering d ++ g.rendering d :=
  Rendering.ext List.head?_append List.getLast?_append (segments_append d f g) (params_append f g)

/-- The statement of one fragment after another. -/
theorem statement_append (d : Dialect) (f g : Fragment) :
    (f ++ g).statement d =
      ⟨(f.statement d).sql ++ String.ofList (Piece.between f.getLast? g.head?) ++
        String.ofList (d.fill f.params.length (g.segments d)), f.params ++ g.params⟩ := by
  rw [← statement_rendering, rendering_append, Rendering.statement_append, statement_rendering]
  rfl

@[simp]
theorem rendering_separated (d : Dialect) (sep : Symbol) (fs : List Fragment) :
    (separated sep fs).rendering d = .separated (rendering d [.symbol sep]) (fs.map (rendering d)) := by
  induction fs with
  | nil => rfl
  | cons f fs ih =>
    cases fs with
    | nil => rfl
    | cons g fs =>
      change (f ++ ([Piece.symbol sep] ++ separated sep (g :: fs))).rendering d = _
      rw [rendering_append, rendering_append, ih]
      rfl

@[simp]
theorem rendering_enclosed (d : Dialect) (f : Fragment) :
    (enclosed f).rendering d = rendering d [.symbol .lparen] ++ f.rendering d ++ rendering d [.symbol .rparen] := by
  rw [← rendering_append, ← rendering_append]
  rfl

@[simp]
theorem rendering_call (d : Dialect) (name : String) (args : Fragment) :
    (call name args).rendering d = rendering d [.raw name] ++ (enclosed args).rendering d := by
  rw [← rendering_append]
  rfl

/-- Pieces are written one after the other. -/
theorem rendering_eq_foldr (d : Dialect) (f : Fragment) :
    f.rendering d = (f.map fun p => rendering d [p]).foldr (· ++ ·) .blank := by
  induction f with
  | nil => rfl
  | cons p f ih => rw [List.map_cons, List.foldr_cons, ← ih, ← rendering_append, List.singleton_append]

end Fragment

/-! ## Assemblies -/

namespace Assembly

mutual

/-- What an assembly writes, put together from what its parts write: no fragment
is made on the way but of single pieces. -/
def rendering (d : Dialect) : Assembly → Rendering
  | pieces ps => (ps.map fun p => Fragment.rendering d [p]).foldr (· ++ ·) .blank
  | append first second => first.rendering d ++ second.rendering d
  | push a p => a.rendering d ++ Fragment.rendering d [p]
  | join sep items => .separated (Fragment.rendering d [.symbol sep]) (renderings d items)
  | parens a => Fragment.rendering d [.symbol .lparen] ++ a.rendering d ++ Fragment.rendering d [.symbol .rparen]
  | call name args =>
    Fragment.rendering d [.raw name] ++
      (Fragment.rendering d [.symbol .lparen] ++ args.rendering d ++ Fragment.rendering d [.symbol .rparen])
  | nameList names =>
    .separated (Fragment.rendering d [.symbol .comma]) (names.map fun name => Fragment.rendering d [.ident name])
  | placeholderList vs =>
    .separated (Fragment.rendering d [.symbol .comma]) (vs.map fun v => Fragment.rendering d [.param v])
  | assignments pairs =>
    .separated (Fragment.rendering d [.symbol .comma]) (pairs.map fun (name, v) =>
      Fragment.rendering d [.ident name] ++ (Fragment.rendering d [.symbol .eq] ++ Fragment.rendering d [.param v]))

def renderings (d : Dialect) : List Assembly → List Rendering
  | [] => []
  | a :: rest => a.rendering d :: renderings d rest

end

mutual

/-- **What an assembly writes** is what its pieces write in their order. -/
theorem rendering_eq (d : Dialect) : (a : Assembly) → a.rendering d = a.sequence.rendering d
  | pieces ps => (Fragment.rendering_eq_foldr d ps).symm
  | append first second => by simp [rendering, sequence, rendering_eq d first, rendering_eq d second]
  | push a p => by simp [rendering, sequence, rendering_eq d a]
  | join sep items => by simp [rendering, sequence, renderings_eq d items]
  | parens a => by simp [rendering, sequence, rendering_eq d a]
  | call name args => by simp [rendering, sequence, rendering_eq d args]
  | nameList names => by simp [rendering, sequence, Fragment.nameList, Function.comp_def]
  | placeholderList vs => by simp [rendering, sequence, Fragment.placeholderList, Function.comp_def]
  | assignments pairs => by
    have hpair (name : String) (v : Value) : Fragment.rendering d [.ident name, .symbol .eq, .param v] =
        Fragment.rendering d [.ident name] ++
          (Fragment.rendering d [.symbol .eq] ++ Fragment.rendering d [.param v]) := by
      rw [← Fragment.rendering_append, ← Fragment.rendering_append]
      rfl
    simp [rendering, sequence, Fragment.assignments, Function.comp_def, hpair]

theorem renderings_eq (d : Dialect) : (as : List Assembly) →
    renderings d as = (sequences as).map (Fragment.rendering d)
  | [] => rfl
  | a :: rest => by rw [renderings, sequences, List.map_cons, rendering_eq d a, renderings_eq d rest]

end

end Assembly

/-- **Rendering is compositional.** Appending one fragment to another, neither of
them empty, gives the values of both in order, and a text in three parts: that of
the first; one space, if its last piece and the first piece of the second need one
between them; and that of the second, whose placeholders are numbered on from the
values of the first. Placeholders without a number stay as they are.

So the statement of an assembly can be put together from what its parts write, and
it is the same for all assemblies with the same pieces in the same order. -/
theorem Fragment.compositional (d : Dialect) :
    (∀ (f g : Fragment) (hf : f ≠ []) (hg : g ≠ []),
      let space := if (f.getLast hf).spaced (g.head hg) then " " else ""
      (f.extend g).statement d =
          ⟨(f.statement d).sql ++ space ++ String.ofList (d.fill (f.statement d).params.length (g.segments d)),
            (f.statement d).params ++ (g.statement d).params⟩ ∧
        (g.statement d).sql = String.ofList (d.fill 0 (g.segments d)) ∧
        (g.segments d).length = (g.statement d).params.length + 1 ∧
        ((f.extend g).statement .sqlite).sql = (f.statement .sqlite).sql ++ space ++ (g.statement .sqlite).sql) ∧
    ∀ a : Assembly, a.fragment.statement d = (a.rendering d).statement d ∧
      ∀ b : Assembly, b.sequence = a.sequence → b.fragment.statement d = a.fragment.statement d := by
  refine ⟨?_, fun a => ⟨?_, fun b hb => ?_⟩⟩
  · intro f g hf hg space
    have hspace : String.ofList (Piece.between f.getLast? g.head?) = space := by
      rw [List.getLast?_eq_some_getLast hf, List.head?_eq_some_head hg, Piece.between]
      exact apply_ite String.ofList _ [' '] []
    have hboth : ∀ d : Dialect, (f.extend g).statement d =
        ⟨(f.statement d).sql ++ space ++ String.ofList (d.fill f.params.length (g.segments d)),
          f.params ++ g.params⟩ := fun d => by rw [extend_eq_append, statement_append, hspace]
    refine ⟨hboth d, g.sql_statement d, g.length_segments d, ?_⟩
    rw [hboth .sqlite, g.sql_statement .sqlite, Dialect.fill_sqlite]
  · rw [a.fragment_eq_sequence, a.rendering_eq d, statement_rendering]
  · rw [b.fragment_eq_sequence, hb, a.fragment_eq_sequence]

/-- Text written as it is brings its own spaces, and what looks like a placeholder
in it is none. A list of values in parentheses is made at once and piece by piece. -/
theorem Fragment.compositional_raw_number :
    let f : Fragment := [.symbol .WHERE, .ident "a", .symbol .ge, .param (.ofInt 1), .raw " AND "]
    let g : Fragment := [.raw "b$1 =", .param (.ofInt 2)]
    let list : Assembly := .placeholderList [.ofInt 1, .ofInt 2]
    let atOnce : Assembly := .push (.append (.pieces []) (.parens list)) (.symbol .AND)
    let inPieces : Assembly := .append (.push (.pieces [.symbol .lparen, .param (.ofInt 1)]) (.symbol .comma))
      (.join .AND [.pieces [.param (.ofInt 2), .symbol .rparen], .pieces []])
    f ≠ [] ∧ g ≠ [] ∧ (g.statement .postgresql).sql = "b$1 = $1" ∧
      (f.extend g).statement .postgresql = ⟨"WHERE \"a\" >= $1 AND b$1 = $2", [.ofInt 1, .ofInt 2]⟩ ∧
      inPieces.sequence = atOnce.sequence ∧
      inPieces.fragment.statement .postgresql = atOnce.fragment.statement .postgresql := by
  intro f g list atOnce inPieces
  obtain ⟨happend, hassembly⟩ := Fragment.compositional .postgresql
  obtain ⟨hboth, halone, -⟩ := happend f g (List.cons_ne_nil _ _) (List.cons_ne_nil _ _)
  refine ⟨List.cons_ne_nil _ _, List.cons_ne_nil _ _, halone.trans (by decide), hboth.trans (by decide), rfl, ?_⟩
  exact (hassembly atOnce).2 inPieces rfl

end TableQuery

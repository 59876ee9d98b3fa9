/-
The vocabulary of a query's clauses: which symbols and which texts each is
made of, next to names, numbers and values.

What is true of all these pieces is true of every piece of the clause, whatever
the query (`all_conditions`, `all_order`, `all_columns`, `all_range`).
-/
import TableQuery.Query.Statement

namespace TableQuery

/-- The text that clauses write as it is. -/
def clauseTexts : List String :=
  "strftime" :: (DatePart.all.map DatePart.extractUnit ++ DatePart.all.map DatePart.strftimeFormat)

def conditionSymbols : List Symbol :=
  [.WHERE, .AND, .IN, .NOT, .LIKE, .IS, .NULL, .CAST, .AS, .INTEGER, .TEXT, .EXTRACT, .FROM, .lparen, .rparen,
    .comma, .eq, .ne, .lt, .le, .gt, .ge]

/-- Of the symbols of conditions, those that what they look at is made of. -/
def operandSymbols : List Symbol := [.CAST, .AS, .INTEGER, .TEXT, .EXTRACT, .FROM, .lparen, .rparen, .comma]

/-- The symbols that what rows are ordered by is made of. -/
def keySymbols : List Symbol := [.CASE, .WHEN, .THEN, .ELSE, .END]

def orderSymbols : List Symbol := [.ORDER, .BY, .CASE, .WHEN, .THEN, .ELSE, .END, .ASC, .DESC, .comma]

/-- A property of everything that can be written with these symbols. -/
structure Piece.Spans (P : Piece → Bool) (symbols : List Symbol) : Prop where
  symbol : ∀ s ∈ symbols, P (.symbol s)
  raw : ∀ t ∈ clauseTexts, P (.raw t)
  ident : ∀ name, P (.ident name)
  number : ∀ n, P (.number n)
  param : ∀ v, P (.param v)

variable {P : Piece → Bool}

theorem Piece.Spans.mono {symbols more : List Symbol} (h : Piece.Spans P more) (hsub : symbols ⊆ more) :
    Piece.Spans P symbols :=
  { h with symbol := fun s hs => h.symbol s (hsub hs) }

theorem Piece.spans_ne {s : Symbol} {symbols : List Symbol} (h : s ∉ symbols) :
    Spans (fun p => p ≠ .symbol s) symbols where
  symbol _ ht := decide_eq_true fun he => h (Piece.symbol.inj he ▸ ht)
  raw _ _ := rfl
  ident _ := rfl
  number _ := rfl
  param _ := rfl

namespace Fragment

theorem not_mem_of_all_ne {p : Piece} {f : Fragment} (h : f.all fun r => r ≠ p) : p ∉ f := fun hp => by
  have := List.all_eq_true.1 h p hp
  simp at this

@[simp] theorem all_separated {sep : Symbol} (hs : P (.symbol sep)) (fs : List Fragment) :
    (separated sep fs).all P = fs.all fun f => f.all P := by
  cases fs with
  | nil => rfl
  | cons f fs => simp [separated_cons, hs]

@[simp] theorem all_enclosed (f : Fragment) :
    (enclosed f).all P = (P (.symbol .lparen) && (f.all P && P (.symbol .rparen))) := by
  simp [enclosed]

@[simp] theorem all_call (name : String) (args : Fragment) :
    (call name args).all P = (P (.raw name) && (enclosed args).all P) := by
  simp [call]

@[simp] theorem all_nameList (hc : P (.symbol .comma)) (hi : ∀ name, P (.ident name)) (names : List String) :
    (nameList names).all P := by
  simp [nameList, hc, hi]

@[simp] theorem all_placeholderList (hc : P (.symbol .comma)) (hp : ∀ v, P (.param v)) (vs : List Value) :
    (placeholderList vs).all P := by
  simp [placeholderList, hc, hp]

theorem all_valueList (hl : P (.symbol .lparen)) (hr : P (.symbol .rparen)) (hc : P (.symbol .comma))
    (hp : ∀ v, P (.param v)) (vs : List Value) : (enclosed (placeholderList vs)).all P := by
  simp [hl, hr, all_placeholderList hc hp vs, -List.all_eq_true]

@[simp] theorem all_assignments (hc : P (.symbol .comma)) (he : P (.symbol .eq)) (hi : ∀ name, P (.ident name))
    (hp : ∀ v, P (.param v)) (pairs : List (String × Value)) : (assignments pairs).all P := by
  simp [assignments, hc, he, hi, hp]

end Fragment

theorem Test.all_fragment (h : Piece.Spans P conditionSymbols) {left : Fragment} (hl : left.all P) (t : Test) :
    (t.fragment left).all P := by
  have hc : ∀ c : Comparison, P (.symbol c.symbol) := fun c => h.symbol _ (by cases c <;> decide)
  have hlist := Fragment.all_placeholderList (h.symbol .comma (by decide)) h.param
  unfold Test.fragment
  split
  case h_1 | h_2 => simp (disch := decide) [hl, h.symbol]
  case h_3 => simp [hl, hc, h.param]
  case h_4 | h_5 => simp (disch := decide) [hl, h.symbol, hlist]
  case h_6 | h_7 => simp (disch := decide) [hl, h.symbol, h.param]

theorem DatePart.all_fragment (h : Piece.Spans P operandSymbols) (d : Dialect) (part : DatePart)
    {column : Fragment} (hc : column.all P) : (part.fragment d column).all P := by
  have hu := h.raw part.extractUnit (by cases part <;> decide)
  have hf := h.raw part.strftimeFormat (by cases part <;> decide)
  have hn := h.raw "strftime" (by decide)
  cases d <;> simp (disch := decide) [DatePart.fragment, h.symbol, hc, hu, hf, hn]

namespace Query

theorem all_leftSide (h : Piece.Spans P operandSymbols) (q : Query) (p : Predicate) : (q.leftSide p).all P := by
  have hident : (Fragment.ident p.field).all P := by simp [h.ident]
  unfold leftSide
  split
  · exact DatePart.all_fragment h _ _ hident
  · split
    · simp (disch := decide) [h.symbol, h.ident]
    · exact hident

theorem all_conditions (h : Piece.Spans P conditionSymbols) (q : Query) : q.conditions.all P := by
  unfold conditions
  split
  · rfl
  · have hwhere := h.symbol .WHERE (by decide)
    have hand := h.symbol .AND (by decide)
    have htest : ∀ p : Predicate, (p.test.fragment (q.leftSide p)).all P := fun p =>
      p.test.all_fragment h (q.all_leftSide (h.mono (by decide)) p)
    simp [hwhere, hand, htest]

theorem all_branches (h : Piece.Spans P keySymbols) (rank : Nat) (vs : List Value) :
    (SortKey.branches rank vs).all P := by
  induction vs generalizing rank with
  | nil => rfl
  | cons v vs ih =>
    rw [SortKey.branches]
    simpa (disch := decide) [h.symbol, h.param, h.number] using ih (rank + 1)

theorem all_key (h : Piece.Spans P keySymbols) (s : SortKey) : s.key.all P := by
  unfold SortKey.key
  split
  · simp [h.ident]
  · simp (disch := decide) [h.symbol, h.ident, h.number, all_branches h]

theorem all_order (h : Piece.Spans P orderSymbols) (q : Query) : q.order.all P := by
  unfold order
  split
  · rfl
  · have hword := h.symbol .ORDER (by decide)
    have hby := h.symbol .BY (by decide)
    have hcomma := h.symbol .comma (by decide)
    have hkey : ∀ s : SortKey, s.key.all P := all_key (h.mono (by decide))
    have hdirection : ∀ d : Direction, P (.symbol d.symbol) := fun d => h.symbol _ (by cases d <;> decide)
    simp [hword, hby, hcomma, hkey, hdirection]

theorem all_columns (hstar : P (.symbol .star)) (hc : P (.symbol .comma)) (hi : ∀ name, P (.ident name))
    (q : Query) : q.columns.all P := by
  have hall : List.all [Piece.symbol .star] P := by simp [hstar]
  unfold columns
  split
  · exact hall
  split
  · split
    · exact hall
    · exact Fragment.all_nameList hc hi _
  · exact Fragment.all_nameList hc hi _

theorem all_range (hl : P (.symbol .LIMIT)) (ho : P (.symbol .OFFSET)) (hn : ∀ n, P (.number n)) (q : Query)
    (e : Extent) : (q.range e).all P := by
  unfold range
  split
  case h_3 => split <;> simp [hl, ho, hn, rowCount]
  all_goals simp [hl, ho, hn, rowCount]

end Query

end TableQuery

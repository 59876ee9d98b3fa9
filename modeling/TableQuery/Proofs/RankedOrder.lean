/-
Rows in the order of a list (`Query.order_ranks`).

A sort with a list ranks a row by a `CASE` with one branch for each value of
the list, in order. The first branch that is equal to the row's value gives the
rank, so of a value that is listed twice the first place counts, and what is not
listed comes last. Nothing is equal to null: a branch for it is written, but no
row takes it, and rows without a value come last even if null is listed.
-/
import TableQuery.Proofs.Query.Checks
import TableQuery.Proofs.Query.Order

namespace TableQuery

/-! ## Places -/

namespace Value

/-- Whether two values are the same: equal, or null both. -/
def same (equal : Value → Value → Bool) (v w : Value) : Bool :=
  if v.isNull || w.isNull then v.isNull && w.isNull else equal v w

/-- Where a value stands first in a list; the length of the list, if it does not stand in it. -/
def place (equal : Value → Value → Bool) (vs : List Value) (v : Value) : Nat := vs.findIdx (v.same equal)

theorem null_same (equal : Value → Value → Bool) (w : Value) : null.same equal w = w.isNull := rfl

theorem isNull_iff {v : Value} : v.isNull ↔ v = .null := by cases v <;> simp [isNull]

end Value

namespace SortKey

/-- The number of the first branch that is taken, counted on from `rank`. -/
theorem find?_branches (p : Value → Bool) (rank : Nat) (vs : List Value) :
    (match ((vs.zipIdx rank).map fun (v, i) => (v, (i : Int))).find? fun b => p b.1 with
      | some (_, n) => n
      | none => ((rank + vs.length : Nat) : Int)) = ((rank + vs.findIdx p : Nat) : Int) := by
  induction vs generalizing rank with
  | nil => rfl
  | cons v vs ih =>
    have ih := ih (rank + 1)
    rw [List.zipIdx_cons, List.map_cons, List.find?_cons, List.findIdx_cons]
    cases p v with
    | true => rfl
    | false =>
      rw [List.length_cons, show rank + (vs.length + 1) = rank + 1 + vs.length by omega]
      dsimp only [cond_false]
      rw [ih]
      omega

theorem eval_ranking (equal : Value → Value → Bool) (column : String) (vs : List Value) (v : Value) :
    (ranking column vs).eval equal v = (vs.findIdx fun w => !v.isNull && !w.isNull && equal v w : Nat) := by
  have hfind := find?_branches (fun w => !v.isNull && !w.isNull && equal v w) 0 vs
  rw [Nat.zero_add, Nat.zero_add] at hfind
  exact hfind

theorem eval_ranking_null (equal : Value → Value → Bool) (column : String) (vs : List Value) :
    (ranking column vs).eval equal .null = vs.length := by
  rw [eval_ranking]
  exact congrArg Nat.cast (List.findIdx_eq_length.2 fun _ _ => rfl)

/-- A rank is the place of the value, unless it is null and null is listed. -/
theorem eval_ranking_eq_place_iff (equal : Value → Value → Bool) (column : String) (vs : List Value) (v : Value) :
    (ranking column vs).eval equal v = v.place equal vs ↔ v ≠ .null ∨ .null ∉ vs := by
  by_cases hv : v = .null
  · subst hv
    rw [eval_ranking_null, Value.place, eq_comm, Int.ofNat_inj, List.findIdx_eq_length]
    constructor
    · intro h
      exact .inr fun hmem => absurd (h .null hmem) (by simp [Value.null_same, Value.isNull])
    · intro h w hw
      rw [Value.null_same, Bool.eq_false_iff]
      exact fun hnull => h.resolve_left (by simp) (Value.isNull_iff.1 hnull ▸ hw)
  · have hnull : v.isNull = false := Bool.eq_false_iff.2 fun h => hv (Value.isNull_iff.1 h)
    have hsame : (fun w => !v.isNull && !w.isNull && equal v w) = v.same equal := by
      funext w
      cases hw : w.isNull <;> simp [Value.same, hnull, hw]
    rw [eval_ranking, hsame]
    simp [Value.place, hv]

end SortKey

/-! ## Order -/

namespace RowOrder

/-- Numbers are in descending order exactly if they are in ascending order from behind. -/
theorem sorted_true_iff (numbers : List Int) : Sorted true numbers ↔ Sorted false numbers.reverse := by
  unfold Sorted
  rw [List.pairwise_reverse]
  rfl

/-- What is sorted comes in two parts: up to a number, and after it. -/
theorem eq_filter_append_filter {α : Type} {f : α → Nat} {as : List α} (h : as.Pairwise fun a b => f a ≤ f b)
    (n : Nat) : as = as.filter (f · ≤ n) ++ as.filter (n < f ·) := by
  induction as with
  | nil => rfl
  | cons a as ih =>
    obtain ⟨hfirst, hrest⟩ := List.pairwise_cons.1 h
    by_cases ha : f a ≤ n
    · rw [List.filter_cons_of_pos (by simpa using ha), List.filter_cons_of_neg (by simpa using ha), List.cons_append,
        ← ih hrest]
    · -- The first is past the number, and so is everything behind it.
      have hpast : ∀ b ∈ a :: as, n < f b := by
        intro b hb
        rcases List.mem_cons.1 hb with rfl | hb
        · omega
        · have := hfirst b hb
          omega
      have hnone : (a :: as).filter (f · ≤ n) = [] := by
        rw [List.filter_eq_nil_iff]
        intro b hb
        have := hpast b hb
        simpa using this
      rw [hnone, List.nil_append, List.filter_eq_self.2 fun b hb => decide_eq_true (hpast b hb)]

/-- What is sorted by numbers up to `n` comes in groups, one for each number. -/
theorem pairwise_iff_eq_flatMap {α : Type} (f : α → Nat) {n : Nat} {as : List α} (h : ∀ a ∈ as, f a ≤ n) :
    (as.Pairwise fun a b => f a ≤ f b) ↔ as = (List.range (n + 1)).flatMap fun i => as.filter (f · = i) := by
  constructor
  · intro hs
    induction n generalizing as with
    | zero =>
      have hall : as.filter (f · = 0) = as := List.filter_eq_self.2 fun a ha => decide_eq_true (Nat.le_zero.1 (h a ha))
      simp [hall]
    | succ n ih =>
      have hbound : ∀ a ∈ as.filter (f · ≤ n), f a ≤ n := fun a ha => of_decide_eq_true (List.mem_filter.1 ha).2
      have hlow := ih hbound (hs.filter _)
      have hgroups : ∀ i ∈ List.range (n + 1), (as.filter (f · ≤ n)).filter (f · = i) = as.filter (f · = i) := by
        intro i hi
        rw [List.filter_filter]
        refine List.filter_congr fun a _ => ?_
        have := List.mem_range.1 hi
        rw [Bool.eq_iff_iff]
        simp only [Bool.and_eq_true, decide_eq_true_eq]
        omega
      have hlast : as.filter (n < f ·) = as.filter (f · = n + 1) := List.filter_congr fun a ha => by
        have := h a ha
        rw [Bool.eq_iff_iff, decide_eq_true_eq, decide_eq_true_eq]
        omega
      rw [List.flatMap_def, List.map_congr_left hgroups, ← List.flatMap_def] at hlow
      rw [List.range_succ, List.flatMap_append, ← hlow, List.flatMap_singleton, ← hlast]
      exact eq_filter_append_filter hs n
  · intro he
    have hgroup : ∀ i, ∀ a ∈ as.filter (f · = i), f a = i := fun i a ha => of_decide_eq_true (List.mem_filter.1 ha).2
    rw [he, List.pairwise_flatMap]
    constructor
    · intro i _
      refine List.pairwise_iff_getElem.2 fun j k hj hk _ => ?_
      have hfirst := hgroup i _ (List.getElem_mem hj)
      have hsecond := hgroup i _ (List.getElem_mem hk)
      exact Nat.le_of_eq (hfirst.trans hsecond.symm)
    · refine List.pairwise_lt_range.imp fun {i j} hij a ha b hb => ?_
      rw [hgroup i a ha, hgroup j b hb]
      exact Nat.le_of_lt hij

end RowOrder

/-- Rows in ascending order of their ranks: those of the first place, then those of the second one, and
so on, and those without a place last. -/
theorem SortKey.sorted_ranking_iff (equal : Value → Value → Bool) (column : String) (vs values : List Value) :
    RowOrder.Sorted false (values.map ((ranking column vs).eval equal)) ↔
      values = (List.range (vs.length + 1)).flatMap fun i : Nat =>
        values.filter ((ranking column vs).eval equal · = i) := by
  let place := fun v : Value => vs.findIdx fun w => !v.isNull && !w.isNull && equal v w
  have heval : (ranking column vs).eval equal = fun v => (place v : Int) := funext (eval_ranking equal column vs)
  have hplace : ∀ v ∈ values, place v ≤ vs.length := fun _ _ => List.findIdx_le_length
  have hgroups := RowOrder.pairwise_iff_eq_flatMap place hplace
  rw [heval, RowOrder.Sorted, List.pairwise_map]
  simpa [Int.ofNat_le, Int.ofNat_inj] using hgroups

namespace Query

/-- **A list ranks rows by the places of their values, but for null.** Without a
raw override, the keys that a reader finds after `ORDER BY` in a selection are
the sorts of its query, each on its column and in its direction; and that of a
sort with a list is a `CASE` for which, whatever values are equal:

* the rank of a value is where the first listed value stands that is equal to it,
  neither of them null, and the length of the list if there is none; for null it
  is always that length;
* it is the place of the value in the list, where null is the same as null,
  exactly if the value is not null or null is not listed;
* rows are in ascending order exactly if those of each place stand together, in
  the order of the list, and those without a place last; and they are in
  descending order exactly if they are in ascending order from behind. -/
theorem order_ranks {q : Query} (hraw : q.draft.raw = none) (e : Extent) :
    (q.selectStatement e).order? = some (q.draft.sorts.map SortKey.asRead) ∧
      ∀ s ∈ q.draft.sorts, ∀ vs, s.ranks = some vs →
        ∃ c : SimpleCase, s.asRead = ⟨.rank c, s.direction = .desc⟩ ∧ c.column = s.field.toList ∧
          ∀ equal : Value → Value → Bool,
            (∀ v, c.eval equal v = (vs.findIdx fun w => !v.isNull && !w.isNull && equal v w : Nat)) ∧
            c.eval equal .null = vs.length ∧
            (∀ v, c.eval equal v = v.place equal vs ↔ v ≠ .null ∨ .null ∉ vs) ∧
            ∀ values : List Value,
              (RowOrder.Sorted false (values.map (c.eval equal)) ↔
                values = (List.range (vs.length + 1)).flatMap fun i : Nat => values.filter (c.eval equal · = i)) ∧
              (RowOrder.Sorted true (values.map (c.eval equal)) ↔
                RowOrder.Sorted false (values.reverse.map (c.eval equal))) := by
  refine ⟨selectStatement_eq_fragment hraw e ▸ q.order?_fragment e, ?_⟩
  intro s _ vs hvs
  refine ⟨SortKey.ranking s.field vs, by rw [SortKey.asRead, hvs], rfl, fun equal => ?_⟩
  refine ⟨SortKey.eval_ranking equal s.field vs, SortKey.eval_ranking_null equal s.field vs,
    SortKey.eval_ranking_eq_place_iff equal s.field vs, fun values => ?_⟩
  refine ⟨SortKey.sorted_ranking_iff equal s.field vs values, ?_⟩
  rw [RowOrder.sorted_true_iff, List.map_reverse]

/-- A list in which a value stands twice and null stands first: its second place is no value's rank, and
null comes last. -/
theorem order_ranks_null :
    let s : Schema := ⟨"foo", [⟨"_id", .integer, true⟩, ⟨"bar", .integer, false⟩]⟩
    let edits : List Edit := [.sortBy "bar" .asc [.null, .ofInt 1, .ofInt 1], .sortBy "pk" .desc []]
    let q : Query := { ofSchema s .sqlite with
      draft.sorts := [⟨"bar", .asc, some [.null, .ofInt 1, .ofInt 1]⟩, ⟨"_id", .desc, none⟩] }
    let c := SortKey.ranking "bar" [.null, .ofInt 1, .ofInt 1]
    (ofSchema s .sqlite).applyAll edits = .ok q ∧
      q.statement = ⟨"SELECT \"_id\", \"bar\" FROM \"foo\" ORDER BY CASE \"bar\" WHEN ? THEN 0 WHEN ? THEN 1 " ++
        "WHEN ? THEN 2 ELSE 3 END ASC, \"_id\" DESC", [.null, .ofInt 1, .ofInt 1]⟩ ∧
      q.statement.order? = some [⟨.rank c, false⟩, ⟨.column "_id".toList, true⟩] ∧
      c.eval (· == ·) (.ofInt 1) = 1 ∧ c.eval (· == ·) (.ofInt 2) = 3 ∧
      c.eval (· == ·) .null ≠ Value.null.place (· == ·) [.null, .ofInt 1, .ofInt 1] := by
  intro s edits q c
  obtain ⟨horder, hsorts⟩ := order_ranks (q := q) rfl .own
  obtain ⟨c', hc, -, hranks⟩ := hsorts ⟨"bar", .asc, some [.null, .ofInt 1, .ofInt 1]⟩ (by decide) _ rfl
  cases hc
  obtain ⟨hfirst, -, hplace, -⟩ := hranks (· == ·)
  refine ⟨by decide +kernel, by decide +kernel, horder, (hfirst _).trans (by decide), (hfirst _).trans (by decide), ?_⟩
  rw [ne_eq, hplace]
  decide

end Query

end TableQuery

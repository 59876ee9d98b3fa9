/-
What an assembly comes to: the pieces of its parts in the order in which they
are written down, with those that an operation adds around or between them
(`fragment_eq_sequence`).

An operation makes a fragment by pushing at its end. Behind the first of several
a separator stands once for each, so it comes to the same whether it is pushed in
a loop, or by the place of an item.
-/
import TableQuery.Sql.Assembly

namespace TableQuery

namespace Fragment

/-! ## The operations -/

@[simp]
theorem extend_eq_append (f g : Fragment) : f.extend g = f ++ g := by
  cases f <;> rfl

@[simp]
theorem join_eq_separated (sep : Symbol) (fs : List Fragment) : join sep fs = separated sep fs := by
  cases fs with
  | nil => rfl
  | cons f fs =>
    have hpush : ∀ made g : Fragment, made.push (.symbol sep) ++ g = made ++ .symbol sep :: g :=
      fun made g => List.append_assoc made [.symbol sep] g
    rw [separated_cons, join]
    simp only [hpush]
    exact List.foldl_append_eq_append

variable {α : Type}

theorem pushItem_of_pos (pieces : α → List Piece) (made : Fragment) (item : α) {i : Nat} (hi : 0 < i) :
    pushItem pieces made (item, i) = made ++ .symbol .comma :: pieces item := by
  rw [pushItem, if_pos hi, push, List.append_assoc, List.singleton_append]

/-- After the first item each brings its comma. -/
theorem foldl_pushItem (pieces : α → List Piece) (items : List α) {i : Nat} (hi : 0 < i) (made : Fragment) :
    (items.zipIdx i).foldl (pushItem pieces) made = made ++ items.flatMap (.symbol .comma :: pieces ·) := by
  induction items generalizing i made with
  | nil => exact (List.append_nil made).symm
  | cons item items ih =>
    rw [List.zipIdx_cons, List.foldl_cons, pushItem_of_pos pieces made item hi, ih (Nat.succ_pos i), List.flatMap_cons,
      List.append_assoc]

theorem listed_eq_separated (pieces : α → List Piece) (items : List α) :
    listed pieces items = separated .comma (items.map pieces) := by
  cases items with
  | nil => rfl
  | cons item items =>
    rw [List.map_cons, separated_cons, List.flatMap_map, listed, List.zipIdx_cons, List.foldl_cons,
      foldl_pushItem pieces items (Nat.succ_pos 0)]
    rfl

end Fragment

namespace Assembly

open Fragment

mutual

/-- The pieces of an assembly, in the order in which they are written down. -/
def sequence : Assembly → Fragment
  | pieces ps => ps
  | append first second => first.sequence ++ second.sequence
  | push a p => a.sequence ++ [p]
  | join sep items => separated sep (sequences items)
  | parens a => enclosed a.sequence
  | call name args => Fragment.call name args.sequence
  | nameList names => Fragment.nameList names
  | placeholderList vs => Fragment.placeholderList vs
  | assignments pairs => Fragment.assignments pairs

def sequences : List Assembly → List Fragment
  | [] => []
  | a :: rest => a.sequence :: sequences rest

end

mutual

/-- **The operations make the pieces of an assembly in their order.** -/
theorem fragment_eq_sequence : (a : Assembly) → a.fragment = a.sequence
  | pieces ps => rfl
  | append first second => by simp [fragment, sequence, fragment_eq_sequence first, fragment_eq_sequence second]
  | push a p => by simp [fragment, sequence, Fragment.push, fragment_eq_sequence a]
  | join sep items => by simp [fragment, sequence, fragments_eq_sequences items]
  | parens a => by simp [fragment, sequence, Fragment.push, enclosed, fragment_eq_sequence a]
  | call name args => by
    simp [fragment, sequence, Fragment.push, Fragment.call, enclosed, fragment_eq_sequence args]
  | nameList names => listed_eq_separated _ names
  | placeholderList vs => listed_eq_separated _ vs
  | assignments pairs => listed_eq_separated _ pairs

theorem fragments_eq_sequences : (as : List Assembly) → fragments as = sequences as
  | [] => rfl
  | a :: rest => by simp [fragments, sequences, fragment_eq_sequence a, fragments_eq_sequences rest]

end

end Assembly

end TableQuery

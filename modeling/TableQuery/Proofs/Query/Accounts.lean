/-
What running a query does with sources. A call that opens a cursor leaves it
holding the source it opened, and a call for one row has let its source go,
whatever came of it (`Task.Leaves`).
-/
import TableQuery.Proofs.Cursor.Accounts
import TableQuery.Proofs.Storage.Serving

namespace TableQuery

open Ledger

variable {σ α β : Type}

/-- What is held once a task is over; nothing, if it did not succeed. -/
def Outcome.held (leaves : β → List Nat) : Outcome β → List Nat
  | .ok b => leaves b
  | _ => []

/-- A task that is run holding `before` and leaves what its result holds. -/
def Task.Leaves (t : Task σ β) (before : List Nat) (leaves : β → List Nat) : Prop :=
  ∀ c, Keeps c (t c).2 before ((t c).1.held leaves)

namespace Task.Leaves

variable {t : Task σ α} {f : α → Task σ β} {before : List Nat} {middle : α → List Nat} {leaves : β → List Nat}

protected theorem pure (b : β) (leaves : β → List Nat) : (pure b : Task σ β).Leaves (leaves b) leaves :=
  fun _ _ h => h

/-- What was decided without storage holds nothing. -/
theorem ofExcept (e : Except Fault β) : (Task.ofExcept e : Task σ β).Leaves [] fun _ => [] := fun _ _ h => by
  cases e <;> exact h

protected theorem bind (h : t.Leaves before middle) (hf : ∀ a, (f a).Leaves (middle a) leaves) :
    (t >>= f).Leaves before leaves := fun c => by
  have hfirst := h c
  simp only [bind, Task.bind]
  generalize t c = result at hfirst
  obtain ⟨o, c'⟩ := result
  cases o with
  | ok a => exact hfirst.trans (hf a c')
  | failed e | stalled => exact hfirst

end Task.Leaves

namespace Storage

theorem leaves_openSource (s : Storage σ) (statement : Statement) (hint : Option UInt64) :
    (s.openSource statement hint).Leaves [] fun source => [source.id] := fun c others h => by
  rcases hf : s.fetch statement hint c.state with ⟨answer, state⟩
  rw [openSource_eq s statement hint c hf]
  cases answer with
  | ok feed => exact h.fetched statement hint
  | failed f | stalled => exact h.call rfl

theorem leaves_run (s : Storage σ) (statement : Statement) : (s.run statement).Leaves [] fun _ => [] :=
  fun c others h => by
    have hcall := h.call (e := .executed statement) rfl
    simp only [run]
    cases (s.execute statement c.state).1 <;> exact hcall

end Storage

namespace Query

variable (db : Database σ) (q : Query) (hydrate : Hydrator α)

/-! ## Opening cursors -/

theorem leaves_rows : (q.rows db).Leaves [] Cursor.held := by
  unfold rows
  split <;> exact (db.storage.leaves_openSource _ _).bind fun source => .pure _ Cursor.held

theorem leaves_values : (q.values db).Leaves [] Cursor.held :=
  (Task.Leaves.ofExcept _).bind fun _ => q.leaves_rows db

theorem leaves_keys : (q.keys db).Leaves [] Cursor.held :=
  (Task.Leaves.ofExcept _).bind fun q => q.leaves_rows db

theorem leaves_withKeys (keys : List Value) : (q.withKeys db keys).Leaves [] Cursor.held :=
  (Task.Leaves.ofExcept _).bind fun q => q.leaves_rows db

/-! ## Calls that leave nothing open -/

/-- One pull, and the source is let go, by the pull or after it. -/
theorem leaves_pullOne (source : Source) :
    (pullOne hydrate source : Task σ (Option α)).Leaves [source.id] fun _ => [] := fun c => by
  have hpull := (Cursor.ofSource source none).takes_next hydrate
  simp only [pullOne]
  generalize (Cursor.ofSource source none).next hydrate = p at hpull
  have hdrop := (hpull.trans p.cursor.takes_drop).keeps c
  cases p.outcome <;> exact hdrop

theorem leaves_firstRow (statement : Statement) : (firstRow db hydrate statement).Leaves [] fun _ => [] :=
  (db.storage.leaves_openSource _ _).bind fun source => leaves_pullOne hydrate source

theorem leaves_one : (q.one db hydrate).Leaves [] fun _ => [] := leaves_firstRow db hydrate _

theorem leaves_count : (q.count db).Leaves [] fun _ => [] :=
  (leaves_firstRow db _ _).bind fun
    | some _ => .ofExcept _
    | none => .pure 0 fun _ => []

theorem leaves_has : (q.has db).Leaves [] fun _ => [] :=
  (q.leaves_one db _).bind fun a => .pure a.isSome fun _ => []

theorem leaves_value : (q.value db hydrate).Leaves [] fun _ => [] :=
  (Task.Leaves.ofExcept _).bind fun _ => q.leaves_one db hydrate

theorem leaves_firstKey : (q.firstKey db hydrate).Leaves [] fun _ => [] :=
  (Task.Leaves.ofExcept _).bind fun q => q.leaves_one db hydrate

theorem leaves_withKey (key : Value) : (q.withKey db hydrate key).Leaves [] fun _ => [] :=
  (Task.Leaves.ofExcept _).bind fun q => q.leaves_one db hydrate

theorem leaves_first : (q.first db hydrate).Leaves [] fun _ => [] :=
  (Task.Leaves.ofExcept _).bind fun q => q.leaves_one db hydrate

theorem leaves_last : (q.last db hydrate).Leaves [] fun _ => [] :=
  (Task.Leaves.ofExcept _).bind fun q => q.leaves_one db hydrate

theorem leaves_insert : (q.insert db).Leaves [] fun _ => [] := by
  refine (Task.Leaves.ofExcept _).bind fun statement => ?_
  split
  · exact (db.storage.leaves_run _).bind fun _ => .pure none fun _ => []
  · exact leaves_firstRow db _ _

theorem leaves_update : (q.update db).Leaves [] fun _ => [] :=
  (Task.Leaves.ofExcept _).bind fun statement => db.storage.leaves_run statement

theorem leaves_delete : (q.delete db).Leaves [] fun _ => [] := db.storage.leaves_run _

end Query

end TableQuery

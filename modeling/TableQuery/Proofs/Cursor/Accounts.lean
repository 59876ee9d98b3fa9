/-
What a cursor does with its source: it pulls it while it holds it, and lets
it go with a release, once, on every way out.
-/
import TableQuery.Proofs.Cursor.Step
import TableQuery.Proofs.Storage.Ledger

namespace TableQuery

open Ledger

namespace Cursor

variable {α : Type}

/-- The number of the source a cursor holds. -/
def held (c : Cursor) : List Nat := (c.source?.map Source.id).toList

theorem held_of_source {c : Cursor} {s : Source} (h : c.source? = some s) : c.held = [s.id] := by
  rw [held, h]
  rfl

theorem held_of_none {c : Cursor} (h : c.source? = none) : c.held = [] := by
  rw [held, h]
  rfl

theorem takes_pull (hydrate : Hydrator α) (c : Cursor) (s : Source) :
    Takes [s.id] (c.pull hydrate s).events (c.pull hydrate s).cursor.held := by
  have hstep := pull_step hydrate c s
  generalize c.pull hydrate s = p at hstep
  have hone := Takes.pulled s.id
  cases hstep with
  | ended | failed | unreadable => exact hone.trans (.released s.id)
  | stalled | row => exact hone
  | lastThenEnd | lastThenRow | lastThenFailure => exact hone.trans (hone.trans (.released s.id))
  | lastThenStall => exact hone.trans hone

theorem takes_next (hydrate : Hydrator α) (c : Cursor) :
    Takes c.held (c.next hydrate).events (c.next hydrate).cursor.held := by
  cases hs : c.source? with
  | some s =>
    rw [next_of_source hs, held_of_source hs]
    exact takes_pull hydrate c s
  | none =>
    have hstep := idle_step hydrate hs
    generalize c.next hydrate = p at hstep
    rw [held_of_none hs]
    cases hstep with
    | exhausted | refused =>
      rw [held_of_none hs]
      exact .refl []
    | kept => exact .refl []

theorem takes_drop (c : Cursor) : Takes c.held c.drop [] := by
  unfold drop
  split
  · next s hs =>
    rw [held_of_source hs]
    exact .released s.id
  · next hs =>
    rw [held_of_none hs]
    exact .refl []

theorem takes_close (c : Cursor) : Takes c.held c.close.2 c.close.1.held := by
  unfold close
  split
  · exact c.takes_drop
  · exact c.takes_drop
  · exact .refl c.held

theorem takes_collect (hydrate : Hydrator α) (c : Cursor) :
    Takes c.held (c.collect hydrate).events (c.collect hydrate).cursor.held := by
  have hnext := c.takes_next hydrate
  fun_induction Cursor.collect hydrate c with
  | case1 c a c' events hp =>
    rename_i ih
    rw [hp] at hnext
    exact hnext.trans (ih (takes_next hydrate c'))
  | case2 c c' events hp | case3 c f c' events hp | case4 c c' events hp =>
    rw [hp] at hnext
    exact hnext

theorem takes_stream (hydrate : Hydrator α) (c : Cursor) :
    Takes c.held (c.stream hydrate).events (c.stream hydrate).cursor.held := by
  have hnext := c.takes_next hydrate
  fun_induction Cursor.stream hydrate c with
  | case1 c h => exact .refl c.held
  | case2 c h a c' events hp =>
    rename_i ih
    rw [hp] at hnext
    exact hnext.trans (ih (takes_next hydrate c'))
  | case3 c h c' events hp | case4 c h f c' events hp | case5 c h c' events hp =>
    rw [hp] at hnext
    exact hnext

end Cursor

end TableQuery

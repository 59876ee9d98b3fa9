/-
What a walk does with its sources: it holds that of the chunk it reads, and
has let it go before it opens the next.
-/
import TableQuery.Proofs.Cursor.Accounts
import TableQuery.Proofs.Walk.Step

namespace TableQuery

open Ledger

namespace Walk

variable {σ α : Type}

/-- The number of the source a walk holds. -/
def held (w : Walk) : List Nat :=
  match w.stage with
  | .reading chunk => chunk.held
  | _ => []

@[simp]
theorem held_advance (w : Walk) (chunk : Cursor) : (w.advance chunk).held = [] := by
  unfold advance
  split <;> rfl

/-- A chunk that has come to its end holds nothing, so it can be forgotten. -/
theorem held_after (w : Walk) (hydrate : Hydrator α) (chunk : Cursor) :
    (w.after (chunk.next hydrate)).held = (chunk.next hydrate).cursor.held := by
  have hend := Cursor.exhausted_of_next hydrate chunk
  generalize chunk.next hydrate = p at hend
  unfold after
  split
  · next ho =>
    obtain ⟨more, hp⟩ := hend ho
    have hnone : p.cursor.source? = none := by simp only [Cursor.source?, hp]
    simp [Cursor.held_of_none hnone]
  · rfl

theorem held_of_between {w : Walk} (h : w.stage = .between) : w.held = [] := by simp only [held, h]

/-- A chunk cannot be empty by size; such a walk would open nothing. -/
theorem openChunk_of_empty (db : Database σ) (hydrate : Hydrator α) {w : Walk} (h : w.chunkSize = 0)
    (c : Connection σ) : w.openChunk db hydrate c = (.failed (.invalidBounds .zeroLimit), w, c) := by
  have hquery : w.chunkQuery = .error (.invalidBounds .zeroLimit) := by
    simp only [chunkQuery, Query.limit, Bounds.withLimit, if_pos h]
    rfl
  unfold openChunk
  rw [hquery]
  rfl

theorem keeps_openChunk (db : Database σ) (hydrate : Hydrator α) {w : Walk} (hw : w.held = []) (c : Connection σ) :
    Keeps c (w.openChunk db hydrate c).2.2 [] (w.openChunk db hydrate c).2.1.held := by
  by_cases hz : w.chunkSize = 0
  · rw [openChunk_of_empty db hydrate hz, hw]
    exact fun _ h => h
  · rcases hf : db.storage.fetch (w.current.selectStatement .oneMore) w.current.rowsHint c.state with ⟨answer, state⟩
    rw [openChunk_eq db hydrate hz c hf]
    cases answer with
    | failed f | stalled =>
      rw [hw]
      exact fun _ h => h.call rfl
    | ok feed =>
      dsimp only
      rw [held_after]
      have hnext := (Cursor.ofSource ⟨c.opened, feed⟩ w.current.cursorLimit).takes_next hydrate
      intro others h
      have hpulled := hnext _ others (h.fetched (w.current.selectStatement .oneMore) w.current.rowsHint)
      rwa [List.append_assoc] at hpulled

theorem keeps_next (db : Database σ) (hydrate : Hydrator α) (w : Walk) (c : Connection σ) :
    Keeps c (w.next db hydrate c).2.2 w.held (w.next db hydrate c).2.1.held := by
  cases hs : w.stage with
  | finished =>
    rw [next_finished db hydrate hs]
    exact fun _ h => h
  | between =>
    rw [next_between db hydrate hs, held_of_between hs]
    exact keeps_openChunk db hydrate (held_of_between hs) c
  | reading chunk =>
    have hheld : w.held = chunk.held := by simp only [held, hs]
    have hpull := (chunk.takes_next hydrate).keeps c
    rw [← held_after w, ← hheld] at hpull
    rw [next_reading db hydrate hs]
    dsimp only
    split
    · next hb =>
      have hnone := held_of_between hb
      rw [hnone] at hpull
      exact hpull.trans (keeps_openChunk db hydrate hnone _)
    · exact hpull

theorem keeps_collect (db : Database σ) (hydrate : Hydrator α) (fuel : Nat) (w : Walk) (c : Connection σ) :
    Keeps c (w.collect db hydrate fuel c).2.2 w.held (w.collect db hydrate fuel c).2.1.held := by
  induction fuel generalizing w c with
  | zero => exact fun _ h => h
  | succ fuel ih =>
    have hnext := keeps_next db hydrate w c
    rw [collect]
    generalize w.next db hydrate c = result at hnext
    obtain ⟨o, w', c'⟩ := result
    cases o with
    | failed f | stalled => exact hnext
    | ok handed =>
      cases handed with
      | none => exact hnext
      | some a => exact hnext.trans (ih w' c')

theorem takes_drop (w : Walk) : Takes w.held w.drop [] := by
  cases hs : w.stage with
  | reading chunk =>
    simp only [held, drop, hs]
    exact chunk.takes_drop
  | between | finished =>
    simp only [held, drop, hs]
    exact .refl []

end Walk

end TableQuery

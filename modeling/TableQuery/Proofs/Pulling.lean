/-
Pulls, one after the other, from anything that hands out rows.

A pull that stalls can be made again. Nothing is out of place as long as a
stalled pull has read nothing; one that has (`loses`) has lost its row. What
is handed out and what is lost are together what is read (`Tracks.run`).
-/
import TableQuery.Row
import TableQuery.Storage

namespace TableQuery

/-- Something rows are pulled from, in the state `S`. -/
structure Puller (S α : Type) where
  pull : S → Outcome (Option α) × S
  /-- The rows read so far. -/
  position : S → Nat

namespace Puller

variable {S α : Type} (p : Puller S α)

/-- The pull is given up after a row was read. -/
def loses (s : S) : Bool :=
  match (p.pull s).1 with
  | .stalled => p.position s < p.position (p.pull s).2
  | _ => false

/-- Where `n` pulls lead, whatever they come to. -/
def after : Nat → S → S
  | 0, s => s
  | n + 1, s => after n (p.pull s).2

/-- The rows that `n` pulls hand out. -/
def given : Nat → S → List α
  | 0, _ => []
  | n + 1, s =>
    match (p.pull s).1 with
    | .ok (some a) => a :: given n (p.pull s).2
    | _ => given n (p.pull s).2

/-- How many of `n` pulls lose a row. -/
def losses : Nat → S → Nat
  | 0, _ => 0
  | n + 1, s => (if p.loses s then 1 else 0) + losses n (p.pull s).2

end Puller

variable {S α : Type} {p : Puller S α} {hydrate : Hydrator α} {rows : List Row}

/-- What a pull does to the number of rows read, `k`, and lost: `Q` is said of both. -/
def Moves (hydrate : Hydrator α) (rows : List Row) (k lost : Nat) (loses : Bool) (Q : Nat → Nat → Prop) :
    Outcome (Option α) → Prop
  | .ok (some a) => ∃ r, rows[k]? = some r ∧ hydrate r = .ok a ∧ Q (k + 1) lost
  | .stalled => if loses then Q (k + 1) (lost + 1) else Q k lost
  | _ => Q k lost

section

variable {k lost : Nat} {loses : Bool} {Q : Nat → Nat → Prop}

theorem Moves.stays (hl : loses = false) (h : Q k lost) : Moves hydrate rows k lost loses Q .stalled := by
  subst hl
  exact h

theorem Moves.skips (hl : loses = true) (h : Q (k + 1) (lost + 1)) :
    Moves hydrate rows k lost loses Q .stalled := by
  subst hl
  exact h

/-- Whether a row was lost matters for stalled pulls only. -/
theorem Moves.of_stalled {loses' : Bool} {o : Outcome (Option α)} (h : Moves hydrate rows k lost loses Q o)
    (hl : o = .stalled → loses = loses') : Moves hydrate rows k lost loses' Q o := by
  match o, h with
  | .ok (some _), h | .ok none, h | .failed _, h => exact h
  | .stalled, h => exact hl rfl ▸ h

theorem Moves.mono {Q' : Nat → Nat → Prop} {o : Outcome (Option α)}
    (h : Moves hydrate rows k lost loses Q o) (hQ : ∀ k lost, Q k lost → Q' k lost) :
    Moves hydrate rows k lost loses Q' o := by
  match o, h with
  | .ok (some _), ⟨r, hget, hread, hq⟩ => exact ⟨r, hget, hread, hQ _ _ hq⟩
  | .ok none, h | .failed _, h => exact hQ _ _ h
  | .stalled, h =>
    cases loses with
    | false => exact hQ k lost h
    | true => exact hQ (k + 1) (lost + 1) h

end

/-- The invariant `I` knows how many rows are read and lost, and every pull keeps it. -/
def Tracks (p : Puller S α) (hydrate : Hydrator α) (rows : List Row) (I : S → Nat → Nat → Prop) : Prop :=
  ∀ s k lost, I s k lost → Moves hydrate rows k lost (p.loses s) (I (p.pull s).2) (p.pull s).1

/-- **Pulls read the rows one after the other**: as many as they hand out or
lose. What they hand out keeps the rows' order, and if they lose none, it is
the next rows. -/
theorem Tracks.run {I : S → Nat → Nat → Prop} (h : Tracks p hydrate rows I) (n : Nat) {s : S} {k lost : Nat}
    (hs : I s k lost) :
    I (p.after n s) (k + (p.given n s).length + p.losses n s) (lost + p.losses n s) ∧
      (∃ kept : List Row, kept.Sublist (rows.drop k) ∧ kept.map hydrate = (p.given n s).map .ok) ∧
      (p.losses n s = 0 →
        ((rows.drop k).take (p.given n s).length).map hydrate = (p.given n s).map .ok) := by
  induction n generalizing s k lost with
  | zero => exact ⟨hs, ⟨[], List.nil_sublist _, rfl⟩, fun _ => by simp [Puller.given]⟩
  | succ n ih =>
    have hstep := h s k lost hs
    simp only [Puller.after, Puller.given, Puller.losses]
    cases ho : (p.pull s).1 with
    | ok handed =>
      have hkept : p.loses s = false := by simp only [Puller.loses, ho]
      rw [ho] at hstep
      simp only [hkept, Bool.false_eq_true, if_false, Nat.zero_add]
      cases handed with
      | none => exact ih hstep
      | some a =>
        obtain ⟨r, hget, hread, hs'⟩ := hstep
        obtain ⟨hI, ⟨kept, hsub, hmap⟩, hgiven⟩ := ih hs'
        obtain ⟨hk, rfl⟩ := List.getElem?_eq_some_iff.1 hget
        rw [List.drop_eq_getElem_cons hk]
        refine ⟨?_, ⟨rows[k] :: kept, hsub.cons_cons _, ?_⟩, fun hl => ?_⟩
        · rwa [List.length_cons, ← Nat.add_assoc, Nat.add_right_comm k]
        · rw [List.map_cons, hread, hmap, List.map_cons]
        · rw [List.length_cons, List.take_succ_cons, List.map_cons, hread, hgiven hl, List.map_cons]
    | failed f =>
      have hkept : p.loses s = false := by simp only [Puller.loses, ho]
      rw [ho] at hstep
      simp only [hkept, Bool.false_eq_true, if_false, Nat.zero_add]
      exact ih hstep
    | stalled =>
      rw [ho] at hstep
      cases hl : p.loses s with
      | false =>
        simp only [hl, Moves, Bool.false_eq_true, if_false, Nat.zero_add] at hstep ⊢
        exact ih hstep
      | true =>
        simp only [hl, Moves, if_true] at hstep ⊢
        obtain ⟨hI, ⟨kept, hsub, hmap⟩, -⟩ := ih hstep
        refine ⟨?_, ⟨kept, hsub.trans ?_, hmap⟩, fun hl => by omega⟩
        · rwa [Nat.add_right_comm k, Nat.add_assoc _ 1, Nat.add_assoc lost] at hI
        · rw [← List.drop_drop]
          exact List.drop_sublist 1 _

end TableQuery

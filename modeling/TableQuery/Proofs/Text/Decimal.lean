/-
Decimal digits of a fixed width: how many they are, and the number they spell; and
signed integers, which are read exactly where they are spelled
(`readInt64?_eq_some_iff`).
-/
import Mathlib.Algebra.Order.Ring.Nat
import TableQuery.Proofs.Text.Blank
import TableQuery.Text.Decimal

namespace TableQuery.Text.Decimal

variable {width n : Nat}

theorem isDigit_of_mem_padded {c : Char} (h : c ∈ padded width n) : c.isDigit := by
  simp only [padded, List.mem_append, List.mem_replicate] at h
  rcases h with ⟨-, rfl⟩ | h
  · decide
  · exact Nat.isDigit_of_mem_toDigits (by decide) (by decide) h

@[simp] theorem padded_ne_nil : padded width n ≠ [] := by
  intro h
  exact Nat.toDigits_ne_nil (List.append_eq_nil_iff.1 h).2

theorem length_padded (hw : 0 < width) (h : n < 10 ^ width) : (padded width n).length = width := by
  have hlen : (ofNat n).length ≤ width := (Nat.length_toDigits_le_iff (by decide) hw).2 h
  simp only [padded, List.length_append, List.length_replicate]
  omega

/-- Zeros in front do not count. -/
@[simp] theorem value_padded : value (padded width n) = n := by
  have hzeros : ∀ k, value (List.replicate k '0' ++ ofNat n) = n := by
    intro k
    induction k with
    | zero => exact value_ofNat n
    | succ k ih => exact ih
  exact hzeros _

/-! ## Signed integers -/

/-- Digits after one optional sign, and the number they are for. -/
def SpellsInt (cs : List Char) (n : Int) : Prop :=
  ∃ sign digits, sign ∈ [[], ['+'], ['-']] ∧ digits ≠ [] ∧ (∀ c ∈ digits, c.isDigit) ∧ cs = sign ++ digits ∧
    n = if sign = ['-'] then -(value digits : Int) else value digits

/-- An integer of 64 bits in decimal, with an optional sign. -/
def Spells (cs : List Char) (i : Int64) : Prop := SpellsInt cs i.toInt

variable {cs : List Char} {i : Int64}

theorem readNat?_eq_some_iff {n : Nat} : readNat? cs = some n ↔ cs ≠ [] ∧ (∀ c ∈ cs, c.isDigit) ∧ value cs = n := by
  rw [readNat?]
  split
  · next h => simpa [and_assoc] using ⟨fun hn => ⟨h.1, by simpa using h.2, hn⟩, fun h => h.2.2⟩
  · next h => simpa using fun hne hall => absurd ⟨hne, by simpa using hall⟩ h

theorem readInt?_eq_some_iff {n : Int} : readInt? cs = some n ↔ SpellsInt cs n := by
  constructor
  · intro h
    have hspells : ∀ {sign digits : List Char}, sign ∈ [[], ['+'], ['-']] →
        ((readNat? digits).map fun m : Nat => if sign = ['-'] then -(m : Int) else m) = some n →
        SpellsInt (sign ++ digits) n := by
      rintro sign digits hsign h
      obtain ⟨m, hm, rfl⟩ := Option.map_eq_some_iff.1 h
      obtain ⟨hne, hall, rfl⟩ := readNat?_eq_some_iff.1 hm
      exact ⟨sign, digits, hsign, hne, hall, rfl, rfl⟩
    unfold readInt? at h
    split at h
    · exact @hspells ['-'] _ (by simp) (by simpa [Option.bind_eq_some_iff] using h)
    · exact @hspells ['+'] _ (by simp) (by simpa [Option.bind_eq_some_iff] using h)
    · exact @hspells [] _ (by simp) (by simpa [Option.bind_eq_some_iff] using h)
  · rintro ⟨sign, digits, hsign, hne, hall, rfl, rfl⟩
    have hread := readNat?_eq_some_iff.2 ⟨hne, hall, rfl⟩
    simp only [List.mem_cons, List.not_mem_nil, or_false] at hsign
    rcases hsign with rfl | rfl | rfl
    · -- Digits alone start with no sign.
      unfold readInt?
      split
      · next heq => exact absurd (hall '-' (by simp_all)) (by decide)
      · next heq => exact absurd (hall '+' (by simp_all)) (by decide)
      · simp [hread]
    · simp [readInt?, hread]
    · simp [readInt?, hread]

/-- **A signed integer of 64 bits is read exactly where one is spelled.** -/
theorem readInt64?_eq_some_iff : readInt64? cs = some i ↔ Spells cs i := by
  rw [readInt64?, Option.bind_eq_some_iff, Spells]
  constructor
  · rintro ⟨n, hn, hi⟩
    split at hi
    · next hrange =>
      rw [← Option.some.inj hi, Int64.toInt_ofInt_of_le hrange.1 hrange.2]
      exact readInt?_eq_some_iff.1 hn
    · cases hi
  · intro h
    refine ⟨i.toInt, readInt?_eq_some_iff.2 h, ?_⟩
    rw [if_pos ⟨i.le_toInt, i.toInt_lt⟩, Int64.ofInt_toInt]

/-- A number's own text spells it. -/
theorem spells_ofInt (i : Int64) : Spells (ofInt i.toInt) i := by
  have hdigits : ∀ n, ∀ c ∈ ofNat n, c.isDigit := fun n c =>
    Nat.isDigit_of_mem_toDigits (by decide) (by decide)
  rw [Spells]
  cases i.toInt with
  | ofNat n => exact ⟨[], ofNat n, by simp, Nat.toDigits_ne_nil, hdigits n, rfl, by simp⟩
  | negSucc n =>
    exact ⟨['-'], ofNat (n + 1), by simp, Nat.toDigits_ne_nil, hdigits _, rfl, by simp [Int.negSucc_eq]⟩

theorem Spells.mem (h : Spells cs i) {c : Char} (hc : c ∈ cs) : c = '+' ∨ c = '-' ∨ c.isDigit := by
  obtain ⟨sign, digits, hsign, -, hall, rfl, -⟩ := h
  rcases List.mem_append.1 hc with hc | hc
  · simp only [List.mem_cons, List.not_mem_nil, or_false] at hsign
    rcases hsign with rfl | rfl | rfl <;> simp_all
  · exact .inr (.inr (hall c hc))

theorem Spells.isBlank (h : Spells cs i) {c : Char} (hc : c ∈ cs) : isBlank c = false := by
  rcases h.mem hc with rfl | rfl | hdigit
  · decide
  · decide
  · exact not_isBlank_of_isDigit hdigit

theorem Spells.ne_nil (h : Spells cs i) : cs ≠ [] := by
  obtain ⟨sign, digits, -, hne, -, rfl, -⟩ := h
  simp [hne]

end TableQuery.Text.Decimal

/-
Rounding a natural number to so many binary digits: the result is as near as any
number of that many digits, whatever the unit of its last digit.

Numbers are counted in one smallest unit, so distances are differences of naturals
and no fractions are needed.
-/
import Mathlib.Algebra.Order.Ring.Nat
import Mathlib.Tactic.Ring
import TableQuery.Number.Binary

namespace TableQuery

/-- The distance between two naturals. -/
def gap (a b : Nat) : Nat := a - b + (b - a)

theorem roundShift_eq (n k : Nat) :
    roundShift n k = n / 2 ^ k ∧ 2 * (n % 2 ^ k) ≤ 2 ^ k ∨
      roundShift n k = n / 2 ^ k + 1 ∧ 2 ^ k ≤ 2 * (n % 2 ^ k) := by
  simp only [roundShift, Nat.one_shiftLeft]
  split
  · exact .inr ⟨rfl, by omega⟩
  · exact .inl ⟨rfl, by omega⟩

/-- No other multiple of the unit is nearer. -/
theorem gap_roundShift_le (n k q : Nat) : gap (roundShift n k * 2 ^ k) n ≤ gap (q * 2 ^ k) n := by
  have hdiv : n / 2 ^ k * 2 ^ k + n % 2 ^ k = n := by rw [Nat.mul_comm]; exact Nat.div_add_mod n (2 ^ k)
  have hmod : n % 2 ^ k < 2 ^ k := Nat.mod_lt n (Nat.two_pow_pos k)
  have hside : q * 2 ^ k ≤ n / 2 ^ k * 2 ^ k ∨ n / 2 ^ k * 2 ^ k + 2 ^ k ≤ q * 2 ^ k := by
    rcases Nat.lt_or_ge (n / 2 ^ k) q with h | h
    · have := Nat.mul_le_mul_right (2 ^ k) h
      rw [Nat.succ_mul] at this
      exact .inr this
    · exact .inl (Nat.mul_le_mul_right _ h)
  unfold gap
  rcases roundShift_eq n k with ⟨heq, hhalf⟩ | ⟨heq, hhalf⟩
  · rw [heq]
    omega
  · rw [heq, Nat.succ_mul]
    omega

/-- Below an even number, what is rounded lies below the number by more than half a unit. -/
theorem roundShift_succ_lt_iff {n k M : Nat} (hpos : 0 < M) (heven : M % 2 = 0) :
    roundShift n (k + 1) < M ↔ n < (2 * M - 1) * 2 ^ k := by
  have hdiv : 2 ^ (k + 1) * (n / 2 ^ (k + 1)) + n % 2 ^ (k + 1) = n := Nat.div_add_mod n _
  have hmod : n % 2 ^ (k + 1) < 2 ^ (k + 1) := Nat.mod_lt n (Nat.two_pow_pos _)
  simp only [roundShift, Nat.one_shiftLeft]
  generalize n / 2 ^ (k + 1) = q at *
  generalize n % 2 ^ (k + 1) = r at *
  rw [Nat.pow_succ] at *
  have hunit := Nat.two_pow_pos k
  generalize 2 ^ k = u at *
  rcases Nat.lt_trichotomy (q + 1) M with h | h | h
  · have hle : (2 * q + 2) * u ≤ (2 * M - 1) * u := Nat.mul_le_mul_right u (by omega)
    have hexpand : (2 * q + 2) * u = u * 2 * q + 2 * u := by ring
    constructor
    · omega
    · intro _
      split <;> omega
  · have hexpand : (2 * M - 1) * u = u * 2 * q + u := by
      rw [← h, show 2 * (q + 1) - 1 = 2 * q + 1 by omega]
      ring
    rw [hexpand]
    split <;> omega
  · have hle : (2 * M - 1) * u ≤ (2 * q) * u := Nat.mul_le_mul_right u (by omega)
    have hexpand : (2 * q) * u = u * 2 * q := by ring
    constructor
    · split <;> omega
    · omega
/-! ## So many digits -/

/-- The exponent of the unit that a number is rounded to: the finest one that leaves
at most `w` digits, and none below `e`. -/
def unitOf (w e n : Nat) : Nat := max e (n.log2 + 1 - w)

variable {w e n : Nat}

/-- Where the unit is not the finest one, a number has all its digits. -/
theorem pow_le_of_lt_unitOf (hw : 0 < w) (h : e < unitOf w e n) : 2 ^ (w - 1) * 2 ^ unitOf w e n ≤ n := by
  have hunit : unitOf w e n = n.log2 + 1 - w := by simp only [unitOf] at *; omega
  have hexp : w - 1 + unitOf w e n = n.log2 := by omega
  have hn : n ≠ 0 := by
    rintro rfl
    simp at hunit
    omega
  rw [← Nat.pow_add, hexp]
  exact Nat.log2_self_le hn

theorem lt_pow_unitOf (n : Nat) : n < 2 ^ w * 2 ^ unitOf w e n := by
  have hexp : n.log2 + 1 ≤ w + unitOf w e n := by simp only [unitOf]; omega
  calc n < 2 ^ (n.log2 + 1) := Nat.lt_log2_self
    _ ≤ 2 ^ (w + unitOf w e n) := Nat.pow_le_pow_right (by decide) hexp
    _ = 2 ^ w * 2 ^ unitOf w e n := Nat.pow_add 2 w _

theorem log2_lt_of_lt {k : Nat} (h : n < (2 * 2 ^ w - 1) * 2 ^ k) : n.log2 < w + 1 + k := by
  by_cases hn : n = 0
  · rw [hn, Nat.log2_zero]
    omega
  · have hdigits : 2 * 2 ^ w - 1 ≤ 2 ^ (w + 1) := by
      rw [Nat.pow_succ]
      omega
    rw [Nat.log2_lt hn, Nat.pow_add]
    exact Nat.lt_of_lt_of_le h (Nat.mul_le_mul_right _ hdigits)

theorem lt_of_log2_lt {k : Nat} (h : n.log2 < w + k) : n < (2 * 2 ^ w - 1) * 2 ^ k := by
  have hdigits : 2 ^ w ≤ 2 * 2 ^ w - 1 := by
    have hpos := Nat.two_pow_pos w
    omega
  by_cases hn : n = 0
  · rw [hn]
    exact Nat.mul_pos (Nat.lt_of_lt_of_le (Nat.two_pow_pos w) hdigits) (Nat.two_pow_pos k)
  · rw [Nat.log2_lt hn, Nat.pow_add] at h
    exact Nat.lt_of_lt_of_le h (Nat.mul_le_mul_right _ hdigits)

theorem roundShift_unitOf_le : roundShift n (unitOf w e n) ≤ 2 ^ w := by
  have hdiv : n / 2 ^ unitOf w e n < 2 ^ w := by
    rw [Nat.div_lt_iff_lt_mul (Nat.two_pow_pos _)]
    exact lt_pow_unitOf n
  rcases roundShift_eq n (unitOf w e n) with ⟨heq, -⟩ | ⟨heq, -⟩ <;> omega

theorem le_roundShift_unitOf (hw : 0 < w) (h : e < unitOf w e n) : 2 ^ (w - 1) ≤ roundShift n (unitOf w e n) := by
  have hdiv : 2 ^ (w - 1) ≤ n / 2 ^ unitOf w e n := by
    rw [Nat.le_div_iff_mul_le (Nat.two_pow_pos _)]
    exact pow_le_of_lt_unitOf hw h
  rcases roundShift_eq n (unitOf w e n) with ⟨heq, -⟩ | ⟨heq, -⟩ <;> omega

/-- **No number of `w` digits is nearer.** Either its unit is no finer, and it is a
multiple of the unit rounded to, or it lies below the smallest number that has all
its digits at that unit. -/
theorem gap_roundShift_unitOf_le (hw : 0 < w) {m q : Nat} (hm : m < 2 ^ w) (hq : e ≤ q) :
    gap (roundShift n (unitOf w e n) * 2 ^ unitOf w e n) n ≤ gap (m * 2 ^ q) n := by
  rcases Nat.lt_or_ge q (unitOf w e n) with h | h
  · have hfull := pow_le_of_lt_unitOf hw (Nat.lt_of_le_of_lt hq h)
    have hbelow : m * 2 ^ q ≤ 2 ^ (w - 1) * 2 ^ unitOf w e n := by
      calc m * 2 ^ q ≤ 2 ^ w * 2 ^ q := Nat.mul_le_mul_right _ (Nat.le_of_lt hm)
        _ = 2 ^ (w + q) := (Nat.pow_add 2 w q).symm
        _ ≤ 2 ^ (w - 1 + unitOf w e n) := Nat.pow_le_pow_right (by decide) (by omega)
        _ = 2 ^ (w - 1) * 2 ^ unitOf w e n := Nat.pow_add 2 _ _
    have hnear := gap_roundShift_le n (unitOf w e n) (2 ^ (w - 1))
    unfold gap at *
    omega
  · have hexp : q - unitOf w e n + unitOf w e n = q := by omega
    have hmultiple : m * 2 ^ q = m * 2 ^ (q - unitOf w e n) * 2 ^ unitOf w e n := by
      rw [Nat.mul_assoc, ← Nat.pow_add, hexp]
    rw [hmultiple]
    exact gap_roundShift_le n _ _

theorem gap_roundShift_unitOf_le_zero (hw : 0 < w) :
    gap (roundShift n (unitOf w e n) * 2 ^ unitOf w e n) n ≤ gap 0 n := by
  have hzero := gap_roundShift_unitOf_le (n := n) hw (Nat.two_pow_pos w) (Nat.le_refl e)
  rwa [Nat.zero_mul] at hzero

/-- A number of `w` digits is rounded to itself. -/
theorem roundShift_unitOf_eq (hw : 0 < w) {m q : Nat} (hm : m < 2 ^ w) (hq : e ≤ q) (hn : n = m * 2 ^ q) :
    roundShift n (unitOf w e n) * 2 ^ unitOf w e n = n := by
  have hnear := gap_roundShift_unitOf_le (n := n) hw hm hq
  rw [← hn] at hnear
  unfold gap at hnear
  omega

end TableQuery

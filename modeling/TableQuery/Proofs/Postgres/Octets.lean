/-
Big-endian octets and the numbers they spell: a number comes back from its octets
up to the octets' width, and an integer in two's complement comes back whole when
the width holds it.
-/
import Mathlib.Data.Nat.Cast.Order.Ring
import Mathlib.Tactic.Ring
import TableQuery.Postgres.Wire

namespace TableQuery.Postgres

@[simp] theorem length_bigEndian (width n : Nat) : (bigEndian width n).length = width := by
  induction width with
  | zero => rfl
  | succ width ih => simp [bigEndian, ih]

/-- Reading on from `a`: `a` moves up by the octets' width. -/
theorem foldl_bigEndian (width n a : Nat) :
    (bigEndian width n).foldl (fun n b => 256 * n + b.toNat) a = a * 256 ^ width + n % 256 ^ width := by
  induction width generalizing a with
  | zero => simp [bigEndian, Nat.mod_one]
  | succ width ih =>
    have hunit : 2 ^ (8 * width) = 256 ^ width := by rw [Nat.pow_mul]
    have hoctet : (UInt8.ofNat (n >>> (8 * width) % 256)).toNat = n / 256 ^ width % 256 := by
      rw [Nat.shiftRight_eq_div_pow, hunit, UInt8.toNat_ofNat']
      omega
    rw [bigEndian, List.foldl_cons, ih, hoctet, Nat.mod_pow_succ, Nat.pow_succ]
    ring

@[simp] theorem ofBigEndian_bigEndian (width n : Nat) : ofBigEndian (bigEndian width n) = n % 256 ^ width := by
  rw [ofBigEndian, foldl_bigEndian]
  simp

@[simp] theorem length_signedOctets (width : Nat) (i : Int) : (signedOctets width i).length = width :=
  length_bigEndian width _

/-- Octets in two's complement spell the number modulo their width. -/
@[simp] theorem ofSignedOctets_bigEndian (width n : Nat) :
    ofSignedOctets (bigEndian width n) = (n : Int).bmod (256 ^ width) := by
  have hunit : 1 <<< (8 * width) = 256 ^ width := by rw [Nat.one_shiftLeft, Nat.pow_mul]
  rw [ofSignedOctets, ofBigEndian_bigEndian, length_bigEndian, hunit, Int.natCast_mod, Int.emod_bmod]

theorem ofSignedOctets_signedOctets {width : Nat} {i : Int} (hlow : -(256 ^ width : Nat) ≤ 2 * i)
    (hhigh : 2 * i < (256 ^ width : Nat)) : ofSignedOctets (signedOctets width i) = i := by
  have hunit : 1 <<< (8 * width) = 256 ^ width := by rw [Nat.one_shiftLeft, Nat.pow_mul]
  have hpos : 0 < 256 ^ width := Nat.pow_pos (by decide)
  have hnonneg : 0 ≤ i % (256 ^ width : Nat) := Int.emod_nonneg i (by omega)
  rw [signedOctets, hunit, ofSignedOctets_bigEndian, Int.toNat_of_nonneg hnonneg, Int.emod_bmod]
  exact Int.bmod_eq_of_le_mul_two (by omega) (by omega)

end TableQuery.Postgres

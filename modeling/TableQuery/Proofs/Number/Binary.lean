/-
What rounding to doubles and singles gives, proved.

Values are compared as integers of one unit, `2^-1074`: the value of a finite double
`x` is `x.signedMagnitude`, that of a finite single likewise. `Binary64.ofInt` gives a
double nearest to the integer (`Binary64.ofInt_nearest`), `Binary32.ofBinary64` a
single nearest to the double, and `Binary32.toBinary64` loses nothing
(`Binary32.keeps_toBinary64_ofBinary64`). The bits of a double are its value for
zero alone (`Binary64.eq_zero_of_own_bits`).
-/
import Mathlib.Tactic.IntervalCases
import TableQuery.Proofs.Number.Format

namespace TableQuery

open BinaryFormat (double single)

theorem log2_shiftLeft_lt {a k : Nat} (hk : 0 < k) (h : a < 2 ^ k) (j : Nat) : (a <<< j).log2 < k + j := by
  by_cases hzero : a <<< j = 0
  · rw [hzero, Nat.log2_zero]
    omega
  · rw [Nat.log2_lt hzero, Nat.shiftLeft_eq, Nat.pow_add]
    exact Nat.mul_lt_mul_of_pos_right h (Nat.two_pow_pos j)

theorem signed_natAbs_shiftLeft (i : Int) (j : Nat) : signed (i < 0) (i.natAbs <<< j) = i * (1 <<< j : Nat) := by
  rw [Nat.shiftLeft_eq, Nat.shiftLeft_eq, Nat.one_mul, signed, Int.natCast_mul]
  by_cases hneg : i < 0
  · have habs : (i.natAbs : Int) = -i := by omega
    rw [decide_eq_true hneg, if_pos rfl, habs, Int.neg_mul, Int.neg_neg]
  · have habs : (i.natAbs : Int) = i := by omega
    rw [decide_eq_false hneg, if_neg (by decide), habs]

namespace Binary64

variable {x : Binary64} {s : Bool} {n w : Nat}

/-! ## Doubles and their words -/

theorem word_lt (x : Binary64) : x.word < 2 ^ 64 := x.bits.toNat_lt

theorem word_ofWord (h : w < 2 ^ 64) : (ofWord w).word = w := by
  rw [ofWord, word, UInt64.toNat_ofNat', Nat.mod_eq_of_lt h]

@[simp] theorem word_round : (round s n).word = double.round s n := word_ofWord (double.round_lt s n)

/-! ## Rounding to doubles -/

/-- `x` is a double nearest to `z / 2^1074`. -/
def Nearest (z : Int) (x : Binary64) : Prop :=
  x.isFinite ∧ ∀ y : Binary64, y.isFinite → (x.signedMagnitude - z).natAbs ≤ (y.signedMagnitude - z).natAbs

/-- A number of no more than 2097 binary digits lies below the limit. -/
theorem lt_limit_of_log2_lt (h : n.log2 < 2097) : n < double.limit := by
  unfold BinaryFormat.limit
  exact lt_of_log2_lt h

theorem round_nearest (h : n.log2 < 2097) : Nearest (signed s n) (round s n) := by
  obtain ⟨hfinite, -, hnear⟩ := double.round_nearest (s := s) (lt_limit_of_log2_lt h)
  unfold Nearest isFinite signedMagnitude
  rw [word_round]
  exact ⟨hfinite, fun y _ => hnear y.word⟩

/-- An integer of 64 bits is rounded to a double nearest to it. -/
theorem ofInt_nearest {i : Int} (h : i.natAbs < 2 ^ 64) : Nearest (i * (1 <<< 1074 : Nat)) (ofInt i) := by
  rw [← signed_natAbs_shiftLeft, ofInt]
  exact round_nearest (Nat.lt_trans (log2_shiftLeft_lt (by decide) h 1074) (by decide))

/-! ## Doubles taken for integers -/

theorem word_eq (x : Binary64) :
    x.word = (if x.sign then 2 ^ 63 else 0) + (double.bexp x.word * 2 ^ 52 + double.frac x.word) := by
  have hword := double.pack_fields x.word_lt
  rw [BinaryFormat.pack, Nat.shiftLeft_eq, Nat.add_mul, Nat.add_assoc] at hword
  rw [sign]
  cases hsign : double.sign x.word <;> rw [hsign] at hword <;> exact hword.symm

/-- No normal double spells its own value `V` by its fields `b` and `f`. Below one the
value is too small; above, its unit would have to be about `2^10`, and there the digits
do not come out. -/
theorem normal_ne_own_fields {b f V t : Nat} (ht : t = 1074) (hpos : 0 < b) (hb : b < 2047) (hf : f < 2 ^ 52)
    (hV : V = b * 2 ^ 52 + f ∨ V + (b * 2 ^ 52 + f) = 2 ^ 63) : (f + 2 ^ 52) * 2 ^ (b - 1) ≠ V * 2 ^ t := by
  intro h
  have hunit : 0 < 2 ^ t := Nat.two_pow_pos t
  rcases Nat.lt_or_ge t b with hb' | hb'
  · obtain ⟨k, rfl⟩ : ∃ k, b = k + t + 1 := ⟨b - t - 1, by omega⟩
    rw [Nat.add_sub_cancel, Nat.pow_add, ← Nat.mul_assoc] at h
    have hspelt : (f + 2 ^ 52) * 2 ^ k = V := Nat.eq_of_mul_eq_mul_right hunit h
    rcases Nat.lt_or_ge k 11 with hk | hk
    · interval_cases k <;> omega
    · have hpow : 2 ^ 11 ≤ 2 ^ k := Nat.pow_le_pow_right (by decide) hk
      have hlarge : 2 ^ 52 * 2 ^ 11 ≤ (f + 2 ^ 52) * 2 ^ k := Nat.mul_le_mul (by omega) hpow
      omega
  · have hpow : 2 ^ (b - 1 + 1) ≤ 2 ^ t := Nat.pow_le_pow_right (by decide) (by omega)
    have hsmall : (f + 2 ^ 52) * 2 ^ (b - 1) < 2 ^ 53 * 2 ^ (b - 1) :=
      Nat.mul_lt_mul_of_pos_right (by omega) (Nat.two_pow_pos _)
    have hlarge : 2 ^ 52 * 2 ^ t ≤ V * 2 ^ t := Nat.mul_le_mul_right _ (by omega)
    rw [Nat.pow_succ] at hpow
    omega

/-- Zero is the only double whose bits, taken for an integer, are its value. -/
theorem eq_zero_of_own_bits (hfin : x.isFinite)
    (h : x.signedMagnitude = (x.word : Int).bmod (2 ^ 64) * (1 <<< 1074 : Nat)) : x = ⟨0⟩ := by
  have hword := x.word_eq
  have hlt := x.word_lt
  have hfrac : double.frac x.word < 2 ^ 52 := double.frac_lt x.word
  have hb : double.bexp x.word < 2047 := by
    have hbexp : double.bexp x.word < 2048 := double.bexp_lt x.word
    have hne : double.bexp x.word ≠ 2047 := bne_iff_ne.1 hfin
    omega
  obtain ⟨t, ht⟩ : ∃ t, t = 1074 := ⟨_, rfl⟩
  rw [← ht, Nat.one_shiftLeft] at h
  -- the value without its sign
  obtain ⟨V, hV, hmagnitude⟩ : ∃ V, (V = double.bexp x.word * 2 ^ 52 + double.frac x.word ∧ x.sign = false ∨
      V + (double.bexp x.word * 2 ^ 52 + double.frac x.word) = 2 ^ 63 ∧ x.sign = true) ∧
      double.magnitude x.word = V * 2 ^ t := by
    rw [signedMagnitude, BinaryFormat.signedMagnitude_eq, signed, ← sign] at h
    cases hsign : x.sign with
    | false =>
      rw [hsign, if_neg (by decide), Nat.zero_add] at hword
      have hmod : (x.word : Int).bmod (2 ^ 64) = x.word := Int.bmod_eq_of_le_mul_two (by omega) (by omega)
      rw [hsign, if_neg (by decide), hmod] at h
      exact ⟨x.word, .inl ⟨hword, rfl⟩, by exact_mod_cast h⟩
    | true =>
      rw [hsign, if_pos rfl] at hword
      have hmod : (x.word : Int).bmod (2 ^ 64) = -((2 ^ 64 - x.word : Nat) : Int) :=
        (Int.bmod_eq_iff (by decide)).2 ⟨by omega, by omega, by omega⟩
      rw [hsign, if_pos rfl, hmod, Int.neg_mul, Int.neg_inj] at h
      exact ⟨2 ^ 64 - x.word, .inr ⟨by omega, rfl⟩, by exact_mod_cast h⟩
  rw [BinaryFormat.magnitude_eq, BinaryFormat.sig, BinaryFormat.uexp] at hmagnitude
  rcases Nat.eq_zero_or_pos (double.bexp x.word) with hzero | hpos
  · have hleast : double.least = 0 := rfl
    rw [if_pos hzero, hzero, hleast, Nat.pow_zero, Nat.mul_one] at hmagnitude
    have hunit : 2 ^ 1 ≤ 2 ^ t := Nat.pow_le_pow_right (by decide) (by omega)
    have hlarge : V * 2 ≤ V * 2 ^ t := Nat.mul_le_mul_left V hunit
    have hbits : x.bits.toNat = 0 := by
      change x.word = 0
      rcases hV with ⟨hV, hsign⟩ | ⟨hV, -⟩
      · rw [hsign, if_neg (by decide)] at hword
        omega
      · omega
    have hx : x.bits = 0 := UInt64.toNat_inj.1 (by rw [hbits]; rfl)
    rw [← hx]
  · rw [if_neg (by omega), Nat.one_shiftLeft] at hmagnitude
    exact absurd hmagnitude (normal_ne_own_fields ht hpos hb hfrac (hV.imp And.left And.left))

end Binary64

namespace Binary32

variable {x : Binary32} {s : Bool} {n w : Nat}

/-! ## Singles and their words -/

theorem word_ofWord (h : w < 2 ^ 32) : (ofWord w).word = w := by
  rw [ofWord, word, UInt32.toNat_ofNat', Nat.mod_eq_of_lt h]

@[simp] theorem word_round : (round s n).word = single.round s n := word_ofWord (single.round_lt s n)

@[simp] theorem word_infinity : (infinity s).word = single.infinity s := word_ofWord (single.infinity_lt s)

/-! ## Singles as doubles -/

/-- A double holds every finite single. -/
theorem toBinary64_eq (h : x.isFinite) :
    (toBinary64 x).isFinite ∧ (toBinary64 x).sign = x.sign ∧ (toBinary64 x).signedMagnitude = x.signedMagnitude := by
  have hsig : single.sig x.word < 2 ^ 24 := single.sig_lt x.word
  have hlog : x.magnitude.log2 < 24 + (single.uexp x.word + 925) := log2_shiftLeft_lt (by decide) hsig _
  have hlimit : x.magnitude < double.limit := by
    have huexp : single.uexp x.word < 256 := single.uexp_lt x.word
    exact Binary64.lt_limit_of_log2_lt (Nat.lt_of_lt_of_le hlog (by omega))
  have hround : toBinary64 x = Binary64.round x.sign x.magnitude := by
    rw [toBinary64, isNaN, single.not_isNaN_of_isFinite h, if_neg (by decide), if_pos h]
  obtain ⟨hfinite, hsign, -⟩ := double.round_nearest (s := x.sign) hlimit
  have hdigits : single.sig x.word < 2 ^ 53 := Nat.lt_trans hsig (by decide)
  have hmagnitude : double.magnitude (double.round x.sign x.magnitude) = x.magnitude :=
    double.magnitude_round hlimit hdigits (Nat.zero_le _) (single.magnitude_eq x.word)
  rw [hround, Binary64.isFinite, Binary64.sign, Binary64.signedMagnitude, Binary64.word_round,
    BinaryFormat.signedMagnitude_eq, hsign, hmagnitude]
  exact ⟨hfinite, rfl, rfl⟩

theorem toBinary64_infinity (s : Bool) : toBinary64 (infinity s) = Binary64.infinity s := by
  have hsign : (infinity s).sign = s := by
    rw [sign, word_infinity]
    exact single.sign_pack (Nat.two_pow_pos _) single.special_lt
  obtain ⟨hfinite, hnan⟩ := single.pack_special (s := s) (Nat.two_pow_pos _)
  rw [toBinary64, isNaN, isFinite, word_infinity, BinaryFormat.infinity, hfinite, hnan, hsign]
  rfl

theorem toBinary64_isNaN (h : x.isNaN) : (toBinary64 x).isNaN := by
  have hfrac : single.frac x.word % 2 ^ 22 < 2 ^ 22 := Nat.mod_lt _ (Nat.two_pow_pos 22)
  have ha : 1 <<< 51 + (single.frac x.word % 1 <<< 22) <<< 29 < 2 ^ 52 := by
    rw [Nat.shiftLeft_eq, Nat.shiftLeft_eq, Nat.shiftLeft_eq]
    omega
  rw [toBinary64, if_pos h, Binary64.isNaN, Binary64.word_ofWord (double.pack_lt ha double.special_lt),
    (double.pack_special ha).2, bne_iff_ne, Nat.shiftLeft_eq]
  omega

/-! ## Rounding to singles -/

/-- The first magnitude that is no longer rounded to a finite single: half a unit
past the largest of them, in units of `2^-1074`. -/
def limit : Nat := (2 * 2 ^ 24 - 1) * 2 ^ 1177

theorem limit_single : single.limit = limit := by
  have hdigits : single.fracBits + 1 = 24 := rfl
  have hexp : single.special - 3 + single.least = 1177 := rfl
  rw [BinaryFormat.limit, limit, hdigits, hexp]

/-- `x` is a single nearest to `z / 2^1074`. -/
def Nearest (z : Int) (x : Binary32) : Prop :=
  x.isFinite ∧ ∀ y : Binary32, y.isFinite → (x.signedMagnitude - z).natAbs ≤ (y.signedMagnitude - z).natAbs

theorem round_nearest (h : n < limit) :
    (round s n).sign = s ∧ Nearest (signed s n) (round s n) := by
  rw [← limit_single] at h
  obtain ⟨hfinite, hsign, hnear⟩ := single.round_nearest (s := s) h
  unfold Nearest sign isFinite signedMagnitude
  rw [word_round]
  exact ⟨hsign, hfinite, fun y _ => hnear y.word⟩

/-- From the limit on, rounding gives an infinity. -/
theorem round_of_limit_le (h : limit ≤ n) : round s n = infinity s := by
  rw [← limit_single] at h
  rw [round, single.round_of_limit_le h, infinity]

theorem ofBinary64_isNaN {r : Binary64} (h : r.isNaN) : (ofBinary64 r).isNaN := by
  have hfrac : double.frac r.word >>> 29 % 2 ^ 22 < 2 ^ 22 := Nat.mod_lt _ (Nat.two_pow_pos 22)
  have ha : 1 <<< 22 + double.frac r.word >>> 29 % 1 <<< 22 < 2 ^ 23 := by
    rw [Nat.one_shiftLeft]
    omega
  rw [ofBinary64, if_pos h, isNaN, word_ofWord (single.pack_lt ha single.special_lt),
    (single.pack_special ha).2, bne_iff_ne, Nat.one_shiftLeft]
  omega

/-- `s` is what single precision keeps of `r`: a single nearest to it and of its sign,
an infinity from the limit on, and of a NaN that it is one. -/
def Keeps (r s : Binary64) : Prop :=
  if r.isNaN then s.isNaN = true
  else if r.isFinite ∧ r.magnitude < limit then
    s.isFinite ∧ s.sign = r.sign ∧ ∃ x : Binary32, x.Nearest r.signedMagnitude ∧ s.signedMagnitude = x.signedMagnitude
  else s = Binary64.infinity r.sign

/-- **A double goes through single precision as it should.** -/
theorem keeps_toBinary64_ofBinary64 (r : Binary64) : Keeps r (toBinary64 (ofBinary64 r)) := by
  unfold Keeps
  split
  · next hnan => exact toBinary64_isNaN (ofBinary64_isNaN hnan)
  · next hnan =>
    rw [ofBinary64, if_neg hnan]
    split
    · next hfinite =>
      obtain ⟨hsign, hnear⟩ := round_nearest (s := r.sign) hfinite.2
      obtain ⟨hfin, hsame, hvalue⟩ := toBinary64_eq hnear.1
      rw [if_pos hfinite.1]
      exact ⟨hfin, hsame.trans hsign, _, hnear, hvalue⟩
    · next hfinite =>
      split
      · next hfin =>
        rw [round_of_limit_le (Nat.le_of_not_lt fun hlt => hfinite ⟨hfin, hlt⟩), toBinary64_infinity]
      · rw [toBinary64_infinity]

end Binary32

end TableQuery

/-
What rounding to a binary format gives, for any widths of its fields.

Values are compared as integers of one unit, `2^-1074`. The fields of a word are those
it is packed of (`sign_pack`, `bexp_pack`, `frac_pack`), so a significand and a unit
exponent that the format can have are read back from what is made of them. Below
`limit` a number is rounded to a finite number that no other of the format is nearer to
(`round_nearest`), from there on to an infinity (`round_of_limit_le`).
-/
import TableQuery.Proofs.Number.Rounding

namespace TableQuery

/-- `n` with a sign. -/
def signed (s : Bool) (n : Nat) : Int := if s then -n else n

/-- A magnitude as near as any, and no farther than zero, is as near with its sign. -/
theorem natAbs_signed_sub_le {a b n : Nat} {s t : Bool} (hb : gap a n ≤ gap b n) (hzero : gap a n ≤ gap 0 n) :
    (signed s a - signed s n).natAbs ≤ (signed t b - signed s n).natAbs := by
  unfold gap at *
  cases s <;> cases t <;> simp only [signed, if_true, if_false, Bool.false_eq_true] <;> omega

namespace BinaryFormat

variable (fmt : BinaryFormat) {s : Bool} {a b m n p w : Nat}

/-! ## Fields of a word -/

theorem special_eq : fmt.special = 2 ^ fmt.expBits - 1 := by
  rw [special, Nat.one_shiftLeft]

/-- An exponent field has at least two bits. -/
theorem three_le_special : 3 ≤ fmt.special := by
  have hpow : 2 ^ 2 ≤ 2 ^ fmt.expBits := Nat.pow_le_pow_right (by decide) fmt.one_lt_expBits
  rw [special_eq]
  omega

theorem special_lt : fmt.special < 2 ^ fmt.expBits := by
  rw [special_eq]
  exact Nat.sub_lt (Nat.two_pow_pos _) Nat.one_pos

theorem pack_div (ha : a < 2 ^ fmt.fracBits) :
    fmt.pack s b a / 2 ^ fmt.fracBits = (if s then 2 ^ fmt.expBits else 0) + b := by
  rw [pack, Nat.shiftLeft_eq, Nat.one_shiftLeft, Nat.mul_comm, Nat.mul_add_div (Nat.two_pow_pos _),
    Nat.div_eq_of_lt ha, Nat.add_zero]

theorem sign_pack (ha : a < 2 ^ fmt.fracBits) (hb : b < 2 ^ fmt.expBits) : fmt.sign (fmt.pack s b a) = s := by
  rw [sign, Nat.shiftRight_eq_div_pow, fmt.pack_div ha, Nat.one_shiftLeft]
  cases s with
  | false => simpa using hb
  | true => simp

theorem bexp_pack (ha : a < 2 ^ fmt.fracBits) (hb : b < 2 ^ fmt.expBits) : fmt.bexp (fmt.pack s b a) = b := by
  rw [bexp, Nat.shiftRight_eq_div_pow, fmt.pack_div ha, Nat.one_shiftLeft]
  cases s with
  | false => simpa using Nat.mod_eq_of_lt hb
  | true => simpa using Nat.mod_eq_of_lt hb

theorem frac_pack (ha : a < 2 ^ fmt.fracBits) : fmt.frac (fmt.pack s b a) = a := by
  rw [frac, Nat.one_shiftLeft, pack, Nat.shiftLeft_eq, Nat.mul_comm, Nat.mul_add_mod, Nat.mod_eq_of_lt ha]

theorem pack_lt (ha : a < 2 ^ fmt.fracBits) (hb : b < 2 ^ fmt.expBits) :
    fmt.pack s b a < 2 ^ (1 + fmt.expBits + fmt.fracBits) := by
  have hhigh : fmt.pack s b a / 2 ^ fmt.fracBits < 2 * 2 ^ fmt.expBits := by
    rw [fmt.pack_div ha]
    split <;> omega
  rw [Nat.pow_add, Nat.pow_add, Nat.pow_one]
  exact (Nat.div_lt_iff_lt_mul (Nat.two_pow_pos _)).1 hhigh

/-- A word is packed of its fields. -/
theorem pack_fields (hw : w < 2 ^ (1 + fmt.expBits + fmt.fracBits)) :
    fmt.pack (fmt.sign w) (fmt.bexp w) (fmt.frac w) = w := by
  have hhigh : w / 2 ^ fmt.fracBits < 2 * 2 ^ fmt.expBits := by
    rw [Nat.div_lt_iff_lt_mul (Nat.two_pow_pos _)]
    rwa [Nat.pow_add, Nat.pow_add, Nat.pow_one] at hw
  have hupper : (if fmt.sign w then 2 ^ fmt.expBits else 0) + fmt.bexp w = w / 2 ^ fmt.fracBits := by
    simp only [sign, bexp, Nat.shiftRight_eq_div_pow, Nat.one_shiftLeft, decide_eq_true_eq]
    split
    · next hle => rw [Nat.mod_eq_sub_mod hle, Nat.mod_eq_of_lt (by omega)]; omega
    · next hlt => rw [Nat.mod_eq_of_lt (by omega), Nat.zero_add]
  rw [pack, Nat.one_shiftLeft, hupper, Nat.shiftLeft_eq, frac, Nat.one_shiftLeft, Nat.mul_comm]
  exact Nat.div_add_mod _ _

theorem frac_lt (w : Nat) : fmt.frac w < 2 ^ fmt.fracBits := by
  rw [frac, Nat.one_shiftLeft]
  exact Nat.mod_lt _ (Nat.two_pow_pos _)

theorem bexp_lt (w : Nat) : fmt.bexp w < 2 ^ fmt.expBits := by
  rw [bexp, Nat.one_shiftLeft]
  exact Nat.mod_lt _ (Nat.two_pow_pos _)

theorem uexp_lt (w : Nat) : fmt.uexp w < 2 ^ fmt.expBits :=
  Nat.lt_of_le_of_lt (Nat.sub_le _ _) (fmt.bexp_lt w)

theorem sig_lt (w : Nat) : fmt.sig w < 2 ^ (fmt.fracBits + 1) := by
  have hfrac := fmt.frac_lt w
  rw [Nat.pow_succ, sig, Nat.one_shiftLeft]
  split <;> omega

theorem not_isNaN_of_isFinite (h : fmt.isFinite w) : fmt.isNaN w = false := by
  simp only [isFinite, bne_iff_ne] at h
  simp [isNaN, h]

/-- Infinities and NaNs have the same exponent field. -/
theorem pack_special (ha : a < 2 ^ fmt.fracBits) :
    fmt.isFinite (fmt.pack s fmt.special a) = false ∧ fmt.isNaN (fmt.pack s fmt.special a) = (a != 0) := by
  simp [isFinite, isNaN, fmt.bexp_pack ha fmt.special_lt, fmt.frac_pack ha]

theorem magnitude_eq (w : Nat) : fmt.magnitude w = fmt.sig w * 2 ^ (fmt.uexp w + fmt.least) :=
  Nat.shiftLeft_eq _ _

theorem signedMagnitude_eq (w : Nat) : fmt.signedMagnitude w = signed (fmt.sign w) (fmt.magnitude w) := rfl

/-! ## Numbers that are made -/

/-- A significand and a unit exponent that a number of the format can have. -/
structure Valid (m p : Nat) : Prop where
  lt : m < 2 ^ (fmt.fracBits + 1)
  norm : 2 ^ fmt.fracBits ≤ m ∨ p = 0
  le : p + 1 < fmt.special

section Made

variable {fmt}

/-- What is made is packed of fields that fit. -/
theorem exists_make_eq_pack (s : Bool) (h : fmt.Valid m p) :
    ∃ b a, fmt.make s m p = fmt.pack s b a ∧ b < fmt.special ∧ a < 2 ^ fmt.fracBits ∧
      p = b - 1 ∧ m = if b = 0 then a else a + 2 ^ fmt.fracBits := by
  have hlt := h.lt
  have hle := h.le
  rw [Nat.pow_succ] at hlt
  rw [make, Nat.one_shiftLeft]
  by_cases hm : m < 2 ^ fmt.fracBits
  · have hp : p = 0 := h.norm.resolve_left (Nat.not_le.2 hm)
    exact ⟨0, m, if_pos hm, by omega, hm, hp, rfl⟩
  · refine ⟨p + 1, m - 2 ^ fmt.fracBits, if_neg hm, hle, by omega, rfl, ?_⟩
    rw [if_neg (Nat.succ_ne_zero p)]
    omega

theorem sign_make (h : fmt.Valid m p) : fmt.sign (fmt.make s m p) = s := by
  obtain ⟨b, a, hmake, hb, ha, -⟩ := exists_make_eq_pack s h
  rw [hmake, fmt.sign_pack ha (Nat.lt_trans hb fmt.special_lt)]

theorem isFinite_make (h : fmt.Valid m p) : fmt.isFinite (fmt.make s m p) := by
  obtain ⟨b, a, hmake, hb, ha, -⟩ := exists_make_eq_pack s h
  rw [hmake, isFinite, fmt.bexp_pack ha (Nat.lt_trans hb fmt.special_lt), bne_iff_ne]
  exact Nat.ne_of_lt hb

theorem magnitude_make (h : fmt.Valid m p) : fmt.magnitude (fmt.make s m p) = m * 2 ^ (p + fmt.least) := by
  obtain ⟨b, a, hmake, hb, ha, hp, hm⟩ := exists_make_eq_pack s h
  rw [magnitude_eq, sig, uexp, hmake, fmt.bexp_pack ha (Nat.lt_trans hb fmt.special_lt), fmt.frac_pack ha,
    Nat.one_shiftLeft, ← hp, ← hm]

theorem make_lt (h : fmt.Valid m p) : fmt.make s m p < 2 ^ (1 + fmt.expBits + fmt.fracBits) := by
  obtain ⟨b, a, hmake, hb, ha, -⟩ := exists_make_eq_pack s h
  rw [hmake]
  exact fmt.pack_lt ha (Nat.lt_trans hb fmt.special_lt)

end Made

/-! ## Rounding -/

/-- The first magnitude that is no longer rounded to a finite number: half a unit past
the largest of them, in units of `2^-1074`. -/
def limit : Nat := (2 * 2 ^ (fmt.fracBits + 1) - 1) * 2 ^ (fmt.special - 3 + fmt.least)

/-- The unit that a number is rounded to. -/
def unit (n : Nat) : Nat := unitOf (fmt.fracBits + 1) fmt.least n

theorem roundShift_unit_le : roundShift n (fmt.unit n) ≤ 2 ^ (fmt.fracBits + 1) := roundShift_unitOf_le

theorem le_roundShift_unit (h : fmt.least < fmt.unit n) : 2 ^ fmt.fracBits ≤ roundShift n (fmt.unit n) :=
  le_roundShift_unitOf (Nat.succ_pos _) h

/-- The unit of the largest numbers is the one at which the limit matters. -/
theorem lt_limit_iff (n : Nat) :
    n < fmt.limit ↔ fmt.unit n + 2 < fmt.special + fmt.least ∨
      fmt.unit n + 2 = fmt.special + fmt.least ∧ roundShift n (fmt.unit n) < 2 ^ (fmt.fracBits + 1) := by
  have hspecial := fmt.three_le_special
  have hunit : fmt.unit n = max fmt.least (n.log2 + 1 - (fmt.fracBits + 1)) := rfl
  have htop : roundShift n (fmt.special - 3 + fmt.least + 1) < 2 ^ (fmt.fracBits + 1) ↔ n < fmt.limit := by
    unfold limit
    exact roundShift_succ_lt_iff (Nat.two_pow_pos _) (by rw [Nat.pow_succ]; omega)
  constructor
  · intro h
    have hlog : n.log2 < fmt.fracBits + 2 + (fmt.special - 3 + fmt.least) := log2_lt_of_lt h
    rcases Nat.lt_or_ge (fmt.unit n + 2) (fmt.special + fmt.least) with hu | hu
    · exact .inl hu
    · have htight : fmt.unit n = fmt.special - 3 + fmt.least + 1 := by omega
      refine .inr ⟨by omega, ?_⟩
      rw [htight]
      exact htop.2 h
  · rintro (hu | ⟨hu, hround⟩)
    · exact lt_of_log2_lt (by omega)
    · rw [show fmt.unit n = fmt.special - 3 + fmt.least + 1 by omega] at hround
      exact htop.1 hround

/-- Below the limit, rounding gives the number of so many digits. -/
theorem round_eq (h : n < fmt.limit) :
    ∃ m p, fmt.Valid m p ∧ fmt.round s n = fmt.make s m p ∧
      m * 2 ^ (p + fmt.least) = roundShift n (fmt.unit n) * 2 ^ fmt.unit n := by
  have hle : roundShift n (fmt.unit n) ≤ 2 ^ (fmt.fracBits + 1) := fmt.roundShift_unit_le
  have hnorm : fmt.least < fmt.unit n → 2 ^ fmt.fracBits ≤ roundShift n (fmt.unit n) := fmt.le_roundShift_unit
  have hlimit := (fmt.lt_limit_iff n).1 h
  have hmin : fmt.least ≤ fmt.unit n := Nat.le_max_left _ _
  have hunit : max fmt.least (n.log2 + 1 - (fmt.fracBits + 1)) = fmt.unit n := rfl
  simp only [round, hunit, Nat.one_shiftLeft]
  by_cases hcarry : roundShift n (fmt.unit n) = 2 ^ (fmt.fracBits + 1)
  · have hp : fmt.unit n + 1 - fmt.least + fmt.least = fmt.unit n + 1 := by omega
    refine ⟨2 ^ fmt.fracBits, fmt.unit n + 1 - fmt.least,
      ⟨Nat.pow_lt_pow_right (by decide) (Nat.lt_succ_self _), .inl (Nat.le_refl _), by omega⟩, ?_, ?_⟩
    · simp only [hcarry, if_true, if_neg (show ¬fmt.special ≤ fmt.unit n + 1 - fmt.least + 1 by omega)]
    · rw [hcarry, hp, ← Nat.pow_add, ← Nat.pow_add, Nat.add_right_comm, Nat.add_assoc]
  · have hp : fmt.unit n - fmt.least + fmt.least = fmt.unit n := by omega
    refine ⟨roundShift n (fmt.unit n), fmt.unit n - fmt.least, ⟨by omega, by omega, by omega⟩, ?_, ?_⟩
    · simp only [if_neg hcarry, if_neg (show ¬fmt.special ≤ fmt.unit n - fmt.least + 1 by omega)]
    · rw [hp]

/-- From the limit on, it gives an infinity. -/
theorem round_of_limit_le (h : fmt.limit ≤ n) : fmt.round s n = fmt.infinity s := by
  have hle : roundShift n (fmt.unit n) ≤ 2 ^ (fmt.fracBits + 1) := fmt.roundShift_unit_le
  have hlimit := mt (fmt.lt_limit_iff n).2 (Nat.not_lt.2 h)
  have hunit : max fmt.least (n.log2 + 1 - (fmt.fracBits + 1)) = fmt.unit n := rfl
  simp only [round, hunit, Nat.one_shiftLeft]
  by_cases hcarry : roundShift n (fmt.unit n) = 2 ^ (fmt.fracBits + 1)
  · simp only [hcarry, if_true, if_pos (show fmt.special ≤ fmt.unit n + 1 - fmt.least + 1 by omega)]
  · simp only [if_neg hcarry, if_pos (show fmt.special ≤ fmt.unit n - fmt.least + 1 by omega)]

theorem infinity_lt (s : Bool) : fmt.infinity s < 2 ^ (1 + fmt.expBits + fmt.fracBits) :=
  fmt.pack_lt (Nat.two_pow_pos _) fmt.special_lt

theorem round_lt (s : Bool) (n : Nat) : fmt.round s n < 2 ^ (1 + fmt.expBits + fmt.fracBits) := by
  rcases Nat.lt_or_ge n fmt.limit with h | h
  · obtain ⟨m, p, hvalid, hround, -⟩ := fmt.round_eq (s := s) h
    rw [hround]
    exact make_lt hvalid
  · rw [fmt.round_of_limit_le h]
    exact fmt.infinity_lt s

/-- **Below the limit, no number of the format is nearer than the one rounded to.** -/
theorem round_nearest (h : n < fmt.limit) :
    fmt.isFinite (fmt.round s n) ∧ fmt.sign (fmt.round s n) = s ∧
      ∀ v, (fmt.signedMagnitude (fmt.round s n) - signed s n).natAbs ≤
        (fmt.signedMagnitude v - signed s n).natAbs := by
  obtain ⟨m, p, hvalid, hround, hvalue⟩ := fmt.round_eq (s := s) h
  rw [hround]
  refine ⟨isFinite_make hvalid, sign_make hvalid, fun v => ?_⟩
  rw [signedMagnitude_eq, signedMagnitude_eq, sign_make hvalid, magnitude_make hvalid, hvalue, fmt.magnitude_eq v]
  exact natAbs_signed_sub_le (gap_roundShift_unitOf_le (Nat.succ_pos _) (fmt.sig_lt v) (Nat.le_add_left _ _))
    (gap_roundShift_unitOf_le_zero (Nat.succ_pos _))

/-- A number of the format's digits is rounded to itself. -/
theorem magnitude_round {q : Nat} (h : n < fmt.limit) (hm : m < 2 ^ (fmt.fracBits + 1)) (hq : fmt.least ≤ q)
    (hn : n = m * 2 ^ q) : fmt.magnitude (fmt.round s n) = n := by
  obtain ⟨m', p, hvalid, hround, hvalue⟩ := fmt.round_eq (s := s) h
  rw [hround, magnitude_make hvalid, hvalue]
  exact roundShift_unitOf_eq (Nat.succ_pos _) hm hq hn

end BinaryFormat

end TableQuery

/-
How the octets of digits compare (`Decimal.compare_encode`, `Decimal.compare_encode_longer`).

Octets compare from the first one on, so texts of one length compare part by part
(`compare_append`), and numbers of so many digits do the same (`compare_mul_add`).
Digits of one length then compare as the numbers that they spell, and fewer digits
as if zeros followed them, unless zeros are all that they lack.
-/
import Mathlib.Order.Compare
import TableQuery.Proofs.Text.Decimal
import TableQuery.Text.Utf8

namespace TableQuery.Text

/-! ## Part by part -/

theorem compare_append {α : Type} [Ord α] {as bs : List α} (h : as.length = bs.length) (xs ys : List α) :
    compare (as ++ xs) (bs ++ ys) = (compare as bs).then (compare xs ys) := by
  induction as generalizing bs with
  | nil =>
    obtain rfl := List.length_eq_zero_iff.1 h.symm
    rfl
  | cons a as ih =>
    cases bs with
    | nil => simp at h
    | cons b bs =>
      rw [List.cons_append, List.cons_append, List.compare_cons_cons, List.compare_cons_cons, ih (Nat.succ.inj h),
        Ordering.then_assoc]

/-- What is told apart by its first parts compares as they do, and else as what is left. -/
theorem compare_eq_then {α β : Type} [LinearOrder α] [LinearOrder β] {a b : α} {x y : β} {rest : Ordering}
    (hlt : a < b → x < y) (hgt : b < a → y < x) (heq : a = b → compare x y = rest) :
    compare x y = (compare a b).then rest := by
  rcases lt_trichotomy a b with h | h | h
  · rw [compare_lt_iff_lt.2 h, compare_lt_iff_lt.2 (hlt h)]
    rfl
  · rw [compare_eq_iff_eq.2 h, heq h]
    rfl
  · rw [compare_gt_iff_gt.2 h, compare_gt_iff_gt.2 (hgt h)]
    rfl

theorem compare_congr {α β : Type} [LinearOrder α] [LinearOrder β] {a b : α} {x y : β} (hlt : a < b ↔ x < y)
    (hgt : b < a ↔ y < x) : compare a b = compare x y := by
  have heq : x = y → a = b := by
    intro h
    exact le_antisymm (not_lt.1 fun hba => (hgt.1 hba).ne' h) (not_lt.1 fun hab => (hlt.1 hab).ne h)
  exact (compare_eq_then hlt.2 hgt.2 fun h => compare_eq_iff_eq.2 (heq h)).trans Ordering.then_eq

theorem compare_mul {k : Nat} (h : 0 < k) (a b : Nat) : compare (a * k) (b * k) = compare a b :=
  compare_congr (Nat.mul_lt_mul_right h) (Nat.mul_lt_mul_right h)

theorem compare_add_left (k a b : Nat) : compare (k + a) (k + b) = compare a b :=
  compare_congr Nat.add_lt_add_iff_left Nat.add_lt_add_iff_left

/-- Numbers compare by how often they have a base, and then by what is left. -/
theorem compare_mul_add {base c d : Nat} (hc : c < base) (hd : d < base) (a b : Nat) :
    compare (a * base + c) (b * base + d) = (compare a b).then (compare c d) := by
  have hlt : ∀ {a b c d : Nat}, c < base → a < b → a * base + c < b * base + d := by
    intro a b c d hc h
    have hle := Nat.mul_le_mul_right base h
    rw [Nat.succ_mul] at hle
    omega
  refine compare_eq_then (hlt hc) (hlt hd) ?_
  rintro rfl
  exact compare_add_left _ _ _

/-! ## Octets -/

namespace Utf8

@[simp] theorem encode_append (as bs : List Char) : encode (as ++ bs) = encode as ++ encode bs := List.flatMap_append

/-- A character of ASCII is one octet. -/
theorem encode_cons {c : Char} (h : c.toNat ≤ 0x7F) (cs : List Char) :
    encode (c :: cs) = UInt8.ofNat c.toNat :: encode cs := by
  have hone : String.utf8EncodeChar c = [UInt8.ofNat c.toNat] := by
    unfold String.utf8EncodeChar
    exact if_pos h
  rw [encode, List.flatMap_cons, hone]
  rfl

theorem compare_cons {c : Char} (h : c.toNat ≤ 0x7F) (xs ys : List Char) :
    compare (encode (c :: xs)) (encode (c :: ys)) = compare (encode xs) (encode ys) := by
  rw [encode_cons h, encode_cons h, List.compare_cons_cons, Std.ReflOrd.compare_self]
  rfl

theorem compare_octet {m n : Nat} (hm : m ≤ 0x7F) (hn : n ≤ 0x7F) :
    compare (UInt8.ofNat m) (UInt8.ofNat n) = compare m n := by
  have hoctet : ∀ {k}, k ≤ 0x7F → (UInt8.ofNat k).toNat = k := fun hk => by
    rw [UInt8.toNat_ofNat']
    omega
  have hlt : UInt8.ofNat m < UInt8.ofNat n ↔ m < n := by rw [UInt8.lt_iff_toNat_lt, hoctet hm, hoctet hn]
  have heq : UInt8.ofNat m = UInt8.ofNat n ↔ m = n := by rw [← UInt8.toNat_inj, hoctet hm, hoctet hn]
  show compareOfLessAndEq _ _ = compareOfLessAndEq _ _
  simp only [compareOfLessAndEq, hlt, heq]

end Utf8

/-! ## Digits -/

namespace Decimal

open Utf8

/-- The number that a digit stands for. -/
def digit (c : Char) : Nat := c.toNat - '0'.toNat

theorem toNat_of_isDigit {c : Char} (h : c.isDigit) : c.toNat = 48 + digit c ∧ digit c < 10 := by
  obtain ⟨hlow, hhigh⟩ := Char.isDigit_iff_toNat.1 h
  have hlow : 48 ≤ c.toNat := hlow
  have hhigh : c.toNat ≤ 57 := hhigh
  have hzero : '0'.toNat = 48 := rfl
  rw [digit, hzero]
  omega

theorem value_cons (c : Char) (cs : List Char) : value (c :: cs) = digit c * 10 ^ cs.length + value cs := by
  rw [value, Nat.ofDigitChars_cons, Nat.ofDigitChars_eq_ofDigitChars_zero]
  simp [digit, value, Nat.mul_comm]

theorem value_append (as bs : List Char) : value (as ++ bs) = value as * 10 ^ bs.length + value bs := by
  rw [value, Nat.ofDigitChars_append, Nat.ofDigitChars_eq_ofDigitChars_zero]
  simp [value, Nat.mul_comm]

theorem value_lt {ds : List Char} (h : ∀ c ∈ ds, c.isDigit) : value ds < 10 ^ ds.length := by
  induction ds with
  | nil => decide
  | cons c ds ih =>
    have hrest := ih fun d hd => h d (List.mem_cons_of_mem c hd)
    have hdigit := (toNat_of_isDigit (h c List.mem_cons_self)).2
    have hle := Nat.mul_le_mul_right (10 ^ ds.length) hdigit
    rw [value_cons, List.length_cons, Nat.pow_succ]
    rw [Nat.succ_mul] at hle
    omega

theorem length_encode {ds : List Char} (h : ∀ c ∈ ds, c.isDigit) : (encode ds).length = ds.length := by
  induction ds with
  | nil => rfl
  | cons c ds ih =>
    have hc := toNat_of_isDigit (h c List.mem_cons_self)
    rw [encode_cons (by omega), List.length_cons, List.length_cons, ih fun d hd => h d (List.mem_cons_of_mem c hd)]

/-- **As many digits compare as the numbers** that they spell. -/
theorem compare_encode {ds es : List Char} (hds : ∀ c ∈ ds, c.isDigit) (hes : ∀ c ∈ es, c.isDigit)
    (hlen : ds.length = es.length) : compare (encode ds) (encode es) = compare (value ds) (value es) := by
  induction ds generalizing es with
  | nil =>
    obtain rfl := List.length_eq_zero_iff.1 hlen.symm
    rfl
  | cons c ds ih =>
    cases es with
    | nil => simp at hlen
    | cons d es =>
      have hc := toNat_of_isDigit (hds c List.mem_cons_self)
      have hd := toNat_of_isDigit (hes d List.mem_cons_self)
      have hds : ∀ c ∈ ds, c.isDigit := fun a ha => hds a (List.mem_cons_of_mem c ha)
      have hes : ∀ c ∈ es, c.isDigit := fun a ha => hes a (List.mem_cons_of_mem d ha)
      have hlen : ds.length = es.length := Nat.succ.inj hlen
      have hdigit : compare c.toNat d.toNat = compare (digit c) (digit d) := by
        rw [hc.1, hd.1, compare_add_left]
      rw [encode_cons (by omega), encode_cons (by omega), List.compare_cons_cons,
        compare_octet (by omega) (by omega), hdigit, ih hds hes hlen, value_cons, value_cons, hlen]
      exact (compare_mul_add (hlen ▸ value_lt hds) (value_lt hes) _ _).symm

/-- **Fewer digits compare as if zeros followed**, up to the length of the others,
when it is not only zeros that they lack. -/
theorem compare_encode_longer {ds es : List Char} (hds : ∀ c ∈ ds, c.isDigit) (hes : ∀ c ∈ es, c.isDigit)
    (hlen : ds.length ≤ es.length) (hlack : value es % 10 ^ (es.length - ds.length) ≠ 0) :
    compare (encode ds) (encode es) = compare (value ds * 10 ^ (es.length - ds.length)) (value es) := by
  obtain ⟨front, back, rfl, hfront⟩ : ∃ front back, es = front ++ back ∧ front.length = ds.length :=
    ⟨es.take ds.length, es.drop ds.length, (List.take_append_drop _ es).symm, List.length_take_of_le hlen⟩
  have hfronts : ∀ c ∈ front, c.isDigit := fun c hc => hes c (List.mem_append_left back hc)
  have hbacks : ∀ c ∈ back, c.isDigit := fun c hc => hes c (List.mem_append_right front hc)
  have hlength : (front ++ back).length - ds.length = back.length := by
    rw [List.length_append]
    omega
  have hback := value_lt hbacks
  rw [hlength, value_append, Nat.mul_add_mod', Nat.mod_eq_of_lt hback] at hlack
  have hmore : compare [] (encode back) = .lt := by
    cases back with
    | nil => exact absurd rfl hlack
    | cons c back =>
      have hc := toNat_of_isDigit (hbacks c List.mem_cons_self)
      rw [encode_cons (by omega), List.compare_nil_cons]
  have hzeros := compare_mul_add (Nat.zero_lt_of_lt hback) hback (value ds) (value front)
  rw [Nat.compare_eq_lt.2 (Nat.pos_of_ne_zero hlack), Nat.add_zero] at hzeros
  rw [hlength, value_append, hzeros, encode_append, ← List.append_nil (encode ds),
    compare_append (by rw [length_encode hds, length_encode hfronts, hfront]), compare_encode hds hfronts hfront.symm,
    hmore]

theorem compare_padded {width m n : Nat} (hw : 0 < width) (hm : m < 10 ^ width) (hn : n < 10 ^ width)
    (xs ys : List Char) :
    compare (encode (padded width m ++ xs)) (encode (padded width n ++ ys)) =
      (compare m n).then (compare (encode xs) (encode ys)) := by
  have hlen : (padded width m).length = (padded width n).length := by rw [length_padded hw hm, length_padded hw hn]
  have hdigits : ∀ k, ∀ c ∈ padded width k, c.isDigit := fun _ _ => isDigit_of_mem_padded
  rw [encode_append, encode_append,
    compare_append (by rw [length_encode (hdigits m), length_encode (hdigits n), hlen]),
    compare_encode (hdigits m) (hdigits n) hlen, value_padded, value_padded]

theorem compare_padded_cons {width m n : Nat} (hw : 0 < width) (hm : m < 10 ^ width) (hn : n < 10 ^ width) {c : Char}
    (hc : c.toNat ≤ 0x7F) (xs ys : List Char) :
    compare (encode (padded width m ++ c :: xs)) (encode (padded width n ++ c :: ys)) =
      (compare m n).then (compare (encode xs) (encode ys)) := by
  rw [compare_padded hw hm hn, compare_cons hc]

end Decimal

end TableQuery.Text

/-
Reading UTF-8 undoes writing it (`Utf8.decode_encode`): octets that were written
from characters are cut into just these, and no broken run is among them.
-/
import TableQuery.Text.Utf8

namespace TableQuery.Text.Utf8

variable {b : UInt8} {bs rest : List UInt8}

/-! ## First octets by the number of octets that follow -/

theorem Lead.of?_two {b : Nat} (h : 0xC2 ≤ b ∧ b ≤ 0xDF) : of? b = some ⟨b - 0xC0, 1, 0x80, 0xBF⟩ := by
  simp only [of?, if_neg (show ¬b ≤ 0x7F by omega), if_pos h]

/-- After two of the first octets the next one is bound more narrowly: it would
start what fewer octets can say, or half of a surrogate pair. -/
theorem Lead.of?_three {b : Nat} (h : 0xE0 ≤ b ∧ b ≤ 0xEF) :
    of? b = some ⟨b - 0xE0, 2, if b = 0xE0 then 0xA0 else 0x80, if b = 0xED then 0x9F else 0xBF⟩ := by
  simp only [of?, if_neg (show ¬b ≤ 0x7F by omega), if_neg (show ¬(0xC2 ≤ b ∧ b ≤ 0xDF) by omega)]
  by_cases h0 : b = 0xE0
  · simp [h0]
  · by_cases hd : b = 0xED
    · simp [hd]
    · simp only [h0, hd, if_false, if_pos (show 0xE1 ≤ b ∧ b ≤ 0xEF by omega)]

theorem Lead.of?_four {b : Nat} (h : 0xF0 ≤ b ∧ b ≤ 0xF4) :
    of? b = some ⟨b - 0xF0, 3, if b = 0xF0 then 0x90 else 0x80, if b = 0xF4 then 0x8F else 0xBF⟩ := by
  simp only [of?, if_neg (show ¬b ≤ 0x7F by omega), if_neg (show ¬(0xC2 ≤ b ∧ b ≤ 0xDF) by omega),
    if_neg (show ¬b = 0xE0 by omega), if_neg (show ¬b = 0xED by omega),
    if_neg (show ¬(0xE1 ≤ b ∧ b ≤ 0xEF) by omega)]
  by_cases h0 : b = 0xF0
  · simp [h0]
  · by_cases h4 : b = 0xF4
    · simp [h4]
    · simp only [h0, h4, if_false, if_pos (show 0xF1 ≤ b ∧ b ≤ 0xF3 by omega)]

/-! ## Characters by the number of their octets -/

theorem next_of_lead {lead : Lead} (h : Lead.of? b.toNat = some lead) {code : Nat}
    (hf : follow lead.tails lead.least lead.greatest lead.share bs = (some code, rest)) :
    next b bs = (some (Char.ofNat code), rest) := by
  simp only [next, h, hf, Option.map_some]

theorem follow_cons {n least greatest code : Nat} (h : least ≤ b.toNat ∧ b.toNat ≤ greatest) :
    follow (n + 1) least greatest code (b :: bs) = follow n 0x80 0xBF (64 * code + (b.toNat - 0x80)) bs := by
  simp only [follow, if_pos h]

@[simp] theorem follow_zero {least greatest code : Nat} : follow 0 least greatest code bs = (some code, bs) := rfl

section

variable {v : Nat} {b c d e : UInt8}

theorem next_one (rest : List UInt8) (hb : b.toNat = v) (h : v ≤ 0x7F) : next b rest = (some (Char.ofNat v), rest) := by
  have hlead : Lead.of? b.toNat = some ⟨v, 0, 0x80, 0xBF⟩ := by rw [hb, Lead.of?, if_pos h]
  exact next_of_lead hlead follow_zero

theorem next_two (rest : List UInt8) (hb : b.toNat = v / 64 + 0xC0) (hc : c.toNat = v % 64 + 0x80) (h : 0x7F < v)
    (h' : v ≤ 0x7FF) :
    next b (c :: rest) = (some (Char.ofNat v), rest) := by
  refine next_of_lead (Lead.of?_two (by omega)) ?_
  have hcode : 64 * (b.toNat - 0xC0) + (c.toNat - 0x80) = v := by omega
  rw [follow_cons (by simp only; omega), follow_zero, hcode]

theorem next_three (rest : List UInt8) (hb : b.toNat = v / 4096 + 0xE0) (hc : c.toNat = v / 64 % 64 + 0x80)
    (hd : d.toNat = v % 64 + 0x80) (h : 0x7FF < v) (h' : v ≤ 0xFFFF) (hv : v < 0xD800 ∨ 0xDFFF < v) :
    next b (c :: d :: rest) = (some (Char.ofNat v), rest) := by
  refine next_of_lead (Lead.of?_three (by omega)) ?_
  have hcode : 64 * (64 * (b.toNat - 0xE0) + (c.toNat - 0x80)) + (d.toNat - 0x80) = v := by omega
  rw [follow_cons (by simp only; split <;> split <;> omega), follow_cons (by omega), follow_zero, hcode]

theorem next_four (rest : List UInt8) (hb : b.toNat = v / 262144 + 0xF0) (hc : c.toNat = v / 4096 % 64 + 0x80)
    (hd : d.toNat = v / 64 % 64 + 0x80) (he : e.toNat = v % 64 + 0x80) (h : 0xFFFF < v) (h' : v < 0x110000) :
    next b (c :: d :: e :: rest) = (some (Char.ofNat v), rest) := by
  refine next_of_lead (Lead.of?_four (by omega)) ?_
  have hcode : 64 * (64 * (64 * (b.toNat - 0xF0) + (c.toNat - 0x80)) + (d.toNat - 0x80)) +
      (e.toNat - 0x80) = v := by omega
  rw [follow_cons (by simp only; split <;> split <;> omega), follow_cons (by omega), follow_cons (by omega),
    follow_zero, hcode]

end

theorem next_encodeChar (c : Char) (rest : List UInt8) :
    ∃ b bs, String.utf8EncodeChar c = b :: bs ∧ next b (bs ++ rest) = (some c, rest) := by
  have hvalid : c.val.toNat < 0xD800 ∨ 0xDFFF < c.val.toNat ∧ c.val.toNat < 0x110000 := c.valid
  have hc : Char.ofNat c.val.toNat = c := Char.ofNat_toNat c
  have ho : ∀ n, (UInt8.ofNat n).toNat = n % 256 := fun _ => UInt8.toNat_ofNat'
  have hnext : ∃ b bs, String.utf8EncodeChar c = b :: bs ∧
      next b (bs ++ rest) = (some (Char.ofNat c.val.toNat), rest) := by
    unfold String.utf8EncodeChar
    simp only
    split
    · next h => exact ⟨_, _, rfl, next_one rest ((ho _).trans (by omega)) h⟩
    split
    · next h h' =>
      exact ⟨_, _, rfl, next_two rest ((ho _).trans (by omega)) ((ho _).trans (by omega)) (by omega) h'⟩
    split
    · next h h' =>
      exact ⟨_, _, rfl, next_three rest ((ho _).trans (by omega)) ((ho _).trans (by omega))
        ((ho _).trans (by omega)) (by omega) h' (by omega)⟩
    · next h =>
      exact ⟨_, _, rfl, next_four rest ((ho _).trans (by omega)) ((ho _).trans (by omega))
        ((ho _).trans (by omega)) ((ho _).trans (by omega)) (by omega) (by omega)⟩
  rwa [hc] at hnext

/-- **Reading undoes writing.** -/
@[simp] theorem decode_encode (cs : List Char) : decode (encode cs) = cs.map some := by
  induction cs with
  | nil => simp [encode, decode]
  | cons c cs ih =>
    obtain ⟨b, bs, hb, hnext⟩ := next_encodeChar c (encode cs)
    have hcons : encode (c :: cs) = b :: (bs ++ encode cs) := by
      simp only [encode, List.flatMap_cons, hb, List.cons_append]
    rw [hcons, decode, hnext, ih]
    rfl

@[simp] theorem decodeLossy_encode (cs : List Char) : decodeLossy (encode cs) = cs := by
  simp [decodeLossy, Function.comp_def]

@[simp] theorem decode?_encode (cs : List Char) : decode? (encode cs) = some cs := by
  rw [decode?, decode_encode]
  induction cs with
  | nil => rfl
  | cons c cs ih => simp [ih]

end TableQuery.Text.Utf8

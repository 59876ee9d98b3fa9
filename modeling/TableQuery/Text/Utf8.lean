/-
UTF-8: writing characters as octets, and reading octets that need not be
well formed.

Reading cuts the octets into characters and broken runs. A broken run is the
longest start of a character that the next octet does not continue, or one
octet that starts no character; each is read as `none`. So strict reading
asks that there be none, and lenient reading puts U+FFFD for each.
-/
namespace TableQuery.Text.Utf8

/-- The octets of a text. -/
def encode (cs : List Char) : List UInt8 := cs.flatMap String.utf8EncodeChar

/-- What a first octet promises: its share of the code point, how many
octets follow it, and the least and the greatest that the next one may be. -/
structure Lead where
  share : Nat
  tails : Nat
  least : Nat
  greatest : Nat

/-- The promise of a first octet, if it starts a character. -/
def Lead.of? (b : Nat) : Option Lead :=
  if b ≤ 0x7F then some ⟨b, 0, 0x80, 0xBF⟩
  else if 0xC2 ≤ b ∧ b ≤ 0xDF then some ⟨b - 0xC0, 1, 0x80, 0xBF⟩
  else if b = 0xE0 then some ⟨b - 0xE0, 2, 0xA0, 0xBF⟩
  else if b = 0xED then some ⟨b - 0xE0, 2, 0x80, 0x9F⟩
  else if 0xE1 ≤ b ∧ b ≤ 0xEF then some ⟨b - 0xE0, 2, 0x80, 0xBF⟩
  else if b = 0xF0 then some ⟨b - 0xF0, 3, 0x90, 0xBF⟩
  else if 0xF1 ≤ b ∧ b ≤ 0xF3 then some ⟨b - 0xF0, 3, 0x80, 0xBF⟩
  else if b = 0xF4 then some ⟨b - 0xF0, 3, 0x80, 0x8F⟩
  else none

/-- Reads the octets that a first one promised. The code point is missing
when one of them does not come, and then that octet is left unread. -/
def follow : Nat → Nat → Nat → Nat → List UInt8 → Option Nat × List UInt8
  | 0, _, _, code, bs => (some code, bs)
  | _ + 1, _, _, _, [] => (none, [])
  | n + 1, least, greatest, code, b :: bs =>
    if least ≤ b.toNat ∧ b.toNat ≤ greatest then
      follow n 0x80 0xBF (64 * code + (b.toNat - 0x80)) bs
    else (none, b :: bs)

/-- The character or broken run that starts with `b`, and the octets after it. -/
def next (b : UInt8) (bs : List UInt8) : Option Char × List UInt8 :=
  match Lead.of? b.toNat with
  | none => (none, bs)
  | some lead =>
    let (code, rest) := follow lead.tails lead.least lead.greatest lead.share bs
    (code.map Char.ofNat, rest)

theorem length_follow (n least greatest code : Nat) (bs : List UInt8) :
    (follow n least greatest code bs).2.length ≤ bs.length := by
  fun_induction follow n least greatest code bs with
  | case1 => simp
  | case2 => simp
  | case3 n least greatest code b bs h ih => simp only [List.length_cons]; omega
  | case4 => simp

theorem length_next (b : UInt8) (bs : List UInt8) : (next b bs).2.length ≤ bs.length := by
  simp only [next]
  split
  · simp
  · exact length_follow ..

/-- The octets cut into characters and broken runs. -/
def decode : List UInt8 → List (Option Char)
  | [] => []
  | b :: bs =>
    have := length_next b bs
    (next b bs).1 :: decode (next b bs).2
termination_by bs => bs.length
decreasing_by simp only [List.length_cons]; omega

/-- The text, with U+FFFD for each broken run. -/
def decodeLossy (bs : List UInt8) : List Char :=
  (decode bs).map fun c => c.getD (Char.ofNat 0xFFFD)

/-- The text of well-formed octets. -/
def decode? (bs : List UInt8) : Option (List Char) := (decode bs).mapM id

end TableQuery.Text.Utf8

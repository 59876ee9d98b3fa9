/-
What the pattern operators match (`pattern_matches`).

A pattern is a value's text with `%` before or after it, and nothing in the
text is escaped. So a text matches if it has, at its start, at its end or
anywhere, a text that the value matches as a pattern of its own. That is the
value itself as long as there is neither `%` nor `_` in it. If there is, each
of the operators matches more than it is named for; and as nothing can be
escaped, no other pattern would do better.

In a pattern of `LIKE`, `%` stands for any run of characters, `_` for any one
character, and every other character for itself. Letters match in their own
case only.
-/
import TableQuery.Query.Clause

namespace TableQuery

namespace Like

/-! ## Matching -/

/-- What is left of a text after each of its starts, the whole of it first. -/
def endings {α : Type} : List α → List (List α)
  | [] => [[]]
  | a :: as => (a :: as) :: endings as

/-- Whether a text matches a pattern. -/
def admits : List Char → List Char → Bool
  | [], subject => subject.isEmpty
  | p :: pattern, subject =>
    if p = '%' then (endings subject).any (admits pattern)
    else match subject with
      | [] => false
      | c :: cs => (p = '_' || p = c) && admits pattern cs

theorem mem_endings {α : Type} {t s : List α} : t ∈ endings s ↔ t <:+ s := by
  induction s with
  | nil => simp [endings]
  | cons a s ih => rw [endings, List.mem_cons, ih, List.suffix_cons_iff]

theorem admits_percent (pattern subject : List Char) :
    admits ('%' :: pattern) subject ↔ ∃ t, t <:+ subject ∧ admits pattern t := by
  simp [admits, mem_endings]

/-- Any character but `%` matches one: itself, or whatever it is for `_`. -/
theorem admits_cons {p : Char} (hp : p ≠ '%') (pattern subject : List Char) :
    admits (p :: pattern) subject ↔ ∃ c cs, subject = c :: cs ∧ (p = '_' ∨ p = c) ∧ admits pattern cs := by
  cases subject with
  | nil => simp [admits, hp]
  | cons c cs => simp [admits, hp, and_assoc]

theorem admits_nil (subject : List Char) : admits [] subject ↔ subject = [] := by
  cases subject <;> simp [admits]

/-- **One pattern after another** matches one text after another. -/
theorem admits_append (first second subject : List Char) :
    admits (first ++ second) subject ↔
      ∃ a b, subject = a ++ b ∧ admits first a ∧ admits second b := by
  induction first generalizing subject with
  | nil =>
    constructor
    · intro h
      exact ⟨[], subject, rfl, rfl, h⟩
    · intro h
      obtain ⟨a, b, rfl, ha, hb⟩ := h
      cases (admits_nil a).1 ha
      exact hb
  | cons p first ih =>
    by_cases hp : p = '%'
    · subst hp
      rw [List.cons_append, admits_percent]
      constructor
      · intro h
        obtain ⟨t, ⟨passed, rfl⟩, ht⟩ := h
        obtain ⟨a, b, rfl, ha, hb⟩ := (ih t).1 ht
        exact ⟨passed ++ a, b, by simp, (admits_percent ..).2 ⟨a, List.suffix_append .., ha⟩, hb⟩
      · intro h
        obtain ⟨a, b, rfl, ha, hb⟩ := h
        obtain ⟨t, ⟨passed, rfl⟩, ht⟩ := (admits_percent ..).1 ha
        exact ⟨t ++ b, ⟨passed, by simp⟩, (ih _).2 ⟨t, b, rfl, ht, hb⟩⟩
    · rw [List.cons_append, admits_cons hp]
      constructor
      · intro h
        obtain ⟨c, cs, rfl, hc, hcs⟩ := h
        obtain ⟨a, b, rfl, ha, hb⟩ := (ih cs).1 hcs
        exact ⟨c :: a, b, rfl, (admits_cons hp ..).2 ⟨c, a, rfl, hc, ha⟩, hb⟩
      · intro h
        obtain ⟨a, b, rfl, ha, hb⟩ := h
        obtain ⟨c, cs, rfl, hc, hcs⟩ := (admits_cons hp ..).1 ha
        exact ⟨c, cs ++ b, rfl, hc, (ih _).2 ⟨cs, b, rfl, hcs, hb⟩⟩

theorem admits_anything (subject : List Char) : admits ['%'] subject :=
  (admits_percent ..).2 ⟨[], List.nil_suffix, rfl⟩

/-- Every pattern matches itself. -/
theorem admits_self (pattern : List Char) : admits pattern pattern := by
  induction pattern with
  | nil => rfl
  | cons p pattern ih =>
    by_cases hp : p = '%'
    · subst hp
      exact (admits_percent ..).2 ⟨pattern, List.suffix_cons .., ih⟩
    · exact (admits_cons hp ..).2 ⟨p, pattern, rfl, .inr rfl, ih⟩

/-! ## Wildcards -/

/-- Without wildcards. -/
def IsLiteral (cs : List Char) : Prop := ∀ c ∈ cs, c ≠ '%' ∧ c ≠ '_'

theorem admits_of_isLiteral {pattern : List Char} (h : IsLiteral pattern) (subject : List Char) :
    admits pattern subject ↔ subject = pattern := by
  induction pattern generalizing subject with
  | nil => exact admits_nil subject
  | cons p pattern ih =>
    have hp := h p List.mem_cons_self
    have ih := ih fun c hc => h c (List.mem_cons_of_mem p hc)
    rw [admits_cons hp.1]
    constructor
    · intro hs
      obtain ⟨c, cs, rfl, hc, hcs⟩ := hs
      rw [hc.resolve_left hp.2, (ih cs).1 hcs]
    · intro hs
      exact ⟨p, pattern, hs, .inr rfl, (ih pattern).2 rfl⟩

/-- A character that is no wildcard, and the same one unless `c` is a wildcard. -/
def plain (c : Char) : Char := if c = '%' ∨ c = '_' then 'a' else c

theorem plain_eq_iff {c : Char} : plain c = c ↔ c ≠ '%' ∧ c ≠ '_' := by
  unfold plain
  by_cases h : c = '%' ∨ c = '_'
  · rw [if_pos h]
    rcases h with rfl | rfl <;> decide
  · rw [if_neg h]
    simpa using h

theorem map_plain_eq_iff (cs : List Char) : cs.map plain = cs ↔ IsLiteral cs := by
  induction cs with
  | nil => simp [IsLiteral]
  | cons c cs ih =>
    rw [List.map_cons, List.cons.injEq, plain_eq_iff, ih]
    simp [IsLiteral]

/-- **No pattern asks for a wildcard**: with another character in its place, the text matches still. -/
theorem admits_map_plain {pattern subject : List Char} (h : admits pattern subject) :
    admits pattern (subject.map plain) := by
  induction pattern generalizing subject with
  | nil => simpa [admits_nil] using h
  | cons p pattern ih =>
    by_cases hp : p = '%'
    · subst hp
      obtain ⟨t, ht, hadmits⟩ := (admits_percent ..).1 h
      exact (admits_percent ..).2 ⟨t.map plain, ht.map plain, ih hadmits⟩
    · obtain ⟨c, cs, rfl, hc, hcs⟩ := (admits_cons hp ..).1 h
      refine (admits_cons hp ..).2 ⟨plain c, cs.map plain, rfl, ?_, ih hcs⟩
      by_cases hw : p = '_'
      · exact .inl hw
      · have hpc : p = c := hc.resolve_left hw
        exact .inr (hpc ▸ (plain_eq_iff.2 ⟨hp, hw⟩).symm)

/-- Whether a text matches a pattern that is bound as a value. -/
def accepts (pattern : Value) (subject : String) : Bool :=
  match pattern with
  | .text p => admits p.toList subject.toList
  | _ => false

end Like

/-! ## The operators -/

namespace PatternKind

/-- What an operator is named for: that one text stands at the start of another, at its end, or in it. -/
def Names : PatternKind → List Char → List Char → Prop
  | startsWith, t, subject => t <+: subject
  | endsWith, t, subject => t <:+ subject
  | contains, t, subject => t <:+: subject

theorem Names.refl (p : PatternKind) (t : List Char) : p.Names t t := by
  cases p with
  | startsWith => exact List.prefix_refl t
  | endsWith => exact List.suffix_refl t
  | contains => exact List.infix_refl t

/-- No text of the same length stands in another. -/
theorem Names.eq_of_length {p : PatternKind} {t subject : List Char} (h : p.Names t subject)
    (hl : t.length = subject.length) : t = subject := by
  cases p with
  | startsWith => exact List.IsPrefix.eq_of_length h hl
  | endsWith => exact List.IsSuffix.eq_of_length h hl
  | contains => exact List.IsInfix.eq_of_length h hl

/-- **What a pattern matches**: the texts in which, at the operator's place,
there is one that the value's own text matches. -/
theorem accepts_wrap (p : PatternKind) (v : Value) (subject : String) :
    Like.accepts (p.wrap v) subject ↔ ∃ t, p.Names t subject.toList ∧ Like.admits v.bareText.toList t := by
  have hpercent : "%".toList = ['%'] := rfl
  cases p with
  | startsWith =>
    rw [wrap, Like.accepts, String.toList_append, hpercent, Like.admits_append]
    constructor
    · intro h
      obtain ⟨a, b, hs, ha, -⟩ := h
      exact ⟨a, ⟨b, hs.symm⟩, ha⟩
    · intro h
      obtain ⟨a, ⟨b, hs⟩, ha⟩ := h
      exact ⟨a, b, hs.symm, ha, Like.admits_anything b⟩
  | endsWith =>
    rw [wrap, Like.accepts, String.toList_append, hpercent]
    exact Like.admits_percent ..
  | contains =>
    rw [wrap, Like.accepts, String.toList_append, String.toList_append, hpercent, Like.admits_append]
    constructor
    · intro h
      obtain ⟨a, b, hs, ha, -⟩ := h
      obtain ⟨t, ⟨passed, rfl⟩, ht⟩ := (Like.admits_percent ..).1 ha
      exact ⟨t, ⟨passed, b, hs.symm⟩, ht⟩
    · intro h
      obtain ⟨t, ⟨passed, b, hs⟩, ht⟩ := h
      exact ⟨passed ++ t, b, hs.symm, (Like.admits_percent ..).2 ⟨t, List.suffix_append .., ht⟩,
        Like.admits_anything b⟩

/-- A pattern that matches just what an operator is named for is one for a text without wildcards. -/
theorem isLiteral_of_accepts {p : PatternKind} {t : List Char} {pattern : Value}
    (h : ∀ subject, Like.accepts pattern subject ↔ p.Names t subject.toList) : Like.IsLiteral t := by
  have hself : Like.accepts pattern (String.ofList t) := (h _).2 (by rw [String.toList_ofList]; exact .refl p t)
  have hplain : Like.accepts pattern (String.ofList (t.map Like.plain)) := by
    unfold Like.accepts at hself ⊢
    split at hself
    · rw [String.toList_ofList] at hself ⊢
      exact Like.admits_map_plain hself
    · cases hself
  have hnames := (h _).1 hplain
  rw [String.toList_ofList] at hnames
  exact (Like.map_plain_eq_iff t).1 (hnames.eq_of_length (by simp)).symm

end PatternKind

/-- **The pattern operators match what they are named for, but for wildcards.**
For every text `v`:

* a subject matches the pattern that an operator makes of `v` exactly if there
  is a text that matches `v` at the subject's start, at its end, or in it;
* this text is always `v` itself, and the operator matches just what it is named
  for, exactly if there is neither `%` nor `_` in `v`;
* a pattern that does so exists for no other `v`, whatever it is made of. -/
theorem pattern_matches (v : String) :
    (∀ (p : PatternKind) (subject : String), Like.accepts ((Operator.pattern p).wrap (.text v)) subject ↔
      ∃ t, p.Names t subject.toList ∧ Like.admits v.toList t) ∧
    (∀ p : PatternKind, (∀ subject, Like.accepts ((Operator.pattern p).wrap (.text v)) subject ↔
      p.Names v.toList subject.toList) ↔ Like.IsLiteral v.toList) ∧
    ∀ p : PatternKind, (∃ pattern, ∀ subject, Like.accepts pattern subject ↔
      p.Names v.toList subject.toList) ↔ Like.IsLiteral v.toList := by
  have hliteral : Like.IsLiteral v.toList → ∀ (p : PatternKind) (subject : String),
      Like.accepts (p.wrap (.text v)) subject ↔ p.Names v.toList subject.toList := by
    intro hv p subject
    rw [p.accepts_wrap]
    constructor
    · intro h
      obtain ⟨t, ht, hadmits⟩ := h
      exact (Like.admits_of_isLiteral hv t).1 hadmits ▸ ht
    · intro h
      exact ⟨v.toList, h, Like.admits_self _⟩
  refine ⟨fun p => p.accepts_wrap (.text v), fun p => ⟨PatternKind.isLiteral_of_accepts, fun hv => hliteral hv p⟩,
    fun p => ⟨?_, fun hv => ⟨_, hliteral hv p⟩⟩⟩
  intro h
  obtain ⟨pattern, hpattern⟩ := h
  exact PatternKind.isLiteral_of_accepts hpattern

/-- `_` stands for any character: `a` does not start with it, end with it or
contain it, and matches all three of its patterns. -/
theorem pattern_matches_underscore :
    (¬ PatternKind.startsWith.Names "_".toList "a".toList ∧
      Like.accepts ((Operator.pattern .startsWith).wrap (.text "_")) "a") ∧
    (¬ PatternKind.endsWith.Names "_".toList "a".toList ∧
      Like.accepts ((Operator.pattern .endsWith).wrap (.text "_")) "a") ∧
    (¬ PatternKind.contains.Names "_".toList "a".toList ∧
      Like.accepts ((Operator.pattern .contains).wrap (.text "_")) "a") := by
  have hnot : ∀ p : PatternKind, ¬ p.Names "_".toList "a".toList := by
    intro p h
    exact absurd (h.eq_of_length rfl) (by decide)
  exact ⟨⟨hnot _, by decide⟩, ⟨hnot _, by decide⟩, ⟨hnot _, by decide⟩⟩

end TableQuery

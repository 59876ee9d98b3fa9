/-
Blanks around a text, and texts between separators.

Trimming takes off exactly the blanks in front and behind (`trim_eq_iff`), and the
segments of a text are what a split at the separator leaves (`segments_eq_splitOn`).
-/
import TableQuery.Text.Blank

namespace TableQuery.Text

theorem not_isBlank_of_isDigit {c : Char} (h : c.isDigit) : isBlank c = false := by
  obtain ⟨hlow, hhigh⟩ := Char.isDigit_iff_toNat.1 h
  have hlow : 48 ≤ c.toNat := hlow
  have hhigh : c.toNat ≤ 57 := hhigh
  simp only [isBlank, Bool.or_eq_false_iff, Bool.and_eq_false_iff, decide_eq_false_iff_not, beq_eq_false_iff_ne]
  omega

/-- Nothing but blanks. -/
def Blank (cs : List Char) : Prop := ∀ c ∈ cs, isBlank c

instance (cs : List Char) : Decidable (Blank cs) := decidable_of_iff (cs.all isBlank) List.all_eq_true

/-- A text with any blanks around it. -/
def Surrounded (core cs : List Char) : Prop := ∃ lead trail, Blank lead ∧ Blank trail ∧ cs = lead ++ core ++ trail

variable {core cs : List Char}

theorem Blank.reverse (h : Blank cs) : Blank cs.reverse := fun c hc => h c (List.mem_reverse.1 hc)

theorem Blank.not_mem (h : Blank cs) {c : Char} (hc : isBlank c = false) : c ∉ cs := fun hmem =>
  Bool.false_ne_true (hc.symm.trans (h c hmem))

theorem Surrounded.not_mem (h : Surrounded core cs) {c : Char} (hc : isBlank c = false) (hcore : c ∉ core) :
    c ∉ cs := by
  obtain ⟨lead, trail, hlead, htrail, rfl⟩ := h
  simp [hlead.not_mem hc, hcore, htrail.not_mem hc]

theorem surrounded_nil_iff : Surrounded [] cs ↔ Blank cs := by
  constructor
  · rintro ⟨lead, trail, hlead, htrail, rfl⟩ c hc
    simp only [List.append_nil, List.mem_append] at hc
    exact hc.elim (hlead c) (htrail c)
  · exact fun h => ⟨cs, [], h, nofun, by simp⟩

theorem skipBlanks_of_blank (h : Blank cs) (rest : List Char) : skipBlanks (cs ++ rest) = skipBlanks rest :=
  List.dropWhile_append_of_pos h

theorem skipBlanks_of_bare (h : ∀ c ∈ core, isBlank c = false) (hne : core ≠ []) (rest : List Char) :
    skipBlanks (core ++ rest) = core ++ rest := by
  cases core with
  | nil => exact absurd rfl hne
  | cons c core => simp [skipBlanks, h c List.mem_cons_self]

theorem exists_skipBlanks (cs : List Char) : ∃ lead, Blank lead ∧ cs = lead ++ skipBlanks cs :=
  ⟨cs.takeWhile isBlank, List.all_eq_true.1 List.all_takeWhile, List.takeWhile_append_dropWhile.symm⟩

theorem surrounded_trim (cs : List Char) : Surrounded (trim cs) cs := by
  obtain ⟨lead, hlead, hfront⟩ := exists_skipBlanks cs
  obtain ⟨trail, htrail, hback⟩ := exists_skipBlanks (skipBlanks cs).reverse
  refine ⟨lead, trail.reverse, hlead, htrail.reverse, ?_⟩
  rw [trim, List.append_assoc, ← List.reverse_append, ← hback, List.reverse_reverse]
  exact hfront

/-- **Trimming takes off exactly the blanks around** a text without blanks of its own. -/
theorem trim_eq_iff (hcore : ∀ c ∈ core, isBlank c = false) : trim cs = core ↔ Surrounded core cs := by
  constructor
  · rintro rfl
    exact surrounded_trim cs
  · rintro ⟨lead, trail, hlead, htrail, rfl⟩
    rw [trim, List.append_assoc, skipBlanks_of_blank hlead]
    by_cases hne : core = []
    · subst hne
      have hall : skipBlanks (trail ++ []) = [] := skipBlanks_of_blank htrail []
      rw [List.nil_append, ← List.append_nil trail, hall]
      rfl
    · rw [skipBlanks_of_bare hcore hne, List.reverse_append, skipBlanks_of_blank htrail.reverse,
        ← List.append_nil core.reverse, skipBlanks_of_bare (by simpa using hcore) (by simpa using hne)]
      simp

theorem segments_eq_splitOn (sep : Char) (cs : List Char) : segments sep cs = cs.splitOn sep := by
  induction cs with
  | nil => rfl
  | cons c cs ih =>
    rw [segments, ih, List.splitOn, List.splitOn, List.splitOnP_cons_eq_if_modifyHead]
    by_cases h : c = sep
    · simp [h]
    · rw [if_neg h, if_neg (by simpa using h)]
      cases hs : List.splitOnP (· == sep) cs with
      | nil => exact absurd hs (List.splitOnP_ne_nil _ _)
      | cons s ss => rfl

end TableQuery.Text

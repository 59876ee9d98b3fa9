/-
Keyword arguments are read by their grammar, and refused exactly outside of it
(`DatePart.keyword_grammar`).

A keyword argument is cut at its first `=`. Before it stands a part's key, behind it
stand segments between commas; blanks around either do not count, and neither do
segments of blanks alone. What goes wrong first decides the fault: no sign to cut
at, then the key, then the segments from left to right.
-/
import Mathlib.Data.List.Forall2
import Mathlib.Data.List.ReduceOption
import TableQuery.Proofs.Query.Checks
import TableQuery.Proofs.Text.Decimal

namespace TableQuery

open Text

namespace DatePart

/-! ## Grammar -/

/-- A segment: nothing but blanks, or an integer with blanks around it. -/
inductive Segment : List Char → Option Int64 → Prop where
  | blank {cs : List Char} (h : Blank cs) : Segment cs none
  | integer {core cs : List Char} {i : Int64} (h : Decimal.Spells core i) (hs : Surrounded core cs) :
    Segment cs (some i)

/-- The text in front of the sign is for a part: its key, with blanks around it. -/
def KeyText (part : DatePart) (before : List Char) : Prop := Surrounded part.key.toList before

/-- Where a keyword argument is cut: at its first sign. -/
structure Cut (keyword : String) (before after : List Char) : Prop where
  text : keyword.toList = before ++ '=' :: after
  first : '=' ∉ before

theorem exists_cut {keyword : String} (h : '=' ∈ keyword.toList) : ∃ before after, Cut keyword before after := by
  obtain ⟨before, after, htext, hfirst⟩ := List.eq_append_cons_of_mem h
  exact ⟨before, after, htext, hfirst⟩

/-! ## Segments -/

variable {part : DatePart} {key cs before after : List Char} {segs : List (List Char)} {keyword : String}

theorem segment_none_iff : Segment cs none ↔ trim cs = [] := by
  rw [trim_eq_iff (by simp), surrounded_nil_iff]
  constructor
  · intro h
    cases h with
    | blank h => exact h
  · exact .blank

theorem segment_some_iff {i : Int64} : Segment cs (some i) ↔ Decimal.Spells (trim cs) i := by
  constructor
  · intro h
    cases h with
    | integer h hs =>
      rw [(trim_eq_iff fun _ => h.isBlank).2 hs]
      exact h
  · exact fun h => .integer h (surrounded_trim cs)

/-- The values of some segments, as they are read. -/
def readSegments (key : List Char) (segs : List (List Char)) : Except Fault (List Value) :=
  ((segs.map trim).filter (· ≠ [])).mapM (readValue key)

theorem readSegments_cons_blank (h : Segment cs none) : readSegments key (cs :: segs) = readSegments key segs := by
  simp [readSegments, segment_none_iff.1 h]

theorem readSegments_cons (h : trim cs ≠ []) :
    readSegments key (cs :: segs) =
      readValue key (trim cs) >>= fun v => (readSegments key segs).map (v :: ·) := by
  simp [readSegments, h]
  rfl

theorem readSegments_cons_integer {i : Int64} (h : Segment cs (some i)) :
    readSegments key (cs :: segs) = (readSegments key segs).map (.integer i :: ·) := by
  have hspells := segment_some_iff.1 h
  rw [readSegments_cons hspells.ne_nil]
  simp only [readValue, Decimal.readInt64?_eq_some_iff.2 hspells]
  rfl

theorem readSegments_of_segments {is : List (Option Int64)} (h : List.Forall₂ Segment segs is) :
    readSegments key segs = .ok (is.reduceOption.map .integer) := by
  induction h with
  | nil => rfl
  | @cons cs i segs is hcs _ ih =>
    cases i with
    | none => rw [readSegments_cons_blank hcs, ih, List.reduceOption_cons_of_none]
    | some i =>
      rw [readSegments_cons_integer hcs, ih]
      rfl

/-- The first segment that is neither blank nor an integer is what is named. -/
theorem readSegments_of_not_segment {is : List (Option Int64)} {front rest : List (List Char)}
    (h : List.Forall₂ Segment front is) (hcs : ∀ i?, ¬Segment cs i?) :
    readSegments key (front ++ cs :: rest) =
      .error (.mapping (.notAnInteger (String.ofList (trim cs)) (String.ofList key))) := by
  induction h with
  | nil =>
    have hread : Decimal.readInt64? (trim cs) = none := by
      rw [Option.eq_none_iff_forall_ne_some]
      exact fun i hi => hcs (some i) (segment_some_iff.2 (Decimal.readInt64?_eq_some_iff.1 hi))
    rw [List.nil_append, readSegments_cons fun he => hcs none (segment_none_iff.2 he)]
    simp only [readValue, hread]
    rfl
  | @cons cs' i front is hcs' _ ih =>
    rw [List.cons_append]
    cases i with
    | none => rw [readSegments_cons_blank hcs', ih]
    | some i =>
      rw [readSegments_cons_integer hcs', ih]
      rfl

/-! ## Keyword arguments -/

theorem key_bare (part : DatePart) : ∀ c ∈ part.key.toList, isBlank c = false ∧ c ≠ '=' := by
  have hall : part.key.toList.all fun c => !isBlank c && c != '=' := by cases part <;> decide
  simpa using hall

theorem ofKey_trim (h : KeyText part before) : ofKey (String.ofList (trim before)) = .ok part := by
  rw [(trim_eq_iff fun c hc => (key_bare part c hc).1).2 h, String.ofList_toList, ofKey_key]

theorem ofKey_trim_of_unknown (h : ∀ part, ¬KeyText part before) :
    ofKey (String.ofList (trim before)) = .error (.invalidOperator (String.ofList (trim before))) := by
  have hnone : all.find? (fun part => part.key = String.ofList (trim before)) = none := by
    rw [List.find?_eq_none]
    intro part _ hkey
    refine h part ?_
    rw [decide_eq_true_eq] at hkey
    rw [KeyText, hkey, String.toList_ofList]
    exact surrounded_trim before
  rw [ofKey, hnone]

theorem Cut.ofKeyword_eq (h : Cut keyword before after) :
    ofKeyword keyword = ofKey (String.ofList (trim before)) >>= fun part =>
      (readSegments before (after.splitOn ',')).map fun values => (part, values) := by
  rw [ofKeyword, h.text, splitOnce?_append h.first, ← segments_eq_splitOn]
  rfl

theorem Cut.ofKeyword_of_segments (h : Cut keyword before after) (hkey : KeyText part before)
    {is : List (Option Int64)} (hsegs : List.Forall₂ Segment (after.splitOn ',') is) :
    ofKeyword keyword = .ok (part, is.reduceOption.map .integer) := by
  rw [h.ofKeyword_eq, ofKey_trim hkey, readSegments_of_segments hsegs]
  rfl

theorem Cut.ofKeyword_of_not_segment (h : Cut keyword before after) (hkey : KeyText part before)
    {front rest : List (List Char)} {is : List (Option Int64)} (hafter : after.splitOn ',' = front ++ cs :: rest)
    (hfront : List.Forall₂ Segment front is) (hcs : ∀ i?, ¬Segment cs i?) :
    ofKeyword keyword = .error (.mapping (.notAnInteger (String.ofList (trim cs)) (String.ofList before))) := by
  rw [h.ofKeyword_eq, ofKey_trim hkey, hafter, readSegments_of_not_segment hfront hcs]
  rfl

theorem Cut.ofKeyword_of_unknown (h : Cut keyword before after) (hkey : ∀ part, ¬KeyText part before) :
    ofKeyword keyword = .error (.invalidOperator (String.ofList (trim before))) := by
  rw [h.ofKeyword_eq, ofKey_trim_of_unknown hkey]
  rfl

theorem ofKeyword_of_not_mem (h : '=' ∉ keyword.toList) : ofKeyword keyword = .error (.invalidOperator keyword) := by
  rw [ofKeyword, splitOnce?_of_not_mem h]

/-- Segments can all be read, or there is a first that cannot. -/
theorem segments_or_first (segs : List (List Char)) :
    (∃ is, List.Forall₂ Segment segs is) ∨
      ∃ front cs rest is, segs = front ++ cs :: rest ∧ List.Forall₂ Segment front is ∧ ∀ i?, ¬Segment cs i? := by
  induction segs with
  | nil => exact .inl ⟨[], .nil⟩
  | cons cs segs ih =>
    by_cases hcs : ∃ i?, Segment cs i?
    · obtain ⟨i?, hcs⟩ := hcs
      rcases ih with ⟨is, h⟩ | ⟨front, cs', rest, is, rfl, h, hcs'⟩
      · exact .inl ⟨i? :: is, .cons hcs h⟩
      · exact .inr ⟨cs :: front, cs', rest, i? :: is, rfl, .cons hcs h, hcs'⟩
    · exact .inr ⟨[], cs, segs, [], rfl, .nil, not_exists.1 hcs⟩

theorem forall_segment_of_forall₂ {is : List (Option Int64)} (h : List.Forall₂ Segment segs is) :
    ∀ cs ∈ segs, ∃ i?, Segment cs i? := by
  induction h with
  | nil => exact fun _ hmem => absurd hmem List.not_mem_nil
  | cons hcs _ ih => exact List.forall_mem_cons.2 ⟨⟨_, hcs⟩, ih⟩

theorem forall₂_of_blank (h : ∀ cs ∈ segs, Blank cs) : List.Forall₂ Segment segs (List.replicate segs.length none) := by
  induction segs with
  | nil => exact .nil
  | cons cs segs ih =>
    obtain ⟨hcs, hsegs⟩ := List.forall_mem_cons.1 h
    exact .cons (.blank hcs) (ih hsegs)

/-- The sign of the cut is the first, since no key has one. -/
theorem cut_of_keyText (hkey : KeyText part before) (after : List Char) :
    Cut (String.ofList (before ++ '=' :: after)) before after where
  text := String.toList_ofList
  first := hkey.not_mem (by decide) fun h => (key_bare part _ h).2 rfl

theorem comma_not_mem_of_segment {i? : Option Int64} (h : Segment cs i?) : ',' ∉ cs := by
  cases h with
  | blank h => exact h.not_mem (by decide)
  | integer h hs => exact hs.not_mem (by decide) fun hmem => by rcases h.mem hmem with h | h | h <;> revert h <;> decide

theorem ofKeyword_written (hkey : KeyText part before) {is : List (Option Int64)} (hne : segs ≠ [])
    (hsegs : List.Forall₂ Segment segs is) :
    ofKeyword (String.ofList (before ++ '=' :: [','].intercalate segs)) = .ok (part, is.reduceOption.map .integer) := by
  refine (cut_of_keyText hkey _).ofKeyword_of_segments hkey ?_
  rw [List.splitOn_intercalate _ (fun cs hcs => ?_) hne]
  · exact hsegs
  · obtain ⟨i?, h⟩ := forall_segment_of_forall₂ hsegs cs hcs
    exact comma_not_mem_of_segment h

theorem exists_ofKeyword_iff (h : Cut keyword before after) :
    (∃ result, ofKeyword keyword = .ok result) ↔
      (∃ part, KeyText part before) ∧ ∀ cs ∈ after.splitOn ',', ∃ i?, Segment cs i? := by
  constructor
  · rintro ⟨result, hresult⟩
    by_cases hkey : ∃ part, KeyText part before
    · obtain ⟨part, hkey⟩ := hkey
      refine ⟨⟨part, hkey⟩, ?_⟩
      rcases segments_or_first (after.splitOn ',') with ⟨is, hsegs⟩ | ⟨front, cs, rest, is, hafter, hfront, hcs⟩
      · exact forall_segment_of_forall₂ hsegs
      · rw [h.ofKeyword_of_not_segment hkey hafter hfront hcs] at hresult
        cases hresult
    · rw [h.ofKeyword_of_unknown (not_exists.1 hkey)] at hresult
      cases hresult
  · rintro ⟨⟨part, hkey⟩, hall⟩
    rcases segments_or_first (after.splitOn ',') with ⟨is, hsegs⟩ | ⟨front, cs, rest, is, hafter, -, hcs⟩
    · exact ⟨_, h.ofKeyword_of_segments hkey hsegs⟩
    · obtain ⟨i?, hseg⟩ := hall cs (by simp [hafter])
      exact absurd hseg (hcs i?)

end DatePart

/-- No operator takes nothing. -/
@[simp] theorem Test.of?_nil (op : Operator) : Test.of? op [] = none := by cases op <;> rfl

theorem Predicate.make_nil {s : Schema} {field : String} {f : Field} (op : Operator) (part : Option DatePart)
    (hfield : s.require field = .ok f) :
    Predicate.make s field op [] part = .error (.invalidOperandCount op.name f.name op.arity.wording 0) := by
  simp [make, hfield]

/-- The operands are counted before anything is asked of the field's type. -/
theorem Query.filterDate_of_no_value {q : Query} {verb field : String} {op : Operator} {f : Field} {keyword : String}
    {part : DatePart} (hverb : Operator.ofName verb = .ok op) (hfield : q.schema.require field = .ok f)
    (hkeyword : DatePart.ofKeyword keyword = .ok (part, [])) :
    q.filterDate verb field [keyword] = .error (.invalidOperandCount op.name f.name op.arity.wording 0) := by
  simp [filterDate, hverb, filterParts, filterPart, addCondition, hkeyword, Predicate.make_nil _ _ hfield]

/-- **Keyword arguments are read by their grammar.**

* A part's key, `=`, and segments between commas, each of which is blank or an
  integer, with blanks around the key and the integers: this is read as the part and
  the integers in their order. A number's own text is one way to spell it.
* Nothing else is read. What has no `=`, or a key that is no part's in front of the
  first one, is an invalid operator; else the first segment that is neither blank nor
  an integer of 64 bits with an optional sign is named as what cannot be mapped.
* A condition on a declared field with a key and no value is refused for the number of
  its operands, whatever the verb and the field's type. -/
theorem DatePart.keyword_grammar :
    (∀ part before segs is, KeyText part before → segs ≠ [] → List.Forall₂ Segment segs is →
        ofKeyword (String.ofList (before ++ '=' :: [','].intercalate segs)) =
          .ok (part, is.reduceOption.map .integer)) ∧
      (∀ i : Int64, Decimal.Spells (Decimal.ofInt i.toInt) i) ∧
      (∀ keyword, (∃ result, ofKeyword keyword = .ok result) ↔
        ∃ before after, Cut keyword before after ∧ (∃ part, KeyText part before) ∧
          ∀ cs ∈ after.splitOn ',', ∃ i?, Segment cs i?) ∧
      (∀ keyword : String, '=' ∉ keyword.toList → ofKeyword keyword = .error (.invalidOperator keyword)) ∧
      (∀ keyword before after, Cut keyword before after → (∀ part, ¬KeyText part before) →
        ofKeyword keyword = .error (.invalidOperator (String.ofList (trim before)))) ∧
      (∀ keyword before after part, Cut keyword before after → KeyText part before →
        (¬∀ cs ∈ after.splitOn ',', ∃ i?, Segment cs i?) →
        ∃ front cs rest, after.splitOn ',' = front ++ cs :: rest ∧ (∀ cs' ∈ front, ∃ i?, Segment cs' i?) ∧
          (∀ i?, ¬Segment cs i?) ∧
          ofKeyword keyword = .error (.mapping (.notAnInteger (String.ofList (trim cs)) (String.ofList before)))) ∧
      ∀ (q : Query) verb op field f keyword before after part, Operator.ofName verb = .ok op →
        q.schema.require field = .ok f → Cut keyword before after → KeyText part before →
        (∀ cs ∈ after.splitOn ',', Blank cs) →
        q.filterDate verb field [keyword] = .error (.invalidOperandCount op.name f.name op.arity.wording 0) := by
  refine ⟨fun part before segs is hkey hne => ofKeyword_written hkey hne, Decimal.spells_ofInt, fun keyword => ?_,
    fun keyword => ofKeyword_of_not_mem, fun keyword before after h => h.ofKeyword_of_unknown,
    fun keyword before after part h hkey hbad => ?_,
    fun q verb op field f keyword before after part hverb hfield h hkey hblank => ?_⟩
  · constructor
    · intro hread
      by_cases hmem : '=' ∈ keyword.toList
      · obtain ⟨before, after, h⟩ := exists_cut hmem
        exact ⟨before, after, h, (exists_ofKeyword_iff h).1 hread⟩
      · obtain ⟨result, hresult⟩ := hread
        rw [ofKeyword_of_not_mem hmem] at hresult
        cases hresult
    · rintro ⟨before, after, h, hgrammar⟩
      exact (exists_ofKeyword_iff h).2 hgrammar
  · rcases segments_or_first (after.splitOn ',') with ⟨is, hsegs⟩ | ⟨front, cs, rest, is, hafter, hfront, hcs⟩
    · exact absurd (forall_segment_of_forall₂ hsegs) hbad
    · exact ⟨front, cs, rest, hafter, forall_segment_of_forall₂ hfront, hcs,
        h.ofKeyword_of_not_segment hkey hafter hfront hcs⟩
  · have hnone := h.ofKeyword_of_segments hkey (forall₂_of_blank hblank)
    rw [List.reduceOption_replicate_none] at hnone
    exact Query.filterDate_of_no_value hverb hfield hnone

/-- Blanks, a sign, the smallest number and segments without any; and a day of which
nothing is said, on a field that has no days. -/
theorem DatePart.keyword_grammar_loose :
    let q := Query.ofSchema ((Schema.ofTable "t").declare "name" .text) .sqlite
    ofKeyword " month\u3000= -9223372036854775808, ,+02," = .ok (.month, [.ofInt (-9223372036854775808), .ofInt 2]) ∧
      ofKeyword "Day=1" = .error (.invalidOperator "Day") ∧
      q.filterDate "in" "name" ["day= ,"] = .error (.invalidOperandCount "in" "name" "at least 1" 0) := by
  intro q
  obtain ⟨hread, -, -, -, hunknown, -, hempty⟩ := keyword_grammar
  have hmonth : KeyText .month " month\u3000".toList := ⟨[' '], ['\u3000'], by decide, by decide, by decide⟩
  have hday : KeyText .day "day".toList := ⟨[], [], nofun, nofun, rfl⟩
  have hlow : Segment " -9223372036854775808".toList (some (-9223372036854775808)) :=
    segment_some_iff.2 (Decimal.readInt64?_eq_some_iff.1 (by decide))
  have hhigh : Segment "+02".toList (some 2) := segment_some_iff.2 (Decimal.readInt64?_eq_some_iff.1 (by decide))
  refine ⟨hread .month _ [_, " ".toList, _, []] _ hmonth (by simp)
    (.cons hlow (.cons (.blank (by decide)) (.cons hhigh (.cons (.blank nofun) .nil)))), ?_, ?_⟩
  · refine hunknown _ "Day".toList "1".toList ⟨by decide, by decide⟩ fun part h => ?_
    have htrim := (trim_eq_iff fun c hc => (key_bare part c hc).1).2 h
    revert htrim
    cases part <;> decide
  · exact hempty q "in" .among "name" ⟨"name", .text, false⟩ "day= ,"  "day".toList " ,".toList .day rfl rfl
      ⟨by decide, by decide⟩ hday (by decide)

end TableQuery

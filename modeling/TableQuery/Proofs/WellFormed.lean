/-
What every query that can be built is worth relying on
(`Query.reachable_wellFormed`).

The statements are written without looking back: operands are taken by their
number, a page is counted from the one before it, and the columns of an
insertion are listed as they stand. That this is safe is due to the calls, each
of which checks its arguments; here it is shown that their checks are enough,
whichever calls are made, in whichever order.
-/
import TableQuery.Proofs.Query.Bounds
import TableQuery.Proofs.Query.Checks

namespace TableQuery

/-- A condition that makes sense on a schema: it is on a declared field, by the
field's own name, with as many operands as its operator takes; only dates and
moments have their parts compared, and octets and truth values match no pattern. -/
structure Predicate.Fits (s : Schema) (p : Predicate) : Prop where
  declared : p.field ∈ s.names
  operands : p.operator.arity.admits p.operands.length
  part : p.part.isSome → ∀ f ∈ s.fields, f.name = p.field → f.type = .date ∨ f.type = .datetime
  pattern : p.operator.takesPattern → ∀ f ∈ s.fields, f.name = p.field → f.type ≠ .blob ∧ f.type ≠ .bool

/-- A draft that makes sense on a schema. -/
structure Draft.WellFormed (s : Schema) (d : Draft) : Prop where
  predicates : ∀ p ∈ d.predicates, p.Fits s
  sorts : s.Lists (d.sorts.map (·.field))
  ranks : ∀ k ∈ d.sorts, k.ranks ≠ some []
  projection : s.Lists d.projection.fields
  assignments : s.Lists (d.assignments.map (·.1))
  bounds : d.bounds.Valid

theorem Test.admits_operands (t : Test) : t.operator.arity.admits t.operands.length := by
  have h := Test.isSome_of? t.operator t.operands
  rw [Test.of?_eq_some_iff.2 ⟨rfl, rfl⟩] at h
  exact h.symm

theorem FieldType.hasDateParts_iff {t : FieldType} : t.hasDateParts ↔ t = .date ∨ t = .datetime := by
  cases t <;> simp [hasDateParts]

theorem FieldType.admitsPattern_iff {t : FieldType} : t.admitsPattern ↔ t ≠ .blob ∧ t ≠ .bool := by
  cases t <;> simp [admitsPattern]

theorem Predicate.fits_of_make {s : Schema} (hs : s.names.Nodup) {field : String} {op : Operator}
    {operands : List Value} {part : Option DatePart} {p : Predicate}
    (h : Predicate.make s field op operands part = .ok p) : p.Fits s := by
  obtain ⟨f, test, hf, htest, hpart, hpattern, rfl⟩ := Predicate.make_eq_ok.1 h
  obtain ⟨rfl, -⟩ := Test.of?_eq_some_iff.1 htest
  have same : ∀ g ∈ s.fields, g.name = f.name → g = f := fun g hg =>
    Schema.eq_of_name_eq hs (Schema.mem_of_require hf) hg
  exact
    { declared := Schema.mem_names_of_require hf
      operands := test.admits_operands
      part := fun hp g hg hn => same g hg hn ▸ FieldType.hasDateParts_iff.1 (hpart hp)
      pattern := fun hp g hg hn => same g hg hn ▸ FieldType.admitsPattern_iff.1 (hpattern hp) }

theorem SortKey.ranks_make_ne (field : String) (direction : Direction) (order : List Value) :
    (make field direction order).ranks ≠ some [] := by
  unfold make
  split
  · nofun
  · next h => exact fun he => h (Option.some.inj he)

theorem Draft.wellFormed_empty (s : Schema) : Draft.empty.WellFormed s where
  predicates _ hp := absurd hp List.not_mem_nil
  sorts := Schema.Lists.nil
  ranks _ hk := absurd hk List.not_mem_nil
  projection := Schema.Lists.nil
  assignments := Schema.Lists.nil
  bounds := ⟨nofun, nofun⟩

namespace Query

/-- **Every change keeps a draft well formed.** -/
theorem Change.wellFormed {q q' : Query} {part : DraftPart} (hs : q.schema.names.Nodup)
    (hq : q.draft.WellFormed q.schema) (h : Change q part q') : q'.draft.WellFormed q.schema := by
  have hbounds := h.bounds hq.bounds
  cases h with
  | condition hp =>
    refine { hq with predicates := fun p hmem => ?_ }
    rcases List.mem_append.1 hmem with hmem | hmem
    · exact hq.predicates p hmem
    · cases List.mem_singleton.1 hmem
      exact Predicate.fits_of_make hs hp
  | sort hf direction order =>
    refine { hq with sorts := ?_, ranks := fun k hmem => ?_ }
    · rw [SortKey.fields_put]
      exact hq.sorts.addName (Schema.mem_names_of_require hf)
    · rcases SortKey.mem_put hmem with rfl | hmem
      · exact SortKey.ranks_make_ne _ direction order
      · exact hq.ranks k hmem
  | select hf =>
    refine { hq with projection := ?_ }
    rw [Projection.fields_add]
    exact hq.projection.addName (Schema.mem_names_of_require hf)
  | wildcard => exact { hq with projection := hq.projection }
  | clear => exact { hq with projection := .nil }
  | limit | offset | page => exact { hq with bounds := hbounds }
  | raw r => exact { hq with }
  | assign hf v =>
    refine { hq with assignments := ?_ }
    rw [Assignment.fields_put]
    exact hq.assignments.addName (Schema.mem_names_of_require hf)

/-- **Reachable queries are well formed.** On a schema whose fields have
different names, after any calls, none of which failed: every condition is on a
declared field, takes its operands and fits the field's type; sorts, chosen
fields and assignments are of declared fields, each at most once; and no sort
ranks by an empty list. Of the three numbers that the calls have set, no limit
or page is zero, and a page stands beside a limit and no offset, so that it
alone says where the rows start. -/
theorem reachable_wellFormed {s : Schema} {d : Dialect} {edits : List Edit} {q : Query} (hs : s.names.Nodup)
    (h : (ofSchema s d).applyAll edits = .ok q) :
    q.draft.WellFormed s ∧
    ∃ r, BoundRegisters.empty.applyAll edits = .ok r ∧ r.limit = q.draft.bounds.limit ∧
      r.page = q.draft.bounds.page ∧ r.passedOver = q.draft.bounds.offset ∧ r.limit ≠ some 0 ∧
      ∀ p, r.page = some p → p ≠ 0 ∧ r.offset = none ∧
        ∃ l, r.limit = some l ∧ q.draft.bounds.offset = some (saturate ((p.toNat - 1) * l.toNat)) := by
  have hq : q.schema = s ∧ q.draft.WellFormed s :=
    Reachable.invariant (fun q => q.schema = s ∧ q.draft.WellFormed s) ⟨rfl, Draft.wellFormed_empty s⟩
      (fun hq hc => by
        obtain ⟨rfl, hq⟩ := hq
        exact ⟨hc.fixed.1, hc.wellFormed hs hq⟩)
      ⟨edits, h⟩
  exact ⟨hq.2, q.draft.bounds.registers, registers_applyAll h, rfl, rfl, q.draft.bounds.passedOver_registers,
    hq.2.bounds.limit, fun p hp => hq.2.bounds.registers_of_page hp⟩

/-- The key is sorted by, chosen and assigned under both its names; what was
asked for last stands, under the key's own name and once. The offset is gone
once a page is set. -/
theorem reachable_wellFormed_alias :
    let s : Schema := ⟨"t", [⟨"_id", .integer, true⟩, ⟨"name", .text, false⟩, ⟨"born", .date, false⟩]⟩
    let q : Query := { ofSchema s .sqlite with
      draft.predicates := [⟨"born", .compare .eq (.ofInt 1), some .month⟩,
        ⟨"name", .pattern .contains (.text "x"), none⟩]
      draft.sorts := [⟨"_id", .desc, none⟩]
      draft.bounds := ⟨some 5, some (.page 3)⟩
      draft.projection := ⟨["_id"], true⟩
      draft.assignments := [("name", .text "y"), ("_id", .ofInt 1)] }
    s.names.Nodup ∧ Reachable s .sqlite q ∧ q.draft.WellFormed s ∧ q.draft.bounds.offset = some 10 := by
  intro s q
  have hs : s.names.Nodup := by decide
  let edits : List Edit :=
    [.filterDate "is" "born" ["month = 1"], .call "contains_name" [.text "x"], .sortBy "pk" .asc [.ofInt 2],
      .sortBy "_id" .desc [], .select ["pk", "*", "_id"], .offset 7, .limit 5, .page 3,
      .assignAll [("name", .null), ("pk", .ofInt 1), ("name", .text "y")]]
  have hq : (ofSchema s .sqlite).applyAll edits = .ok q := by decide +kernel
  obtain ⟨hwell, r, -, hlimit, hpage, -, -, hr⟩ := reachable_wellFormed hs hq
  obtain ⟨-, -, l, hl, ho⟩ := hr 3 hpage
  cases hlimit.symm.trans hl
  exact ⟨hs, ⟨edits, hq⟩, hwell, ho⟩

end Query

end TableQuery

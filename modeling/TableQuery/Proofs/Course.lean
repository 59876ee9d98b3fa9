/-
The course of a cursor, pull by pull, over a source that never stalls
(`Cursor.pull_by_pull`).

What the pulls come to is said of the source's turns alone
(`Course.ofTurns`): the rows up to the first turn that fails or cannot be
hydrated, and no more of them than the limit. After the last of them comes a
failure, given out once and then refused, or the end. The turn past the limit
is read and not hydrated, so it is a failure only if the source fails there.
-/
import TableQuery.Proofs.Cursor.Progress
import TableQuery.Proofs.Cursor.Registers

namespace TableQuery

variable {α : Type}

/-- The feed that comes to these turns, each a row's values or a failure. -/
def Feed.ofTurns (columns : List String) (turns : List (Except Fault (List Value))) : Feed :=
  ⟨columns, turns.map .ofExcept⟩

/-- The turns with their rows hydrated. -/
def Hydrator.results (hydrate : Hydrator α) (columns : List String) (turns : List (Except Fault (List Value))) :
    List (Except Fault α) :=
  turns.map fun turn => turn >>= fun values => hydrate ⟨columns, values⟩

/-- The items before the first failure. -/
def beforeFailure : List (Except Fault α) → List α
  | .ok a :: rest => a :: beforeFailure rest
  | _ => []

/-- They are the longest prefix without a failure. -/
theorem beforeFailure_longest (results : List (Except Fault α)) :
    ∃ rest, results = (beforeFailure results).map .ok ++ rest ∧ ∀ a, rest.head? ≠ some (.ok a) := by
  induction results with
  | nil => exact ⟨[], rfl, nofun⟩
  | cons result results ih =>
    cases result with
    | error f => exact ⟨.error f :: results, rfl, nofun⟩
    | ok a =>
      obtain ⟨rest, hprefix, hrest⟩ := ih
      exact ⟨rest, congrArg (.ok a :: ·) hprefix, hrest⟩

/-- The failure at a place. -/
def failureAt? (results : List (Except Fault α)) (place : Nat) : Option Fault :=
  match results[place]? with
  | some (.error f) => some f
  | _ => none

/-! ## Courses -/

/-- What repeated pulls come to. -/
structure Course (α : Type) where
  rows : List α
  /-- The failure after the last row. -/
  failure : Option Fault
  /-- A row is known to come after the last. -/
  more : Bool
deriving DecidableEq, Repr

namespace Course

/-- What `n` pulls after the last row come to. -/
def ending (failure : Option Fault) : Nat → List (Outcome (Option α))
  | 0 => []
  | n + 1 =>
    match failure with
    | some f => .failed f :: .replicate n (.failed .cursorFailed)
    | none => .replicate (n + 1) (.ok none)

/-- What `n` pulls come to. -/
def outcomes (c : Course α) (n : Nat) : List (Outcome (Option α)) :=
  (c.rows.take n).map (fun a => .ok (some a)) ++ ending c.failure (n - c.rows.length)

/-- The course that a limit and a source's turns make. At the limit it is the
turn that counts, and before it what the turn's row is hydrated to. -/
def ofTurns (hydrate : Hydrator α) (columns : List String) (limit : Option Nat)
    (turns : List (Except Fault (List Value))) : Course α :=
  let results := hydrate.results columns turns
  let readable := beforeFailure results
  let unlimited : Course α := ⟨readable, failureAt? results readable.length, false⟩
  match limit with
  | none => unlimited
  | some l =>
    if l ≤ readable.length then ⟨readable.take l, failureAt? turns l, turns[l]?.any Except.isOk⟩
    else unlimited

/-- The course with a row before the others. -/
def cons (a : α) (c : Course α) : Course α := { c with rows := a :: c.rows }

@[simp]
theorem outcomes_zero (c : Course α) : c.outcomes 0 = [] := by
  simp only [outcomes, List.take_zero, List.map_nil, Nat.zero_sub, ending, List.append_nil]

@[simp]
theorem outcomes_cons (a : α) (c : Course α) (n : Nat) :
    (c.cons a).outcomes (n + 1) = .ok (some a) :: c.outcomes n := by
  simp only [outcomes, cons, List.take_succ_cons, List.map_cons, List.length_cons, Nat.add_sub_add_right,
    List.cons_append]

section

variable (hydrate : Hydrator α) (columns : List String) (turns : List (Except Fault (List Value)))

/-- At a limit of zero there are no rows, and the first turn tells what comes after them. -/
theorem ofTurns_zero :
    ofTurns hydrate columns (some 0) turns = ⟨[], failureAt? turns 0, turns[0]?.any Except.isOk⟩ := by
  simp [ofTurns]

/-- Where no row can be handed out and the limit is not reached. -/
theorem ofTurns_of_none {limit : Option Nat} (hl : limit ≠ some 0)
    (h : beforeFailure (hydrate.results columns turns) = []) :
    ofTurns hydrate columns limit turns = ⟨[], failureAt? (hydrate.results columns turns) 0, false⟩ := by
  simp only [ofTurns, h, List.length_nil]
  cases limit with
  | none => rfl
  | some l =>
    have hpos : ¬ l ≤ 0 := fun hle => hl (congrArg some (Nat.le_zero.1 hle))
    exact if_neg hpos

/-- A failure comes first, before any row. -/
theorem ofTurns_failing {limit : Option Nat} (hl : limit ≠ some 0) {f : Fault} {rest : List (Except Fault α)}
    (h : hydrate.results columns turns = .error f :: rest) :
    ofTurns hydrate columns limit turns = ⟨[], some f, false⟩ := by
  rw [ofTurns_of_none hydrate columns turns hl (by rw [h]; rfl), h]
  rfl

/-- A row that can be read comes before the course of the turns after it. -/
theorem ofTurns_row {limit : Option Nat} (hl : limit ≠ some 0) {values : List Value} {a : α}
    (hr : hydrate ⟨columns, values⟩ = .ok a) :
    ofTurns hydrate columns limit (.ok values :: turns) =
      (ofTurns hydrate columns (limit.map (· - 1)) turns).cons a := by
  have hresults : hydrate.results columns (.ok values :: turns) = .ok a :: hydrate.results columns turns :=
    congrArg (· :: hydrate.results columns turns) hr
  simp only [ofTurns, hresults, beforeFailure, List.length_cons]
  cases limit with
  | none => rfl
  | some l =>
    obtain ⟨l, rfl⟩ := Nat.exists_eq_succ_of_ne_zero fun h => hl (congrArg some h)
    by_cases h : l ≤ (beforeFailure (hydrate.results columns turns)).length
    · simp [h, cons, failureAt?]
    · simp [h, cons, failureAt?]

theorem length_rows_ofTurns {l : Nat} : (ofTurns hydrate columns (some l) turns).rows.length ≤ l := by
  simp only [ofTurns]
  split
  · exact List.length_take_le ..
  · next h => exact Nat.le_of_lt (Nat.lt_of_not_le h)

end

end Course

/-! ## Cursors on their course -/

namespace Cursor

/-- Makes `n` pulls. -/
def pulls (hydrate : Hydrator α) (n : Nat) (c : Cursor) : Lived Cursor α :=
  (keeping hydrate).live (.replicate n .next) c

theorem pulls_succ {hydrate : Hydrator α} {c c' : Cursor} {o : Outcome (Option α)} {events : List Event}
    (h : c.next hydrate = ⟨o, c', events⟩) (n : Nat) :
    c.pulls hydrate (n + 1) =
      ⟨o :: (c'.pulls hydrate n).outcomes, (c'.pulls hydrate n).state, events ++ (c'.pulls hydrate n).events⟩ := by
  have hnext : (keeping hydrate).next c = (o, c', events) := by simp only [keeping, h]
  simp [pulls, List.replicate_succ, hnext]

/-- A cursor that a pull leaves as it is answers all pulls alike. -/
theorem pulls_of_still {hydrate : Hydrator α} {c : Cursor} {o : Outcome (Option α)}
    (h : c.next hydrate = ⟨o, c, []⟩) (n : Nat) : c.pulls hydrate n = ⟨.replicate n o, c, []⟩ :=
  Keeping.live_pulls_of_still (by simp only [keeping, h]) n

/-- Pulls of the cursor take that course, with so many reads at most. -/
structure Follows (hydrate : Hydrator α) (c : Cursor) (course : Course α) (reads : Nat) : Prop where
  outcomes : ∀ n, (c.pulls hydrate n).outcomes = course.outcomes n
  more : ∀ n, (c.pulls hydrate n).state.hasMore = true ↔ course.more = true ∧ course.rows.length ≤ n
  reads : ∀ n, (c.pulls hydrate n).events.countP Event.isPulled ≤ reads

namespace Follows

variable {hydrate : Hydrator α} {c c' : Cursor} {events : List Event}

theorem exhausted {more : Bool} (h : c.phase = .exhausted more) : c.Follows hydrate ⟨[], none, more⟩ 0 := by
  have hpulls := pulls_of_still (next_of_exhausted hydrate h)
  refine ⟨fun n => ?_, fun n => ?_, fun n => ?_⟩
  · rw [hpulls]
    cases n <;> rfl
  · rw [hpulls]
    simp [hasMore, h]
  · rw [hpulls]
    exact Nat.le_refl 0

theorem weaken {course : Course α} {reads reads' : Nat} (h : c.Follows hydrate course reads) (hle : reads ≤ reads') :
    c.Follows hydrate course reads' :=
  ⟨h.outcomes, h.more, fun n => Nat.le_trans (h.reads n) hle⟩

/-- The pull comes to something, and the pulls after it all to the same. -/
theorem settles {o o' : Outcome (Option α)} {failure : Option Fault} (hn : c.next hydrate = ⟨o, c', events⟩)
    (hstill : c'.next hydrate = ⟨o', c', []⟩)
    (hending : ∀ n, Course.ending failure (n + 1) = o :: .replicate n o') (hm : c.hasMore = false)
    (hm' : c'.hasMore = false) : c.Follows hydrate ⟨[], failure, false⟩ (events.countP Event.isPulled) := by
  have hpulls : ∀ n, c.pulls hydrate (n + 1) = ⟨o :: .replicate n o', c', events⟩ := fun n => by
    rw [pulls_succ hn, pulls_of_still hstill, List.append_nil]
  refine ⟨fun n => ?_, fun n => ?_, fun n => ?_⟩
  · cases n with
    | zero => rfl
    | succ n =>
      rw [hpulls]
      exact (hending n).symm
  · cases n with
    | zero => simp [pulls, hm]
    | succ n => simp [hpulls, hm']
  · cases n with
    | zero => exact Nat.zero_le _
    | succ n => exact Nat.le_of_eq (congrArg (fun life => life.events.countP Event.isPulled) (hpulls n))

/-- The pull finds the end. -/
theorem ends (hn : c.next hydrate = ⟨.ok none, c', events⟩) (hp : c'.phase = .exhausted false)
    (hm : c.hasMore = false) : c.Follows hydrate ⟨[], none, false⟩ (events.countP Event.isPulled) :=
  settles hn (next_of_exhausted hydrate hp) (fun _ => rfl) hm (by simp only [hasMore, hp])

/-- The pull gives a failure out. -/
theorem fails {f : Fault} (hn : c.next hydrate = ⟨.failed f, c', events⟩) (hp : c'.phase = .failed none)
    (hm : c.hasMore = false) : c.Follows hydrate ⟨[], some f, false⟩ (events.countP Event.isPulled) :=
  settles hn (next_of_failed hydrate hp) (fun _ => rfl) hm (by simp only [hasMore, hp])

/-- The pull hands a row out. -/
theorem row {a : α} {course : Course α} {reads : Nat} (h : c'.Follows hydrate course reads)
    (hn : c.next hydrate = ⟨.ok (some a), c', events⟩) (hm : c.hasMore = false) :
    c.Follows hydrate (course.cons a) (events.countP Event.isPulled + reads) := by
  refine ⟨fun n => ?_, fun n => ?_, fun n => ?_⟩
  · cases n with
    | zero => rw [Course.outcomes_zero]; rfl
    | succ n => rw [pulls_succ hn, Course.outcomes_cons, h.outcomes]
  · cases n with
    | zero => simp [pulls, hm, Course.cons]
    | succ n =>
      rw [pulls_succ hn, h.more]
      simp [Course.cons]
  · cases n with
    | zero => exact Nat.zero_le _
    | succ n =>
      rw [pulls_succ hn, List.countP_append]
      exact Nat.add_le_add_left (h.reads n) _

end Follows

/-- Below the limit there is room for a row. -/
theorem room_ne_zero {c : Cursor} (hbelow : ∀ l, c.limit = some l → c.yielded < l.toNat) :
    (c.limit.map fun l => l.toNat - c.yielded) ≠ some 0 := fun h => by
  obtain ⟨l, hl, hz⟩ := Option.map_eq_some_iff.1 h
  exact Nat.not_le_of_lt (hbelow l hl) (Nat.le_of_sub_eq_zero hz)

/-- What follows the last row within the limit, by the turn after it. -/
theorem follows_past_limit {hydrate : Hydrator α} {columns : List String} {c : Cursor} {s : Source}
    {values : List Value} {turns : List (Except Fault (List Value))} {a : α} (hs : c.source? = some s)
    (hf : s.feed = .ofTurns columns (.ok values :: turns)) (hr : hydrate ⟨columns, values⟩ = .ok a)
    (hl : c.counted.atLimit) :
    c.Follows hydrate ((Course.ofTurns hydrate columns (some 0) turns).cons a) 2 := by
  obtain ⟨id, feed⟩ := s
  cases hf
  have hmore := hasMore_of_source hs
  rw [Course.ofTurns_zero]
  cases turns with
  | nil => exact (Follows.exhausted rfl).row (next_of_step hs (.lastThenEnd rfl hr hl)) hmore
  | cons turn turns =>
    cases turn with
    | ok more => exact (Follows.exhausted rfl).row (next_of_step hs (.lastThenRow rfl hr hl)) hmore
    | error f =>
      have hkept : (c.counted.gone (.failed (some f))).next hydrate = ⟨.failed f, c.counted.gone (.failed none), []⟩ :=
        rfl
      exact (Follows.fails hkept rfl rfl).row (next_of_step hs (.lastThenFailure rfl hr hl)) hmore

/-- A cursor below its limit takes the course of the turns its source has left. -/
theorem follows_ofTurns (hydrate : Hydrator α) (columns : List String)
    (turns : List (Except Fault (List Value))) {c : Cursor} {s : Source} (hs : c.source? = some s)
    (hf : s.feed = .ofTurns columns turns) (hbelow : ∀ l, c.limit = some l → c.yielded < l.toNat) :
    let course := Course.ofTurns hydrate columns (c.limit.map fun l => l.toNat - c.yielded) turns
    c.Follows hydrate course (course.rows.length + 1) := by
  intro course
  induction turns generalizing c s with
  | nil =>
    have hcourse : course = ⟨[], none, false⟩ := Course.ofTurns_of_none _ _ _ (room_ne_zero hbelow) rfl
    rw [hcourse]
    exact .ends (next_of_step hs (.ended (by rw [hf]; rfl))) rfl (hasMore_of_source hs)
  | cons turn turns ih =>
    obtain ⟨id, feed⟩ := s
    cases hf
    have hmore := hasMore_of_source hs
    have hroom := room_ne_zero hbelow
    cases turn with
    | error f =>
      have hcourse : course = ⟨[], some f, false⟩ := Course.ofTurns_failing _ _ _ hroom rfl
      rw [hcourse]
      exact .fails (next_of_step hs (.failed rfl)) rfl hmore
    | ok values =>
      cases hr : hydrate ⟨columns, values⟩ with
      | error f =>
        have hcourse : course = ⟨[], some f, false⟩ :=
          Course.ofTurns_failing _ _ _ hroom (congrArg (· :: hydrate.results columns turns) hr)
        rw [hcourse]
        exact .fails (next_of_step hs (.unreadable rfl hr)) rfl hmore
      | ok a =>
        have hcourse : course =
            (Course.ofTurns hydrate columns (c.limit.map fun l => l.toNat - c.counted.yielded) turns).cons a := by
          refine (Course.ofTurns_row _ _ _ hroom hr).trans ?_
          rw [Option.map_map]
          rfl
        rw [hcourse]
        cases hl : c.counted.atLimit with
        | false =>
          have hrest := ih (c := c.counted.going ⟨id, .ofTurns columns turns⟩) rfl rfl (counted_atLimit_iff.1 hl)
          exact (hrest.row (next_of_step hs (.row rfl hr hl)) hmore).weaken (Nat.le_of_eq (Nat.add_comm 1 _))
        | true =>
          have hspent : (c.limit.map fun l => l.toNat - c.counted.yielded) = some 0 := by
            obtain ⟨l, hlim, hle⟩ := atLimit_iff.1 hl
            have hlim : c.limit = some l := hlim
            rw [hlim, Option.map_some, Nat.sub_eq_zero_of_le hle]
          rw [hspent]
          exact (follows_past_limit hs rfl hr hl).weaken (Nat.le_add_left 2 _)

/-- **What a cursor comes to, pull by pull.** Over a source that comes to
these turns, the pulls take the course that the limit and the turns make. Rows
past the limit are known of once the last row within it has been handed out,
if the turn after it is a row. No pull reads past the turn after the last row,
so no more turns are read than the limit and one. -/
theorem pull_by_pull (hydrate : Hydrator α) (id : Nat) (columns : List String)
    (turns : List (Except Fault (List Value))) {limit : Option UInt64} (hl : limit ≠ some 0) (n : Nat) :
    let course := Course.ofTurns hydrate columns (limit.map UInt64.toNat) turns
    let life := (ofSource ⟨id, .ofTurns columns turns⟩ limit).pulls hydrate n
    life.outcomes = course.outcomes n ∧
    (life.state.hasMore ↔ course.more ∧ course.rows.length ≤ n) ∧
    life.events.countP Event.isPulled ≤ course.rows.length + 1 ∧
    ∀ l, limit = some l → life.events.countP Event.isPulled ≤ l.toNat + 1 := by
  intro course life
  have hpos : ∀ l, limit = some l → 0 < l.toNat := fun l h =>
    Nat.pos_of_ne_zero fun hz => hl (h.trans (congrArg some (UInt64.toNat_inj.1 hz)))
  have hfollows : (ofSource ⟨id, .ofTurns columns turns⟩ limit).Follows hydrate course (course.rows.length + 1) :=
    follows_ofTurns hydrate columns turns rfl rfl hpos
  refine ⟨hfollows.outcomes n, hfollows.more n, hfollows.reads n, fun l h => ?_⟩
  refine Nat.le_trans (hfollows.reads n) (Nat.succ_le_succ ?_)
  subst h
  exact Course.length_rows_ofTurns ..

/-- The last row within the limit is handed out before the failure that follows it. -/
theorem pull_by_pull_kept_failure :
    let lost : Fault := .execution ⟨.connectivity, none, "closed"⟩
    let turns : List (Except Fault (List Value)) := [.ok [.ofInt 1], .ok [.ofInt 2], .error lost]
    let life := (ofSource ⟨0, .ofTurns ["_id"] turns⟩ (some 2)).pulls Hydrator.values 4
    (some 2 : Option UInt64) ≠ some 0 ∧
    life.outcomes = [.ok (some [.ofInt 1]), .ok (some [.ofInt 2]), .failed lost, .failed .cursorFailed] ∧
    life.state.hasMore = false ∧ life.events.countP Event.isPulled ≤ 3 := by
  intro lost turns life
  have hlimit : (some 2 : Option UInt64) ≠ some 0 := by decide
  obtain ⟨houtcomes, hmore, hreads, -⟩ := pull_by_pull Hydrator.values 0 ["_id"] turns hlimit 4
  exact ⟨hlimit, houtcomes, Bool.eq_false_iff.2 fun h => Bool.noConfusion (hmore.1 h).1, hreads⟩

/-- A row past the limit is known of, also one that cannot be hydrated. -/
example : Course.ofTurns (Hydrator.first Decoder.uint64) ["_id"] (some 1) [.ok [.ofInt 1], .ok [.text "bar"]] =
    ⟨[1], none, true⟩ := by decide

end Cursor

end TableQuery

/-
What one turn on a channel can do, said once for the worker (`worker_step`) and
once for the reader (`hear_step`), and what turns come to in any order (`play`).

Each turn that is not a release changes nothing or brings the channel nearer to
its end (`rank_turn`). So as long as both take turns, it either gets there or
is somewhere that neither can leave (`play_gets_on`).
-/
import TableQuery.Sqlite.Channel

namespace TableQuery.Sqlite.Channel

variable {c : Channel}

theorem sentAll_iff : c.sentAll ↔ ∃ h, c.hint = some h ∧ h.toNat ≤ c.sent := by
  unfold sentAll
  split
  · next h hh => simp [hh]
  · next hh => simp [hh]

theorem not_sentAll_iff : c.sentAll = false ↔ ∀ h, c.hint = some h → c.sent < h.toNat := by
  rw [Bool.eq_false_iff, ne_eq, sentAll_iff]
  constructor
  · exact fun hn h hh => Nat.lt_of_not_le fun hle => hn ⟨h, hh, hle⟩
  · rintro hn ⟨h, hh, hle⟩
    exact Nat.not_lt_of_le hle (hn h hh)

/-! ## One turn -/

/-- What a turn of the worker comes to. -/
inductive WorkerStep (c : Channel) : Channel → Prop where
  | refused {f : Fault} (hw : c.worker = .preparing (some f)) : WorkerStep c { c with worker := .failing f }
  | prepared (hw : c.worker = .preparing none) : WorkerStep c { c with worker := .announcing }
  | announced (hw : c.worker = .announcing) (hr : c.reader ≠ .gone) :
    WorkerStep c { c with signal := some (.ok ()), worker := .stepping }
  | finished (hw : c.worker = .stepping) (hend : c.sentAll ∨ c.steps = []) :
    WorkerStep c { c with worker := .stopped }
  | row {row : Row} {rest : List Step} (hw : c.worker = .stepping) (hmore : c.sentAll = false)
    (hs : c.steps = .ok row :: rest) : WorkerStep c { c with worker := .sending row, steps := rest }
  | failure {f : Fault} {rest : List Step} (hw : c.worker = .stepping) (hmore : c.sentAll = false)
    (hs : c.steps = .error f :: rest) : WorkerStep c { c with worker := .failing f, steps := rest }
  | sent {row : Row} (hw : c.worker = .sending row) (hr : c.reader ≠ .gone) (hroom : c.queue.length < c.capacity) :
    WorkerStep c { c with queue := c.queue ++ [.ok row], sent := c.sent + 1, worker := .stepping }
  | reported {f : Fault} (hw : c.worker = .failing f) (hsignal : c.signal ≠ none) (hr : c.reader ≠ .gone)
    (hroom : c.queue.length < c.capacity) :
    WorkerStep c { c with queue := c.queue ++ [.error f], worker := .stopped }
  | signalled {f : Fault} (hw : c.worker = .failing f) (hsignal : c.signal = none) :
    WorkerStep c { c with signal := some (.error f), worker := .stopped }
  /-- Nobody is there to hear what the worker has to tell. -/
  | abandoned (hw : c.worker ≠ .stopped) (hr : c.reader = .gone) : WorkerStep c { c with worker := .stopped }
  | full (hr : c.reader ≠ .gone) (hfull : c.capacity ≤ c.queue.length)
    (hw : (∃ row, c.worker = .sending row) ∨ ((∃ f, c.worker = .failing f) ∧ c.signal ≠ none)) : WorkerStep c c
  | rested (hw : c.worker = .stopped) : WorkerStep c c

theorem worker_step (c : Channel) : WorkerStep c c.workerTurn := by
  unfold workerTurn
  split
  · next f hw => exact .refused hw
  · next hw => exact .prepared hw
  · next hw =>
    split
    · next hr => exact .abandoned (by simp [hw]) hr
    · next hr => exact .announced hw hr
  · next hw =>
    split
    · next hall => exact .finished hw (.inl hall)
    · next hmore =>
      have hmore := Bool.eq_false_iff.2 hmore
      split
      · next hs => exact .finished hw (.inr hs)
      · next hs => exact .row hw hmore hs
      · next hs => exact .failure hw hmore hs
  · next row hw =>
    split
    · next hr => exact .abandoned (by simp [hw]) hr
    · next hr =>
      split
      · next hroom => exact .sent hw hr hroom
      · next hfull => exact .full hr (Nat.le_of_not_lt hfull) (.inl ⟨row, hw⟩)
  · next f hw =>
    split
    · next hsignal => exact .signalled hw hsignal
    · next hsignal =>
      have hsome : c.signal ≠ none := by simp [hsignal]
      split
      · next hr => exact .abandoned (by simp [hw]) hr
      · next hr =>
        split
        · next hroom => exact .reported hw hsome hr hroom
        · next hfull => exact .full hr (Nat.le_of_not_lt hfull) (.inr ⟨⟨f, hw⟩, hsome⟩)
  · next hw => exact .rested hw

/-- What a look of the reader comes to. -/
inductive HearStep (c : Channel) : Option News × Channel → Prop where
  | ready (hr : c.reader = .waiting) (hsignal : c.signal = some (.ok ())) :
    HearStep c (some .ready, { c with reader := .reading })
  | refused {f : Fault} (hr : c.reader = .waiting) (hsignal : c.signal = some (.error f)) :
    HearStep c (some (.refused f), c.release)
  | stopped (hr : c.reader = .waiting) (hsignal : c.signal = none) (hw : c.worker = .stopped) :
    HearStep c (some (.refused workerStopped), c.release)
  | early (hr : c.reader = .waiting) (hsignal : c.signal = none) (hw : c.worker ≠ .stopped) : HearStep c (none, c)
  | step {step : Step} {rest : List Step} (hr : c.reader = .reading) (hq : c.queue = step :: rest) :
    HearStep c (some (.step step), { c with queue := rest })
  | ended (hr : c.reader = .reading) (hq : c.queue = []) (hw : c.worker = .stopped) : HearStep c (some .ended, c)
  | empty (hr : c.reader = .reading) (hq : c.queue = []) (hw : c.worker ≠ .stopped) : HearStep c (none, c)
  | gone (hr : c.reader = .gone) : HearStep c (none, c)

theorem hear_step (c : Channel) : HearStep c c.hear := by
  unfold hear
  split
  · next hr =>
    split
    · next hs => exact .ready hr hs
    · next hs => exact .refused hr hs
    · next hs hw => exact .stopped hr hs hw
    · next hs hw => exact .early hr hs hw
  · next hr =>
    split
    · next hq => exact .step hr hq
    · next hq hw => exact .ended hr hq hw
    · next hq hw => exact .empty hr hq hw
  · next hr => exact .gone hr

/-! ## Turns in any order -/

/-- Who does something next. -/
inductive Turn where
  | worker
  | reader
  /-- The reader lets go. -/
  | release
deriving DecidableEq, Repr

/-- A turn, with what the reader hears in it. -/
def turn (c : Channel) : Turn → Option News × Channel
  | .worker => (none, c.workerTurn)
  | .reader => c.hear
  | .release => (none, c.release)

/-- All that the reader hears in these turns. -/
def play : List Turn → Channel → List News × Channel
  | [], c => ([], c)
  | t :: ts, c =>
    let (news, c) := c.turn t
    let (heard, c) := c.play ts
    (news.toList ++ heard, c)

@[simp]
theorem play_append (before after : List Turn) (c : Channel) :
    c.play (before ++ after) =
      ((c.play before).1 ++ ((c.play before).2.play after).1, ((c.play before).2.play after).2) := by
  induction before generalizing c with
  | nil => rfl
  | cons t before ih => simp only [List.cons_append, play, ih, List.append_assoc]

/-- What was agreed on when the channel was made; the queue keeps to it. -/
structure Agreed (capacity : Nat) (hint : Option UInt64) (c : Channel) : Prop where
  size : c.capacity = capacity
  asked : c.hint = hint
  room : c.queue.length ≤ capacity

theorem Agreed.turn {capacity : Nat} {hint : Option UInt64} (h : c.Agreed capacity hint) (t : Turn) :
    (c.turn t).2.Agreed capacity hint := by
  obtain ⟨rfl, hhint, hroom⟩ := h
  cases t with
  | worker =>
    have hstep := worker_step c
    simp only [Channel.turn]
    generalize c.workerTurn = c' at hstep
    cases hstep with
    | sent _ _ hless | reported _ _ _ hless =>
      refine ⟨rfl, hhint, ?_⟩
      rw [List.length_append]
      exact hless
    | _ => exact ⟨rfl, hhint, hroom⟩
  | reader =>
    have hstep := hear_step c
    simp only [Channel.turn]
    generalize c.hear = result at hstep
    cases hstep with
    | step _ hq =>
      rw [hq, List.length_cons] at hroom
      exact ⟨rfl, hhint, Nat.le_of_succ_le hroom⟩
    | refused | stopped => exact ⟨rfl, hhint, Nat.zero_le _⟩
    | _ => exact ⟨rfl, hhint, hroom⟩
  | release => exact ⟨rfl, hhint, Nat.zero_le _⟩

theorem Agreed.play {capacity : Nat} {hint : Option UInt64} (h : c.Agreed capacity hint) (ts : List Turn) :
    (c.play ts).2.Agreed capacity hint := by
  induction ts generalizing c with
  | nil => exact h
  | cons t ts ih => exact ih (h.turn t)

/-! ## Getting on -/

/-- The turns the worker has at most left to take that do something. -/
def work (c : Channel) : Nat :=
  match c.worker with
  | .preparing _ => 3 * c.steps.length + 4
  | .announcing | .sending _ | .failing _ => 3 * c.steps.length + 3
  | .stepping => 3 * c.steps.length + 1
  | .stopped => 0

/-- How far a channel is from its end. -/
def rank (c : Channel) : Nat := c.work + c.queue.length + if c.reader = .waiting then 1 else 0

theorem rank_eq_zero_iff : c.rank = 0 ↔ c.worker = .stopped ∧ c.queue = [] ∧ c.reader ≠ .waiting := by
  have hwork : c.work = 0 ↔ c.worker = .stopped := by
    unfold work
    cases c.worker <;> simp
  unfold rank
  rw [Nat.add_eq_zero_iff, Nat.add_eq_zero_iff, hwork, List.length_eq_zero_iff, and_assoc]
  simp

/-- **Each turn changes nothing, or gets on.** -/
theorem rank_turn {t : Turn} (ht : t ≠ .release) : (c.turn t).2 = c ∨ (c.turn t).2.rank < c.rank := by
  cases t with
  | worker =>
    have hstep := worker_step c
    simp only [turn]
    generalize c.workerTurn = c' at hstep
    cases hstep with
    | full | rested => exact .inl rfl
    | row hw _ hs | failure hw _ hs =>
      simp only [rank, work, hw, hs, List.length_cons]
      omega
    | sent hw | reported hw =>
      simp only [rank, work, hw, List.length_append, List.length_singleton]
      omega
    | abandoned hw =>
      have hpos : 0 < c.work := by
        unfold work
        cases h : c.worker <;> simp_all
      have hstopped : work { c with worker := .stopped } = 0 := rfl
      simp only [rank, hstopped]
      omega
    | refused hw | prepared hw | announced hw | finished hw | signalled hw =>
      simp only [rank, work, hw]
      omega
  | reader =>
    have hstep := hear_step c
    simp only [turn]
    generalize c.hear = result at hstep
    cases hstep with
    | early | ended | empty | gone => exact .inl rfl
    | step hr hq =>
      simp only [rank, work, hq, List.length_cons]
      omega
    | ready hr | refused hr | stopped hr =>
      simp only [rank, work, release, hr, List.length_nil, reduceCtorEq, if_true, if_false]
      omega
  | release => exact absurd rfl ht

/-- Where no turn changes anything. -/
theorem play_of_still {ts : List Turn} (h : ∀ t ∈ ts, (c.turn t).2 = c) :
    c.play ts = (ts.filterMap fun t => (c.turn t).1, c) := by
  induction ts with
  | nil => rfl
  | cons t ts ih =>
    have ht : (c.turn t).2 = c := h t List.mem_cons_self
    simp only [play, ht, ih fun t' ht' => h t' (List.mem_cons_of_mem _ ht')]
    rw [List.filterMap_cons]
    cases (c.turn t).1 <;> rfl

/-- Some turns without a release change nothing, or get on. -/
theorem play_gets_on {ts : List Turn} (h : .release ∉ ts) :
    (∀ t ∈ ts, (c.turn t).2 = c) ∨ (c.play ts).2.rank < c.rank := by
  induction ts generalizing c with
  | nil => exact .inl nofun
  | cons t ts ih =>
    simp only [List.mem_cons, not_or] at h
    have hrest := ih (c := (c.turn t).2) h.2
    have hall : (∀ t' ∈ ts, ((c.turn t).2.turn t').2 = (c.turn t).2) → (c.play (t :: ts)).2 = (c.turn t).2 :=
      fun hstill => congrArg Prod.snd (play_of_still hstill)
    rcases rank_turn (c := c) (Ne.symm h.1) with hsame | hless
    · rw [hsame] at hrest
      refine hrest.imp (fun hstill t' ht' => ?_) fun hless => ?_
      · rcases List.mem_cons.1 ht' with rfl | ht'
        · exact hsame
        · exact hstill t' ht'
      · simpa only [play, hsame] using hless
    · refine .inr ?_
      rcases hrest with hstill | hless'
      · rwa [hall hstill]
      · exact Nat.lt_trans hless' hless

/-! ## Standing still -/

/-- A worker that has nothing to do has stopped, or it waits for room in the queue. -/
theorem worker_still (h : c.workerTurn = c) :
    c.worker = .stopped ∨ c.capacity ≤ c.queue.length ∧ c.reader ≠ .gone ∧
      ((∃ row, c.worker = .sending row) ∨ c.signal ≠ none) := by
  have hstep := worker_step c
  generalize c.workerTurn = c' at hstep h
  cases hstep with
  | refused hw | prepared hw | announced hw | finished hw | row hw | failure hw | sent hw | reported hw
  | signalled hw => cases (congrArg Channel.worker h).trans hw
  | abandoned => exact .inl (congrArg Channel.worker h).symm
  | full hr hfull hw => exact .inr ⟨hfull, hr, hw.imp_right And.right⟩
  | rested hw => exact .inl hw

/-- A reader that has nothing to hear waits for the signal or for a step, or it is at the end. -/
theorem reader_still (h : c.hear.2 = c) :
    (c.reader = .waiting ∧ c.signal = none ∧ c.worker ≠ .stopped) ∨ (c.reader = .reading ∧ c.queue = []) ∨
      c.reader = .gone := by
  have hstep := hear_step c
  generalize c.hear = result at hstep h
  cases hstep with
  | ready hr | refused hr | stopped hr => cases (congrArg Channel.reader h).trans hr
  | early hr hsignal hw => exact .inl ⟨hr, hsignal, hw⟩
  | step hr hq => exact absurd ((congrArg Channel.queue h).trans hq).symm (List.cons_ne_self _ _)
  | ended hr hq | empty hr hq => exact .inr (.inl ⟨hr, hq⟩)
  | gone hr => exact .inr (.inr hr)

end TableQuery.Sqlite.Channel

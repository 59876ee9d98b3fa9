/-
Where the steps of a statement are while its reader has not let go.

Those that were put in the queue, the one in the worker's hand and those still
to come are together all the steps, in order (`Flow`). What the reader has heard
is why the statement was refused; or that it is ready, then the steps that were
put in the queue and are no more there, and then the end (`Standing`). Every
turn keeps this, until the reader lets go (`Standing.turn`); after that nothing
is heard, and the worker takes one step more at most (`Silent.turn`).
-/
import TableQuery.Proofs.Sqlite.Turns

namespace TableQuery.Sqlite

/-- The steps that are due to a reader who asks for so many. -/
def due (total : List Step) (hint : Option UInt64) : List Step :=
  match hint with
  | some h => total.take h.toNat
  | none => total

/-- Nothing comes after a failure. -/
def EndsAtFailure (total : List Step) : Prop :=
  ∀ before f after, total = before ++ .error f :: after → after = []

/-- The steps among what was heard. -/
def News.steps (heard : List News) : List Step :=
  heard.filterMap fun
    | .step s => some s
    | _ => none

/-- The reader was told that there is nothing more. -/
def News.isEnded : News → Bool
  | .ended => true
  | _ => false

section

variable {given rest total : List Step} {hint : Option UInt64}

theorem due_prefix_total (total : List Step) (hint : Option UInt64) : due total hint <+: total := by
  cases hint with
  | none => exact List.prefix_rfl
  | some n => exact List.take_prefix ..

theorem due_of_length_le (h : ∀ n, hint = some n → total.length ≤ n.toNat) : due total hint = total := by
  cases hint with
  | none => rfl
  | some n => exact List.take_of_length_le (h n rfl)

theorem prefix_due (hflow : given ++ rest = total) (h : ∀ n, hint = some n → given.length ≤ n.toNat) :
    given <+: due total hint := by
  have htotal : given <+: total := ⟨rest, hflow⟩
  cases hint with
  | none => exact htotal
  | some n => exact List.prefix_take_iff.2 ⟨htotal, h n rfl⟩

/-- As many as were asked for are all that is due. -/
theorem due_of_length_eq {n : UInt64} (hflow : given ++ rest = total) (h : given.length = n.toNat) :
    due total (some n) = given := by
  rw [due, ← hflow, List.take_left' h]

/-- Nothing is due after a failure. -/
theorem due_of_failure (htotal : EndsAtFailure total) {before : List Step} {f : Fault}
    (h : before ++ [.error f] <+: due total hint) : due total hint = before ++ [.error f] := by
  obtain ⟨after, hafter⟩ := h.trans (due_prefix_total total hint)
  have hlast : after = [] := htotal before f after (by rw [← hafter, List.append_assoc]; rfl)
  rw [hlast, List.append_nil] at hafter
  exact (h.eq_of_length_le (hafter ▸ (due_prefix_total total hint).length_le)).symm

end

namespace Channel

/-- Nothing was signalled, and nothing put in the queue. -/
def Unbegun (total given : List Step) (c : Channel) : Prop :=
  c.signal = none ∧ given = [] ∧ c.sent = 0 ∧ c.steps = total

/-- The statement is being stepped: `given` was put in the queue, and `held` is in the worker's hand. -/
def Running (total given held : List Step) (c : Channel) : Prop :=
  c.signal = some (.ok ()) ∧ given ++ held ++ c.steps = total ∧ c.sent = given.length ∧
    ∀ h, c.hint = some h → (given ++ held).length ≤ h.toNat

/-- All that is due was put in the queue. -/
def Finished (total given : List Step) (c : Channel) : Prop :=
  c.signal = some (.ok ()) ∧ given ++ c.steps = total ∧ given = due total c.hint

/-- The statement was refused. -/
def Refused (f : Fault) (total given : List Step) (c : Channel) : Prop :=
  c.signal = some (.error f) ∧ given = [] ∧ c.steps = total

/-- How the worker stands with a statement that is refused, or gives `total`. -/
def Flow (refusal? : Option Fault) (total given : List Step) (c : Channel) : Prop :=
  match c.worker with
  | .preparing r? => r? = refusal? ∧ Unbegun total given c
  | .announcing => refusal? = none ∧ Unbegun total given c
  | .stepping => refusal? = none ∧ Running total given [] c
  | .sending row => refusal? = none ∧ Running total given [.ok row] c
  | .failing f => refusal? = some f ∧ Unbegun total given c ∨ refusal? = none ∧ Running total given [.error f] c
  | .stopped => (∃ f, refusal? = some f ∧ Refused f total given c) ∨ refusal? = none ∧ Finished total given c

/-- A step below the hint goes to the worker's hand. -/
theorem Running.take {total given rest : List Step} {step : Step} {c : Channel} (h : Running total given [] c)
    (hmore : c.sentAll = false) (hs : c.steps = step :: rest) {w : Worker} :
    Running total given [step] { c with worker := w, steps := rest } := by
  obtain ⟨hsignal, hflow, hsent, -⟩ := h
  rw [List.append_nil, hs] at hflow
  refine ⟨hsignal, ?_, hsent, fun n hn => ?_⟩
  · rw [List.append_assoc]; exact hflow
  · rw [List.length_append, ← hsent]
    exact not_sentAll_iff.1 hmore n hn

/-- When there is no step to take any more, all that is due was put in the queue. -/
theorem Running.finish {total given : List Step} {c : Channel} (h : Running total given [] c)
    (hend : c.sentAll ∨ c.steps = []) : Finished total given c := by
  obtain ⟨hsignal, hflow, hsent, hwithin⟩ := h
  rw [List.append_nil] at hflow hwithin
  refine ⟨hsignal, hflow, ?_⟩
  rcases hend with hall | hnil
  · obtain ⟨n, hn, hle⟩ := sentAll_iff.1 hall
    have hlen : given.length = n.toNat := Nat.le_antisymm (hwithin n hn) (hsent ▸ hle)
    exact (hn ▸ due_of_length_eq hflow hlen).symm
  · rw [hnil, List.append_nil] at hflow
    subst hflow
    exact (due_of_length_le hwithin).symm

/-- A failure in the worker's hand is the last of what is due. -/
theorem Running.fail {total given : List Step} {f : Fault} {c : Channel} (h : Running total given [.error f] c)
    (htotal : EndsAtFailure total) : Finished total (given ++ [.error f]) c := by
  obtain ⟨hsignal, hflow, -, hwithin⟩ := h
  refine ⟨hsignal, hflow, ?_⟩
  have hlast : c.steps = [] := htotal given f c.steps (by rw [← hflow, List.append_assoc]; rfl)
  rw [hlast, List.append_nil] at hflow
  subst hflow
  exact (due_of_length_le hwithin).symm

namespace Flow

variable {refusal? : Option Fault} {total given : List Step} {c : Channel}

/-- A turn that puts nothing in the queue. -/
theorem puts_nothing {c' : Channel} (hqueue : c'.queue = c.queue) (h : Flow refusal? total given c') :
    ∃ put, c'.queue = c.queue ++ put ∧ Flow refusal? total (given ++ put) c' :=
  ⟨[], by rw [hqueue, List.append_nil], by rwa [List.append_nil]⟩

/-- **A turn of the worker** puts at most one step in the queue. -/
theorem worker (h : Flow refusal? total given c) (htotal : EndsAtFailure total) (hr : c.reader ≠ .gone) :
    ∃ put, c.workerTurn.queue = c.queue ++ put ∧ Flow refusal? total (given ++ put) c.workerTurn := by
  have hstep := worker_step c
  generalize c.workerTurn = c' at hstep
  unfold Flow at h
  cases hstep with
  | refused hw =>
    simp only [hw] at h
    exact puts_nothing rfl (.inl ⟨h.1.symm, h.2⟩)
  | prepared hw =>
    simp only [hw] at h
    exact puts_nothing rfl ⟨h.1.symm, h.2⟩
  | announced hw =>
    simp only [hw] at h
    obtain ⟨hrefusal, -, rfl, hsent, hsteps⟩ := h
    exact puts_nothing rfl ⟨hrefusal, rfl, hsteps, hsent, fun _ _ => Nat.zero_le _⟩
  | finished hw hend =>
    simp only [hw] at h
    exact puts_nothing rfl (.inr ⟨h.1, h.2.finish hend⟩)
  | row hw hmore hs =>
    simp only [hw] at h
    exact puts_nothing rfl ⟨h.1, h.2.take hmore hs⟩
  | failure hw hmore hs =>
    simp only [hw] at h
    exact puts_nothing rfl (.inr ⟨h.1, h.2.take hmore hs⟩)
  | sent hw hr hroom =>
    simp only [hw] at h
    obtain ⟨hrefusal, hsignal, hflow, hsent, hwithin⟩ := h
    refine ⟨[.ok _], rfl, hrefusal, hsignal, ?_, ?_, ?_⟩
    · rw [List.append_nil]; exact hflow
    · rw [List.length_append, ← hsent]; rfl
    · rw [List.append_nil]; exact hwithin
  | reported hw hsome hr hroom =>
    simp only [hw] at h
    rcases h with ⟨-, hnone, -⟩ | ⟨hrefusal, hrunning⟩
    · exact absurd hnone hsome
    · exact ⟨[.error _], rfl, .inr ⟨hrefusal, hrunning.fail htotal⟩⟩
  | signalled hw hsignal =>
    simp only [hw] at h
    rcases h with ⟨hrefusal, -, hgiven, -, hsteps⟩ | ⟨-, hsome, -⟩
    · exact puts_nothing rfl (.inl ⟨_, hrefusal, rfl, hgiven, hsteps⟩)
    · cases hsignal.symm.trans hsome
  | abandoned hw hgone => exact absurd hgone hr
  | full | rested => exact puts_nothing rfl h

end Flow

/-! ## Stages -/

/-- The worker is past its signal. -/
def Begun (c : Channel) : Prop := c.worker ≠ .announcing ∧ ∀ refusal?, c.worker ≠ .preparing refusal?

/-- The steps that the worker may still take when nobody listens any more. -/
def spare (c : Channel) : Nat :=
  match c.worker with
  | .stepping => if c.sentAll then 0 else 1
  | _ => 0

theorem spare_le_one (c : Channel) : c.spare ≤ 1 := by
  unfold spare
  split
  · split <;> decide
  · exact Nat.zero_le 1

/-- The stages of a statement, whatever the worker is about to do in them. -/
inductive Stage (refusal? : Option Fault) (total given : List Step) (c : Channel) : Prop where
  | unbegun (hw : c.worker ≠ .stopped) (hspare : c.spare = 0) (h : Unbegun total given c)
  | refused {f : Fault} (hw : c.worker = .stopped) (hrefusal : refusal? = some f) (h : Refused f total given c)
  | running {held : List Step} (hw : c.worker ≠ .stopped) (hrefusal : refusal? = none)
    (hheld : held.length + c.spare ≤ 1) (hwithin : ∀ n, c.hint = some n → (given ++ held).length + c.spare ≤ n.toNat)
    (h : Running total given held c)
  | finished (hw : c.worker = .stopped) (hrefusal : refusal? = none) (h : Finished total given c)

theorem spare_of_stopped {c : Channel} (h : c.worker = .stopped) : c.spare = 0 := by simp only [spare, h]

namespace Flow

variable {refusal? : Option Fault} {total given : List Step} {c : Channel}

theorem stage (h : Flow refusal? total given c) : Stage refusal? total given c := by
  unfold Flow at h
  split at h
  · next hw => exact .unbegun (by simp [hw]) (by simp [spare, hw]) h.2
  · next hw => exact .unbegun (by simp [hw]) (by simp [spare, hw]) h.2
  · next hw =>
    refine .running (by simp [hw]) h.1 (Nat.zero_add _ ▸ c.spare_le_one) (fun n hn => ?_) h.2
    obtain ⟨-, -, hsent, hwithin⟩ := h.2
    have hgiven : given.length ≤ n.toNat := by simpa using hwithin n hn
    cases hall : c.sentAll with
    | true => simpa [spare, hw, hall] using hgiven
    | false =>
      have hless := not_sentAll_iff.1 hall n hn
      simp only [spare, hw, hall, List.append_nil, Bool.false_eq_true, if_false]
      omega
  · next hw =>
    have hnone : c.spare = 0 := by simp only [spare, hw]
    exact .running (by simp [hw]) h.1 (by simp [hnone]) (fun n hn => hnone ▸ h.2.2.2.2 n hn) h.2
  · next hw =>
    have hnone : c.spare = 0 := by simp only [spare, hw]
    rcases h with h | h
    · exact .unbegun (by simp [hw]) hnone h.2
    · exact .running (by simp [hw]) h.1 (by simp [hnone]) (fun n hn => hnone ▸ h.2.2.2.2 n hn) h.2
  · next hw =>
    rcases h with ⟨f, hrefusal, h⟩ | ⟨hrefusal, h⟩
    · exact .refused hw hrefusal h
    · exact .finished hw hrefusal h

theorem of_ok (h : Flow refusal? total given c) (hsignal : c.signal = some (.ok ())) : refusal? = none := by
  cases h.stage with
  | unbegun _ _ h => cases hsignal.symm.trans h.1
  | refused _ _ h => cases hsignal.symm.trans h.1
  | running _ hrefusal | finished _ hrefusal => exact hrefusal

theorem of_error (h : Flow refusal? total given c) {f : Fault} (hsignal : c.signal = some (.error f)) :
    c.worker = .stopped ∧ refusal? = some f ∧ c.steps = total := by
  cases h.stage with
  | unbegun _ _ h => cases hsignal.symm.trans h.1
  | refused hw hrefusal h =>
    cases hsignal.symm.trans h.1
    exact ⟨hw, hrefusal, h.2.2⟩
  | running _ _ _ _ h => cases hsignal.symm.trans h.1
  | finished _ _ h => cases hsignal.symm.trans h.1

/-- A worker that has signalled that the statement is ready. -/
theorem begun_of_ok (h : Flow refusal? total given c) (hsignal : c.signal = some (.ok ())) : c.Begun := by
  unfold Flow at h
  refine ⟨fun hw => ?_, fun r? hw => ?_⟩ <;>
    · simp only [hw] at h
      cases hsignal.symm.trans h.2.1

theorem of_none (h : Flow refusal? total given c) (hsignal : c.signal = none) : c.worker ≠ .stopped := by
  cases h.stage with
  | unbegun hw => exact hw
  | refused _ _ h => cases hsignal.symm.trans h.1
  | running hw => exact hw
  | finished _ _ h => cases hsignal.symm.trans h.1

/-- What was put in the queue is the first of what is due. -/
theorem given_prefix_due (h : Flow refusal? total given c) : given <+: due total c.hint := by
  cases h.stage with
  | unbegun _ _ h => exact h.2.1 ▸ List.nil_prefix
  | refused _ _ h => exact h.2.1 ▸ List.nil_prefix
  | running _ _ _ hwithin h =>
    refine prefix_due ((List.append_assoc ..).symm.trans h.2.1) fun n hn => ?_
    have := hwithin n hn
    rw [List.length_append] at this
    omega
  | finished _ _ h => exact h.2.2 ▸ List.prefix_rfl

/-- A worker that has stopped has put in the queue all that is due. -/
theorem given_of_stopped (h : Flow none total given c) (hw : c.worker = .stopped) : given = due total c.hint := by
  cases h.stage with
  | unbegun hnot | running hnot => exact absurd hw hnot
  | refused _ hrefusal => cases hrefusal
  | finished _ _ h => exact h.2.2

/-- The steps taken: no more than asked for, and one at most that was not put in the queue. -/
theorem taken (h : Flow refusal? total given c) :
    ∃ taken, taken ++ c.steps = total ∧ (∀ n, c.hint = some n → taken.length + c.spare ≤ n.toNat) ∧
      taken.length + c.spare ≤ given.length + 1 := by
  cases h.stage with
  | unbegun _ hspare h =>
    exact ⟨[], h.2.2.2, fun _ _ => by rw [hspare]; exact Nat.zero_le _, by rw [hspare]; exact Nat.zero_le _⟩
  | refused hw _ h =>
    have hspare := spare_of_stopped hw
    exact ⟨[], h.2.2, fun _ _ => by rw [hspare]; exact Nat.zero_le _, by rw [hspare]; exact Nat.zero_le _⟩
  | @running held _ _ hheld hwithin h =>
    refine ⟨given ++ held, h.2.1, hwithin, ?_⟩
    rw [List.length_append]
    omega
  | finished hw _ h =>
    have hspare := spare_of_stopped hw
    refine ⟨given, h.2.1, fun n hn => ?_, by rw [hspare]; exact Nat.le_succ _⟩
    rw [hspare, h.2.2, hn]
    exact List.length_take_le ..

end Flow

/-! ## What the reader has heard -/

/-- How the reader stands that has heard this and has not let go. -/
inductive Standing (refusal? : Option Fault) (total : List Step) (heard : List News) (c : Channel) : Prop where
  | waiting (hr : c.reader = .waiting) (hheard : heard = []) (hflow : Flow refusal? total c.queue c)
  | reading (received : List Step) (ends : Nat) (hr : c.reader = .reading) (hready : c.signal = some (.ok ()))
    (hheard : heard = .ready :: (received.map .step ++ .replicate ends .ended))
    (hflow : Flow refusal? total (received ++ c.queue) c) (hends : 0 < ends → c.worker = .stopped ∧ c.queue = [])
  | refused {f : Fault} (hr : c.reader = .gone) (hrefusal : refusal? = some f) (hheard : heard = [.refused f])
    (hw : c.worker = .stopped) (hq : c.queue = []) (hsteps : c.steps = total)

theorem workerTurn_of_stopped {c : Channel} (h : c.worker = .stopped) : c.workerTurn = c := by
  simp only [workerTurn, h]

@[simp]
theorem reader_workerTurn (c : Channel) : c.workerTurn.reader = c.reader := by
  have hstep := worker_step c
  generalize c.workerTurn = c' at hstep
  cases hstep <;> rfl

theorem signal_workerTurn {c : Channel} (h : c.signal = some (.ok ())) : c.workerTurn.signal = some (.ok ()) := by
  have hstep := worker_step c
  generalize c.workerTurn = c' at hstep
  cases hstep with
  | announced => rfl
  | signalled _ hsignal => cases hsignal.symm.trans h
  | _ => exact h

namespace Standing

variable {refusal? : Option Fault} {total : List Step} {heard : List News} {c : Channel}

theorem worker (h : Standing refusal? total heard c) (htotal : EndsAtFailure total) :
    Standing refusal? total heard c.workerTurn := by
  cases h with
  | waiting hr hheard hflow =>
    obtain ⟨put, hqueue, hflow⟩ := hflow.worker htotal (by rw [hr]; decide)
    exact .waiting ((reader_workerTurn c).trans hr) hheard (hqueue ▸ hflow)
  | reading received ends hr hready hheard hflow hends =>
    rcases Nat.eq_zero_or_pos ends with rfl | hpos
    · obtain ⟨put, hqueue, hflow⟩ := hflow.worker htotal (by rw [hr]; decide)
      rw [List.append_assoc, ← hqueue] at hflow
      exact .reading received 0 ((reader_workerTurn c).trans hr) (signal_workerTurn hready) hheard hflow
        (absurd · (Nat.lt_irrefl 0))
    · rw [workerTurn_of_stopped (hends hpos).1]
      exact .reading received ends hr hready hheard hflow hends
  | refused hr hrefusal hheard hw hq hsteps =>
    rw [workerTurn_of_stopped hw]
    exact .refused hr hrefusal hheard hw hq hsteps

theorem reader (h : Standing refusal? total heard c) :
    Standing refusal? total (heard ++ c.hear.1.toList) c.hear.2 := by
  have hstep := hear_step c
  generalize c.hear = result at hstep
  cases h with
  | waiting hr hheard hflow =>
    subst hheard
    cases hstep with
    | ready _ hsignal => exact .reading [] 0 rfl hsignal rfl hflow (absurd · (Nat.lt_irrefl 0))
    | refused _ hsignal =>
      obtain ⟨hw, hrefusal, hsteps⟩ := hflow.of_error hsignal
      exact .refused rfl hrefusal rfl hw rfl hsteps
    | stopped _ hsignal hw => exact absurd hw (hflow.of_none hsignal)
    | early => exact .waiting hr rfl hflow
    | step hr' | ended hr' | empty hr' | gone hr' => cases hr.symm.trans hr'
  | reading received ends hr hready hheard hflow hends =>
    subst hheard
    cases hstep with
    | @step step rest _ hq =>
      have hnone : ends = 0 := Nat.eq_zero_of_not_pos fun hpos => by cases hq.symm.trans (hends hpos).2
      subst hnone
      refine .reading (received ++ [step]) 0 hr hready ?_ ?_ (absurd · (Nat.lt_irrefl 0))
      · simp
      · rw [List.append_assoc, List.singleton_append, ← hq]
        exact hflow
    | ended _ hq hw =>
      refine .reading received (ends + 1) hr hready ?_ hflow fun _ => ⟨hw, hq⟩
      simp [List.replicate_succ']
    | empty =>
      rw [Option.toList_none, List.append_nil]
      exact .reading received ends hr hready rfl hflow hends
    | ready hr' | refused hr' | stopped hr' | early hr' | gone hr' => cases hr.symm.trans hr'
  | refused hr hrefusal hheard hw hq hsteps =>
    cases hstep with
    | gone =>
      rw [Option.toList_none, List.append_nil]
      exact .refused hr hrefusal hheard hw hq hsteps
    | ready hr' | refused hr' | stopped hr' | early hr' | step hr' | ended hr' | empty hr' => cases hr.symm.trans hr'

theorem turn (h : Standing refusal? total heard c) (htotal : EndsAtFailure total) {t : Turn} (ht : t ≠ .release) :
    Standing refusal? total (heard ++ (c.turn t).1.toList) (c.turn t).2 := by
  cases t with
  | worker =>
    simp only [Channel.turn, Option.toList_none, List.append_nil]
    exact h.worker htotal
  | reader => exact h.reader
  | release => exact absurd rfl ht

/-- **Until the reader lets go** it has heard what it should. -/
theorem play (h : Standing refusal? total heard c) (htotal : EndsAtFailure total) {ts : List Turn}
    (hts : .release ∉ ts) : Standing refusal? total (heard ++ (c.play ts).1) (c.play ts).2 := by
  induction ts generalizing heard c with
  | nil => simpa only [Channel.play, List.append_nil] using h
  | cons t ts ih =>
    simp only [List.mem_cons, not_or] at hts
    have hrest := ih (h.turn htotal (Ne.symm hts.1)) hts.2
    rwa [List.append_assoc] at hrest

/-! ### What it should -/

/-- All of what is due is heard before the end. -/
theorem heard_prefix_due (h : Standing none total heard c) :
    ∃ ends, heard <+: .ready :: ((due total c.hint).map .step ++ .replicate ends .ended) := by
  cases h with
  | waiting _ hheard => exact ⟨0, hheard ▸ List.nil_prefix⟩
  | reading received ends hr hready hheard hflow hends =>
    refine ⟨ends, hheard ▸ List.cons_prefix_cons.2 ⟨rfl, ?_⟩⟩
    rcases Nat.eq_zero_or_pos ends with rfl | hpos
    · have hdue : received <+: due total c.hint := (List.prefix_append _ _).trans hflow.given_prefix_due
      simpa using (hdue.map News.step)
    · obtain ⟨hw, hq⟩ := hends hpos
      rw [hq, List.append_nil] at hflow
      exact hflow.given_of_stopped hw ▸ List.prefix_rfl
  | refused _ hrefusal => cases hrefusal

@[simp]
theorem steps_heard (received : List Step) (ends : Nat) :
    News.steps (.ready :: (received.map .step ++ .replicate ends .ended)) = received := by
  have hends : News.steps (.replicate ends .ended) = [] := by
    induction ends with
    | zero => rfl
    | succ ends ih => exact ih
  induction received with
  | nil => exact hends
  | cons step received ih => exact congrArg (step :: ·) ih

/-- The steps taken: no more than asked for, and no further ahead of those heard
than the queue is long and one. -/
theorem taken (h : Standing refusal? total heard c) :
    ∃ taken, taken ++ c.steps = total ∧ (∀ n, c.hint = some n → taken.length + c.spare ≤ n.toNat) ∧
      taken.length + c.spare ≤ (News.steps heard).length + c.queue.length + 1 := by
  cases h with
  | waiting _ hheard hflow =>
    obtain ⟨taken, htaken, hwithin, hahead⟩ := hflow.taken
    exact ⟨taken, htaken, hwithin, by rw [hheard]; exact Nat.le_trans hahead (by simp [News.steps])⟩
  | reading received ends _ _ hheard hflow =>
    obtain ⟨taken, htaken, hwithin, hahead⟩ := hflow.taken
    refine ⟨taken, htaken, hwithin, ?_⟩
    rwa [hheard, steps_heard, ← List.length_append]
  | refused _ _ _ hw _ hsteps =>
    have hspare := spare_of_stopped hw
    exact ⟨[], hsteps, fun _ _ => by rw [hspare]; exact Nat.zero_le _, by rw [hspare]; exact Nat.zero_le _⟩

/-! ### At the end -/

@[simp]
theorem countP_isEnded (received : List Step) (ends : Nat) :
    (.ready :: (received.map .step ++ .replicate ends .ended)).countP News.isEnded = ends := by
  have hsteps : (received.map News.step).countP News.isEnded = 0 := by
    simp [List.countP_eq_zero, News.isEnded]
  have hready : ¬ News.ready.isEnded := Bool.false_ne_true
  rw [List.countP_cons_of_neg hready, List.countP_append, hsteps, Nat.zero_add, List.countP_replicate]
  rfl

/-- At the end the reader has heard all that is due, and that there is no more. -/
theorem heard_at_end (h : Standing none total heard c) (hrank : c.rank = 0) :
    heard = .ready :: ((due total c.hint).map .step ++ .replicate (heard.countP News.isEnded) .ended) := by
  obtain ⟨hw, hq, hwaiting⟩ := rank_eq_zero_iff.1 hrank
  cases h with
  | waiting hr => exact absurd hr hwaiting
  | reading received ends hr hready hheard hflow hends =>
    rw [hq, List.append_nil] at hflow
    rw [hheard, countP_isEnded, hflow.given_of_stopped hw]
  | refused _ hrefusal => cases hrefusal

theorem refused_at_end {f : Fault} (h : Standing (some f) total heard c) (hrank : c.rank = 0) :
    heard = [.refused f] := by
  obtain ⟨-, -, hwaiting⟩ := rank_eq_zero_iff.1 hrank
  cases h with
  | waiting hr => exact absurd hr hwaiting
  | reading _ _ _ hready _ hflow => cases hflow.of_ok hready
  | refused _ hrefusal hheard => cases hrefusal; exact hheard

/-- At the end a reader hears that it is there. -/
theorem hear_at_end (h : Standing none total heard c) (hrank : c.rank = 0) : c.hear = (some .ended, c) := by
  obtain ⟨hw, hq, hwaiting⟩ := rank_eq_zero_iff.1 hrank
  cases h with
  | waiting hr => exact absurd hr hwaiting
  | reading _ _ hr => simp only [hear, hr, hq, hw]
  | refused _ hrefusal => cases hrefusal

end Standing

/-! ## After letting go -/

/-- What is left, and how many steps before it may be taken once nobody listens. -/
def Within (total : List Step) (most : Nat) (c : Channel) : Prop :=
  ∃ taken, taken ++ c.steps = total ∧ taken.length + c.spare ≤ most

/-- The reader has let go. -/
structure Silent (total : List Step) (most : Nat) (c : Channel) : Prop where
  gone : c.reader = .gone
  empty : c.queue = []
  within : Within total most c

namespace Silent

variable {total : List Step} {most : Nat} {c : Channel}

theorem release (h : Within total most c) : Silent total most c.release := ⟨rfl, rfl, h⟩

/-- Counted from when the reader lets go, one step may be taken. -/
theorem release_from (c : Channel) : Silent c.steps 1 c.release :=
  ⟨rfl, rfl, [], rfl, by rw [List.length_nil, Nat.zero_add]; exact spare_le_one _⟩

/-- **Once the reader has let go** it hears nothing, and the worker only takes
the step that it had set out for. -/
theorem turn (h : Silent total most c) (t : Turn) : (c.turn t).1 = none ∧ Silent total most (c.turn t).2 := by
  obtain ⟨hr, hq, taken, htaken, hmost⟩ := h
  cases t with
  | worker =>
    refine ⟨rfl, ?_⟩
    have hstep := worker_step c
    simp only [Channel.turn]
    generalize c.workerTurn = c' at hstep
    cases hstep with
    | refused | prepared | signalled | abandoned | finished =>
      exact ⟨hr, hq, taken, htaken, Nat.le_trans (Nat.le_add_right ..) hmost⟩
    | announced _ hr' | sent _ hr' | reported _ _ hr' => exact absurd hr hr'
    | row hw hmore hs | failure hw hmore hs =>
      have hspare : c.spare = 1 := by simp [spare, hw, hmore]
      refine ⟨hr, hq, taken ++ [_], by rw [List.append_assoc, ← htaken, hs]; rfl, ?_⟩
      rw [hspare] at hmost
      simpa [spare] using hmost
    | full | rested => exact ⟨hr, hq, taken, htaken, hmost⟩
  | reader =>
    have hnone : c.turn .reader = (none, c) := by simp only [Channel.turn, hear, hr]
    rw [hnone]
    exact ⟨rfl, hr, hq, taken, htaken, hmost⟩
  | release => exact ⟨rfl, rfl, rfl, taken, htaken, hmost⟩

theorem play (h : Silent total most c) (ts : List Turn) :
    (c.play ts).1 = [] ∧ Silent total most (c.play ts).2 := by
  induction ts generalizing c with
  | nil => exact ⟨rfl, h⟩
  | cons t ts ih =>
    obtain ⟨hnone, h⟩ := h.turn t
    obtain ⟨hnil, h⟩ := ih h
    exact ⟨by simp only [Channel.play, hnone, hnil]; rfl, h⟩

end Silent

end Channel

end TableQuery.Sqlite

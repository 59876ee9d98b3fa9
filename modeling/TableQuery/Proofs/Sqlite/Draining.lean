/-
Reading a statement to its end, with the worker running only while the reader
waits: `fetch`, and then `recv` again and again. Two turns of the worker bring
the next step or the end (`isReady_of_turns`), so what is drained is what is due
(`Standing.drain`).
-/
import TableQuery.Proofs.Sqlite.Flow

namespace TableQuery.Sqlite.Channel

variable {total : List Step} {heard : List News} {c : Channel}

/-! ## One wait -/

/-- The reader does not have to wait. -/
def IsReady (c : Channel) : Prop := c.worker = .stopped ∨ c.queue ≠ []

theorem IsReady.workerTurn (h : c.IsReady) : c.workerTurn.IsReady := by
  rcases h with hw | hq
  · rw [workerTurn_of_stopped hw]
    exact .inl hw
  · have hstep := worker_step c
    generalize c.workerTurn = c' at hstep
    cases hstep with
    | sent | reported => exact .inr (List.append_ne_nil_of_left_ne_nil hq _)
    | _ => exact .inr hq

/-- The worker has a step in hand. -/
def Holds (c : Channel) : Prop := (∃ row, c.worker = .sending row) ∨ ∃ f, c.worker = .failing f

/-- A turn of the worker brings something to hear, or it takes a step. -/
theorem isReady_or_holds (hcapacity : 0 < c.capacity) (hr : c.reader = .reading)
    (hready : c.signal = some (.ok ())) (hbegun : c.Begun) :
    c.workerTurn.IsReady ∨ c.worker = .stepping ∧ c.workerTurn.Holds ∧ c.workerTurn.capacity = c.capacity := by
  by_cases hq : c.queue = []
  · have hstep := worker_step c
    generalize c.workerTurn = c' at hstep
    cases hstep with
    | sent | reported => exact .inl (.inr (List.append_ne_nil_of_right_ne_nil _ (List.cons_ne_nil _ _)))
    | finished => exact .inl (.inl rfl)
    | rested hw => exact .inl (.inl hw)
    | row hw => exact .inr ⟨hw, .inl ⟨_, rfl⟩, rfl⟩
    | failure hw => exact .inr ⟨hw, .inr ⟨_, rfl⟩, rfl⟩
    | refused hw | prepared hw => exact absurd hw (hbegun.2 _)
    | announced hw => exact absurd hw hbegun.1
    | signalled _ hnone => cases hnone.symm.trans hready
    | abandoned _ hgone => cases hgone.symm.trans hr
    | full _ hfull =>
      rw [hq] at hfull
      exact absurd hcapacity (Nat.not_lt_of_le hfull)
  · exact .inl (IsReady.workerTurn (.inr hq))

/-- **Two turns of the worker** bring something to hear: it takes a step, and puts it in the queue. -/
theorem isReady_of_turns (hcapacity : 0 < c.capacity) (hr : c.reader = .reading)
    (hready : c.signal = some (.ok ())) (hbegun : c.Begun) : c.workerTurn.workerTurn.IsReady := by
  rcases isReady_or_holds hcapacity hr hready hbegun with h | ⟨-, hholds, hsize⟩
  · exact h.workerTurn
  · have hbegun' : c.workerTurn.Begun := by
      rcases hholds with ⟨row, hw⟩ | ⟨f, hw⟩ <;> exact ⟨by simp [hw], by simp [hw]⟩
    refine (isReady_or_holds (hsize ▸ hcapacity) ((reader_workerTurn c).trans hr) (signal_workerTurn hready)
      hbegun').resolve_right ?_
    rintro ⟨hstepping, -⟩
    rcases hholds with ⟨row, hw⟩ | ⟨f, hw⟩ <;> cases hstepping.symm.trans hw

/-- What a reader hears that does not have to wait: the next step, or that all that is due was heard. -/
theorem Standing.hear_of_isReady (h : Standing none total heard c) (hr : c.reader = .reading) (hc : c.IsReady) :
    (∃ step, c.hear.1 = some (.step step) ∧ c.hear.2.reader = .reading ∧
      Standing none total (heard ++ [.step step]) c.hear.2) ∨
    (c.hear.1 = some .ended ∧ News.steps heard = due total c.hint) := by
  have hnext := h.reader
  have hstep := hear_step c
  generalize c.hear = result at hstep hnext
  cases hstep with
  | @step step rest => exact .inl ⟨step, rfl, hr, hnext⟩
  | ended _ hq hw =>
    refine .inr ⟨rfl, ?_⟩
    rw [h.heard_at_end (rank_eq_zero_iff.2 ⟨hw, hq, by rw [hr]; decide⟩), steps_heard]
  | empty _ hq hw => exact absurd hq (hc.resolve_left hw)
  | ready hr' | refused hr' | stopped hr' | early hr' | gone hr' => cases hr.symm.trans hr'

theorem recv_of_step {c' : Channel} {step : Step} (h : c.hear = (some (.step step), c')) :
    c.recv = (some step, c') := by
  simp only [Channel.recv, h]

theorem recv_of_ended {c' : Channel} (h : c.hear = (some .ended, c')) : c.recv = (none, c') := by
  simp only [Channel.recv, h]

/-- A reader that finds nothing has the worker take two turns. -/
theorem recv_of_none (h : c.hear = (none, c)) (hnext : c.workerTurn.workerTurn.hear.1 ≠ none) :
    c.recv = c.workerTurn.workerTurn.recv := by
  simp only [Channel.recv, h]
  rcases hh : c.workerTurn.workerTurn.hear with ⟨_ | news, c'⟩
  · exact absurd (congrArg Prod.fst hh) hnext
  · cases news <;> rfl

theorem hear_of_not_isReady (hr : c.reader = .reading) (hc : ¬ c.IsReady) : c.hear = (none, c) := by
  obtain ⟨hw, hq⟩ := not_or.1 hc
  have hstep := hear_step c
  generalize c.hear = result at hstep
  cases hstep with
  | empty => rfl
  | step _ hq' => exact absurd hq' fun hcons => hq (hcons ▸ List.cons_ne_nil _ _)
  | ended _ _ hw' => exact absurd hw' hw
  | ready hr' | refused hr' | stopped hr' | early hr' | gone hr' => cases hr.symm.trans hr'

/-- What comes of waiting: the next step, or nothing as all that is due was heard. -/
inductive Received (total : List Step) (capacity : Nat) (hint : Option UInt64) (heard : List News) :
    Option Step × Channel → Prop where
  | step {step : Step} {c : Channel} (hr : c.reader = .reading) (hagreed : c.Agreed capacity hint)
    (h : Standing none total (heard ++ [.step step]) c) : Received total capacity hint heard (some step, c)
  | ended {c : Channel} (h : News.steps heard = due total hint) : Received total capacity hint heard (none, c)

section

variable {capacity : Nat} {hint : Option UInt64}

theorem Standing.recv_of_isReady (h : Standing none total heard c) (hagreed : c.Agreed capacity hint)
    (hr : c.reader = .reading) (hc : c.IsReady) : Received total capacity hint heard c.recv := by
  have hhear := h.hear_of_isReady hr hc
  have hkept : c.hear.2.Agreed capacity hint := hagreed.turn .reader
  rcases hh : c.hear with ⟨news, c'⟩
  rw [hh] at hhear hkept
  rcases hhear with ⟨step, rfl, hr', hnext⟩ | ⟨rfl, hdue⟩
  · rw [recv_of_step hh]
    exact .step hr' hkept hnext
  · rw [recv_of_ended hh]
    exact .ended (hagreed.asked ▸ hdue)

/-- **Waiting for the next step** brings it, or there is none. -/
theorem Standing.recv (h : Standing none total heard c) (htotal : EndsAtFailure total)
    (hagreed : c.Agreed capacity hint) (hcapacity : 0 < capacity) (hr : c.reader = .reading) :
    Received total capacity hint heard c.recv := by
  by_cases hc : c.IsReady
  · exact h.recv_of_isReady hagreed hr hc
  · -- The worker has to bring something first, and two turns are enough.
    have hnext := (h.worker htotal).worker htotal
    have hr' : c.workerTurn.workerTurn.reader = .reading := by simp [hr]
    have hready : c.workerTurn.workerTurn.IsReady := by
      cases h with
      | reading _ _ _ hready _ hflow =>
        exact isReady_of_turns (hagreed.size ▸ hcapacity) hr hready (hflow.begun_of_ok hready)
      | waiting hr'' | refused hr'' => cases hr.symm.trans hr''
    have hheard : c.workerTurn.workerTurn.hear.1 ≠ none := by
      rcases hnext.hear_of_isReady hr' hready with ⟨step, hs, -⟩ | ⟨hs, -⟩ <;> rw [hs] <;> exact nofun
    rw [recv_of_none (hear_of_not_isReady hr hc) hheard]
    exact hnext.recv_of_isReady ((hagreed.turn .worker).turn .worker) hr' hready

@[simp]
theorem steps_append (heard more : List News) : News.steps (heard ++ more) = News.steps heard ++ News.steps more :=
  List.filterMap_append

/-- The steps heard are the first of those due. -/
theorem Standing.steps_prefix_due (h : Standing none total heard c) (hhint : c.hint = hint) :
    News.steps heard <+: due total hint := by
  subst hhint
  cases h with
  | waiting _ hheard => exact hheard ▸ List.nil_prefix
  | reading received ends _ _ hheard hflow =>
    rw [hheard, steps_heard]
    exact (List.prefix_append _ _).trans hflow.given_prefix_due
  | refused _ hrefusal => cases hrefusal

/-- **What is drained is what is due** and was not heard before. -/
theorem Standing.drain (h : Standing none total heard c) (htotal : EndsAtFailure total)
    (hagreed : c.Agreed capacity hint) (hcapacity : 0 < capacity) (hr : c.reader = .reading) (n : Nat) :
    News.steps heard ++ c.drain n = (due total hint).take ((News.steps heard).length + n) := by
  induction n generalizing heard c with
  | zero =>
    rw [Channel.drain, List.append_nil, Nat.add_zero]
    exact List.prefix_iff_eq_take.1 (h.steps_prefix_due hagreed.asked)
  | succ n ih =>
    have hrecv := h.recv htotal hagreed hcapacity hr
    rw [Channel.drain]
    generalize c.recv = result at hrecv
    cases hrecv with
    | @step step c' hr' hagreed' h' =>
      have hrest := ih h' hagreed' hr'
      have hsteps : News.steps (heard ++ [.step step]) = News.steps heard ++ [step] := steps_append heard _
      rw [hsteps, List.length_append, List.append_assoc, Nat.add_assoc, Nat.add_comm _ n] at hrest
      cases step with
      | ok row => exact hrest
      | error f =>
        have hprefix := h'.steps_prefix_due hagreed'.asked
        rw [hsteps] at hprefix
        have hlength : (News.steps heard ++ [Except.error f]).length ≤ (News.steps heard).length + (n + 1) := by
          rw [List.length_append]
          exact Nat.add_le_add_left (Nat.succ_le_succ (Nat.zero_le n)) _
        rw [due_of_failure htotal hprefix, List.take_of_length_le hlength]
    | ended hdue =>
      rw [List.append_nil, hdue, List.take_of_length_le (Nat.le_add_right ..)]

end

end TableQuery.Sqlite.Channel

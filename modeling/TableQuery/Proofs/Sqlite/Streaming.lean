/-
What the reader of a statement hears, for any order of turns
(`Channel.streaming`).

It never hears anything but the rows, in order, then the failure that ends
them, and then the end, and no more of them than it asked for; and it hears all
of that if the worker and the reader go on taking turns. The worker keeps to
what was asked for as well, and close to what was heard. One such order is that
of `fetch` and `recv`, where the worker runs only while the reader waits
(`drain_fetch`).
-/
import TableQuery.Proofs.Sqlite.Draining

namespace TableQuery.Sqlite

/-- The steps of a statement with these rows that ends with a failure, or does not. -/
def stepsOf (rows : List Row) (failure? : Option Fault) : List Step :=
  rows.map .ok ++ (failure?.map .error).toList

theorem endsAtFailure_stepsOf (rows : List Row) (failure? : Option Fault) :
    EndsAtFailure (stepsOf rows failure?) := by
  intro before f after h
  induction rows generalizing before with
  | nil =>
    cases failure? with
    | none => cases before <;> cases h
    | some f' =>
      cases before with
      | nil => exact (List.cons.inj h).2.symm
      | cons b before => cases before <;> cases (List.cons.inj h).2
  | cons row rows ih =>
    cases before with
    | nil => cases h
    | cons b before => exact ih before (List.cons.inj h).2

/-- What is due of them: the failure only if it comes before as many rows as were asked for. -/
theorem due_stepsOf (rows : List Row) (failure? : Option Fault) (h : UInt64) :
    due (stepsOf rows failure?) (some h) =
      stepsOf (rows.take h.toNat) (if rows.length < h.toNat then failure? else none) := by
  rw [due, stepsOf, stepsOf, List.take_append, List.map_take, List.length_map]
  congr 1
  split
  · next hless =>
    cases failure? with
    | none => simp
    | some f => exact List.take_of_length_le (Nat.sub_pos_of_lt hless)
  · next hmore => rw [Nat.sub_eq_zero_of_le (Nat.le_of_not_lt hmore)]; rfl

namespace Channel

variable {refusal? : Option Fault} {total : List Step} {heard : List News} {c : Channel}

theorem standing_spawn (prepared : Except Failure (List Step)) (hint : Option UInt64) :
    Standing (match prepared with | .ok _ => none | .error f => some f.toFault)
      (match prepared with | .ok steps => steps | .error _ => []) [] (spawn prepared hint) :=
  .waiting rfl rfl ⟨rfl, rfl, rfl, rfl, rfl⟩

theorem agreed_spawn (prepared : Except Failure (List Step)) (hint : Option UInt64) :
    (spawn prepared hint).Agreed (spawn prepared hint).capacity hint :=
  ⟨rfl, rfl, Nat.zero_le _⟩

theorem capacity_spawn (prepared : Except Failure (List Step)) (hint : Option UInt64) :
    0 < (spawn prepared hint).capacity ∧ (spawn prepared hint).capacity ≤ mostAhead := by
  cases hint with
  | none => exact ⟨Nat.zero_lt_succ 63, Nat.le_refl _⟩
  | some h =>
    simp only [spawn, mostAhead]
    omega

/-! ## Getting to the end -/

/-- Where neither the worker nor the reader can go on, they have come to the end. -/
theorem Standing.rank_eq_zero (h : Standing refusal? total heard c) (hcapacity : 0 < c.capacity)
    (hworker : c.workerTurn = c) (hreader : c.hear.2 = c) : c.rank = 0 := by
  rw [rank_eq_zero_iff]
  rcases worker_still hworker with hw | ⟨hfull, hr, hw⟩
  · rcases reader_still hreader with ⟨-, -, hnot⟩ | ⟨hr, hq⟩ | hr
    · exact absurd hw hnot
    · exact ⟨hw, hq, by rw [hr]; decide⟩
    · cases h with
      | waiting hr' | reading _ _ hr' => cases hr.symm.trans hr'
      | refused _ _ _ _ hq => exact ⟨hw, hq, by rw [hr]; decide⟩
  · -- The queue is full, so there is a step to hear, or the signal before it.
    have hqueue : c.queue ≠ [] := fun hnil => by
      rw [hnil] at hfull
      exact Nat.not_lt_of_le hfull hcapacity
    rcases reader_still hreader with ⟨hr', hsignal, -⟩ | ⟨-, hq⟩ | hgone
    · rcases hw with ⟨row, hw⟩ | hsome
      · cases h with
        | waiting _ _ hflow =>
          simp only [Flow, hw] at hflow
          cases hsignal.symm.trans hflow.2.1
        | reading _ _ hr'' | refused hr'' => cases hr'.symm.trans hr''
      · exact absurd hsignal hsome
    · exact absurd hq hqueue
    · exact absurd hgone hr

/-- At the end, turns of which one is the reader's tell so. -/
theorem Standing.countP_isEnded_pos (h : Standing none total heard c) (hrank : c.rank = 0) {ts : List Turn}
    (hreader : .reader ∈ ts) : 0 < (ts.filterMap fun t => (c.turn t).1).countP News.isEnded := by
  have hmem : News.ended ∈ ts.filterMap fun t => (c.turn t).1 :=
    List.mem_filterMap.2 ⟨.reader, hreader, congrArg Prod.fst (h.hear_at_end hrank)⟩
  exact List.countP_pos_iff.2 ⟨_, hmem, rfl⟩

/-- Both take a turn, and the reader does not let go. -/
def IsRound (ts : List Turn) : Prop := .worker ∈ ts ∧ .reader ∈ ts ∧ .release ∉ ts

/-- **Rounds get to the end**, and each round after that tells so. -/
theorem Standing.rounds (h : Standing refusal? total heard c) (htotal : EndsAtFailure total) {capacity : Nat}
    {hint : Option UInt64} (hagreed : c.Agreed capacity hint) (hcapacity : 0 < capacity) {rounds : List (List Turn)}
    (hrounds : ∀ ts ∈ rounds, IsRound ts) {k : Nat} (hk : c.rank + k ≤ rounds.length) :
    (c.play rounds.flatten).2.rank = 0 ∧
      (refusal? = none → k ≤ (c.play rounds.flatten).1.countP News.isEnded) := by
  induction rounds generalizing heard c k with
  | nil =>
    obtain ⟨hrank, rfl⟩ := Nat.add_eq_zero_iff.1 (Nat.le_zero.1 hk)
    exact ⟨hrank, fun _ => Nat.zero_le _⟩
  | cons ts rounds ih =>
    obtain ⟨hworker, hreader, hrelease⟩ := hrounds ts List.mem_cons_self
    have hrest := fun ts' hts' => hrounds ts' (List.mem_cons_of_mem ts hts')
    rw [List.length_cons] at hk
    rw [List.flatten_cons, play_append]
    simp only [List.countP_append]
    rcases play_gets_on (c := c) hrelease with hstill | hless
    · -- Nothing changed in this round, so this is the end.
      have hrank : c.rank = 0 := h.rank_eq_zero (hagreed.size ▸ hcapacity) (hstill _ hworker) (hstill _ hreader)
      have hplay := play_of_still hstill
      obtain ⟨hrank', hcount⟩ := ih h hagreed hrest (k := k - 1) (by omega)
      rw [hplay]
      refine ⟨hrank', fun hrefusal => ?_⟩
      have hrounds := hcount hrefusal
      subst hrefusal
      have hpos := h.countP_isEnded_pos hrank hreader
      change k ≤ (ts.filterMap fun t => (c.turn t).1).countP News.isEnded +
        (c.play rounds.flatten).1.countP News.isEnded
      omega
    · obtain ⟨hrank', hcount⟩ := ih (h.play htotal hrelease) (hagreed.play ts) hrest (k := k) (by omega)
      exact ⟨hrank', fun hrefusal => Nat.le_trans (hcount hrefusal) (Nat.le_add_left ..)⟩

/-! ## Reading to the end -/

/-- A fetch is two turns of the worker and one of the reader. -/
theorem fetch_ok (steps : List Step) (hint : Option UInt64) :
    fetch (.ok steps) hint = .ok ((spawn (.ok steps) hint).play [.worker, .worker, .reader]).2 := rfl

/-- **Fetching and draining** gives what is due, though the worker runs only
while the reader waits. -/
theorem drain_fetch (rows : List Row) (failure? : Option Fault) (hint : Option UInt64) :
    ∃ c, fetch (.ok (stepsOf rows failure?)) hint = .ok c ∧
      (∀ n, c.drain n = (due (stepsOf rows failure?) hint).take n) ∧
      c.drainAll = due (stepsOf rows failure?) hint := by
  have htotal := endsAtFailure_stepsOf rows failure?
  obtain ⟨hcapacity, -⟩ := capacity_spawn (.ok (stepsOf rows failure?)) hint
  have hstanding : Standing none (stepsOf rows failure?) [.ready] _ :=
    (standing_spawn (.ok (stepsOf rows failure?)) hint).play htotal
      (show Turn.release ∉ [.worker, .worker, .reader] by decide)
  have hagreed := (agreed_spawn (.ok (stepsOf rows failure?)) hint).play [.worker, .worker, .reader]
  have hdrain : ∀ n, Channel.drain n _ = (due (stepsOf rows failure?) hint).take n := fun n => by
    have h := hstanding.drain htotal hagreed hcapacity rfl n
    change _ = (due (stepsOf rows failure?) hint).take (0 + n) at h
    rwa [Nat.zero_add] at h
  refine ⟨_, fetch_ok .., hdrain, ?_⟩
  -- No step was taken yet, so what is left is as long as all of them.
  rw [drainAll, hdrain]
  refine List.take_of_length_le ?_
  have hlength := (due_prefix_total (stepsOf rows failure?) hint).length_le
  change (due (stepsOf rows failure?) hint).length ≤ 0 + (stepsOf rows failure?).length + 1
  omega

/-! ## Any order of turns -/

/-- What holds until the reader lets go, and stays so after that, always holds. -/
theorem played_of_listening {P : List News → Channel → Prop}
    (hlistening : ∀ ts, .release ∉ ts → P (c.play ts).1 (c.play ts).2)
    (hgone : ∀ heard c' later, P heard c' → P heard (c'.release.play later).2) (ts : List Turn) :
    P (c.play ts).1 (c.play ts).2 := by
  by_cases h : .release ∈ ts
  · obtain ⟨before, after, rfl, hbefore⟩ := List.eq_append_cons_of_mem h
    have hsilent : ((c.play before).2.release.play after).1 = [] :=
      ((Silent.release_from (c.play before).2).play after).1
    simpa [play, turn, hsilent] using hgone _ _ after (hlistening before hbefore)
  · exact hlistening ts h

/-- What the reader hears is the first of what it should, and the worker keeps
within what was asked for and near to what was heard. -/
theorem Standing.played (h : Standing none total [] c) (htotal : EndsAtFailure total) {capacity : Nat}
    {hint : Option UInt64} (hagreed : c.Agreed capacity hint) (ts : List Turn) :
    (∃ ends, (c.play ts).1 <+: .ready :: ((due total hint).map .step ++ .replicate ends .ended)) ∧
      (∀ n, hint = some n → Within total n.toNat (c.play ts).2) ∧
      Within total ((News.steps (c.play ts).1).length + (capacity + 1)) (c.play ts).2 := by
  refine played_of_listening (P := fun heard c' =>
    (∃ ends, heard <+: .ready :: ((due total hint).map .step ++ .replicate ends .ended)) ∧
      (∀ n, hint = some n → Within total n.toNat c') ∧
      Within total ((News.steps heard).length + (capacity + 1)) c') (fun ts hts => ?_) ?_ ts
  · have hstanding := h.play htotal hts
    obtain ⟨-, hhint, hroom⟩ := hagreed.play ts
    obtain ⟨taken, htaken, hwithin, hahead⟩ := hstanding.taken
    rw [List.nil_append] at hstanding hahead
    rw [hhint] at hwithin
    exact ⟨hhint ▸ hstanding.heard_prefix_due, fun n hn => ⟨taken, htaken, hwithin n hn⟩, taken, htaken, by omega⟩
  · rintro heard c' later ⟨hheard, hwithin, hahead⟩
    exact ⟨hheard, fun n hn => ((Silent.release (hwithin n hn)).play later).2.within,
      ((Silent.release hahead).play later).2.within⟩

/-- A refusal is all that is ever heard. -/
theorem Standing.played_refused {f : Fault} (h : Standing (some f) total [] c) (htotal : EndsAtFailure total)
    (ts : List Turn) : (c.play ts).1 <+: [.refused f] ∧ (c.play ts).2.queue = [] := by
  refine played_of_listening (P := fun heard c' => heard <+: [.refused f] ∧ c'.queue = []) (fun ts hts => ?_)
    (fun heard c' later hheard => ⟨hheard.1, ((Silent.release_from c').play later).2.empty⟩) ts
  cases h.play htotal hts with
  | waiting _ hheard hflow =>
    refine ⟨hheard ▸ List.nil_prefix, ?_⟩
    cases hflow.stage with
    | unbegun _ _ h => exact h.2.1
    | refused _ _ h => exact h.2.1
    | running _ hrefusal | finished _ hrefusal => cases hrefusal
  | reading _ _ _ hready _ hflow => cases hflow.of_ok hready
  | refused _ hrefusal hheard _ hq =>
    cases hrefusal
    exact ⟨hheard ▸ List.prefix_rfl, hq⟩

theorem release_not_mem {rounds : List (List Turn)} (h : ∀ ts ∈ rounds, IsRound ts) : .release ∉ rounds.flatten :=
  fun hmem => by
  obtain ⟨ts, hts, hin⟩ := List.mem_flatten.1 hmem
  exact (h ts hts).2.2 hin

/-- **A faithful bounded channel.** Of a statement that is prepared and gives
these rows, and then maybe a failure, the reader hears, whoever takes a turn
when:

* nothing but that it is ready, then the first rows in order, no more of them
  than asked for, then the failure if it comes before as many rows, and then
  the end; and once it lets go, nothing;
* all of this, if the worker and the reader go on taking turns and it does not
  let go, and then the end again and again.

The worker takes no more steps than rows are asked for, is never further ahead
of what was heard than the queue is long and one, and takes one step at most
after the reader lets go. A statement that cannot be prepared is refused by its
fetch, and nothing else is ever heard of it. -/
theorem streaming (rows : List Row) (failure? : Option Fault) (hint : Option UInt64) :
    let total := stepsOf rows failure?
    let due := match hint with
      | none => total
      | some h => stepsOf (rows.take h.toNat) (if rows.length < h.toNat then failure? else none)
    let start := spawn (.ok total) hint
    start.capacity ≤ 64 ∧
    (∀ turns, let played := start.play turns
      (∃ ends, played.1 <+: .ready :: (due.map .step ++ .replicate ends .ended)) ∧
      (∃ taken, taken ++ played.2.steps = total ∧ (∀ h, hint = some h → taken.length ≤ h.toNat) ∧
        taken.length ≤ (News.steps played.1).length + (start.capacity + 1)) ∧
      ∀ later, let released := played.2.play (.release :: later)
        released.1 = [] ∧ ∃ taken, taken ++ released.2.steps = played.2.steps ∧ taken.length ≤ 1) ∧
    (∀ (rounds : List (List Turn)) (k : Nat), (∀ turns ∈ rounds, IsRound turns) →
      3 * total.length + 5 + k ≤ rounds.length →
      ∃ ends, k ≤ ends ∧ (start.play rounds.flatten).1 = .ready :: (due.map .step ++ .replicate ends .ended)) ∧
    ∀ f : Failure, let refused := spawn (.error f) hint
      (∀ turns, (refused.play turns).1 <+: [.refused f.toFault] ∧ (refused.play turns).2.queue = []) ∧
      ∀ rounds : List (List Turn), (∀ turns ∈ rounds, IsRound turns) → 5 ≤ rounds.length →
        (refused.play rounds.flatten).1 = [.refused f.toFault] := by
  intro total due start
  have htotal : EndsAtFailure total := endsAtFailure_stepsOf rows failure?
  have hdue : Sqlite.due total hint = due := by
    cases hint with
    | none => rfl
    | some h => exact due_stepsOf rows failure? h
  have hstanding : Standing none total [] start := standing_spawn (.ok total) hint
  have hagreed : start.Agreed start.capacity hint := agreed_spawn (.ok total) hint
  obtain ⟨hcapacity, hmost⟩ := capacity_spawn (.ok total) hint
  refine ⟨hmost, fun turns => ?_, fun rounds k hrounds hk => ?_, fun f => ?_⟩
  · obtain ⟨hheard, hwithin, taken, htaken, hahead⟩ := hstanding.played htotal hagreed turns
    rw [hdue] at hheard
    refine ⟨hheard, ⟨taken, htaken, fun h hh => ?_, Nat.le_of_add_right_le hahead⟩, fun later => ?_⟩
    · -- The steps taken are the same in both bounds, as those left are.
      obtain ⟨taken', htaken', hle⟩ := hwithin h hh
      cases List.append_cancel_right (htaken.trans htaken'.symm)
      exact Nat.le_of_add_right_le hle
    · obtain ⟨hnil, -, -, taken, htaken, hle⟩ := (Silent.release_from (start.play turns).2).play later
      exact ⟨hnil, taken, htaken, Nat.le_of_add_right_le hle⟩
  · obtain ⟨hrank, hcount⟩ := hstanding.rounds htotal hagreed hcapacity hrounds hk
    have hend := (hstanding.play htotal (release_not_mem hrounds)).heard_at_end hrank
    rw [List.nil_append, (hagreed.play _).asked, hdue] at hend
    exact ⟨_, hcount rfl, hend⟩
  · have hnone : EndsAtFailure [] := fun before _ _ h => by cases before <;> cases h
    have hrefused : Standing (some f.toFault) [] [] (spawn (.error f) hint) := standing_spawn (.error f) hint
    obtain ⟨hcapacity, -⟩ := capacity_spawn (.error f) hint
    refine ⟨hrefused.played_refused hnone, fun rounds hrounds hk => ?_⟩
    obtain ⟨hrank, -⟩ := hrefused.rounds hnone (agreed_spawn (.error f) hint) hcapacity hrounds (k := 0) hk
    exact (hrefused.play hnone (release_not_mem hrounds)).refused_at_end hrank

/-- The failure after the one row that is asked for is not looked for. -/
example (row : Row) (f : Fault) :
    ((spawn (.ok (stepsOf [row] (some f))) (some 1)).play (List.replicate 6 [.worker, .reader]).flatten).1 =
      [.ready, .step (.ok row), .ended, .ended] := rfl

end Channel

end TableQuery.Sqlite

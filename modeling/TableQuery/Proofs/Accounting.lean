/-
Accounting for sources: whatever is done in a workspace, in whatever order
and whatever storage answers, no source is pulled after its release or
released twice, and once everything is dropped each has been released
(`accounting`).

The step lemmas are those of cursors, walks and calls. A workspace holds what
its iterators hold, each at its place, and a request changes one of them at
most.
-/
import TableQuery.Proofs.Query.Accounts
import TableQuery.Proofs.Storage.Fixed
import TableQuery.Proofs.Walk.Accounts
import TableQuery.Workspace

namespace TableQuery

open Ledger

variable {σ α : Type}

namespace Handle

/-- The number of the source that an iterator holds. -/
def held : Handle α → List Nat
  | rows _ c | stream _ c _ => c.held
  | walk _ w => w.held

theorem takes_drop (h : Handle α) : Takes h.held h.drop [] := by
  cases h with
  | rows hydrate c | stream hydrate c waiting => exact c.takes_drop
  | walk hydrate w => exact w.takes_drop

theorem takes_close (h : Handle α) : Takes h.held h.close.2 h.close.1.held := by
  cases h with
  | rows hydrate c => exact c.takes_close
  | stream hydrate c waiting => exact .refl c.held
  | walk hydrate w => exact w.takes_drop

theorem held_intoStream (h : Handle α) : h.intoStream.held = h.held := by cases h <;> rfl

theorem keeps_next (db : Database σ) (h : Handle α) (c : Connection σ) :
    Keeps c (h.next db c).2.2 h.held (h.next db c).2.1.held := by
  cases h with
  | rows hydrate cursor => exact (cursor.takes_next hydrate).keeps c
  | stream hydrate cursor waiting =>
    simp only [next]
    split
    · exact fun _ h => h
    · split
      · exact fun _ h => h
      · exact (cursor.takes_next hydrate).keeps c
  | walk hydrate w => exact w.keeps_next db hydrate c

theorem keeps_collect (db : Database σ) (fuel : Nat) (h : Handle α) (c : Connection σ) :
    Keeps c (h.collect db fuel c).2.2 h.held (h.collect db fuel c).2.1.held := by
  cases h with
  | rows hydrate cursor => exact (cursor.takes_collect hydrate).keeps c
  | stream hydrate cursor waiting =>
    simp only [collect]
    split
    · exact fun _ h => h
    · exact (cursor.takes_stream hydrate).keeps c
  | walk hydrate w => exact w.keeps_collect db hydrate fuel c

/-! ## Handles at their places -/

/-- What several iterators hold. -/
def allHeld (hs : List (Handle α)) : List Nat := hs.flatMap held

@[simp]
theorem allHeld_nil : allHeld ([] : List (Handle α)) = [] := rfl

@[simp]
theorem allHeld_cons (h : Handle α) (hs : List (Handle α)) : allHeld (h :: hs) = h.held ++ allHeld hs := rfl

@[simp]
theorem allHeld_append (hs hs' : List (Handle α)) : allHeld (hs ++ hs') = allHeld hs ++ allHeld hs' :=
  List.flatMap_append

/-- The iterator at a place, and the others. -/
theorem allHeld_perm {hs : List (Handle α)} {place : Nat} {h : Handle α} (hp : hs[place]? = some h) :
    (allHeld hs).Perm (h.held ++ allHeld (hs.eraseIdx place)) ∧
      ∀ h', (allHeld (hs.set place h')).Perm (h'.held ++ allHeld (hs.eraseIdx place)) := by
  obtain ⟨hlt, hget⟩ := List.getElem?_eq_some_iff.1 hp
  have hsplit : ∀ h' : Handle α, allHeld (hs.take place ++ h' :: hs.drop (place + 1)) =
      allHeld (hs.take place) ++ (h'.held ++ allHeld (hs.drop (place + 1))) := fun h' => by
    simp
  have hrest : allHeld (hs.eraseIdx place) = allHeld (hs.take place) ++ allHeld (hs.drop (place + 1)) := by
    simp [List.eraseIdx_eq_take_drop_succ]
  have hwhole : hs = hs.take place ++ h :: hs.drop (place + 1) := by
    rw [← hget, ← List.drop_eq_getElem_cons hlt, List.take_append_drop]
  have hset : ∀ h', hs.set place h' = hs.take place ++ h' :: hs.drop (place + 1) := fun h' => by
    rw [List.set_eq_take_append_cons_drop, if_pos hlt]
  refine ⟨?_, fun h' => ?_⟩
  · have hall := congrArg allHeld hwhole
    rw [hsplit] at hall
    rw [hall, hrest]
    exact List.perm_append_comm_assoc ..
  · rw [hset, hsplit, hrest]
    exact List.perm_append_comm_assoc ..

/-- Dropping one after the other lets go of everything. -/
theorem takes_dropAll (hs : List (Handle α)) : Takes (allHeld hs) (hs.flatMap drop) [] := by
  induction hs with
  | nil => exact .refl []
  | cons h hs ih => exact h.takes_drop.append ih

end Handle

namespace Workspace

/-- Every source is accounted for by the iterators that are open. -/
def Accounted (w : Workspace σ α) : Prop := Ledger.Accounted w.connection.events (Handle.allHeld w.handles)

/-- A call that leaves nothing open changes no iterator. -/
theorem Accounted.run {β : Type} {w : Workspace σ α} (h : w.Accounted) (ok : β → Reply α) {t : Task σ β}
    (ht : t.Leaves [] fun _ => []) : (w.run ok t).2.Accounted ∧ (w.run ok t).2.handles = w.handles := by
  have hrun := ht w.connection _ h
  refine ⟨?_, rfl⟩
  unfold Workspace.run Accounted
  generalize t w.connection = result at hrun
  obtain ⟨o, c⟩ := result
  cases o <;> exact hrun

theorem Accounted.openWith {w : Workspace σ α} (h : w.Accounted) (hydrate : Hydrator α) {t : Task σ Cursor}
    (ht : t.Leaves [] Cursor.held) : (w.openWith hydrate t).2.Accounted := by
  have hopen := ht w.connection _ h
  unfold Workspace.openWith Accounted
  generalize t w.connection = result at hopen
  obtain ⟨o, c⟩ := result
  cases o with
  | failed f | stalled => exact hopen
  | ok cursor =>
    have hone : Handle.allHeld (w.handles ++ [.rows hydrate cursor]) = Handle.allHeld w.handles ++ cursor.held := by
      simp [Handle.held]
    dsimp only
    rw [hone]
    exact hopen.perm List.perm_append_comm

theorem Accounted.change {w : Workspace σ α} (h : w.Accounted) (place : Nat)
    {f : Handle α → Connection σ → Reply α × Handle α × Connection σ}
    (hf : ∀ h c, Keeps c (f h c).2.2 h.held (f h c).2.1.held) : (w.change place f).2.Accounted := by
  unfold Workspace.change
  split
  · exact h
  · next handle hp =>
    obtain ⟨hbefore, hafter⟩ := Handle.allHeld_perm hp
    exact (hf handle w.connection _ (h.perm hbefore)).perm (hafter _).symm

theorem Accounted.drop {w : Workspace σ α} (h : w.Accounted) (place : Nat) : (w.drop place).2.Accounted := by
  unfold Workspace.drop
  split
  · exact h
  · next handle hp =>
    exact handle.takes_drop _ _ (h.perm (Handle.allHeld_perm hp).1)

/-- A one-shot call is one that leaves nothing open. -/
theorem perform_oneShot (w : Workspace σ α) {request : Request α} (hr : request.isOneShot) :
    ∃ (β : Type) (ok : β → Reply α) (t : Task σ β), w.perform request = w.run ok t ∧ t.Leaves [] fun _ => [] := by
  cases request with
  | one q hydrate => exact ⟨_, _, _, rfl, q.leaves_one w.database hydrate⟩
  | value q hydrate => exact ⟨_, _, _, rfl, q.leaves_value w.database hydrate⟩
  | first q hydrate => exact ⟨_, _, _, rfl, q.leaves_first w.database hydrate⟩
  | last q hydrate => exact ⟨_, _, _, rfl, q.leaves_last w.database hydrate⟩
  | withKey q hydrate key => exact ⟨_, _, _, rfl, q.leaves_withKey w.database hydrate key⟩
  | firstKey q hydrate => exact ⟨_, _, _, rfl, q.leaves_firstKey w.database hydrate⟩
  | count q => exact ⟨_, _, _, rfl, q.leaves_count w.database⟩
  | has q => exact ⟨_, _, _, rfl, q.leaves_has w.database⟩
  | insert q => exact ⟨_, _, _, rfl, q.leaves_insert w.database⟩
  | update q => exact ⟨_, _, _, rfl, q.leaves_update w.database⟩
  | delete q => exact ⟨_, _, _, rfl, q.leaves_delete w.database⟩
  | _ => cases hr

/-- **Every request keeps account.** -/
theorem Accounted.perform {w : Workspace σ α} (h : w.Accounted) (request : Request α) :
    (w.perform request).2.Accounted := by
  cases hr : request.isOneShot with
  | true =>
    obtain ⟨β, ok, t, hrun, ht⟩ := w.perform_oneShot hr
    rw [hrun]
    exact (h.run ok ht).1
  | false =>
    cases request with
    | rows q hydrate => exact h.openWith hydrate (q.leaves_rows w.database)
    | withKeys q hydrate keys => exact h.openWith hydrate (q.leaves_withKeys w.database keys)
    | values q hydrate => exact h.openWith hydrate (q.leaves_values w.database)
    | keys q hydrate => exact h.openWith hydrate (q.leaves_keys w.database)
    | all q hydrate =>
      unfold Workspace.perform Accounted
      exact h.perm (by simp [Handle.held, Walk.ofQuery, Walk.held])
    | next place => exact h.change place (Handle.keeps_next w.database)
    | collect place fuel => exact h.change place (Handle.keeps_collect w.database fuel)
    | stream place =>
      exact h.change place fun handle c others ha => (handle.held_intoStream ▸ ha : Ledger.Accounted _ _)
    | close place => exact h.change place fun handle c => handle.takes_close.keeps c
    | drop place => exact h.drop place
    | _ => cases hr

theorem accounted_start (db : Database σ) (state : σ) : (start db state : Workspace σ α).Accounted :=
  Ledger.Accounted.nil

theorem accounted_performAll (w : Workspace σ α) (h : w.Accounted) (requests : List (Request α)) :
    (w.performAll requests).Accounted := by
  induction requests generalizing w with
  | nil => exact h
  | cons request rest ih => exact ih _ (h.perform request)

/-- **Accounting.** After any requests, each source is unheard of, or open,
or settled: opened once, released once, and pulled only in between. Dropping
what is open then settles every source that was opened, and a one-shot call
made then leaves the iterators as they are and settles what it opened. -/
theorem accounting (db : Database σ) (state : σ) (requests : List (Request α)) :
    let w := (start db state : Workspace σ α).performAll requests
    (∀ id, about w.connection.events id = [] ∨ Open w.connection.events id ∨ Settled w.connection.events id) ∧
    (∀ id, .opened id ∈ w.dropAll.connection.events → Settled w.dropAll.connection.events id) ∧
    ∀ request : Request α, request.isOneShot →
      let w' := (w.perform request).2
      w'.handles = w.handles ∧
      ∀ id, .opened id ∈ w'.connection.events → .opened id ∉ w.connection.events →
        Settled w'.connection.events id := by
  intro w
  have h : w.Accounted := accounted_performAll _ (accounted_start db state) requests
  refine ⟨fun id => ?_, fun id ho => ?_, fun request hr => ?_⟩
  · cases h id with
    | unopened _ _ habout => exact .inl habout
    | held _ _ hopen => exact .inr (.inl hopen)
    | settled _ _ hsettled => exact .inr (.inr hsettled)
  · have hdropped := Handle.takes_dropAll w.handles w.connection.events [] (by rwa [List.append_nil])
    exact hdropped.settled List.not_mem_nil ho
  · obtain ⟨β, ok, t, hrun, ht⟩ := w.perform_oneShot hr
    obtain ⟨hafter, hsame⟩ := h.run ok ht
    intro w'
    have hw : w' = (w.run ok t).2 := congrArg Prod.snd hrun
    refine ⟨hw ▸ hsame, fun id ho hnew => ?_⟩
    rw [hw] at ho ⊢
    -- What was held before the call was opened before it.
    have hfree : id ∉ Handle.allHeld (w.run ok t).2.handles := fun hheld => by
      rw [hsame] at hheld
      obtain ⟨-, -, n, habout⟩ := Ledger.Accounted.open_of_mem h hheld
      have hmem : .opened id ∈ about w.connection.events id := habout ▸ List.mem_cons_self
      exact hnew (List.mem_filter.1 hmem).1
    exact hafter.settled hfree ho

/-- A count whose pull stalls has let its source go, while a cursor that was
opened before goes on; dropping that one settles the rest. -/
theorem accounting_stalled_count :
    let db : Database Script := ⟨Script.storage .sqlite, .default⟩
    let q := db.query sampleSchema
    let script : Script := ⟨[.ok ⟨["n"], [.ok [.ofInt 1], .ok [.ofInt 2]]⟩, .ok ⟨["n"], [.stalled]⟩], []⟩
    let w := (start db script).performAll [.rows q Hydrator.values, .next 0]
    let w' := (w.perform (.count q)).2
    (Request.count q : Request (List Value)).isOneShot ∧ .opened 1 ∈ w'.connection.events ∧
      .opened 1 ∉ w.connection.events ∧ Settled w'.connection.events 1 ∧
      .opened 0 ∈ w.dropAll.connection.events ∧ Settled w.dropAll.connection.events 0 := by
  intro db q script w w'
  obtain ⟨-, hdropped, hcall⟩ := accounting db script [.rows q Hydrator.values, .next 0]
  have hopened : .opened 1 ∈ w'.connection.events := by decide +kernel
  have hnew : .opened 1 ∉ w.connection.events := by decide +kernel
  have hfirst : .opened 0 ∈ w.dropAll.connection.events := by decide +kernel
  exact ⟨rfl, hopened, hnew, (hcall (.count q) rfl).2 1 hopened hnew, hfirst, hdropped 0 hfirst⟩

end Workspace

/-! ## Sessions -/

namespace Held

/-- The number of the source that is held. -/
def held : Held α → List Nat
  | rows _ c => c.held
  | walk _ w => w.held

theorem takes_drop (h : Held α) : Takes h.held h.drop [] := by
  cases h with
  | rows hydrate c => exact c.takes_drop
  | walk hydrate w => exact w.takes_drop

end Held

namespace Session

/-- What a session holds, if it holds anything. -/
def sources (s : Session α) : List Nat := (s.held.map Held.held).getD []

def Accounted (s : Session α) : Prop := Ledger.Accounted s.connection.events s.sources

variable {s : Session α}

/-- What was held is let go once something new is held. -/
theorem Accounted.hold (h : Held α) (hs : Ledger.Accounted s.connection.events (h.held ++ s.sources)) :
    (s.hold h).Accounted := by
  have hswap := hs.perm List.perm_append_comm
  unfold Session.hold Session.Accounted
  cases hh : s.held with
  | none =>
    simp only [sources, hh] at hs
    have hkept := (Takes.refl (h.held ++ [])).keeps s.connection [] (by rwa [List.append_nil])
    simp only [List.append_nil] at hkept
    exact hkept
  | some old =>
    simp only [sources, hh] at hswap
    exact (old.takes_drop.keeps s.connection h.held hswap).perm (by simp [sources])

theorem Accounted.run {β : Type} (h : s.Accounted) (ok : β → Reply α) {t : Task Script β}
    (ht : t.Leaves [] fun _ => []) : (s.run ok t).2.Accounted := by
  have hrun := ht s.connection _ h
  unfold Session.run Session.Accounted
  generalize t s.connection = result at hrun
  obtain ⟨o, c⟩ := result
  cases o <;> exact hrun

theorem Accounted.openWith (h : s.Accounted) (hydrate : Hydrator α) {t : Task Script Cursor}
    (ht : t.Leaves [] Cursor.held) : (s.openWith hydrate t).2.Accounted := by
  have hopen := ht s.connection _ h
  unfold Session.openWith
  generalize t s.connection = result at hopen
  obtain ⟨o, c⟩ := result
  cases o with
  | failed f | stalled => exact hopen
  | ok cursor => exact Accounted.hold (.rows hydrate cursor) hopen

theorem Accounted.letGo (h : s.Accounted) : s.letGo.Accounted := by
  unfold Session.letGo
  split
  · next old hh =>
    unfold Accounted sources at h
    rw [hh] at h
    exact old.takes_drop.keeps s.connection [] (by rwa [List.append_nil])
  · exact h

@[simp]
theorem sources_letGo (s : Session α) : s.letGo.sources = [] := by
  unfold Session.letGo
  split
  · rfl
  · next hh =>
    rw [sources, hh]
    rfl

/-- A change of what is held, in place. -/
theorem Accounted.changed {old new : Held α} (h : s.Accounted) (hh : s.held = some old) {c : Connection Script}
    (hc : Keeps s.connection c old.held new.held) :
    Session.Accounted { s with held := some new, connection := c } := by
  unfold Accounted sources at h
  rw [hh] at h
  have hafter := hc [] (by rwa [List.append_nil])
  rwa [List.append_nil] at hafter

theorem Accounted.next (h : s.Accounted) : s.next.2.Accounted := by
  unfold Session.next
  split
  · exact h
  · next hydrate c hh => exact h.changed hh ((c.takes_next hydrate).keeps s.connection)
  · next hydrate w hh => exact h.changed hh (w.keeps_next s.database hydrate s.connection)

theorem Accounted.collect (h : s.Accounted) : s.collect.2.Accounted := by
  unfold Session.collect
  split
  · exact h
  · next hydrate c hh => exact h.changed hh ((c.takes_collect hydrate).keeps s.connection)
  · next hydrate w hh => exact h.changed hh (w.keeps_collect s.database hydrate _ s.connection)

theorem Accounted.close (h : s.Accounted) : s.close.2.Accounted := by
  unfold Session.close
  split
  · exact h
  · next hydrate c hh => exact h.changed hh (c.takes_close.keeps s.connection)
  · next hydrate w hh => exact h.changed hh (w.takes_drop.keeps s.connection)

theorem Accounted.stream (h : s.Accounted) : s.stream.2.Accounted := by
  unfold Session.stream
  split
  · exact h
  · next hydrate c hh =>
    unfold Accounted sources at h
    rw [hh] at h
    have hover := (c.takes_stream hydrate).trans (c.stream hydrate).cursor.takes_drop
    exact hover.keeps s.connection [] (by rwa [List.append_nil])
  · exact h.letGo

/-- **Every call of a session keeps account.** -/
theorem Accounted.perform (h : s.Accounted) (call : Call α) : (s.perform call).2.Accounted := by
  cases call with
  | edit e =>
    simp only [Session.perform]
    split <;> exact h
  | rows hydrate => exact h.openWith hydrate (s.query.leaves_rows s.database)
  | all hydrate => exact Accounted.hold _ h
  | withKeys hydrate keys => exact h.openWith hydrate (s.query.leaves_withKeys s.database keys)
  | values hydrate => exact h.openWith hydrate (s.query.leaves_values s.database)
  | keys hydrate => exact h.openWith hydrate (s.query.leaves_keys s.database)
  | one hydrate => exact h.run .item (s.query.leaves_one s.database hydrate)
  | value hydrate => exact h.run .item (s.query.leaves_value s.database hydrate)
  | first hydrate => exact h.run .item (s.query.leaves_first s.database hydrate)
  | last hydrate => exact h.run .item (s.query.leaves_last s.database hydrate)
  | withKey hydrate key => exact h.run .item (s.query.leaves_withKey s.database hydrate key)
  | firstKey hydrate => exact h.run .item (s.query.leaves_firstKey s.database hydrate)
  | count => exact h.run .number (s.query.leaves_count s.database)
  | update => exact h.run .number (s.query.leaves_update s.database)
  | delete => exact h.run .number (s.query.leaves_delete s.database)
  | has => exact h.run .truth (s.query.leaves_has s.database)
  | insert => exact h.run .inserted (s.query.leaves_insert s.database)
  | next => exact h.next
  | collect => exact h.collect
  | stream => exact h.stream
  | close => exact h.close
  | drop => exact h.letGo
  | reset => exact h

theorem Accounted.performAll (h : s.Accounted) (calls : List (Call α)) : (s.performAll calls).2.Accounted := by
  induction calls generalizing s with
  | nil => exact h
  | cons call rest ih => exact ih (h.perform call)

/-- A session that lets go of what it holds has settled every source it opened. -/
theorem settled_performAll (db : Database Script) (schema : Schema) (script : Script) (calls : List (Call α))
    (id : Nat) :
    let s := ((start db schema script).performAll calls).2.letGo
    .opened id ∈ s.connection.events → Settled s.connection.events id := by
  intro s ho
  have hstart : (start db schema script : Session α).Accounted := Ledger.Accounted.nil
  have hs : s.Accounted := (hstart.performAll calls).letGo
  have hnone : s.sources = [] := sources_letGo _
  exact Ledger.Accounted.settled hs (hnone ▸ List.not_mem_nil) ho

end Session

end TableQuery

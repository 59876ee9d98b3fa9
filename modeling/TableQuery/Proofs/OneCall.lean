/-
Checks come before storage: a call that runs a query is refused and does
nothing at all, or it calls storage once (`Workspace.calls_once`).

Which calls are refused, and with what, is said of the query alone
(`Request.refusal?`). The others go to storage once, whatever it answers: a
failure that it reports, of the call itself or of the one row that is pulled,
is what the call comes to, and nothing is tried again.
-/
import TableQuery.Proofs.KeyHelpers
import TableQuery.Proofs.Storage.Serving
import TableQuery.Workspace

namespace TableQuery

variable {σ α β γ : Type}

/-! ## What storage reports -/

theorem Event.not_isPulled_of_isCall {e : Event} (h : e.isCall) : ¬ e.isPulled := by
  cases e with
  | fetched | executed => exact Bool.false_ne_true
  | _ => cases h

namespace Storage

/-- What a call comes to at storage, with the turns of the source that it opens, and the state after it. -/
def answer (s : Storage σ) (state : σ) : Event → Outcome (List (Outcome (List Value))) × σ
  | .fetched statement hint =>
    let (answer, state) := s.fetch statement hint state
    (answer.map Feed.pulls, state)
  | .executed statement =>
    let (answer, state) := s.execute statement state
    (answer.map fun _ => [], state)
  | _ => (.ok [], state)

/-- The call fails, or if a row is pulled, the first turn does. -/
def Reports (s : Storage σ) (state : σ) (pulls : Bool) (call : Event) (f : Fault) : Prop :=
  (s.answer state call).1 = .failed f ∨ pulls ∧ ∃ rest, (s.answer state call).1 = .ok (.failed f :: rest)

end Storage

/-- Between two states of a connection storage was called once, and nothing but
pulling a row and letting go of the source came after. A failure it reported
is what this came to. -/
structure CalledOnce (s : Storage σ) (pulls : Bool) (c c' : Connection σ) (failed : Fault → Prop)
    (call : Event) (after : List Event) : Prop where
  isCall : call.isCall
  state : c'.state = (s.answer c.state call).2
  events : c'.events = c.events ++ call :: after
  once : after.countP Event.isCall = 0
  pulled : after.countP Event.isPulled ≤ pulls.toNat
  reported : ∀ f, s.Reports c.state pulls call f → failed f

theorem CalledOnce.mono {s : Storage σ} {pulls : Bool} {c c' : Connection σ} {failed failed' : Fault → Prop}
    {call : Event} {after : List Event} (h : CalledOnce s pulls c c' failed call after)
    (hf : ∀ f, failed f → failed' f) : CalledOnce s pulls c c' failed' call after :=
  { h with reported := fun f hr => hf f (h.reported f hr) }

/-! ## Tasks -/

/-- The task calls storage once. -/
def Task.CallsOnce (t : Task σ β) (s : Storage σ) (pulls : Bool) : Prop :=
  ∀ c, ∃ call after, CalledOnce s pulls c (t c).2 (fun f => (t c).1 = .failed f) call after

namespace Task.CallsOnce

variable {s : Storage σ} {pulls : Bool} {t : Task σ β} {f : β → Task σ γ}

/-- What comes after the call may decide what the result is, without storage. -/
protected theorem bind (h : t.CallsOnce s pulls) (hf : ∀ b c, (f b c).2 = c) : (t >>= f).CallsOnce s pulls :=
  fun c => by
  obtain ⟨call, after, hcalled⟩ := h c
  refine ⟨call, after, ?_⟩
  simp only [bind, Task.bind]
  generalize t c = result at hcalled
  obtain ⟨o, c'⟩ := result
  cases o with
  | ok b =>
    have hsame : (f b c').2 = c' := hf b c'
    rw [hsame]
    exact hcalled.mono fun f he => by cases he
  | failed e =>
    refine hcalled.mono fun f he => ?_
    cases he
    rfl
  | stalled => exact hcalled.mono fun f he => by cases he

end Task.CallsOnce

namespace Storage

variable (s : Storage σ) (statement : Statement)

theorem callsOnce_openSource (hint : Option UInt64) : (s.openSource statement hint).CallsOnce s false := fun c => by
  rcases hf : s.fetch statement hint c.state with ⟨answer, state⟩
  have hanswer : s.answer c.state (.fetched statement hint) = (answer.map Feed.pulls, state) := by
    simp only [Storage.answer, hf]
  rw [openSource_eq s statement hint c hf]
  refine ⟨.fetched statement hint, _, rfl, by rw [hanswer], rfl, ?_, ?_, ?_⟩
  · cases answer <;> rfl
  · cases answer <;> exact Nat.le_refl 0
  · rintro f (hr | ⟨hpulls, -⟩)
    · rw [hanswer] at hr
      cases answer <;> cases hr
      rfl
    · cases hpulls

theorem callsOnce_run : (s.run statement).CallsOnce s true := fun c => by
  rcases he : s.execute statement c.state with ⟨answer, state⟩
  have hanswer : s.answer c.state (.executed statement) = (answer.map fun _ => [], state) := by
    simp only [Storage.answer, he]
  simp only [run, he]
  refine ⟨.executed statement, [], rfl, by rw [hanswer]; rfl, rfl, rfl, Nat.zero_le _, ?_⟩
  rintro f (hr | ⟨-, rest, hr⟩) <;> rw [hanswer] at hr <;> cases answer <;> cases hr
  rfl

end Storage

/-- The task is refused, and nothing is done, or it calls storage once. -/
def Task.Guarded (t : Task σ β) (s : Storage σ) (pulls : Bool) (refusal? : Option Fault) : Prop :=
  match refusal? with
  | some f => ∀ c, t c = (.failed f, c)
  | none => t.CallsOnce s pulls

/-- Nothing is checked. -/
theorem Task.CallsOnce.guarded {t : Task σ β} {s : Storage σ} {pulls : Bool} (h : t.CallsOnce s pulls) :
    t.Guarded s pulls none := h

namespace Task.Guarded

variable {s : Storage σ} {pulls : Bool} {check : Except Fault β} {body : β → Task σ γ}

/-- A check comes first. -/
theorem of_error {f : Fault} (h : check = .error f) :
    (Task.ofExcept check >>= body).Guarded s pulls (some f) := fun _ => by
  rw [h]
  rfl

theorem of_ok {b : β} (h : check = .ok b) (hbody : (body b).CallsOnce s pulls) :
    (Task.ofExcept check >>= body).Guarded s pulls none := by
  rw [h]
  exact hbody

end Task.Guarded

namespace Query

/-! ## What is refused -/

/-- Values are asked for, and nothing says which. -/
def unselected? (q : Query) : Option Fault :=
  if q.draft.raw.isNone && q.draft.projection.isEmpty then some .noSelection else none

/-- A key is needed, and none is declared. -/
def keyless? (q : Query) : Option Fault :=
  match q.schema.key? with
  | some _ => none
  | none => some (.noPrimaryKey q.schema.table)

/-- Rows are looked up by their keys, and there are no keys, declared or given. -/
def unkeyed? (q : Query) (keys : List Value) : Option Fault :=
  match q.schema.key?, keys with
  | some key, [] => some (.invalidOperandCount "in" (q.schema.aliasColumn key) "at least 1" 0)
  | some _, _ :: _ => none
  | none, _ => some (.noPrimaryKey q.schema.table)

/-- There is nothing to write. -/
def unassigned? (q : Query) (statement : String) : Option Fault :=
  if q.draft.assignments = [] then some (.noAssignments statement) else none

/-! ## What queries do -/

variable (db : Database σ) (q : Query) (hydrate : Hydrator α)

/-- Without a limit a pull reads once, and then or on dropping the cursor the source is released. -/
theorem events_pullOne (source : Source) :
    let p := (Cursor.ofSource source none).next hydrate
    p.events ++ p.cursor.drop = [.pulled source.id, .released source.id] := by
  intro p
  have hp : p = (Cursor.ofSource source none).pull hydrate source := Cursor.next_of_source rfl
  have hstep := Cursor.pull_step hydrate (Cursor.ofSource source none) source
  rw [← hp] at hstep
  generalize p = p at hstep
  cases hstep with
  | ended | stalled | failed | unreadable | row => rfl
  | lastThenEnd _ _ hl | lastThenRow _ _ hl | lastThenFailure _ _ hl | lastThenStall _ _ hl => cases hl

theorem callsOnce_firstRow (statement : Statement) : (firstRow db hydrate statement).CallsOnce db.storage true :=
  fun c => by
  rcases hf : db.storage.fetch statement (some 1) c.state with ⟨answer, state⟩
  have hanswer : db.storage.answer c.state (.fetched statement (some 1)) = (answer.map Feed.pulls, state) := by
    simp only [Storage.answer, hf]
  simp only [firstRow, bind, Task.bind, db.storage.openSource_eq statement (some 1) c hf]
  cases answer with
  | ok feed =>
    have hevents := events_pullOne hydrate ⟨c.opened, feed⟩
    simp only [Outcome.map, pullOne, hevents, Connection.record]
    refine ⟨.fetched statement (some 1), [.opened c.opened, .pulled c.opened, .released c.opened], rfl,
      by rw [hanswer], by simp, rfl, Nat.le_refl 1, ?_⟩
    rintro f (hr | ⟨-, rest, hr⟩) <;> rw [hanswer] at hr
    · cases hr
    · have hp : feed.pulls = .failed f :: rest := Outcome.ok.inj hr
      rw [Cursor.next_of_step rfl (.failed (s := ⟨c.opened, feed⟩) hp)]
  | failed e =>
    refine ⟨.fetched statement (some 1), [], rfl, by rw [hanswer]; rfl, rfl, rfl, Nat.zero_le _, ?_⟩
    rintro f (hr | ⟨-, rest, hr⟩) <;> rw [hanswer] at hr <;> cases hr
    rfl
  | stalled =>
    refine ⟨.fetched statement (some 1), [], rfl, by rw [hanswer]; rfl, rfl, rfl, Nat.zero_le _, ?_⟩
    rintro f (hr | ⟨-, rest, hr⟩) <;> rw [hanswer] at hr <;> cases hr

theorem callsOnce_rows : (q.rows db).CallsOnce db.storage false := by
  unfold rows
  split <;> exact (db.storage.callsOnce_openSource _ _).bind fun _ _ => rfl

theorem callsOnce_one : (q.one db hydrate).CallsOnce db.storage true := callsOnce_firstRow db hydrate _

theorem callsOnce_count : (q.count db).CallsOnce db.storage true :=
  (callsOnce_firstRow db _ _).bind fun
    | some _, _ => rfl
    | none, _ => rfl

theorem callsOnce_has : (q.has db).CallsOnce db.storage true := (q.callsOnce_one db _).bind fun _ _ => rfl

theorem callsOnce_delete : (q.delete db).CallsOnce db.storage true := db.storage.callsOnce_run _

section

variable {s : Storage σ} {pulls : Bool}

/-- Where the check fails without a key alone, a key is all that is needed. -/
theorem guarded_keyless {check : Except Fault Query} {body : Query → Task σ β}
    (hok : ∀ key, q.schema.key? = some key → ∃ q', check = .ok q')
    (herror : q.schema.key? = none → check = .error (.noPrimaryKey q.schema.table))
    (hbody : ∀ q', (body q').CallsOnce s pulls) : (Task.ofExcept check >>= body).Guarded s pulls q.keyless? := by
  unfold keyless?
  cases hkey : q.schema.key? with
  | none => exact .of_error (herror hkey)
  | some key =>
    obtain ⟨q', hq⟩ := hok key hkey
    exact .of_ok hq (hbody q')

/-- Selected values are read if something says which. -/
theorem guarded_unselected {body : Task σ β} (hbody : body.CallsOnce s pulls) :
    (Task.ofExcept q.requireSelection >>= fun _ => body).Guarded s pulls q.unselected? := by
  unfold unselected?
  split
  · next h => exact .of_error (if_pos h)
  · next h => exact .of_ok (if_neg h) hbody

end

theorem guarded_values : (q.values db).Guarded db.storage false q.unselected? :=
  q.guarded_unselected (q.callsOnce_rows db)

theorem guarded_value : (q.value db hydrate).Guarded db.storage true q.unselected? :=
  q.guarded_unselected (q.callsOnce_one db hydrate)

theorem guarded_keys : (q.keys db).Guarded db.storage false q.keyless? :=
  q.guarded_keyless (fun _ h => ⟨_, selectKey_eq_ok h⟩) selectKey_of_keyless fun q' => q'.callsOnce_rows db

theorem guarded_firstKey : (q.firstKey db hydrate).Guarded db.storage true q.keyless? :=
  q.guarded_keyless (fun _ h => ⟨_, selectKey_eq_ok h⟩) selectKey_of_keyless fun q' => q'.callsOnce_one db hydrate

theorem guarded_withKey (key : Value) : (q.withKey db hydrate key).Guarded db.storage true q.keyless? :=
  q.guarded_keyless (fun _ h => ⟨_, filterKey_eq_ok h rfl rfl⟩) (filterKey_of_keyless · _ _)
    fun q' => q'.callsOnce_one db hydrate

theorem guarded_first : (q.first db hydrate).Guarded db.storage true q.keyless? :=
  q.guarded_keyless (fun _ h => ⟨_, sortKey_eq_ok h _⟩) (sortKey_of_keyless · _)
    fun q' => q'.callsOnce_one db hydrate

theorem guarded_last : (q.last db hydrate).Guarded db.storage true q.keyless? :=
  q.guarded_keyless (fun _ h => ⟨_, sortKey_eq_ok h _⟩) (sortKey_of_keyless · _)
    fun q' => q'.callsOnce_one db hydrate

theorem guarded_withKeys (keys : List Value) : (q.withKeys db keys).Guarded db.storage false (q.unkeyed? keys) := by
  unfold unkeyed?
  cases hkey : q.schema.key? with
  | none => exact .of_error (filterKey_of_keyless hkey _ _)
  | some key =>
    cases keys with
    | nil => exact .of_error (filterKey_eq_error hkey rfl)
    | cons v vs => exact .of_ok (filterKey_eq_ok hkey rfl rfl) (callsOnce_rows db _)

theorem guarded_insert : (q.insert db).Guarded db.storage true (q.unassigned? "insert") := by
  unfold unassigned?
  split
  · next h => exact .of_error (if_pos h)
  · next h =>
    refine .of_ok (if_neg h) ?_
    -- The new key is fetched where one is declared; else the insertion is executed.
    cases q.schema.key? with
    | none => exact (db.storage.callsOnce_run _).bind fun _ _ => rfl
    | some key => exact callsOnce_firstRow db _ _

theorem guarded_update : (q.update db).Guarded db.storage true (q.unassigned? "update") := by
  unfold unassigned?
  split
  · next h => exact .of_error (if_pos h)
  · next h => exact .of_ok (if_neg h) (db.storage.callsOnce_run _)

end Query

/-! ## Calls on a workspace -/

/-- The call runs a query. -/
def Request.runsQuery : Request α → Bool
  | .next _ | .collect .. | .stream _ | .close _ | .drop _ => false
  | _ => true

/-- The call sets out on a walk, which fetches when it is pulled. -/
def Request.isWalk : Request α → Bool
  | .all .. => true
  | _ => false

/-- What a call is refused with, before storage is called. -/
def Request.refusal? : Request α → Option Fault
  | .values q _ | .value q _ => q.unselected?
  | .keys q _ | .firstKey q _ | .withKey q _ _ | .first q _ | .last q _ => q.keyless?
  | .withKeys q _ given => q.unkeyed? given
  | .insert q => q.unassigned? "insert"
  | .update q => q.unassigned? "update"
  | _ => none

namespace Workspace

/-- The call was refused, and nothing done, or it called storage once. -/
def Guarded (w : Workspace σ α) (pulls : Bool) (refusal? : Option Fault)
    (result : Reply α × Workspace σ α) : Prop :=
  match refusal? with
  | some f => result = (.failed f, w)
  | none => ∃ call after, CalledOnce w.database.storage pulls w.connection result.2.connection
      (fun f => result.1 = .failed f) call after

variable {w : Workspace σ α} {refusal? : Option Fault}

theorem guarded_run {t : Task σ β} (h : t.Guarded w.database.storage true refusal?) (ok : β → Reply α) :
    w.Guarded true refusal? (w.run ok t) := by
  cases refusal? with
  | some f =>
    have hrefused : t w.connection = (.failed f, w.connection) := h w.connection
    simp only [Guarded, run, hrefused]
    rfl
  | none =>
    obtain ⟨call, after, hcalled⟩ := h w.connection
    exact ⟨call, after, hcalled.mono fun f hf => congrArg (Session.reply ok) hf⟩

theorem guarded_openWith {t : Task σ Cursor} (h : t.Guarded w.database.storage false refusal?)
    (hydrate : Hydrator α) : w.Guarded false refusal? (w.openWith hydrate t) := by
  cases refusal? with
  | some f =>
    have hrefused : t w.connection = (.failed f, w.connection) := h w.connection
    simp only [Guarded, openWith, hrefused]
  | none =>
    obtain ⟨call, after, hcalled⟩ := h w.connection
    refine ⟨call, after, ?_⟩
    simp only [openWith]
    generalize t w.connection = result at hcalled
    obtain ⟨o, c'⟩ := result
    cases o with
    | failed e =>
      refine hcalled.mono fun f he => ?_
      cases he
      rfl
    | ok cursor | stalled => exact hcalled.mono nofun

/-- Every call that runs a query and does not set out on a walk. -/
theorem guarded_perform (w : Workspace σ α) {r : Request α} (hr : r.runsQuery) (hwalk : r.isWalk = false) :
    w.Guarded r.isOneShot r.refusal? (w.perform r) := by
  cases r with
  | rows q hydrate => exact guarded_openWith (q.callsOnce_rows _).guarded hydrate
  | withKeys q hydrate keys => exact guarded_openWith (q.guarded_withKeys _ keys) hydrate
  | values q hydrate => exact guarded_openWith (q.guarded_values _) hydrate
  | keys q hydrate => exact guarded_openWith (q.guarded_keys _) hydrate
  | one q hydrate => exact guarded_run (q.callsOnce_one _ hydrate).guarded _
  | value q hydrate => exact guarded_run (q.guarded_value _ hydrate) _
  | first q hydrate => exact guarded_run (q.guarded_first _ hydrate) _
  | last q hydrate => exact guarded_run (q.guarded_last _ hydrate) _
  | withKey q hydrate key => exact guarded_run (q.guarded_withKey _ hydrate key) _
  | firstKey q hydrate => exact guarded_run (q.guarded_firstKey _ hydrate) _
  | count q => exact guarded_run (q.callsOnce_count _).guarded _
  | has q => exact guarded_run (q.callsOnce_has _).guarded _
  | insert q => exact guarded_run (q.guarded_insert _) _
  | update q => exact guarded_run (q.guarded_update _) _
  | delete q => exact guarded_run (q.callsOnce_delete _).guarded _
  | all q hydrate => cases hwalk
  | next | collect | stream | close | drop => cases hr

/-- **Checks come first, and storage is called once.** A call that runs a query

* is refused with nothing done, or calls storage, once; setting out on a walk
  is never refused and calls nothing;
* leaves storage as that one call left it, and has pulled a row of the source
  it opened, one at most, only if it is over with its reply;
* comes to the very failure that storage reports of the call or of that row. -/
theorem calls_once (w : Workspace σ α) {r : Request α} (hr : r.runsQuery) :
    let s := w.database.storage
    let c := w.connection
    let result := w.perform r
    ∃ events, result.2.connection.events = c.events ++ events ∧
      events.countP Event.isCall ≤ 1 ∧
      (events.countP Event.isCall = 0 ↔ r.refusal?.isSome ∨ r.isWalk) ∧
      events.countP Event.isPulled ≤ r.isOneShot.toNat ∧
      (∀ f, r.refusal? = some f → result = (.failed f, w)) ∧
      ∀ call ∈ events, call.isCall → result.2.connection.state = (s.answer c.state call).2 ∧
        ∀ f, s.Reports c.state r.isOneShot call f → result.1 = .failed f := by
  intro s c result
  cases hwalk : r.isWalk with
  | true =>
    cases r with
    | all q hydrate =>
      exact ⟨[], (List.append_nil _).symm, Nat.zero_le 1, iff_of_true rfl (.inr rfl), Nat.le_refl 0, nofun,
        fun _ hmem => nomatch hmem⟩
    | _ => cases hwalk
  | false =>
    have hguarded : w.Guarded r.isOneShot r.refusal? result := w.guarded_perform hr hwalk
    cases hrefusal : r.refusal? with
    | some f =>
      rw [hrefusal] at hguarded
      have hresult : result = (.failed f, w) := hguarded
      rw [hresult]
      refine ⟨[], (List.append_nil _).symm, Nat.zero_le 1, iff_of_true rfl (.inl rfl), Nat.zero_le _, ?_,
        fun _ hmem => nomatch hmem⟩
      rintro _ ⟨⟩
      rfl
    | none =>
      rw [hrefusal] at hguarded
      obtain ⟨call, after, hcalled⟩ := hguarded
      have hcount : (call :: after).countP Event.isCall = 1 := by
        rw [List.countP_cons_of_pos hcalled.isCall, hcalled.once]
      have hpulled : (call :: after).countP Event.isPulled = after.countP Event.isPulled :=
        List.countP_cons_of_neg (Event.not_isPulled_of_isCall hcalled.isCall)
      refine ⟨call :: after, hcalled.events, Nat.le_of_eq hcount, ?_, hpulled ▸ hcalled.pulled, nofun, ?_⟩
      · rw [hcount]
        simp
      · intro called hmem hcall
        -- No call comes after the first.
        have hsame : called = call := (List.mem_cons.1 hmem).resolve_right fun hafter =>
          List.countP_eq_zero.1 hcalled.once called hafter hcall
        rw [hsame]
        exact ⟨hcalled.state, hcalled.reported⟩

/-- An insertion that storage refuses comes to the refusal; one without assignments is not tried. -/
theorem calls_once_insert :
    let q : Query := { Query.ofSchema (.declareKey (.ofTable "foo") "_id" .integer) .sqlite with
      draft.assignments := [("_id", .ofInt 7)] }
    let taken : Fault := .execution ⟨.constraint, some "1555", "UNIQUE constraint failed: foo._id"⟩
    let script : Script := ⟨[.failed taken, .ok ⟨[], []⟩], []⟩
    let w : Workspace Script Value := .start ⟨Script.storage .sqlite, .default⟩ script
    (Request.insert q : Request Value).runsQuery ∧
      (w.perform (.insert q)).1 = .failed taken ∧
      (w.perform (.insert q)).2.connection.state = ⟨[.ok ⟨[], []⟩], []⟩ ∧
      w.perform (.insert { q with draft.assignments := [] }) = (.failed (.noAssignments "insert"), w) := by
  intro q taken script w
  have hruns : (Request.insert q : Request Value).runsQuery := rfl
  obtain ⟨events, hevents, -, -, -, -, hcalled⟩ := w.calls_once hruns
  obtain ⟨-, -, -, -, -, hrefused, -⟩ := w.calls_once (r := .insert { q with draft.assignments := [] }) rfl
  have hmem : .fetched (q.insertFragment.statement .sqlite) (some 1) ∈ events := by
    have hall : (w.perform (.insert q)).2.connection.events = events := hevents
    rw [← hall]
    exact List.mem_cons_self
  obtain ⟨hstate, hreported⟩ := hcalled _ hmem rfl
  exact ⟨hruns, hreported taken (.inl rfl), hstate, hrefused _ rfl⟩

end Workspace

end TableQuery

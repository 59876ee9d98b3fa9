/-
Pulls that are given up and made again, of cursors and of walks
(`retried_pulls`).

A stalled pull has as a rule changed nothing, and making it again goes on
where it was. The one pull that cannot be made again is one that stalls while
it looks past the limit: its row is lost, and the row past the limit is
handed out in its place. A walk's chunks have limits too, so its rows are
complete exactly if none of its pulls was of this kind.
-/
import TableQuery.Proofs.Cursor.Cancellation
import TableQuery.Proofs.WholeTable

namespace TableQuery

variable {σ α : Type}

namespace Walk

/-- The same walk, so far along. -/
def Tracked (w₀ : Walk) (rows all : List Row) (s : Walk × Connection σ) (k lost : Nat) : Prop :=
  w₀.Alike s.1 ∧ s.1.Reached rows all k lost

theorem Reached.tracks {db : Database σ} {rows : List Row} {w₀ : Walk} (hw : w₀.chunkSize ≠ 0)
    (hR : rows.length < 0x8000000000000000)
    (hs : ∀ o, db.storage.Honours rows ((w₀.query.chunk w₀.chunkSize o).selectStatement .oneMore))
    (hydrate : Hydrator α) (all : List Row) : Tracks (puller db hydrate) hydrate all (Tracked w₀ rows all) := by
  rintro ⟨w, c⟩ k lost ⟨halike, h⟩
  have hsize : w.chunkSize ≠ 0 := halike.chunkSize ▸ hw
  have hnext := alike_next db hydrate hsize c
  exact (h.next hsize hR (by rwa [halike.query, halike.chunkSize]) hydrate c).mono fun k lost h' =>
    ⟨⟨hnext.query.trans halike.query, hnext.chunkSize.trans halike.chunkSize⟩, h'⟩

end Walk

/-- **Retried pulls.** A cursor hands out the first rows of its source, no more
of them than its limit, and counts what it hands out, after any number of
pulls, exactly if none of them read the last row within the limit and then
stalled. Over a backend that honours windows, a walk hands out no row twice
and keeps their order; what it hands out are the first rows if none of its
pulls stalled after it had read one, and when it comes to its end, they are
all the rows exactly in this case. -/
theorem retried_pulls (hydrate : Hydrator α) :
    (∀ (source : Source) (limit : Option UInt64) (n : Nat),
      let cursor := Cursor.ofSource source limit
      let given := (Cursor.puller hydrate).given n cursor
      ((source.rows.take given.length).map hydrate = given.map .ok ∧
        (∀ l, limit = some l → given.length ≤ l.toNat) ∧
        ((Cursor.puller hydrate).after n cursor).yielded = given.length) ↔
      ¬ source.Spoils hydrate limit 0 n) ∧
    ∀ (db : Database σ) (q : Query) (rows : List Row), rows.length < 0x8000000000000000 →
      (∀ o, db.storage.Honours rows ((q.chunk (Walk.ofQuery db q).chunkSize o).selectStatement .oneMore)) →
      ∀ (c : Connection σ) (n : Nat),
        let all := (Walk.ofQuery db q).ahead rows
        let puller := Walk.puller db hydrate
        let given := puller.given n (Walk.ofQuery db q, c)
        let losses := puller.losses n (Walk.ofQuery db q, c)
        (∃ kept : List Row, kept.Sublist all ∧ kept.map hydrate = given.map .ok) ∧
        (losses = 0 → (all.take given.length).map hydrate = given.map .ok) ∧
        ((puller.pull (puller.after n (Walk.ofQuery db q, c))).1 = .ok none →
          (all.map hydrate = given.map .ok ↔ losses = 0)) := by
  refine ⟨fun source limit n => Cursor.faithful_iff hydrate source limit n, ?_⟩
  intro db q rows hR hs c n all puller given losses
  have hw := Walk.chunkSize_ofQuery db q
  have htracks := Walk.Reached.tracks hw hR hs hydrate all
  obtain ⟨hend, hkept, hfirst⟩ := htracks.run n (s := (Walk.ofQuery db q, c))
    ⟨⟨rfl, rfl⟩, Walk.reached_ofQuery db q rows⟩
  refine ⟨hkept, hfirst, fun hnone => ?_⟩
  have hlen : 0 + given.length + losses ≤ all.length := hend.2.within
  constructor
  · intro hall
    have hsame := congrArg List.length hall
    simp only [List.length_map] at hsame
    omega
  · intro hlost
    -- The walk that came to its end has read everything, and lost nothing.
    have hmoves := htracks _ _ _ hend
    rw [hnone] at hmoves
    have hstage := Walk.finished_of_next db hydrate (hend.1.chunkSize ▸ hw) _ hnone
    have hread : 0 + given.length + losses = all.length :=
      Walk.Reached.finished hmoves.2 hstage ((Nat.zero_add _).trans hlost)
    have hall : given.length = all.length := by omega
    rw [← hfirst hlost, List.drop_zero, hall, List.take_length]

/-- With a limit of one, a stall after the first row loses it, and the row past
the limit is handed out; a walk in chunks of one comes to its end without a row. -/
theorem retried_pulls_stalled :
    let source : Source := ⟨0, ⟨["n"], [.ok [.ofInt 1], .stalled, .ok [.ofInt 2]]⟩⟩
    let db : Database Unit := ⟨.hesitant .sqlite ["n"] sampleValues, .default⟩
    let q := { db.query sampleSchema with draft.bounds.limit := some 1 }
    let walk := (Walk.ofQuery db q, Connection.fresh ())
    (Cursor.puller Hydrator.values).given 2 (.ofSource source (some 1)) = [[.ofInt 2]] ∧
      source.Spoils Hydrator.values (some 1) 0 2 ∧
      sampleRows.length < 0x8000000000000000 ∧
      (∀ o, db.storage.Honours sampleRows ((q.chunk (Walk.ofQuery db q).chunkSize o).selectStatement .oneMore)) ∧
      (Walk.puller db Hydrator.values).given 2 walk = [] ∧ (Walk.puller db Hydrator.values).losses 2 walk ≠ 0 := by
  intro source db q walk
  have hR : sampleRows.length < 0x8000000000000000 := by decide
  have hs : ∀ o, db.storage.Honours sampleRows
      ((q.chunk (Walk.ofQuery db q).chunkSize o).selectStatement .oneMore) := fun _ =>
    Storage.hesitant_honours _ _ _ _
  obtain ⟨hcursor, hwalk⟩ := retried_pulls (σ := Unit) Hydrator.values
  obtain ⟨-, -, hend⟩ := hwalk db q sampleRows hR hs (.fresh ()) 2
  have hnone :
      ((Walk.puller db Hydrator.values).pull ((Walk.puller db Hydrator.values).after 2 walk)).1 = .ok none := by
    decide +kernel
  have hgiven : (Walk.puller db Hydrator.values).given 2 walk = [] := by decide +kernel
  refine ⟨rfl, Classical.not_not.1 fun h => ?_, hR, hs, hgiven, fun hlost => ?_⟩
  · have hfirst : [Except.ok [Value.ofInt 1]] = [Except.ok [Value.ofInt 2]] := ((hcursor source (some 1) 2).2 h).1
    exact absurd (Except.ok.inj (List.cons.inj hfirst).1) (by decide)
  · have hall := (hend hnone).2 hlost
    rw [hgiven] at hall
    exact absurd (congrArg List.length hall) (by decide +kernel)

end TableQuery

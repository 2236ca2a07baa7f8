import Crest.JobControllerSafety

/-!
# The life cycle of a job

In a run whose events all meet their condition, a job moves on from init through running to
done and keeps the reason why it is done; a block and a job name each other; only a job that
is done and attached to nothing is deleted; and the job of a closed block is done or marked
once all calls have returned.

Without the condition this fails where a remote call takes long: a block that is closed while
its job starts has the job terminated, and then the start records that the job is running.
-/

namespace Runs

variable {σ : Type*} {ε : Type*} {step : σ → ε → σ} {ok : σ → ε → Prop}

theorem guarded_append {s : σ} {es more : List ε} :
    Guarded step ok s (es ++ more) ↔ Guarded step ok s es ∧ Guarded step ok (run step s es) more := by
  induction es generalizing s with
  | nil => simp [Guarded]
  | cons e es ih =>
    simp only [List.cons_append, Guarded, run_cons, ih]
    exact and_assoc.symm

end Runs

namespace JobController

instance (s : State) (event : Event) : Decidable (Ok s event) := by
  cases event with
  | startJob blockId => cases blockId <;> unfold Ok <;> infer_instance
  | advance call answer => unfold Ok; infer_instance
  | _ => unfold Ok; infer_instance

theorem invariant_empty : Invariant {} (State.Pending {}) := by
  have hpending : ∀ u, ¬ (State.Pending {}) u := by
    intro u hu
    obtain ⟨tasks, htasks, -⟩ := hu
    cases htasks
  have hjobs : ∀ (j : JobId) (job : Job), ({} : State).store.jobs.get j ≠ some job :=
    fun j job h => nomatch h
  have hblocks : ∀ (b : BlockId) (block : Block), ({} : State).store.blocks.get b ≠ some block :=
    fun b block h => nomatch h
  exact {
    known := fun u hu => absurd hu (hpending u)
    stored := fun j job h => absurd h (hjobs j job)
    storedBlock := fun b block h => absurd h (hblocks b block)
    attachedKnown := fun j job b h => absurd h (hjobs j job)
    reasoned := fun j job h => absurd h (hjobs j job)
    named := fun b block j h => absurd h (hblocks b block)
    attached := fun j job b block h => absurd h (hjobs j job)
    doomed := fun j hj => absurd hj (hpending _)
    flying := fun j flight h => nomatch h
    closed := fun j hj => nomatch hj
    pendingCloses := fun b hb => nomatch hb
    handledCloses := fun b hb => nomatch hb
    deletions := fun d hd => nomatch hd }

theorem run_keeps {s : State} (h : Invariant s s.Pending) (events : List Event)
    (hok : Runs.Guarded step Ok s events) :
    Invariant (Runs.run step s events) (Runs.run step s events).Pending ∧
      Later s (Runs.run step s events) := by
  induction events generalizing s with
  | nil => exact ⟨h, .refl s⟩
  | cons event events ih =>
    obtain ⟨hinvariant, hlater⟩ := step_keeps h hok.1
    obtain ⟨hrun, hmore⟩ := ih hinvariant hok.2
    exact ⟨hrun, hlater.trans hmore⟩

/-- A job is started on a block and attached to it; the block is closed while the remote side
starts the job, and the job is terminated. -/
def closedWhileStarting : List Event :=
  [.createBlock 0, .startJob (some 0), .advance 0 {}, .closeBlock 0, .handleBlockClose 0] ++
    List.replicate 6 (.advance 1 {})

/-- The remote side answers the start, which is recorded. -/
def startRecorded : List Event := [.advance 0 {}, .advance 0 {}]

/-- A job is started and runs, its block is closed and the job is terminated; another one is
reconnected, found gone and pruned. -/
def startedAndClosed : List Event :=
  [.createBlock 0, .startJob (some 0), .advance 0 {}, .advance 0 {}, .advance 0 {},
    .startJob none, .advance 1 {}, .advance 1 {}, .closeBlock 0, .handleBlockClose 0] ++
    List.replicate 6 (.advance 2 {}) ++
    [.reconnectJob 1, .advance 3 {}, .advance 3 {},
      .advance 3 { ok := false, gone := true }, .advance 3 {}, .advance 3 {},
      .pruneUnusedJobs [0, 1], .advance 4 {}]

end JobController

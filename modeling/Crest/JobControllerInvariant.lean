import Mathlib.Order.Nat
import Crest.JobController

/-!
# What the transactions of the job controller keep

The attachment is stored on both sides, the status is written after remote calls, and the
pruner deletes on the strength of a list.  The invariant says what every pending task may
rely on.  It is stated over the tasks that are pending, whatever calls they belong to, so
that one lemma about a task serves every interleaving.
-/

namespace JobController

/-- The order in which a status may change. -/
def JobManagerStatus.rank : JobManagerStatus → Nat
  | .init => 0
  | .running => 1
  | .done => 2

/-- The manager of the job is done, or will be terminated on the next reconnect. -/
def Job.Settled (job : Job) : Prop :=
  job.jobManagerStatus = .done ∨ job.terminateOnReconnect = true

/-- A job and what may have become of it: the status only moves on, and a reason stays. -/
structure Job.Before (earlier later : Job) : Prop where
  rank : earlier.jobManagerStatus.rank ≤ later.jobManagerStatus.rank
  reason : ∀ reason, earlier.jobManagerDoneReason = some reason →
    later.jobManagerDoneReason = some reason

/-- A change of a job that leaves its attachment alone. -/
structure Job.Advances (earlier later : Job) : Prop extends Job.Before earlier later where
  attached : later.attachedBlockId = earlier.attachedBlockId
  settled : earlier.Settled → later.Settled
  reasoned : (earlier.jobManagerDoneReason ≠ none → earlier.jobManagerStatus = .done) →
    later.jobManagerDoneReason ≠ none → later.jobManagerStatus = .done

theorem Job.Before.refl (job : Job) : job.Before job := ⟨le_rfl, fun _ h => h⟩

theorem Job.Before.trans {a b c : Job} (hab : a.Before b) (hbc : b.Before c) : a.Before c :=
  ⟨hab.rank.trans hbc.rank, fun r hr => hbc.reason r (hab.reason r hr)⟩

theorem Job.Before.done {a b : Job} (h : a.Before b) (hdone : a.jobManagerStatus = .done) :
    b.jobManagerStatus = .done := by
  have hrank := h.rank
  rw [hdone] at hrank
  cases hb : b.jobManagerStatus with
  | done => rfl
  | init | running => simp [hb, JobManagerStatus.rank] at hrank

/-- What a job may be when a call records that its manager is done. -/
def State.MayEnd (s : State) (jobId : JobId) (reason : JobDoneReason) : Prop :=
  (s.store.jobs.get jobId).all (fun job =>
    decide (job.jobManagerStatus = .done → job.jobManagerDoneReason = some reason)) = true

/-- The condition under which a task does what is expected of it. -/
def TaskOk (s : State) : Task → Prop
  | .startAttach j _ | .attach j _ => ∀ tasks ∈ s.calls, Task.pruneDelete j ∉ tasks
  | .detach j =>
    ((s.store.jobs.get j).bind Job.attachedBlockId).all (fun b =>
      (s.store.blocks.get b).all fun block => decide (block.jobId = some j)) = true
  | .recordRunning j =>
    (s.store.jobs.get j).all (fun job => decide (job.jobManagerStatus ≠ .done)) = true
  | .recordStartupError j => s.MayEnd j .startupError
  | .recordTerminated j => s.MayEnd j .terminated
  | .recordGone j => s.MayEnd j .gone
  | _ => True

instance (s : State) (task : Task) : Decidable (TaskOk s task) := by
  cases task <;> unfold TaskOk State.MayEnd <;> infer_instance

/-- The condition under which an event is harmless. -/
def Ok (s : State) : Event → Prop
  | .startJob (some b) => b ∉ s.handledCloses
  | .advance call _ => ∀ task ∈ (s.calls[call]?).bind List.head?, TaskOk s task
  | _ => True

/-- The invariant, for given pending tasks. -/
structure Invariant (s : State) (pending : Task → Prop) : Prop where
  /-- Whoever asks for a job knows its id. -/
  known : ∀ task, pending task → task.jobId < s.nextJob
  stored : ∀ j job, s.store.jobs.get j = some job → j < s.nextJob
  storedBlock : ∀ b block, s.store.blocks.get b = some block → b ∈ s.knownBlocks
  attachedKnown : ∀ j job b, s.store.jobs.get j = some job → job.attachedBlockId = some b →
    b ∈ s.knownBlocks
  reasoned : ∀ j job, s.store.jobs.get j = some job → job.jobManagerDoneReason ≠ none →
    job.jobManagerStatus = .done
  /-- A block names only a job that is attached to it. -/
  named : ∀ b block j, s.store.blocks.get b = some block → block.jobId = some j →
    j < s.nextJob ∧ ∀ job, s.store.jobs.get j = some job → job.attachedBlockId = some b
  /-- A job is attached to a block that names it, or is about to be attached. -/
  attached : ∀ j job b block, s.store.jobs.get j = some job → job.attachedBlockId = some b →
    s.store.blocks.get b = some block →
    block.jobId = some j ∨ pending (.startAttach j b)
  /-- What the pruner is about to delete is done and attached to nothing. -/
  doomed : ∀ j, pending (.pruneDelete j) → ∀ job, s.store.jobs.get j = some job →
    job.jobManagerStatus = .done ∧ job.attachedBlockId = none
  /-- Where a termination is under way, the job is marked or about to be marked. -/
  flying : ∀ j flight, s.terminateGroup j = some flight → j < s.nextJob ∧
    ((∀ job, s.store.jobs.get j = some job → job.Settled) ∨ pending (.markTerminate j))
  /-- The jobs of a closed block are marked, or about to be terminated. -/
  closed : ∀ j ∈ s.closed, j < s.nextJob ∧
    ((∀ job, s.store.jobs.get j = some job → job.Settled) ∨ pending (.terminate j) ∨
      pending (.markTerminate j))
  pendingCloses : ∀ b ∈ s.pendingCloses, s.store.blocks.get b = none ∧ b ∈ s.knownBlocks
  handledCloses : ∀ b ∈ s.handledCloses, s.store.blocks.get b = none ∧ b ∈ s.knownBlocks ∧
    ∀ j job, s.store.jobs.get j = some job → job.attachedBlockId = some b → j ∈ s.closed
  deletions : ∀ d ∈ s.deletions, d.job.jobManagerStatus = .done ∧
    d.job.attachedBlockId = none ∧ d.blocks = []

/-- What has become of the jobs of an earlier state. -/
structure Later (s s' : State) : Prop where
  nextJob : s.nextJob ≤ s'.nextJob
  before : ∀ j < s.nextJob, ∀ job', s'.store.jobs.get j = some job' →
    ∃ job, s.store.jobs.get j = some job ∧ job.Before job'

namespace Later

variable {s s' s'' : State}

theorem refl (s : State) : Later s s := ⟨le_rfl, fun _ _ job h => ⟨job, h, .refl job⟩⟩

theorem trans (h : Later s s') (h' : Later s' s'') : Later s s'' := by
  refine ⟨h.nextJob.trans h'.nextJob, ?_⟩
  intro j hj job'' hjob''
  obtain ⟨job', hjob', hbefore'⟩ := h'.before j (hj.trans_le h.nextJob) job'' hjob''
  obtain ⟨job, hjob, hbefore⟩ := h.before j hj job' hjob'
  exact ⟨job, hjob, hbefore.trans hbefore'⟩

theorem of_eq (hjobs : s'.store.jobs = s.store.jobs) (hnext : s'.nextJob = s.nextJob) :
    Later s s' := by
  refine ⟨Nat.le_of_eq hnext.symm, ?_⟩
  intro j _ job' hjob'
  rw [hjobs] at hjob'
  exact ⟨job', hjob', .refl job'⟩

end Later

namespace Invariant

variable {s : State} {pending pending' : Task → Prop} {task : Task} {next : List Task}

/-- How the pending tasks change when a task is done: it may be gone, and others come. -/
structure Shift (pending pending' : Task → Prop) (task : Task) (next : List Task) : Prop where
  back : ∀ u, pending' u → u ∈ next ∨ pending u
  keep : ∀ u, pending u → u ≠ task → pending' u
  new : ∀ u ∈ next, pending' u

variable (h : Invariant s pending)
include h

theorem shift (hshift : Shift pending pending' task next)
    (hnext : ∀ u ∈ next, u.jobId < s.nextJob ∧ ∀ j, u ≠ .pruneDelete j)
    (hattached : ∀ j b, task = .startAttach j b → ∀ job block, s.store.jobs.get j = some job →
      job.attachedBlockId = some b → s.store.blocks.get b = some block → block.jobId = some j)
    (hterminate : ∀ j, task = .terminate j ∨ task = .markTerminate j →
      (∀ job, s.store.jobs.get j = some job → job.Settled) ∨ pending' (.markTerminate j)) :
    Invariant s pending' := by
  refine { h with known := ?_, attached := ?_, doomed := ?_, flying := ?_, closed := ?_ }
  · intro u hu
    rcases hshift.back u hu with hnew | hold
    · exact (hnext u hnew).1
    · exact h.known u hold
  · intro j job b block hjob hb hblock
    rcases h.attached j job b block hjob hb hblock with hnamed | hpending
    · exact .inl hnamed
    · by_cases htask : Task.startAttach j b = task
      · exact .inl (hattached j b htask.symm job block hjob hb hblock)
      · exact .inr (hshift.keep _ hpending htask)
  · intro j hj
    rcases hshift.back _ hj with hnew | hold
    · exact absurd rfl ((hnext _ hnew).2 j)
    · exact h.doomed j hold
  · intro j flight hflight
    obtain ⟨hj, hstate⟩ := h.flying j flight hflight
    refine ⟨hj, ?_⟩
    rcases hstate with hsettled | hmark
    · exact .inl hsettled
    · by_cases htask : Task.markTerminate j = task
      · exact hterminate j (.inr htask.symm)
      · exact .inr (hshift.keep _ hmark htask)
  · intro j hj
    obtain ⟨hknown, hstate⟩ := h.closed j hj
    refine ⟨hknown, ?_⟩
    rcases hstate with hsettled | hterm | hmark
    · exact .inl hsettled
    · by_cases htask : Task.terminate j = task
      · rcases hterminate j (.inl htask.symm) with hsettled | hmark
        · exact .inl hsettled
        · exact .inr (.inr hmark)
      · exact .inr (.inl (hshift.keep _ hterm htask))
    · by_cases htask : Task.markTerminate j = task
      · rcases hterminate j (.inr htask.symm) with hsettled | hmark
        · exact .inl hsettled
        · exact .inr (.inr hmark)
      · exact .inr (.inr (hshift.keep _ hmark htask))

theorem set_job {j : JobId} {job job' : Job}
    (hjob : s.store.jobs.get j = some job) (hadvances : job.Advances job') :
    Invariant { s with store := { s.store with jobs := s.store.jobs.set j job' } } pending := by
  have hback : ∀ k found, (s.store.jobs.set j job').get k = some found →
      ∃ old, s.store.jobs.get k = some old ∧ old.Advances found := by
    intro k found hfound
    rw [JsMap.get_set] at hfound
    by_cases hk : k = j
    · subst hk
      rw [if_pos rfl] at hfound
      cases hfound
      exact ⟨job, hjob, hadvances⟩
    · rw [if_neg hk] at hfound
      exact ⟨found, hfound, ⟨.refl found, rfl, fun hs => hs, fun hr => hr⟩⟩
  have hsettled : ∀ k, (∀ job, s.store.jobs.get k = some job → job.Settled) →
      ∀ job, (s.store.jobs.set j job').get k = some job → job.Settled := by
    intro k hold found hfound
    obtain ⟨old, hget, hadv⟩ := hback k found hfound
    exact hadv.settled (hold old hget)
  refine { h with
    stored := ?_, attachedKnown := ?_, reasoned := ?_, named := ?_, attached := ?_,
    doomed := ?_, flying := ?_, closed := ?_, handledCloses := ?_ }
  · intro k found hfound
    obtain ⟨old, hget, -⟩ := hback k found hfound
    exact h.stored k old hget
  · intro k found b hfound hb
    obtain ⟨old, hget, hadv⟩ := hback k found hfound
    exact h.attachedKnown k old b hget (hadv.attached ▸ hb)
  · intro k found hfound
    obtain ⟨old, hget, hadv⟩ := hback k found hfound
    exact hadv.reasoned (h.reasoned k old hget)
  · intro b block k hblock hk
    refine ⟨(h.named b block k hblock hk).1, ?_⟩
    intro found hfound
    obtain ⟨old, hget, hadv⟩ := hback k found hfound
    rw [hadv.attached]
    exact (h.named b block k hblock hk).2 old hget
  · intro k found b block hfound hb hblock
    obtain ⟨old, hget, hadv⟩ := hback k found hfound
    exact h.attached k old b block hget (hadv.attached ▸ hb) hblock
  · intro k hk found hfound
    obtain ⟨old, hget, hadv⟩ := hback k found hfound
    obtain ⟨hdone, hnone⟩ := h.doomed k hk old hget
    exact ⟨hadv.toBefore.done hdone, hadv.attached.trans hnone⟩
  · intro k flight hflight
    obtain ⟨hk, hstate⟩ := h.flying k flight hflight
    exact ⟨hk, hstate.imp_left (hsettled k)⟩
  · intro k hk
    obtain ⟨hknown, hstate⟩ := h.closed k hk
    exact ⟨hknown, hstate.imp_left (hsettled k)⟩
  · intro b hb
    obtain ⟨hnone, hknown, hall⟩ := h.handledCloses b hb
    refine ⟨hnone, hknown, ?_⟩
    intro k found hfound hattached
    obtain ⟨old, hget, hadv⟩ := hback k found hfound
    exact hall k old hget (hadv.attached ▸ hattached)

theorem unseen (calls : List (List Task))
    (reconnectGroup : JobId → Option Nat) (nextFlight : Nat) :
    Invariant { s with
      calls := calls
      reconnectGroup := reconnectGroup
      nextFlight := nextFlight } pending :=
  ⟨h.known, h.stored, h.storedBlock, h.attachedKnown, h.reasoned, h.named, h.attached, h.doomed,
    h.flying, h.closed, h.pendingCloses, h.handledCloses, h.deletions⟩

theorem enter {j : JobId} (hj : j < s.nextJob)
    (hmark : pending (.markTerminate j)) (flight : Option Nat) :
    Invariant { s with terminateGroup := Function.update s.terminateGroup j flight } pending := by
  refine { h with flying := ?_ }
  intro k found hfound
  change Function.update s.terminateGroup j flight k = some found at hfound
  by_cases hk : k = j
  · rw [hk]
    exact ⟨hj, .inr hmark⟩
  · rw [Function.update_of_ne hk] at hfound
    exact h.flying k found hfound

theorem leave (j : JobId) :
    Invariant { s with terminateGroup := Function.update s.terminateGroup j none } pending := by
  refine { h with flying := ?_ }
  intro k found hfound
  change Function.update s.terminateGroup j none k = some found at hfound
  by_cases hk : k = j
  · rw [hk, Function.update_self] at hfound
    cases hfound
  · rw [Function.update_of_ne hk] at hfound
    exact h.flying k found hfound

end Invariant

end JobController

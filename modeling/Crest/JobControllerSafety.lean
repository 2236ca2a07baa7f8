import Crest.JobControllerSteps

/-!
# The life of a job in every run

A task that meets its condition keeps the invariant, whatever the other calls are about to
do, and so does every other event.  The condition of the status writes is the one the code
forgets: that the manager of the job is not done by the time the remote side has answered.
-/

namespace JobController

variable {s : State} {pending pending' : Task → Prop} {task : Task} {next : List Task}
  {j : JobId}

/-- What some call still has to do. -/
def State.Pending (s : State) (task : Task) : Prop := ∃ tasks ∈ s.calls, task ∈ tasks

theorem Invariant.update (h : Invariant s pending) {f : Job → Job}
    (hadvances : ∀ job, s.store.jobs.get j = some job → job.Advances (f job)) :
    Invariant (s.update j f next).1 pending := by
  unfold State.update Store.updateJob
  cases hjob : s.store.jobs.get j with
  | none => exact h
  | some job => exact h.set_job hjob (hadvances job hjob)

@[simp] theorem State.update_nextJob (f : Job → Job) :
    (s.update j f next).1.nextJob = s.nextJob := by
  unfold State.update
  split <;> rfl

theorem State.exec_calls (answer : Answer) : (s.exec answer task).1.calls = s.calls := by
  cases task <;> simp only [State.exec, State.update, State.deleteJob] <;> repeat' split
  all_goals rfl

section Records

variable {job : Job}

theorem Job.advances_of_same {job' : Job}
    (hstatus : job'.jobManagerStatus = job.jobManagerStatus)
    (hreason : job'.jobManagerDoneReason = job.jobManagerDoneReason)
    (hattached : job'.attachedBlockId = job.attachedBlockId)
    (hmark : job.terminateOnReconnect = true → job'.terminateOnReconnect = true) :
    job.Advances job' := by
  refine ⟨⟨by rw [hstatus], fun r hr => hreason.trans hr⟩, hattached, ?_, ?_⟩
  · intro hsettled
    exact hsettled.imp hstatus.trans hmark
  · rw [hstatus, hreason]
    exact fun h => h

theorem Job.advances_running (hnot : job.jobManagerStatus ≠ .done) :
    job.Advances { job with jobManagerStatus := .running } := by
  refine ⟨⟨?_, fun r hr => hr⟩, rfl, ?_, ?_⟩
  · cases hstatus : job.jobManagerStatus with
    | init | running => simp [JobManagerStatus.rank]
    | done => exact absurd hstatus hnot
  · intro hsettled
    exact .inr (hsettled.resolve_left hnot)
  · intro hreasoned hreason
    exact absurd (hreasoned hreason) hnot

theorem Job.advances_done {job' : Job} {reason : JobDoneReason}
    (hreasoned : job.jobManagerDoneReason ≠ none → job.jobManagerStatus = .done)
    (hmay : job.jobManagerStatus = .done → job.jobManagerDoneReason = some reason)
    (hstatus : job'.jobManagerStatus = .done) (hreason : job'.jobManagerDoneReason = some reason)
    (hattached : job'.attachedBlockId = job.attachedBlockId) :
    job.Advances job' := by
  refine ⟨⟨?_, ?_⟩, hattached, fun _ => .inl hstatus, fun _ _ => hstatus⟩
  · rw [hstatus]
    cases job.jobManagerStatus <;> simp [JobManagerStatus.rank]
  · intro old hold
    have hdone := hreasoned (by simp [hold])
    rw [hreason, ← hmay hdone, hold]

end Records

theorem State.MayEnd.reason {reason : JobDoneReason} (h : s.MayEnd j reason) {job : Job}
    (hjob : s.store.jobs.get j = some job) :
    job.jobManagerStatus = .done → job.jobManagerDoneReason = some reason := by
  simp only [State.MayEnd, hjob, Option.all_some, decide_eq_true_eq] at h
  exact h

/-- **The job a task updates only advances**, when the task meets its condition. -/
theorem exec_advances (h : Invariant s pending) (hok : TaskOk s task) {job : Job}
    (hjob : s.store.jobs.get j = some job) :
    (task = .recordRunning j → job.Advances { job with jobManagerStatus := .running }) ∧
    (task = .recordStartupError j → job.Advances { job with
      jobManagerStatus := .done, jobManagerDoneReason := some .startupError }) ∧
    (task = .recordTerminated j → job.Advances { job with
      jobManagerStatus := .done, jobManagerDoneReason := some .terminated,
      terminateOnReconnect := false, streamDone := true }) ∧
    (task = .recordGone j → job.Advances { job with
      jobManagerStatus := .done, jobManagerDoneReason := some .gone }) := by
  have hreasoned := h.reasoned j job hjob
  refine ⟨?_, ?_, ?_, ?_⟩ <;> intro htask <;> subst htask
  · exact Job.advances_running (by simpa [TaskOk, hjob] using hok)
  all_goals exact Job.advances_done hreasoned (State.MayEnd.reason hok hjob) rfl rfl rfl

theorem State.exec_nextJob (answer : Answer) : (s.exec answer task).1.nextJob = s.nextJob := by
  cases task <;> simp only [State.exec, State.update, State.deleteJob] <;> repeat' split
  all_goals rfl

theorem State.mem_exec {answer : Answer} {u : Task} (hu : u ∈ (s.exec answer task).2) :
    u.jobId = task.jobId ∧ ∀ j, u ≠ .pruneDelete j := by
  cases task with
  | restartStreaming j =>
    simp only [State.exec] at hu
    split at hu
    · cases hu
    · simp only [List.mem_append, Option.mem_toList, Option.map_eq_some_iff] at hu
      rcases hu with (⟨exitTs, -, rfl⟩ | hdone) | htry
      · exact ⟨rfl, by simp⟩
      · split at hdone <;> simp_all [Task.jobId]
      · split at htry <;> simp_all [Task.jobId]
  | terminate j | reconnect j =>
    simp only [State.exec] at hu
    split at hu <;> simp only [List.mem_cons, List.not_mem_nil, or_false] at hu
    · exact hu ▸ ⟨rfl, by simp⟩
    · rcases hu with rfl | rfl <;> exact ⟨rfl, by simp⟩
  | _ =>
    simp only [State.exec, State.update] at hu
    repeat' split at hu
    all_goals simp_all [Task.jobId]

/-- **What a task writes keeps the invariant**, but for the call that a termination opens. -/
theorem Invariant.exec_writes (h : Invariant s s.Pending) (hpending : s.Pending task)
    (hok : TaskOk s task) (answer : Answer) (hterminate : ∀ j, task ≠ .terminate j) :
    Invariant (s.exec answer task).1 s.Pending := by
  have hallowed : ∀ j, (∀ tasks ∈ s.calls, Task.pruneDelete j ∉ tasks) →
      ¬ s.Pending (.pruneDelete j) := by
    intro j hnone hdoomed
    obtain ⟨tasks, hmem, htask⟩ := hdoomed
    exact hnone tasks hmem htask
  cases task with
  | startAttach j b | attach j b =>
    simp only [State.exec]
    split
    · exact h
    · exact h.attach ‹_› (hallowed j hok)
  | detach j =>
    simp only [State.exec]
    split
    · exact h
    · exact h.detach ‹_› hok
  | recordRunning j => exact h.update fun job hjob => (exec_advances h hok hjob).1 rfl
  | recordStartupError j => exact h.update fun job hjob => (exec_advances h hok hjob).2.1 rfl
  | recordTerminated j => exact h.update fun job hjob => (exec_advances h hok hjob).2.2.1 rfl
  | recordGone j => exact h.update fun job hjob => (exec_advances h hok hjob).2.2.2 rfl
  | recordExit j exitTs =>
    exact h.update fun job _ => Job.advances_of_same rfl rfl rfl fun hmark => hmark
  | recordStreamDone j =>
    exact h.update fun job _ => Job.advances_of_same rfl rfl rfl fun hmark => hmark
  | markTerminate j =>
    simp only [State.exec]
    repeat' split
    · exact h
    · exact h
    · exact h.update fun job _ => Job.advances_of_same rfl rfl rfl fun _ => rfl
  | terminate j => exact absurd rfl (hterminate j)
  | leaveTerminate j => exact h.leave j
  | reconnect j =>
    simp only [State.exec]
    split
    · exact h
    · exact h.unseen _ _ _
  | leaveReconnect j => exact h.unseen _ _ _
  | pruneDelete j => exact h.deleteJob hpending
  | _ =>
    simp only [State.exec]
    repeat' split
    all_goals exact h

theorem State.settled_markTerminate (answer : Answer) {job : Job}
    (hjob : (s.exec answer (.markTerminate j)).1.store.jobs.get j = some job) : job.Settled := by
  simp only [State.exec] at hjob
  cases hfound : s.store.jobs.get j with
  | none =>
    rw [hfound] at hjob
    exact absurd (hfound.symm.trans hjob) (by simp)
  | some found =>
    rw [hfound] at hjob
    by_cases hdone : found.jobManagerStatus = .done
    · simp only [if_pos hdone, hfound, Option.some.injEq] at hjob
      exact .inl (hjob ▸ hdone)
    · simp only [if_neg hdone, State.update, Store.updateJob, hfound, Option.map_some,
        JsMap.get_set, if_true, Option.some.injEq] at hjob
      exact .inr (hjob ▸ rfl)

/-- **A task that meets its condition keeps the invariant.** -/
theorem Invariant.exec (h : Invariant s s.Pending) (hpending : s.Pending task)
    (hok : TaskOk s task) (answer : Answer)
    (hshift : Invariant.Shift s.Pending pending' task (s.exec answer task).2) :
    Invariant (s.exec answer task).1 pending' := by
  have hnext : ∀ u ∈ (s.exec answer task).2, u.jobId < s.nextJob ∧ ∀ j, u ≠ .pruneDelete j := by
    intro u hu
    obtain ⟨hjob, hkeeps⟩ := State.mem_exec hu
    exact ⟨hjob ▸ h.known task hpending, hkeeps⟩
  by_cases hterminate : ∃ j, task = .terminate j
  · obtain ⟨j, rfl⟩ := hterminate
    have hone : ∀ k, Task.terminate j = .terminate k ∨ Task.terminate j = .markTerminate k → k = j := by
      intro k heq
      simpa [eq_comm] using heq
    simp only [State.exec] at hshift hnext ⊢
    cases hgroup : s.terminateGroup j with
    | some flight =>
      rw [hgroup] at hshift hnext
      refine h.shift hshift hnext (by simp) fun k heq => ?_
      rw [hone k heq]
      exact (h.flying j flight hgroup).2.imp_right fun hmark => hshift.keep _ hmark (by simp)
    | none =>
      rw [hgroup] at hshift hnext
      have hmark := hshift.new (.markTerminate j) (by simp)
      have hshifted : Invariant s pending' :=
        h.shift hshift hnext (by simp) fun k heq => .inr (hone k heq ▸ hmark)
      exact (hshifted.enter (h.known _ hpending) hmark _).unseen _ _ _
  · have hwrites := h.exec_writes hpending hok answer fun j heq => hterminate ⟨j, heq⟩
    refine hwrites.shift hshift (by rwa [State.exec_nextJob]) ?_ ?_
    · rintro k x rfl job block hjob hx hblock
      simp only [State.exec] at hjob hblock
      cases hstore : s.store.attachJobToBlock k x with
      | none =>
        rw [hstore] at hjob hblock
        exact absurd hx (Store.attachJobToBlock_none hstore hblock hjob)
      | some store =>
        obtain ⟨found, attached, hattaching⟩ := Store.attachJobToBlock_some hstore
        rw [hstore, hattaching.blocks, if_pos rfl] at hblock
        cases hblock
        rfl
    · rintro k (rfl | rfl)
      · exact absurd ⟨k, rfl⟩ hterminate
      · exact .inl fun job hjob => State.settled_markTerminate answer hjob

section Progress

variable {s' : State}

theorem Later.of_jobs (hnext : s'.nextJob = s.nextJob)
    (hjobs : ∀ k found, s'.store.jobs.get k = some found →
      ∃ old, s.store.jobs.get k = some old ∧ old.Before found) :
    Later s s' :=
  ⟨Nat.le_of_eq hnext.symm, fun k _ found hfound => hjobs k found hfound⟩

theorem later_update {f : Job → Job}
    (hadvances : ∀ job, s.store.jobs.get j = some job → job.Advances (f job)) :
    Later s (s.update j f next).1 := by
  refine .of_jobs (State.update_nextJob f) ?_
  intro k found hfound
  cases hjob : s.store.jobs.get j with
  | none =>
    simp only [State.update, Store.updateJob, hjob, Option.map_none] at hfound
    exact ⟨found, hfound, .refl found⟩
  | some job =>
    simp only [State.update, Store.updateJob, hjob, Option.map_some, JsMap.get_set] at hfound
    by_cases hk : k = j
    · rw [if_pos hk] at hfound
      cases hfound
      exact ⟨job, hk ▸ hjob, (hadvances job hjob).toBefore⟩
    · rw [if_neg hk] at hfound
      exact ⟨found, hfound, .refl found⟩

theorem later_attach {store : Store} {b : BlockId}
    (hstore : s.store.attachJobToBlock j b = some store) :
    Later s { s with store := store } := by
  obtain ⟨block, job, hattaching⟩ := Store.attachJobToBlock_some hstore
  refine .of_jobs rfl ?_
  intro k found hfound
  by_cases hk : k = j
  · subst hk
    have hself := hattaching.self.symm.trans hfound
    cases hself
    exact ⟨job, hattaching.found, ⟨Nat.le_refl _, fun _ hr => hr⟩⟩
  · obtain ⟨old, hget, hold, -⟩ := hattaching.others k hk found hfound
    rcases hold with rfl | ⟨-, rfl⟩
    · exact ⟨found, hget, .refl found⟩
    · exact ⟨old, hget, ⟨Nat.le_refl _, fun _ hr => hr⟩⟩

theorem later_detach {store : Store} (hstore : s.store.detachJobFromBlock j = some store) :
    Later s { s with store := store } := by
  cases hjob : s.store.jobs.get j with
  | none => simp [Store.detachJobFromBlock, hjob] at hstore
  | some job =>
  cases hattachment : job.attachedBlockId with
  | none =>
    simp only [Store.detachJobFromBlock, hjob, hattachment, Option.some.injEq] at hstore
    rw [← hstore]
    exact .refl s
  | some b =>
  obtain ⟨-, hjobs⟩ := Store.detachJobFromBlock_some hstore hjob hattachment
  refine .of_jobs rfl ?_
  intro k found hfound
  have hget := (hjobs k).symm.trans hfound
  by_cases hk : k = j
  · rw [if_pos hk] at hget
    cases hget
    exact ⟨job, hk ▸ hjob, ⟨Nat.le_refl _, fun _ hr => hr⟩⟩
  · rw [if_neg hk] at hget
    exact ⟨found, hget, .refl found⟩

theorem later_deleteJob : Later s (s.deleteJob j) := by
  unfold State.deleteJob
  split
  · exact .refl s
  · refine .of_jobs rfl ?_
    intro k found hfound
    simp only [JsMap.get_delete] at hfound
    split at hfound
    · cases hfound
    · exact ⟨found, hfound, .refl found⟩

/-- **The jobs only move on**, when a task meets its condition. -/
theorem later_exec (h : Invariant s pending) (hok : TaskOk s task) (answer : Answer) :
    Later s (s.exec answer task).1 := by
  cases task with
  | startAttach j b =>
    simp only [State.exec]
    split
    · exact .refl s
    · exact later_attach ‹_›
  | attach j b =>
    simp only [State.exec]
    split
    · exact .refl s
    · exact later_attach ‹_›
  | detach j =>
    simp only [State.exec]
    split
    · exact .refl s
    · exact later_detach ‹_›
  | recordRunning j => exact later_update fun job hjob => (exec_advances h hok hjob).1 rfl
  | recordStartupError j => exact later_update fun job hjob => (exec_advances h hok hjob).2.1 rfl
  | recordTerminated j => exact later_update fun job hjob => (exec_advances h hok hjob).2.2.1 rfl
  | recordGone j => exact later_update fun job hjob => (exec_advances h hok hjob).2.2.2 rfl
  | recordExit j exitTs => exact later_update fun job _ => Job.advances_of_same rfl rfl rfl fun hmark => hmark
  | recordStreamDone j => exact later_update fun job _ => Job.advances_of_same rfl rfl rfl fun hmark => hmark
  | markTerminate j =>
    simp only [State.exec]
    split
    · exact .refl s
    · split
      · exact .refl s
      · exact later_update fun job _ => Job.advances_of_same rfl rfl rfl fun _ => rfl
  | pruneDelete j => exact later_deleteJob
  | _ =>
    simp only [State.exec]
    repeat' split
    all_goals exact .of_eq rfl rfl

end Progress

section Events

theorem shift_calls {call : Nat} {rest : List Task}
    (hcall : s.calls[call]? = some (task :: rest)) :
    Invariant.Shift s.Pending (fun u => ∃ tasks ∈ s.calls.set call (next ++ rest), u ∈ tasks)
      task next := by
  have hlength : call < s.calls.length := (List.getElem?_eq_some_iff.mp hcall).1
  have hmem : next ++ rest ∈ s.calls.set call (next ++ rest) := List.mem_set hlength _
  refine ⟨?_, ?_, fun u hu => ⟨_, hmem, List.mem_append_left _ hu⟩⟩
  · intro u hu
    obtain ⟨tasks, htasks, htask⟩ := hu
    rcases List.mem_or_eq_of_mem_set htasks with hold | rfl
    · exact .inr ⟨tasks, hold, htask⟩
    · rcases List.mem_append.mp htask with hnew | hrest
      · exact .inl hnew
      · exact .inr ⟨_, List.mem_of_getElem? hcall, List.mem_cons_of_mem _ hrest⟩
  · intro u hu hne
    obtain ⟨tasks, htasks, htask⟩ := hu
    obtain ⟨k, hk⟩ := List.mem_iff_getElem?.mp htasks
    by_cases heq : call = k
    · subst heq
      rw [hcall] at hk
      cases hk
      exact ⟨_, hmem, List.mem_append_right _ ((List.mem_cons.mp htask).resolve_left hne)⟩
    · refine ⟨tasks, List.mem_iff_getElem?.mpr ⟨k, ?_⟩, htask⟩
      rw [List.getElem?_set_ne heq]
      exact hk

theorem Invariant.add (h : Invariant s s.Pending) {tasks : List Task}
    (hknown : ∀ u ∈ tasks, u.jobId < s.nextJob)
    (hdoomed : ∀ j, Task.pruneDelete j ∈ tasks → ∀ job, s.store.jobs.get j = some job →
      job.jobManagerStatus = .done ∧ job.attachedBlockId = none) :
    Invariant (s.call tasks) (s.call tasks).Pending := by
  have hkeep : ∀ u, s.Pending u → (s.call tasks).Pending u := by
    intro u hu
    obtain ⟨found, hfound, htask⟩ := hu
    exact ⟨found, List.mem_append_left _ hfound, htask⟩
  have hback : ∀ u, (s.call tasks).Pending u → u ∈ tasks ∨ s.Pending u := by
    intro u hu
    obtain ⟨found, hfound, htask⟩ := hu
    rcases List.mem_append.mp hfound with hold | hnew
    · exact .inr ⟨found, hold, htask⟩
    · rw [List.mem_singleton.mp hnew] at htask
      exact .inl htask
  refine Invariant.unseen (s := s) ?_ _ _ _
  refine { h with known := ?_, attached := ?_, doomed := ?_, flying := ?_, closed := ?_ }
  · intro u hu
    exact (hback u hu).elim (hknown u) (h.known u)
  · intro j job b block hjob hb hblock
    exact (h.attached j job b block hjob hb hblock).imp_right (hkeep _)
  · intro j hj
    exact (hback _ hj).elim (hdoomed j) (h.doomed j)
  · intro j flight hflight
    obtain ⟨hj, hstate⟩ := h.flying j flight hflight
    exact ⟨hj, hstate.imp_right (hkeep _)⟩
  · intro j hj
    obtain ⟨hk, hstate⟩ := h.closed j hj
    exact ⟨hk, hstate.imp_right (Or.imp (hkeep _) (hkeep _))⟩

theorem Invariant.callFor (h : Invariant s s.Pending) {tasks : List Task}
    (hjob : ∀ u ∈ tasks, u.jobId = j ∧ ∀ k, u ≠ .pruneDelete k) :
    Invariant (s.callFor j tasks) (s.callFor j tasks).Pending := by
  unfold State.callFor
  split
  case isTrue hknown =>
    refine h.add ?_ ?_
    · intro u hu
      rw [(hjob u hu).1]
      exact hknown
    · intro k hk
      exact absurd rfl ((hjob _ hk).2 k)
  case isFalse _ => exact h

theorem Invariant.createBlock (h : Invariant s pending) {b : BlockId}
    (hnew : b ∉ s.knownBlocks) :
    Invariant { s with
      store := { s.store with blocks := s.store.blocks.set b {} }
      knownBlocks := s.knownBlocks ++ [b] } pending := by
  have hblocks : ∀ x ∈ s.knownBlocks, (s.store.blocks.set b {}).get x = s.store.blocks.get x := by
    intro x hx
    rw [JsMap.get_set, if_neg]
    exact fun heq => hnew (heq ▸ hx)
  refine { h with
    storedBlock := ?_, attachedKnown := ?_, named := ?_, attached := ?_, pendingCloses := ?_,
    handledCloses := ?_ }
  · intro x block hblock
    simp only [JsMap.get_set] at hblock
    split at hblock
    case isTrue heq => simp [heq]
    case isFalse _ => exact List.mem_append_left _ (h.storedBlock x block hblock)
  · intro k job x hjob hx
    exact List.mem_append_left _ (h.attachedKnown k job x hjob hx)
  · intro x block k hblock hk
    simp only [JsMap.get_set] at hblock
    split at hblock
    case isTrue _ =>
      cases hblock
      cases hk
    case isFalse _ => exact h.named x block k hblock hk
  · intro k job x block hjob hx hblock
    rw [hblocks x (h.attachedKnown k job x hjob hx)] at hblock
    exact h.attached k job x block hjob hx hblock
  · intro x hx
    obtain ⟨hnone, hknown⟩ := h.pendingCloses x hx
    exact ⟨(hblocks x hknown).trans hnone, List.mem_append_left _ hknown⟩
  · intro x hx
    obtain ⟨hnone, hknown, hall⟩ := h.handledCloses x hx
    exact ⟨(hblocks x hknown).trans hnone, List.mem_append_left _ hknown, hall⟩

theorem Invariant.closeBlock (h : Invariant s pending) (b : BlockId) :
    Invariant (s.closeBlock b) pending := by
  unfold State.closeBlock
  split
  case isFalse _ => exact h
  case isTrue hhas =>
    obtain ⟨block, hstored⟩ := Option.isSome_iff_exists.mp hhas
    have hback : ∀ x found, (s.store.blocks.delete b).get x = some found →
        s.store.blocks.get x = some found := by
      intro x found hfound
      rw [JsMap.get_delete] at hfound
      split at hfound
      · cases hfound
      · exact hfound
    have hnone : ∀ x, s.store.blocks.get x = none → (s.store.blocks.delete b).get x = none := by
      intro x hx
      rw [JsMap.get_delete, hx, ite_self]
    refine { h with
      storedBlock := fun x found hfound => h.storedBlock x found (hback x found hfound)
      named := fun x found k hfound => h.named x found k (hback x found hfound)
      attached := fun k job x found hjob hx hfound =>
        h.attached k job x found hjob hx (hback x found hfound)
      pendingCloses := ?_
      handledCloses := ?_ }
    · intro x hx
      rcases List.mem_append.mp hx with hold | hnew
      · exact (h.pendingCloses x hold).imp_left (hnone x)
      · rw [List.mem_singleton.mp hnew]
        refine ⟨?_, h.storedBlock b block hstored⟩
        show (s.store.blocks.delete b).get b = none
        simp
    · intro x hx
      exact (h.handledCloses x hx).imp_left (hnone x)

theorem Invariant.handleBlockClose (h : Invariant s s.Pending) (b : BlockId) :
    Invariant (s.handleBlockClose b) (s.handleBlockClose b).Pending := by
  unfold State.handleBlockClose
  split
  case isFalse _ => exact h
  case isTrue hpending =>
    obtain ⟨hnone, hknown⟩ := h.pendingCloses b hpending
    have hfound : ∀ j ∈ s.store.attachedJobs b, j < s.nextJob := by
      intro j hj
      obtain ⟨job, hjob, -⟩ := Store.mem_attachedJobs.mp hj
      exact h.stored j job hjob
    have htasks : ∀ u, u ∈ (s.store.attachedJobs b).flatMap State.terminateAndDetachJob →
        u.jobId < s.nextJob ∧ ∀ j, u ≠ .pruneDelete j := by
      intro u hu
      obtain ⟨j, hj, hu⟩ := List.mem_flatMap.mp hu
      simp only [State.terminateAndDetachJob, List.mem_cons, List.not_mem_nil, or_false] at hu
      rcases hu with rfl | rfl <;> exact ⟨hfound j hj, by simp⟩
    have hadded := h.add (fun u hu => (htasks u hu).1) fun j hj => absurd rfl ((htasks _ hj).2 j)
    refine { hadded with closed := ?_, pendingCloses := ?_, handledCloses := ?_ }
    · intro j hj
      rcases List.mem_append.mp hj with hold | hnew
      · exact hadded.closed j hold
      · refine ⟨hfound j hnew, .inr (.inl ?_)⟩
        refine ⟨_, List.mem_append_right _ (List.mem_singleton.mpr rfl), ?_⟩
        exact List.mem_flatMap.mpr ⟨j, hnew, List.mem_cons_self⟩
    · intro x hx
      exact hadded.pendingCloses x (List.mem_of_mem_filter hx)
    · intro x hx
      rcases List.mem_append.mp hx with hold | hnew
      · obtain ⟨hfree, hx', hall⟩ := hadded.handledCloses x hold
        exact ⟨hfree, hx', fun j job hjob hattached =>
          List.mem_append_left _ (hall j job hjob hattached)⟩
      · rw [List.mem_singleton.mp hnew]
        refine ⟨hnone, hknown, ?_⟩
        intro j job hjob hattached
        exact List.mem_append_right _ (Store.mem_attachedJobs.mpr ⟨job, hjob, hattached⟩)

theorem Invariant.startJob (h : Invariant s s.Pending) (blockId : Option BlockId)
    (hopen : ∀ b, blockId = some b → b ∉ s.handledCloses) :
    Invariant (s.startJob blockId) (s.startJob blockId).Pending := by
  have hjobs : ∀ k job, (s.startJob blockId).store.jobs.get k = some job →
      k = s.nextJob ∧ job = { attachedBlockId := blockId } ∨
        k ≠ s.nextJob ∧ s.store.jobs.get k = some job := by
    intro k job hjob
    simp only [State.startJob, JsMap.get_set] at hjob
    split at hjob
    case isTrue heq => exact .inl ⟨heq, (Option.some.inj hjob).symm⟩
    case isFalse hne => exact .inr ⟨hne, hjob⟩
  have holder : ∀ k < s.nextJob, ∀ job, (s.startJob blockId).store.jobs.get k = some job →
      s.store.jobs.get k = some job := by
    intro k hk job hjob
    rcases hjobs k job hjob with ⟨rfl, -⟩ | ⟨-, hold⟩
    · exact absurd hk (Nat.lt_irrefl _)
    · exact hold
  have hkeep : ∀ u, s.Pending u → (s.startJob blockId).Pending u := by
    intro u hu
    obtain ⟨tasks, htasks, htask⟩ := hu
    exact ⟨tasks, List.mem_append_left _ htasks, htask⟩
  have hback : ∀ u, (s.startJob blockId).Pending u →
      (u.jobId = s.nextJob ∧ ∀ k, u ≠ .pruneDelete k) ∨ s.Pending u := by
    intro u hu
    obtain ⟨tasks, htasks, htask⟩ := hu
    rcases List.mem_append.mp htasks with hold | hnew
    · exact .inr ⟨tasks, hold, htask⟩
    · rw [List.mem_singleton.mp hnew] at htask
      left
      cases blockId with
      | none | some _ =>
        rw [List.mem_singleton.mp htask]
        exact ⟨rfl, by simp⟩
  have hlt : ∀ {k}, k < s.nextJob → k < (s.startJob blockId).nextJob := fun hk =>
    Nat.lt_succ_of_lt hk
  refine ⟨?_, ?_, ?_, ?_, ?_, ?_, ?_, ?_, ?_, ?_, ?_, ?_, h.deletions⟩
  · intro u hu
    rcases hback u hu with ⟨heq, -⟩ | hold
    · rw [heq]
      exact Nat.lt_succ_self _
    · exact hlt (h.known u hold)
  · intro k job hjob
    rcases hjobs k job hjob with ⟨rfl, -⟩ | ⟨-, hold⟩
    · exact Nat.lt_succ_self _
    · exact hlt (h.stored k job hold)
  · intro b block hblock
    exact List.mem_append_left _ (h.storedBlock b block hblock)
  · intro k job b hjob hb
    rcases hjobs k job hjob with ⟨-, rfl⟩ | ⟨-, hold⟩
    · exact List.mem_append_right _ (Option.mem_toList.mpr hb)
    · exact List.mem_append_left _ (h.attachedKnown k job b hold hb)
  · intro k job hjob hreason
    rcases hjobs k job hjob with ⟨-, rfl⟩ | ⟨-, hold⟩
    · exact absurd rfl hreason
    · exact h.reasoned k job hold hreason
  · intro b block k hblock hk
    obtain ⟨hknown, hall⟩ := h.named b block k hblock hk
    exact ⟨hlt hknown, fun job hjob => hall job (holder k hknown job hjob)⟩
  · intro k job b block hjob hb hblock
    rcases hjobs k job hjob with ⟨rfl, rfl⟩ | ⟨-, hold⟩
    · right
      refine ⟨_, List.mem_append_right _ (List.mem_singleton.mpr rfl), ?_⟩
      have hblockId : blockId = some b := hb
      rw [hblockId]
      exact List.mem_singleton.mpr rfl
    · exact (h.attached k job b block hold hb hblock).imp_right (hkeep _)
  · intro k hk job hjob
    rcases hback _ hk with ⟨-, hnot⟩ | hold
    · exact absurd rfl (hnot k)
    · exact h.doomed k hold job (holder k (h.known _ hold) job hjob)
  · intro k flight hflight
    obtain ⟨hk, hstate⟩ := h.flying k flight hflight
    refine ⟨hlt hk, hstate.imp ?_ (hkeep _)⟩
    exact fun hsettled job hjob => hsettled job (holder k hk job hjob)
  · intro k hk
    obtain ⟨hknown, hstate⟩ := h.closed k hk
    refine ⟨hlt hknown, hstate.imp ?_ (Or.imp (hkeep _) (hkeep _))⟩
    exact fun hsettled job hjob => hsettled job (holder k hknown job hjob)
  · intro b hb
    obtain ⟨hnone, hknown⟩ := h.pendingCloses b hb
    exact ⟨hnone, List.mem_append_left _ hknown⟩
  · intro b hb
    obtain ⟨hnone, hknown, hall⟩ := h.handledCloses b hb
    refine ⟨hnone, List.mem_append_left _ hknown, ?_⟩
    intro k job hjob hattached
    rcases hjobs k job hjob with ⟨-, rfl⟩ | ⟨-, hold⟩
    · exact absurd hb (hopen b hattached)
    · exact hall k job hold hattached

/-- **Every event that meets its condition keeps the invariant, and the jobs only move
on.** -/
theorem step_keeps {event : Event} (h : Invariant s s.Pending) (hok : Ok s event) :
    Invariant (step s event) (step s event).Pending ∧ Later s (step s event) := by
  have hcallFor : ∀ j tasks, Later s (s.callFor j tasks) := by
    intro j tasks
    unfold State.callFor
    split <;> exact .of_eq rfl rfl
  cases event with
  | createBlock b =>
    simp only [step]
    split
    case isTrue _ => exact ⟨h, .refl s⟩
    case isFalse hnew => exact ⟨h.createBlock hnew, .of_eq rfl rfl⟩
  | closeBlock b =>
    have hpending : (s.closeBlock b).Pending = s.Pending := by
      unfold State.closeBlock
      split <;> rfl
    simp only [step]
    rw [hpending]
    refine ⟨h.closeBlock b, ?_⟩
    unfold State.closeBlock
    split <;> exact .of_eq rfl rfl
  | handleBlockClose b =>
    refine ⟨h.handleBlockClose b, ?_⟩
    simp only [step, State.handleBlockClose]
    split <;> exact .of_eq rfl rfl
  | startJob blockId =>
    refine ⟨h.startJob blockId ?_, ?_⟩
    · intro b hb
      subst hb
      exact hok
    · refine ⟨Nat.le_succ _, ?_⟩
      intro k hk job hjob
      simp only [step, State.startJob, JsMap.get_set] at hjob
      rw [if_neg (Nat.ne_of_lt hk)] at hjob
      exact ⟨job, hjob, .refl job⟩
  | attachJobToBlock _ _ | detachJobFromBlock _ | handleCmdJobExited _ _ | reconnectJob _
  | streamEnded _ => exact ⟨h.callFor (by simp [Task.jobId]), hcallFor _ _⟩
  | terminateAndDetachJob j =>
    exact ⟨h.callFor (by simp [State.terminateAndDetachJob, Task.jobId]), hcallFor _ _⟩
  | pruneUnusedJobs previousCandidates =>
    have hunused : ∀ j, Task.pruneDelete j ∈
        (s.store.unusedJobs.filter fun j => j ∈ previousCandidates).map Task.pruneDelete →
        j ∈ s.store.unusedJobs := by
      intro j hj
      obtain ⟨k, hk, heq⟩ := List.mem_map.mp hj
      cases heq
      exact List.mem_of_mem_filter hk
    refine ⟨h.add ?_ ?_, .of_eq rfl rfl⟩
    · intro u hu
      obtain ⟨j, hj, rfl⟩ := List.mem_map.mp hu
      obtain ⟨job, hjob, -⟩ := Store.mem_unusedJobs.mp (List.mem_of_mem_filter hj)
      exact h.stored j job hjob
    · intro j hj found hfound
      obtain ⟨job, hjob, hunused⟩ := Store.mem_unusedJobs.mp (hunused j hj)
      rw [hjob] at hfound
      cases hfound
      exact hunused
  | advance call answer =>
    simp only [step, State.advance]
    split
    case h_1 task rest hcall =>
      have htask : TaskOk s task := hok task (by simp [hcall])
      have hpending : s.Pending task := ⟨_, List.mem_of_getElem? hcall, List.mem_cons_self⟩
      refine ⟨?_, ?_⟩
      · have hexec := h.exec hpending htask answer (shift_calls hcall)
        have hcalls : (s.exec answer task).1.calls = s.calls := State.exec_calls answer
        rw [← hcalls] at hexec
        exact hexec.unseen _ _ _
      · exact (later_exec h htask answer).trans (.of_eq rfl rfl)
    case h_2 _ => exact ⟨h, .refl s⟩

end Events

end JobController

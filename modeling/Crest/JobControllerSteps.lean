import Crest.JobControllerInvariant

/-!
# The tasks of the job controller, one by one

What each transaction does to the store is said once.  From that, every task keeps the
invariant when it meets its condition, and the jobs that were there only move on.
-/

namespace JobController

namespace Store

variable {store store' : Store} {j k : JobId} {b : BlockId}

@[simp] theorem detachOldJob_blocks (old : Option JobId) :
    (store.detachOldJob old j b).blocks = store.blocks := by
  unfold detachOldJob
  split
  case h_1 => rfl
  case h_2 old =>
    split
    case isTrue _ => rfl
    case isFalse _ => cases hget : store.jobs.get old <;> simp [updateJob, hget]

@[simp] theorem detachOldJob_get_self (old : Option JobId) :
    (store.detachOldJob old j b).jobs.get j = store.jobs.get j := by
  unfold detachOldJob
  split
  case h_1 => rfl
  case h_2 old =>
    split
    case isTrue _ => rfl
    case isFalse hne =>
      cases hget : store.jobs.get old with
      | none => simp [updateJob, hget]
      | some oldJob => simp [updateJob, hget, Ne.symm hne]

theorem detachOldJob_get {old : Option JobId} (hk : k ≠ j) {found : Job}
    (h : (store.detachOldJob old j b).jobs.get k = some found) :
    ∃ job, store.jobs.get k = some job ∧
      (found = job ∨
        job.attachedBlockId = some b ∧ found = { job with attachedBlockId := none }) ∧
      (old = some k → found.attachedBlockId ≠ some b) := by
  unfold detachOldJob at h
  split at h
  case h_1 => exact ⟨found, h, .inl rfl, by simp⟩
  case h_2 old =>
    split at h
    case isTrue hold => exact ⟨found, h, .inl rfl, fun heq => absurd (by simp_all) hk⟩
    case isFalse _ =>
      cases hget : store.jobs.get old with
      | none =>
        simp only [updateJob, hget, Option.map_none, Option.getD_none] at h
        refine ⟨found, h, .inl rfl, ?_⟩
        intro heq
        cases heq
        rw [hget] at h
        cases h
      | some oldJob =>
        simp only [updateJob, hget, Option.map_some, Option.getD_some, JsMap.get_set] at h
        by_cases hold : k = old
        · subst hold
          rw [if_pos rfl] at h
          refine ⟨oldJob, hget, ?_⟩
          by_cases hb : oldJob.attachedBlockId = some b
          · rw [if_pos hb] at h
            cases h
            exact ⟨.inr ⟨hb, rfl⟩, by simp⟩
          · rw [if_neg hb] at h
            cases h
            exact ⟨.inl rfl, fun _ => hb⟩
        · rw [if_neg hold] at h
          exact ⟨found, h, .inl rfl, fun heq => absurd (Option.some.inj heq).symm hold⟩

/-- What a successful `AttachJobToBlock` has done. -/
structure Attaching (store store' : Store) (j : JobId) (b : BlockId) (block : Block) (job : Job) :
    Prop where
  stored : store.blocks.get b = some block
  found : store.jobs.get j = some job
  free : job.attachedBlockId = none ∨ job.attachedBlockId = some b
  blocks : ∀ x, store'.blocks.get x =
    if x = b then some { jobId := some j } else store.blocks.get x
  self : store'.jobs.get j = some { job with attachedBlockId := some b }
  others : ∀ k ≠ j, ∀ found, store'.jobs.get k = some found →
    ∃ old, store.jobs.get k = some old ∧
      (found = old ∨ old.attachedBlockId = some b ∧
        found = { old with attachedBlockId := none }) ∧
      (block.jobId = some k → found.attachedBlockId ≠ some b)

theorem attachJobToBlock_some (h : store.attachJobToBlock j b = some store') :
    ∃ block job, Attaching store store' j b block job := by
  unfold attachJobToBlock at h
  split at h
  case h_1 => cases h
  case h_2 block hblock =>
    dsimp only at h
    split at h
    case h_1 => cases h
    case h_2 job hjob =>
      rw [detachOldJob_get_self] at hjob
      split at h
      case isTrue _ => cases h
      case isFalse hfree =>
        simp only [updateJob, detachOldJob_get_self, hjob, Option.map_some,
          Option.some.injEq] at h
        subst h
        refine ⟨block, job, hblock, hjob, ?_, ?_, by simp, ?_⟩
        · cases hother : job.attachedBlockId with
          | none => exact .inl rfl
          | some other =>
            right
            simpa [hother] using hfree
        · intro x
          simp
        · intro k hk found hfound
          simp only [JsMap.get_set, if_neg hk] at hfound
          have hold := detachOldJob_get hk hfound
          exact hold

theorem attachJobToBlock_none (h : store.attachJobToBlock j b = none) {block : Block}
    {job : Job} (hblock : store.blocks.get b = some block) (hjob : store.jobs.get j = some job) :
    job.attachedBlockId ≠ some b := by
  intro hattached
  simp [attachJobToBlock, hblock, hjob, hattached, updateJob] at h

theorem detachJobFromBlock_some (h : store.detachJobFromBlock j = some store') {job : Job}
    (hjob : store.jobs.get j = some job) (hb : job.attachedBlockId = some b) :
    (∀ x, store'.blocks.get x =
      if x = b then (store.blocks.get b).map fun _ => { jobId := none } else store.blocks.get x) ∧
    ∀ k, store'.jobs.get k =
      if k = j then some { job with attachedBlockId := none } else store.jobs.get k := by
  cases hblock : store.blocks.get b with
  | none =>
    simp only [detachJobFromBlock, hjob, hb, hblock, updateJob, Option.map_some,
      Option.some.injEq] at h
    subst h
    refine ⟨fun x => ?_, fun k => by simp⟩
    by_cases hx : x = b
    · simp [hx, hblock]
    · simp [hx]
  | some block =>
    simp only [detachJobFromBlock, hjob, hb, hblock, updateJob, Option.map_some,
      Option.some.injEq] at h
    subst h
    exact ⟨fun x => by simp, fun k => by simp⟩

theorem mem_attachedJobs :
    j ∈ store.attachedJobs b ↔
      ∃ job, store.jobs.get j = some job ∧ job.attachedBlockId = some b := by
  simp only [attachedJobs, List.mem_map, List.mem_filter, decide_eq_true_eq, Prod.exists,
    exists_and_right, exists_eq_right]
  constructor
  · intro h
    obtain ⟨job, hmem, hb⟩ := h
    exact ⟨job, JsMap.get_of_mem_entries hmem, hb⟩
  · intro h
    obtain ⟨job, hget, hb⟩ := h
    exact ⟨job, JsMap.mem_entries_of_get hget, hb⟩

theorem mem_unusedJobs :
    j ∈ store.unusedJobs ↔ ∃ job, store.jobs.get j = some job ∧
      job.jobManagerStatus = .done ∧ job.attachedBlockId = none := by
  simp only [unusedJobs, List.mem_map, List.mem_filter, decide_eq_true_eq, Prod.exists,
    exists_and_right, exists_eq_right]
  constructor
  · intro h
    obtain ⟨job, hmem, hunused⟩ := h
    exact ⟨job, JsMap.get_of_mem_entries hmem, hunused⟩
  · intro h
    obtain ⟨job, hget, hunused⟩ := h
    exact ⟨job, JsMap.mem_entries_of_get hget, hunused⟩

theorem blocksOf_eq_nil (h : ∀ b block, store.blocks.get b = some block → block.jobId ≠ some j) :
    store.blocksOf j = [] := by
  simp only [blocksOf, List.map_eq_nil_iff, List.filter_eq_nil_iff, decide_eq_true_eq]
  intro e he
  exact h e.1 e.2 (JsMap.get_of_mem_entries he)

end Store

variable {s : State} {pending pending' : Task → Prop} {task : Task} {next : List Task}
  {j : JobId} {b : BlockId}

/-- What a transaction may do to the store: no job and no block is new, and a job that is attached
anew is attached to a block of the store, and nobody is about to delete it. -/
structure Rewired (s : State) (pending : Task → Prop) (store : Store) : Prop where
  jobs : ∀ k found, store.jobs.get k = some found → ∃ old, s.store.jobs.get k = some old ∧
    found.jobManagerStatus = old.jobManagerStatus ∧
    found.jobManagerDoneReason = old.jobManagerDoneReason ∧
    found.terminateOnReconnect = old.terminateOnReconnect ∧
    ∀ x, found.attachedBlockId = some x → old.attachedBlockId = some x ∨
      s.store.blocks.get x ≠ none ∧ ¬ pending (.pruneDelete k)
  blocks : ∀ x, store.blocks.get x ≠ none → s.store.blocks.get x ≠ none

variable (h : Invariant s pending)
include h

theorem Invariant.rewire {store : Store} (hrewired : Rewired s pending store)
    (hnamed : ∀ b block j, store.blocks.get b = some block → block.jobId = some j →
      j < s.nextJob ∧ ∀ job, store.jobs.get j = some job → job.attachedBlockId = some b)
    (hattached : ∀ j job b block, store.jobs.get j = some job → job.attachedBlockId = some b →
      store.blocks.get b = some block → block.jobId = some j ∨ pending (.startAttach j b)) :
    Invariant { s with store := store } pending := by
  have hsettled : ∀ k, (∀ job, s.store.jobs.get k = some job → job.Settled) →
      ∀ job, store.jobs.get k = some job → job.Settled := by
    intro k hold found hfound
    obtain ⟨old, hget, hstatus, -, hmark, -⟩ := hrewired.jobs k found hfound
    have hk := hold old hget
    rwa [Job.Settled, ← hstatus, ← hmark] at hk
  have hnone : ∀ x, s.store.blocks.get x = none → store.blocks.get x = none :=
    fun x hx => by_contra fun hsome => hrewired.blocks x hsome hx
  have hknown : ∀ x, s.store.blocks.get x ≠ none → x ∈ s.knownBlocks := by
    intro x hx
    obtain ⟨block, hblock⟩ := Option.ne_none_iff_exists'.mp hx
    exact h.storedBlock x block hblock
  refine { h with
    stored := ?_, storedBlock := ?_, attachedKnown := ?_, reasoned := ?_, named := hnamed,
    attached := hattached, doomed := ?_, flying := ?_, closed := ?_, pendingCloses := ?_,
    handledCloses := ?_ }
  · intro k found hfound
    obtain ⟨old, hget, -⟩ := hrewired.jobs k found hfound
    exact h.stored k old hget
  · intro x found hfound
    exact hknown x (hrewired.blocks x (by simp [hfound]))
  · intro k found x hfound hx
    obtain ⟨old, hget, -, -, -, hold⟩ := hrewired.jobs k found hfound
    rcases hold x hx with hsame | ⟨hstored, -⟩
    · exact h.attachedKnown k old x hget hsame
    · exact hknown x hstored
  · intro k found hfound hreason
    obtain ⟨old, hget, hstatus, hsame, -⟩ := hrewired.jobs k found hfound
    rw [hstatus]
    exact h.reasoned k old hget (hsame ▸ hreason)
  · intro k hk found hfound
    obtain ⟨old, hget, hstatus, -, -, hold⟩ := hrewired.jobs k found hfound
    obtain ⟨hdone, hfree⟩ := h.doomed k hk old hget
    refine ⟨hstatus.trans hdone, Option.eq_none_iff_forall_ne_some.mpr fun x hx => ?_⟩
    rcases hold x hx with hsame | ⟨-, hno⟩
    · rw [hfree] at hsame
      cases hsame
    · exact hno hk
  · intro k flight hflight
    obtain ⟨hk, hstate⟩ := h.flying k flight hflight
    exact ⟨hk, hstate.imp_left (hsettled k)⟩
  · intro k hk
    obtain ⟨hknown, hstate⟩ := h.closed k hk
    exact ⟨hknown, hstate.imp_left (hsettled k)⟩
  · intro x hx
    exact (h.pendingCloses x hx).imp_left (hnone x)
  · intro x hx
    obtain ⟨hfree, hx, hall⟩ := h.handledCloses x hx
    refine ⟨hnone x hfree, hx, fun k found hfound hattached => ?_⟩
    obtain ⟨old, hget, -, -, -, hold⟩ := hrewired.jobs k found hfound
    rcases hold x hattached with hsame | ⟨hstored, -⟩
    · exact hall k old hget hsame
    · exact absurd hfree hstored

/-- **Attaching a job that nobody is about to delete keeps the invariant.** -/
theorem Invariant.attach {store : Store} (hstore : s.store.attachJobToBlock j b = some store)
    (hallowed : ¬ pending (.pruneDelete j)) :
    Invariant { s with store := store } pending := by
  obtain ⟨block, job, hattaching⟩ := Store.attachJobToBlock_some hstore
  refine h.rewire ⟨?_, ?_⟩ ?_ ?_
  · intro k found hfound
    by_cases hk : k = j
    · subst hk
      rw [hattaching.self] at hfound
      cases hfound
      refine ⟨job, hattaching.found, rfl, rfl, rfl, fun x hx => .inr ⟨?_, hallowed⟩⟩
      cases hx
      simp [hattaching.stored]
    · obtain ⟨old, hget, rfl | ⟨-, rfl⟩, -⟩ := hattaching.others k hk found hfound
      · exact ⟨found, hget, rfl, rfl, rfl, fun _ hx => .inl hx⟩
      · exact ⟨old, hget, rfl, rfl, rfl, by rintro _ ⟨⟩⟩
  · intro x hx
    rw [hattaching.blocks] at hx
    split at hx
    case isTrue hxb => simp [hxb, hattaching.stored]
    case isFalse _ => exact hx
  · intro x found k hfound hk
    rw [hattaching.blocks] at hfound
    by_cases hx : x = b
    · rw [if_pos hx] at hfound
      cases hfound
      cases hk
      refine ⟨h.stored j job hattaching.found, ?_⟩
      intro found hfound
      rw [hattaching.self] at hfound
      cases hfound
      rw [hx]
    · rw [if_neg hx] at hfound
      obtain ⟨hknown, hall⟩ := h.named x found k hfound hk
      refine ⟨hknown, ?_⟩
      intro named hnamed
      by_cases hkj : k = j
      · subst hkj
        have hold := hall job hattaching.found
        rcases hattaching.free with hnone | hsame
        · rw [hnone] at hold
          cases hold
        · rw [hsame] at hold
          exact absurd (Option.some.inj hold).symm hx
      · obtain ⟨old, hget, hold, -⟩ := hattaching.others k hkj named hnamed
        have hattached := hall old hget
        rcases hold with rfl | ⟨hother, -⟩
        · exact hattached
        · rw [hother] at hattached
          exact absurd (Option.some.inj hattached).symm hx
  · intro k found x xblock hfound hx hxblock
    rw [hattaching.blocks] at hxblock
    by_cases hk : k = j
    · subst hk
      rw [hattaching.self] at hfound
      cases hfound
      cases hx
      rw [if_pos rfl] at hxblock
      cases hxblock
      exact .inl rfl
    · obtain ⟨old, hget, rfl | ⟨-, rfl⟩, hnot⟩ := hattaching.others k hk found hfound
      · by_cases hxb : x = b
        · subst hxb
          rcases h.attached k found x block hget hx hattaching.stored with hnamed | hpending
          · exact absurd hx (hnot hnamed)
          · exact .inr hpending
        · rw [if_neg hxb] at hxblock
          exact h.attached k found x xblock hget hx hxblock
      · cases hx

/-- **Detaching a job that its block names keeps the invariant.** -/
theorem Invariant.detach {store : Store}
    (hstore : s.store.detachJobFromBlock j = some store) (hok : TaskOk s (.detach j)) :
    Invariant { s with store := store } pending := by
  cases hjob : s.store.jobs.get j with
  | none => simp [Store.detachJobFromBlock, hjob] at hstore
  | some job =>
  cases hattachment : job.attachedBlockId with
  | none =>
    simp only [Store.detachJobFromBlock, hjob, hattachment, Option.some.injEq] at hstore
    subst hstore
    exact h
  | some b =>
  obtain ⟨hblocks, hjobs⟩ := Store.detachJobFromBlock_some hstore hjob hattachment
  have hownBlock : ∀ block, s.store.blocks.get b = some block → block.jobId = some j := by
    intro block hblock
    simpa [TaskOk, hjob, hattachment, hblock] using hok
  have hback : ∀ x found, store.blocks.get x = some found →
      ∃ old, s.store.blocks.get x = some old ∧ (x = b ∧ found.jobId = none ∨ x ≠ b ∧ found = old)
      := by
    intro x found hfound
    rw [hblocks] at hfound
    by_cases hx : x = b
    · rw [if_pos hx] at hfound
      obtain ⟨old, hold, rfl⟩ := Option.map_eq_some_iff.mp hfound
      exact ⟨old, hx ▸ hold, .inl ⟨hx, rfl⟩⟩
    · rw [if_neg hx] at hfound
      exact ⟨found, hfound, .inr ⟨hx, rfl⟩⟩
  refine h.rewire ⟨?_, ?_⟩ ?_ ?_
  · intro k found hfound
    rw [hjobs] at hfound
    by_cases hk : k = j
    · rw [if_pos hk] at hfound
      cases hfound
      exact ⟨job, hk ▸ hjob, rfl, rfl, rfl, by rintro _ ⟨⟩⟩
    · rw [if_neg hk] at hfound
      exact ⟨found, hfound, rfl, rfl, rfl, fun _ hx => .inl hx⟩
  · intro x hx
    obtain ⟨found, hfound⟩ := Option.ne_none_iff_exists'.mp hx
    obtain ⟨old, hold, -⟩ := hback x found hfound
    simp [hold]
  · intro x found k hfound hk
    obtain ⟨old, hold, ⟨-, hfree⟩ | ⟨hx, rfl⟩⟩ := hback x found hfound
    · rw [hfree] at hk
      cases hk
    · obtain ⟨hknown, hall⟩ := h.named x found k hold hk
      refine ⟨hknown, fun named hnamed => ?_⟩
      rw [hjobs] at hnamed
      by_cases hkj : k = j
      · subst hkj
        have hattached := hall job hjob
        rw [hattachment] at hattached
        exact absurd (Option.some.inj hattached).symm hx
      · rw [if_neg hkj] at hnamed
        exact hall named hnamed
  · intro k found x xblock hfound hx hxblock
    rw [hjobs] at hfound
    by_cases hk : k = j
    · rw [if_pos hk] at hfound
      cases hfound
      cases hx
    · rw [if_neg hk] at hfound
      obtain ⟨oldBlock, hold, ⟨rfl, -⟩ | ⟨-, rfl⟩⟩ := hback x xblock hxblock
      · rcases h.attached k found x oldBlock hfound hx hold with hnamed | hpending
        · rw [hownBlock oldBlock hold] at hnamed
          exact absurd (Option.some.inj hnamed).symm hk
        · exact .inr hpending
      · exact h.attached k found x xblock hfound hx hold

/-- **Deleting a job that the pruner chose keeps the invariant.** -/
theorem Invariant.deleteJob (hpending : pending (.pruneDelete j)) :
    Invariant (s.deleteJob j) pending := by
  unfold State.deleteJob
  cases hjob : s.store.jobs.get j with
  | none => exact h
  | some job =>
  obtain ⟨hdone, hfree⟩ := h.doomed j hpending job hjob
  have hback : ∀ k found, (s.store.jobs.delete j).get k = some found →
      s.store.jobs.get k = some found := by
    intro k found hfound
    rw [JsMap.get_delete] at hfound
    split at hfound
    · cases hfound
    · exact hfound
  have hsettled : ∀ k, (∀ job, s.store.jobs.get k = some job → job.Settled) →
      ∀ job, (s.store.jobs.delete j).get k = some job → job.Settled :=
    fun k hold found hfound => hold found (hback k found hfound)
  refine { h with
    stored := fun k found hfound => h.stored k found (hback k found hfound)
    attachedKnown := fun k found x hfound => h.attachedKnown k found x (hback k found hfound)
    reasoned := fun k found hfound => h.reasoned k found (hback k found hfound)
    named := ?_
    attached := fun k found x block hfound => h.attached k found x block (hback k found hfound)
    doomed := fun k hk found hfound => h.doomed k hk found (hback k found hfound)
    flying := ?_
    closed := ?_
    handledCloses := ?_
    deletions := ?_ }
  · intro x block k hblock hk
    obtain ⟨hknown, hall⟩ := h.named x block k hblock hk
    exact ⟨hknown, fun found hfound => hall found (hback k found hfound)⟩
  · intro k flight hflight
    obtain ⟨hk, hstate⟩ := h.flying k flight hflight
    exact ⟨hk, hstate.imp_left (hsettled k)⟩
  · intro k hk
    obtain ⟨hknown, hstate⟩ := h.closed k hk
    exact ⟨hknown, hstate.imp_left (hsettled k)⟩
  · intro x hx
    obtain ⟨hnone, hknown, hall⟩ := h.handledCloses x hx
    exact ⟨hnone, hknown, fun k found hfound => hall k found (hback k found hfound)⟩
  · intro d hd
    rcases List.mem_append.mp hd with hold | hnew
    · exact h.deletions d hold
    · rw [List.mem_singleton.mp hnew]
      refine ⟨hdone, hfree, Store.blocksOf_eq_nil ?_⟩
      intro x block hblock hnamed
      have hattached := (h.named x block j hblock hnamed).2 job hjob
      rw [hfree] at hattached
      cases hattached

end JobController

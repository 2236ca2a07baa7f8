import Crest.TopTabQueueMerge

/-!
# What holds of the queue of navigation intents

What is projected is the confirmed checkpoint with the pending intents applied, and a batch
that was sent is made of the oldest of them.  The confirmed checkpoint is one that the server
had.  While a save is under way the server either has not seen it, or has refused it, or has
stored it; or another checkpoint was confirmed meanwhile, and then the server refuses it.
-/

namespace NavigationQueue

open ContentState ContentState.Frontend

section Checkpoints

@[simp] theorem shown_cloneCheckpoint (checkpoint : WorkspaceCheckpoint) :
    (cloneCheckpoint checkpoint).shown = checkpoint.shown :=
  hydrate_hydrate checkpoint.contentState checkpoint.activeTerminalTabId

@[simp] theorem cloneCheckpoint_cloneCheckpoint (checkpoint : WorkspaceCheckpoint) :
    cloneCheckpoint (cloneCheckpoint checkpoint) = cloneCheckpoint checkpoint := by
  rw [cloneCheckpoint, shown_cloneCheckpoint]
  rfl

theorem checkpointsEquivalent_iff (left right : WorkspaceCheckpoint) :
    checkpointsEquivalent left right = true ↔ cloneCheckpoint left = cloneCheckpoint right :=
  decide_eq_true_iff

theorem checkpointsEquivalent_self (checkpoint : WorkspaceCheckpoint) :
    checkpointsEquivalent checkpoint checkpoint = true :=
  (checkpointsEquivalent_iff _ _).mpr rfl

theorem not_checkpointsEquivalent {left right : WorkspaceCheckpoint}
    (h : left.navigationRevision ≠ right.navigationRevision) :
    checkpointsEquivalent left right = false := by
  rw [Bool.eq_false_iff]
  intro hsame
  have hrevision : (cloneCheckpoint left).navigationRevision =
      (cloneCheckpoint right).navigationRevision := by
    rw [(checkpointsEquivalent_iff _ _).mp hsame]
  exact h hrevision

end Checkpoints

section Queue

/-- The pending intents that a batch is made of. -/
def sentPending (queue : TopTabNavigationQueue) (batch : LocalCheckpointBatch) :
    List PendingTopTabIntent :=
  queue.pending.filter fun intent => intent.sequence ≤ batch.maxSequence

/-- The pending intents that have come later. -/
def laterPending (queue : TopTabNavigationQueue) (batch : LocalCheckpointBatch) :
    List PendingTopTabIntent :=
  queue.pending.filter fun intent => batch.maxSequence < intent.sequence

/-- A batch that is made of the oldest pending intents. -/
structure BatchOk (queue : TopTabNavigationQueue) (batch : LocalCheckpointBatch) : Prop where
  revision : batch.payload.expectedRevision = queue.confirmed.navigationRevision
  content : batch.payload.contentState =
    serializeContentState (applyPending queue.confirmed.shown (sentPending queue batch))
  text : IsText batch.payload.activeTerminalTabId
  shows : Shows (applyPending queue.confirmed.shown (sentPending queue batch))
    batch.payload.activeTerminalTabId
  below : batch.maxSequence < queue.nextSequence

/-- What holds of the queue by itself. -/
structure QueueInv (queue : TopTabNavigationQueue) : Prop where
  projected : queue.projected = applyPending queue.confirmed.shown queue.pending
  plain : ∀ intent ∈ queue.pending, intent.action.Plain
  sorted : queue.pending.Pairwise fun a b => a.sequence < b.sequence
  below : ∀ intent ∈ queue.pending, intent.sequence < queue.nextSequence
  retry : ∀ batch, queue.retryBatch = some batch → BatchOk queue batch

variable {queue queue' : TopTabNavigationQueue}

theorem filter_append_filter {pending : List PendingTopTabIntent}
    (h : pending.Pairwise fun a b => a.sequence < b.sequence) (sent : Nat) :
    pending.filter (fun intent => intent.sequence ≤ sent) ++
      pending.filter (fun intent => sent < intent.sequence) = pending := by
  induction pending with
  | nil => rfl
  | cons intent rest ih =>
    obtain ⟨hfirst, hrest⟩ := List.pairwise_cons.mp h
    by_cases hsent : intent.sequence ≤ sent
    · rw [List.filter_cons_of_pos (by simpa using hsent),
        List.filter_cons_of_neg (by simpa using hsent), List.cons_append, ih hrest]
    · have hnone : rest.filter (fun intent => intent.sequence ≤ sent) = [] := by
        refine List.filter_eq_nil_iff.mpr ?_
        intro other hother
        have hlater := hfirst other hother
        simp only [decide_eq_true_eq]
        omega
      have hall : rest.filter (fun intent => sent < intent.sequence) = rest := by
        refine List.filter_eq_self.mpr ?_
        intro other hother
        have hlater := hfirst other hother
        simp only [decide_eq_true_eq]
        omega
      rw [List.filter_cons_of_neg (by simpa using hsent),
        List.filter_cons_of_pos (by simpa using Nat.lt_of_not_le hsent), hnone, hall,
        List.nil_append]

theorem queueInv_make (checkpoint : WorkspaceCheckpoint) :
    QueueInv (TopTabNavigationQueue.make checkpoint) where
  projected := rfl
  plain := fun _ h => absurd h List.not_mem_nil
  sorted := List.Pairwise.nil
  below := fun _ h => absurd h List.not_mem_nil
  retry := by
    intro batch hbatch
    cases hbatch

variable {batch : LocalCheckpointBatch} {action : WorkspaceContentAction}

theorem Accepts.sentPending {number : Nat} (h : Accepts queue queue' number action)
    (hbatch : queue.retryBatch = some batch) (hbelow : batch.maxSequence < queue.nextSequence) :
    sentPending queue' batch = sentPending queue batch := by
  unfold NavigationQueue.sentPending
  cases h.grown with
  | pushed hpending hnext =>
    have hlater : ¬ queue.nextSequence ≤ batch.maxSequence := by omega
    rw [hpending, List.filter_append, List.filter_cons_of_neg (by simpa using hlater),
      List.filter_nil, List.append_nil]
  | merged earlier intent together hpending hpending' hnext hsent hplain =>
    have hlater : ¬ intent.sequence ≤ batch.maxSequence := by
      have := hsent batch hbatch
      omega
    rw [hpending, hpending', List.filter_append, List.filter_append,
      List.filter_cons_of_neg (by simpa using hlater),
      List.filter_cons_of_neg (by simpa using hlater)]

theorem Accepts.laterPending {number : Nat} (h : Accepts queue queue' number action)
    (hbatch : queue.retryBatch = some batch) (hbelow : batch.maxSequence < queue.nextSequence) :
    (laterPending queue' batch).flatMap PendingTopTabIntent.accepted =
      (laterPending queue batch).flatMap PendingTopTabIntent.accepted ++ [number] := by
  unfold NavigationQueue.laterPending
  cases h.grown with
  | pushed hpending hnext =>
    rw [hpending, List.filter_append, List.filter_cons_of_pos (by simpa using hbelow),
      List.flatMap_append]
    rfl
  | merged earlier intent together hpending hpending' hnext hsent hplain =>
    have hlater := hsent batch hbatch
    rw [hpending, hpending', List.filter_append, List.filter_append,
      List.filter_cons_of_pos (by simpa using hlater),
      List.filter_cons_of_pos (by simpa using hlater), List.flatMap_append,
      List.flatMap_append, List.append_assoc]
    simp

theorem Accepts.accepted {number : Nat} (h : Accepts queue queue' number action) :
    queue'.pending.flatMap PendingTopTabIntent.accepted =
      queue.pending.flatMap PendingTopTabIntent.accepted ++ [number] := by
  cases h.grown with
  | pushed hpending hnext =>
    rw [hpending, List.flatMap_append]
    rfl
  | merged earlier intent together hpending hpending' hnext hsent hplain =>
    rw [hpending, hpending', List.flatMap_append, List.flatMap_append, List.append_assoc]
    simp

theorem QueueInv.accept {number : Nat} (h : QueueInv queue)
    (haccepts : Accepts queue queue' number action) (hplain : action.Plain) :
    QueueInv queue' := by
  have hretry : ∀ batch, queue'.retryBatch = some batch → BatchOk queue' batch := by
    intro batch hbatch
    rw [haccepts.retryBatch] at hbatch
    obtain ⟨hrevision, hcontent, htext, hshows, hbelow⟩ := h.retry batch hbatch
    have hsame := haccepts.sentPending hbatch hbelow
    refine ⟨?_, ?_, htext, ?_, ?_⟩
    · rw [haccepts.confirmed, hrevision]
    · rw [haccepts.confirmed, hsame, hcontent]
    · rw [haccepts.confirmed, hsame]
      exact hshows
    · cases haccepts.grown with
      | pushed _ _ | merged _ _ _ _ _ _ _ _ => omega
  cases haccepts.grown with
  | pushed hpending hnext =>
    refine ⟨haccepts.folded, ?_, ?_, ?_, hretry⟩
    · rw [hpending]
      intro intent hintent
      rcases List.mem_append.mp hintent with hintent | hintent
      · exact h.plain intent hintent
      · rw [List.mem_singleton.mp hintent]
        exact hplain
    · rw [hpending]
      refine List.pairwise_append.mpr ⟨h.sorted, List.pairwise_singleton _ _, ?_⟩
      intro a ha b hb
      rw [List.mem_singleton.mp hb]
      exact h.below a ha
    · rw [hpending, hnext]
      intro intent hintent
      rcases List.mem_append.mp hintent with hintent | hintent
      · exact Nat.lt_succ_of_lt (h.below intent hintent)
      · rw [List.mem_singleton.mp hintent]
        exact Nat.lt_succ_self _
  | merged earlier intent together hpending hpending' hnext hsent htogether =>
    have hsorted := h.sorted
    have hold := h.plain
    have hbelow := h.below
    rw [hpending] at hsorted hold hbelow
    obtain ⟨hearlier, -, hlast⟩ := List.pairwise_append.mp hsorted
    have hintent : intent ∈ earlier ++ [intent] :=
      List.mem_append_right _ (List.mem_singleton_self intent)
    refine ⟨haccepts.folded, ?_, ?_, ?_, hretry⟩
    · rw [hpending']
      intro other hother
      rcases List.mem_append.mp hother with hother | hother
      · exact hold other (List.mem_append_left _ hother)
      · rw [List.mem_singleton.mp hother]
        exact htogether (hold intent hintent)
    · rw [hpending']
      refine List.pairwise_append.mpr ⟨hearlier, List.pairwise_singleton _ _, ?_⟩
      intro a ha b hb
      rw [List.mem_singleton.mp hb]
      exact hlast a ha intent (List.mem_singleton_self intent)
    · rw [hpending', hnext]
      intro other hother
      rcases List.mem_append.mp hother with hother | hother
      · exact hbelow other (List.mem_append_left _ hother)
      · rw [List.mem_singleton.mp hother]
        exact hbelow intent hintent

theorem queueInv_invalidate (queue : TopTabNavigationQueue) (preserveError : Bool) :
    QueueInv (queue.invalidate preserveError) where
  projected := rfl
  plain := fun _ hmem => absurd hmem List.not_mem_nil
  sorted := List.Pairwise.nil
  below := fun _ hmem => absurd hmem List.not_mem_nil
  retry := by
    intro batch hbatch
    cases hbatch

theorem reconcile_cases (queue : TopTabNavigationQueue) (checkpoint : WorkspaceCheckpoint)
    (force : Bool) :
    queue.reconcile checkpoint force = queue ∨
      queue.confirmed.navigationRevision ≤ checkpoint.navigationRevision ∧
        checkpoint.workspaceId = queue.confirmed.workspaceId ∧
        cloneCheckpoint checkpoint ≠ cloneCheckpoint queue.confirmed ∧
        queue.reconcile checkpoint force =
          { queue with
            confirmed := cloneCheckpoint checkpoint
            error := false
            retryBatch := none }.recomputeProjected := by
  simp only [TopTabNavigationQueue.reconcile]
  by_cases hacceptable : queue.acceptable (cloneCheckpoint checkpoint) = true
  · rw [hacceptable, Bool.not_true, if_neg Bool.false_ne_true]
    by_cases hsame : checkpointsEquivalent (cloneCheckpoint checkpoint) queue.confirmed = true
    · exact .inl (if_pos hsame)
    · rw [if_neg hsame]
      split_ifs
      · exact .inl rfl
      · simp only [TopTabNavigationQueue.acceptable, Bool.and_eq_true, decide_eq_true_eq]
          at hacceptable
        obtain ⟨⟨⟨hworkspace, -⟩, -⟩, hrevision⟩ := hacceptable
        refine .inr ⟨hrevision, hworkspace, ?_, rfl⟩
        rwa [checkpointsEquivalent_iff, cloneCheckpoint_cloneCheckpoint] at hsame
  · left
    rw [if_pos (by simpa using hacceptable)]

variable (h : QueueInv queue)
include h

theorem QueueInv.confirm (checkpoint : WorkspaceCheckpoint) :
    QueueInv
      { queue with
        confirmed := cloneCheckpoint checkpoint
        error := false
        retryBatch := none }.recomputeProjected where
  projected := rfl
  plain := h.plain
  sorted := h.sorted
  below := h.below
  retry := by
    intro batch hbatch
    cases hbatch

theorem QueueInv.nextBatch {activeTerminalTabId : JsString}
    (hpending : queue.pending ≠ []) (htext : IsText activeTerminalTabId)
    (hshows : Shows queue.projected activeTerminalTabId) :
    BatchOk queue (queue.nextBatch activeTerminalTabId) := by
  unfold TopTabNavigationQueue.nextBatch
  cases hbatch : queue.retryBatch with
  | some batch => exact h.retry batch hbatch
  | none =>
    have hlast := List.dropLast_append_getLast hpending
    have hsorted := h.sorted
    rw [← hlast] at hsorted
    obtain ⟨-, -, hbefore⟩ := List.pairwise_append.mp hsorted
    have hall : ∀ intent ∈ queue.pending,
        intent.sequence ≤ (queue.pending.getLast hpending).sequence := by
      intro intent hintent
      rw [← hlast] at hintent
      rcases List.mem_append.mp hintent with hintent | hintent
      · exact (hbefore intent hintent _ (List.mem_singleton_self _)).le
      · rw [List.mem_singleton.mp hintent]
    have hsent : sentPending queue ((none : Option LocalCheckpointBatch).getD
        { payload :=
            { workspaceId := queue.confirmed.workspaceId
              expectedRevision := queue.confirmed.navigationRevision
              contentState := serializeContentState queue.projected
              activeTerminalTabId := activeTerminalTabId }
          maxSequence := (queue.pending.getLast?.map PendingTopTabIntent.sequence).getD 0 }) =
        queue.pending := by
      refine List.filter_eq_self.mpr ?_
      intro intent hintent
      simp only [Option.getD_none, List.getLast?_eq_getLast_of_ne_nil hpending, Option.map_some,
        Option.getD_some, decide_eq_true_eq]
      exact hall intent hintent
    refine ⟨rfl, ?_, htext, ?_, ?_⟩
    · rw [hsent, ← h.projected]
      rfl
    · rw [hsent, ← h.projected]
      exact hshows
    · simp only [Option.getD_none, List.getLast?_eq_getLast_of_ne_nil hpending, Option.map_some,
        Option.getD_some]
      exact h.below _ (List.getLast_mem hpending)

theorem QueueInv.send (hbatch : BatchOk queue batch) :
    QueueInv (queue.send batch) where
  projected := h.projected
  plain := h.plain
  sorted := h.sorted
  below := h.below
  retry := by
    intro sent hsent
    cases hsent
    exact ⟨hbatch.revision, hbatch.content, hbatch.text, hbatch.shows, hbatch.below⟩

theorem QueueInv.acknowledge (committed : Bool) (checkpoint : WorkspaceCheckpoint) :
    QueueInv (queue.acknowledge committed checkpoint) := by
  have hsub : (queue.acknowledge committed checkpoint).pending.Sublist queue.pending := by
    cases committed with
    | true => exact List.filter_sublist
    | false => exact List.Sublist.refl _
  refine ⟨rfl, fun intent hmem => h.plain intent (hsub.subset hmem), h.sorted.sublist hsub,
    fun intent hmem => h.below intent (hsub.subset hmem), ?_⟩
  intro batch hbatch
  cases hbatch

theorem QueueInv.forget :
    QueueInv { queue with retryBatch := none, saving := false } where
  projected := h.projected
  plain := h.plain
  sorted := h.sorted
  below := h.below
  retry := by
    intro batch hbatch
    cases hbatch

theorem QueueInv.failed :
    QueueInv { queue with error := true, saving := false } where
  projected := h.projected
  plain := h.plain
  sorted := h.sorted
  below := h.below
  retry := by
    intro batch hbatch
    obtain ⟨hrevision, hcontent, htext, hshows, hbelow⟩ := h.retry batch hbatch
    exact ⟨hrevision, hcontent, htext, hshows, hbelow⟩

end Queue

end NavigationQueue

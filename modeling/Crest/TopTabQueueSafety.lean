import Crest.TopTabQueueInvariant
import Mathlib.Data.List.Pairwise

/-!
# Runs of the queue of navigation intents

Four conditions keep the queue and the server together.  An update is merged only into the
last pending intent, and only where that one takes effect.  A checkpoint that the server has
made of a save is not delivered before the response of the save, and this response is not
lost.  A new batch is made with the terminal that is shown.  What actions and other writers
bring reads alike on both sides, and other writers show no other tab than the one that was
active last.

In every run that meets them the server's checkpoint is made of the changes of other writers
and of the accepted intents, each of which is applied once and in order.
-/

namespace NavigationQueue

open ContentState ContentState.Frontend

section Definitions

/-- The intents of a change. -/
def Change.intents : Change → List PendingTopTabIntent
  | .other _ => []
  | .applied intents => intents

/-- The numbers of the intents that were applied to the server's checkpoint. -/
def appliedNumbers (changes : List Change) : List Nat :=
  changes.flatMap fun change => change.intents.flatMap PendingTopTabIntent.accepted

/-- What a change makes of what the server's checkpoint shows. -/
def Change.replay (state : WorkspaceContentState) : Change → WorkspaceContentState
  | .other checkpoint => checkpoint.shown
  | .applied intents => applyPending state intents

/-- What the changes make of what the first checkpoint showed. -/
def replay (state : WorkspaceContentState) (changes : List Change) : WorkspaceContentState :=
  changes.foldl Change.replay state

namespace State

/-- The numbers of the pending intents that were not applied to the server's checkpoint yet. -/
def unapplied (s : State) : List Nat :=
  if s.request.isCommitted then
    (s.queue.pending.filter fun intent =>
      (s.queue.retryBatch.map LocalCheckpointBatch.maxSequence).getD 0 <
        intent.sequence).flatMap PendingTopTabIntent.accepted
  else s.queue.pending.flatMap PendingTopTabIntent.accepted

/-- The state after the response of a save was taken in. -/
def taken (s : State) : State :=
  match s.running, s.request with
  | .saving _ confirmedAtStart, .answered committed checkpoint =>
    s.takeIn confirmedAtStart committed checkpoint
  | _, _ => s

end State

/-- The conditions under which the queue and the server stay together. -/
def Ok (s : State) : Event → Prop
  | .enqueue action => action.Plain ∧ MergesIntoLast s.queue s.accepted action
  | .reconcile checkpoint _ =>
    s.request.isCommitted = true →
      checkpoint.navigationRevision ≤ s.queue.confirmed.navigationRevision ∨
        checkpoint.workspaceId ≠ s.queue.confirmed.workspaceId
  | .begin activeTerminalTabId =>
    IsText activeTerminalTabId ∧ Shows s.queue.projected activeTerminalTabId
  | .respond activeTerminalTabId =>
    IsText activeTerminalTabId ∧ Shows s.taken.queue.projected activeTerminalTabId
  | .fail activeTerminalTabId =>
    s.request.isCommitted = false ∧ IsText activeTerminalTabId ∧
      Shows s.queue.projected activeTerminalTabId
  | .other checkpoint => Readable checkpoint.shown ∧ Follows checkpoint.shown
  | .flush | .invalidate _ | .runTerminalMutation | .serve | .mutated _ | .mutationFailed => True

/-- What holds of the queue, the server and what is noted of them. -/
structure Core (origin : WorkspaceCheckpoint) (s : State) : Prop where
  queue : QueueInv s.queue
  confirmed : ∃ checkpoint ∈ s.past, s.queue.confirmed = cloneCheckpoint checkpoint
  workspace : ∀ checkpoint ∈ s.past, checkpoint.workspaceId = s.server.workspaceId
  revisions : s.past.Pairwise fun later earlier =>
    earlier.navigationRevision < later.navigationRevision
  readable : ∀ checkpoint ∈ s.past, Readable checkpoint.shown ∧ Follows checkpoint.shown
  replayed : s.server.shown = replay origin.shown s.changes
  counted : appliedNumbers s.changes ++ s.unapplied =
    (List.range s.accepted).filter fun number => number ∉ s.dropped
  dropped : ∀ number ∈ s.dropped, number < s.accepted
  ended : ∀ number ∈ s.ended, number < s.flushes
  waiting : ∀ number, .flush number ∈ s.waiting → number < s.flushes
  watched : ∀ flush ∈ s.watched, (∀ number, flush = some number → number ∈ s.ended) →
    s.queue.pending = []

/-- How far a save has come. -/
inductive Stage (s : State) : Prop
  | quiet
      (hrunning : ∀ operation start, s.running ≠ .saving operation start)
      (hrequest : s.request = .none)
  | sent (operation : Operation) (batch : LocalCheckpointBatch)
      (hrunning : s.running = .saving operation s.queue.confirmed)
      (hbatch : s.queue.retryBatch = some batch)
      (hrequest : s.request = .sent batch.payload (sentPending s.queue batch))
  | answered (operation : Operation) (committed : Bool) (checkpoint : WorkspaceCheckpoint)
      (hrunning : s.running = .saving operation s.queue.confirmed)
      (hbatch : s.queue.retryBatch.isSome = true)
      (hrequest : s.request = .answered committed checkpoint)
      (hpast : checkpoint ∈ s.past)
      (hrevision : s.queue.confirmed.navigationRevision ≤ checkpoint.navigationRevision)
  | overtaken (operation : Operation) (start : WorkspaceCheckpoint)
      (hrunning : s.running = .saving operation start)
      (hrevision : start.navigationRevision < s.queue.confirmed.navigationRevision)
      (hrequest : (∃ payload intents, s.request = .sent payload intents ∧
        payload.expectedRevision < s.queue.confirmed.navigationRevision) ∨
          ∃ checkpoint, s.request = .answered false checkpoint)

/-- What holds in every run that meets the conditions. -/
structure Inv (origin : WorkspaceCheckpoint) (s : State) : Prop extends Core origin s where
  stage : Stage s
  running : ∀ number start, s.running = .saving (.flush number) start → number < s.flushes

end Definitions

section Past

variable {origin : WorkspaceCheckpoint} {s : State}

theorem Core.revision_le (h : Core origin s) {checkpoint : WorkspaceCheckpoint}
    (hpast : checkpoint ∈ s.past) :
    checkpoint.navigationRevision ≤ s.server.navigationRevision := by
  obtain ⟨hlater, -⟩ := List.pairwise_cons.mp h.revisions
  rcases List.mem_cons.mp hpast with rfl | hearlier
  · exact Nat.le_refl _
  · exact (hlater checkpoint hearlier).le

theorem Core.eq_of_revision (h : Core origin s) {a b : WorkspaceCheckpoint}
    (ha : a ∈ s.past) (hb : b ∈ s.past)
    (hrevision : a.navigationRevision = b.navigationRevision) :
    a = b := by
  have hsymm : Std.Symm fun a b : WorkspaceCheckpoint =>
      a.navigationRevision = b.navigationRevision → a = b :=
    ⟨fun _ _ h heq => (h heq.symm).symm⟩
  have hsame : s.past.Pairwise fun a b => a.navigationRevision = b.navigationRevision → a = b :=
    h.revisions.imp fun hlt heq => absurd heq (Nat.ne_of_gt hlt)
  exact hsame.forall_of_forall (fun _ _ _ => rfl) ha hb hrevision

theorem Core.confirmed_le (h : Core origin s) :
    s.queue.confirmed.navigationRevision ≤ s.server.navigationRevision := by
  obtain ⟨checkpoint, hpast, hconfirmed⟩ := h.confirmed
  have hle := h.revision_le hpast
  rw [hconfirmed]
  exact hle

end Past

section Apply

theorem applyPending_eq (state : WorkspaceContentState) (pending : List PendingTopTabIntent) :
    applyPending state pending =
      (pending.map PendingTopTabIntent.action).foldl reduceWorkspaceContent state := by
  rw [List.foldl_map]
  rfl

theorem hydrate_storedContent_applyPending {checkpoint : WorkspaceCheckpoint}
    {pending : List PendingTopTabIntent} {activeTerminalTabId : JsString}
    (hreadable : Readable checkpoint.shown) (hfollows : Follows checkpoint.shown)
    (hplain : ∀ intent ∈ pending, intent.action.Plain) (htext : IsText activeTerminalTabId)
    (hshows : Shows (applyPending checkpoint.shown pending) activeTerminalTabId) :
    (Readable (applyPending checkpoint.shown pending) ∧
      Follows (applyPending checkpoint.shown pending)) ∧
      hydrateWorkspaceContentState
        (storedContent (serializeContentState (applyPending checkpoint.shown pending))
          activeTerminalTabId) activeTerminalTabId = applyPending checkpoint.shown pending := by
  have hactions : ∀ action ∈ pending.map PendingTopTabIntent.action, action.Plain := by
    intro action haction
    obtain ⟨intent, hintent, rfl⟩ := List.mem_map.mp haction
    exact hplain intent hintent
  obtain ⟨hreadable, hwellFormed, hfollows⟩ := run_reduce hreadable
    (wellFormed_hydrate checkpoint.contentState checkpoint.activeTerminalTabId).1 hfollows
    hactions
  rw [applyPending_eq] at hshows ⊢
  exact ⟨⟨hreadable, hfollows⟩,
    hreadable.hydrate_storedContent hwellFormed hfollows htext hshows⟩

end Apply

section Steps

variable {origin : WorkspaceCheckpoint} {s : State}

theorem inv_start (hreadable : Readable origin.shown) (hfollows : Follows origin.shown) :
    Inv origin (State.start origin) where
  queue := queueInv_make origin
  confirmed := ⟨origin, List.mem_cons_self, rfl⟩
  workspace := by
    intro checkpoint hpast
    rw [List.mem_singleton.mp hpast]
  revisions := List.pairwise_singleton _ _
  readable := by
    intro checkpoint hpast
    rw [List.mem_singleton.mp hpast]
    exact ⟨hreadable, hfollows⟩
  replayed := rfl
  counted := rfl
  dropped := fun _ h => absurd h List.not_mem_nil
  ended := fun _ h => absurd h List.not_mem_nil
  waiting := fun _ h => absurd h List.not_mem_nil
  watched := fun _ h => absurd h List.not_mem_nil
  stage := .quiet (by intro operation start h; cases h) rfl
  running := by
    intro number start h
    cases h

theorem filter_range_succ {accepted : Nat} {dropped : List Nat}
    (h : ∀ number ∈ dropped, number < accepted) :
    (List.range (accepted + 1)).filter (fun number => number ∉ dropped) =
      (List.range accepted).filter (fun number => number ∉ dropped) ++ [accepted] := by
  have hnew : accepted ∉ dropped := fun hmem => Nat.lt_irrefl _ (h accepted hmem)
  rw [List.range_succ, List.filter_append, List.filter_cons_of_pos (by simpa using hnew),
    List.filter_nil]

variable {action : WorkspaceContentAction}

theorem unapplied_accept {queue : TopTabNavigationQueue} {watched : List (Option Nat)}
    (h : Inv origin s) (haccepts : Accepts s.queue queue s.accepted action) :
    State.unapplied { s with queue := queue, accepted := s.accepted + 1, watched := watched } =
      s.unapplied ++ [s.accepted] := by
  unfold State.unapplied
  simp only
  by_cases hcommitted : s.request.isCommitted = true
  · rw [if_pos hcommitted, if_pos hcommitted, haccepts.retryBatch]
    have hbatch : ∃ batch, s.queue.retryBatch = some batch := by
      cases h.stage with
      | quiet hrunning hrequest =>
        rw [hrequest] at hcommitted
        cases hcommitted
      | sent operation batch hrunning hbatch hrequest => exact ⟨batch, hbatch⟩
      | answered operation committed checkpoint hrunning hbatch hrequest hpast hrevision =>
        exact Option.isSome_iff_exists.mp hbatch
      | overtaken operation start hrunning hrevision hrequest =>
        rcases hrequest with ⟨payload, intents, hrequest, -⟩ | ⟨checkpoint, hrequest⟩
        all_goals
          rw [hrequest] at hcommitted
          cases hcommitted
    obtain ⟨batch, hbatch⟩ := hbatch
    rw [hbatch]
    exact haccepts.laterPending hbatch (h.queue.retry batch hbatch).below
  · rw [if_neg hcommitted, if_neg hcommitted]
    exact haccepts.accepted

theorem Inv.enqueue (h : Inv origin s) (hok : Ok s (.enqueue action)) :
    Inv origin (s.step (.enqueue action)) := by
  obtain ⟨hplain, hmerges⟩ := hok
  simp only [State.step]
  cases henqueue : s.queue.enqueue s.accepted action with
  | mk queue isAccepted =>
    cases isAccepted with
    | false => exact h
    | true =>
      have haccepts := accepts_enqueue h.queue.projected hmerges hplain henqueue
      simp only [if_true]
      exact { h with
        queue := h.queue.accept haccepts hplain
        confirmed := by
          rw [haccepts.confirmed]
          exact h.confirmed
        counted := by
          rw [unapplied_accept h haccepts, ← List.append_assoc]
          exact (congrArg (· ++ [s.accepted]) h.counted).trans
            (filter_range_succ h.dropped).symm
        dropped := fun number hnumber => Nat.lt_succ_of_lt (h.dropped number hnumber)
        watched := fun _ hwatched => absurd hwatched List.not_mem_nil
        stage := by
          cases h.stage with
          | quiet hrunning hrequest => exact .quiet hrunning hrequest
          | sent operation batch hrunning hbatch hrequest =>
            refine .sent operation batch ?_ ?_ ?_
            · rw [haccepts.confirmed]
              exact hrunning
            · rw [haccepts.retryBatch]
              exact hbatch
            · rw [haccepts.sentPending hbatch (h.queue.retry batch hbatch).below]
              exact hrequest
          | answered operation committed checkpoint hrunning hbatch hrequest hpast hrevision =>
            refine .answered operation committed checkpoint ?_ ?_ hrequest hpast ?_
            · rw [haccepts.confirmed]
              exact hrunning
            · rw [haccepts.retryBatch]
              exact hbatch
            · rw [haccepts.confirmed]
              exact hrevision
          | overtaken operation start hrunning hrevision hrequest =>
            refine .overtaken operation start hrunning ?_ ?_
            · rw [haccepts.confirmed]
              exact hrevision
            · rw [haccepts.confirmed]
              exact hrequest }

theorem unapplied_eq (hrequest : s.request.isCommitted = false) :
    s.unapplied = s.queue.pending.flatMap PendingTopTabIntent.accepted := by
  rw [State.unapplied, if_neg (by rw [hrequest]; exact Bool.false_ne_true)]

theorem Core.counted_of {s' : State} (h : Core origin s)
    (hrequest : s.request.isCommitted = false) (hrequest' : s'.request.isCommitted = false)
    (hpending : s'.queue.pending = s.queue.pending) (hchanges : s'.changes = s.changes)
    (haccepted : s'.accepted = s.accepted) (hdropped : s'.dropped = s.dropped) :
    appliedNumbers s'.changes ++ s'.unapplied =
      (List.range s'.accepted).filter fun number => number ∉ s'.dropped := by
  rw [unapplied_eq hrequest', hpending, hchanges, haccepted, hdropped, ← h.counted,
    unapplied_eq hrequest]

variable {activeTerminalTabId : JsString} {operation : Operation}

theorem Core.drainLocal (h : Core origin s) (hrequest : s.request = .none)
    (hoperation : ∀ number, operation = .flush number → number < s.flushes)
    (htext : IsText activeTerminalTabId) (hshows : Shows s.queue.projected activeTerminalTabId) :
    Inv origin (s.drainLocal operation activeTerminalTabId) := by
  unfold State.drainLocal
  split_ifs with hpending
  · cases operation with
    | flush number =>
      exact { h with
        ended := by
          intro other hother
          rcases List.mem_cons.mp hother with rfl | hother
          · exact hoperation other rfl
          · exact h.ended other hother
        watched := fun _ _ _ => hpending
        stage := .quiet (by intro operation start hrunning; cases hrunning) hrequest
        running := by
          intro number start hrunning
          cases hrunning }
    | invalidate _ | mutation =>
      exact { h with
        stage := .quiet (by intro operation start hrunning; cases hrunning) hrequest
        running := by
          intro number start hrunning
          cases hrunning }
  · have hbatch := h.queue.nextBatch hpending htext hshows
    exact { h with
      queue := h.queue.send hbatch
      counted := h.counted_of (by rw [hrequest]; rfl) rfl rfl rfl rfl rfl
      stage := .sent operation _ rfl rfl rfl
      running := by
        intro number start hrunning
        cases hrunning
        exact hoperation number rfl }

theorem Inv.reconcile (h : Inv origin s) {checkpoint : WorkspaceCheckpoint} {force : Bool}
    (hpast : checkpoint ∈ s.past ∨ checkpoint.workspaceId ≠ s.server.workspaceId)
    (hok : Ok s (.reconcile checkpoint force)) :
    Inv origin { s with queue := s.queue.reconcile checkpoint force } ∧
      s.queue.confirmed.navigationRevision ≤
        (s.queue.reconcile checkpoint force).confirmed.navigationRevision := by
  rcases reconcile_cases s.queue checkpoint force with
    hsame | ⟨hrevision, hworkspace, hdiffers, hconfirm⟩
  · rw [hsame]
    exact ⟨h, Nat.le_refl _⟩
  obtain ⟨old, hold, hconfirmed⟩ := h.confirmed
  have hours : s.queue.confirmed.workspaceId = s.server.workspaceId := by
    rw [hconfirmed]
    exact h.workspace old hold
  have hpast : checkpoint ∈ s.past := hpast.resolve_right
    (not_not.mpr (hworkspace.trans hours))
  have hlater : s.queue.confirmed.navigationRevision < checkpoint.navigationRevision := by
    refine lt_of_le_of_ne hrevision ?_
    intro heq
    have hsame : old = checkpoint := by
      refine h.toCore.eq_of_revision hold hpast ?_
      rw [← heq, hconfirmed]
      rfl
    refine hdiffers ?_
    rw [hconfirmed, cloneCheckpoint_cloneCheckpoint, hsame]
  have hcommitted : s.request.isCommitted = false := by
    rw [Bool.eq_false_iff]
    intro hcommitted
    rcases hok hcommitted with hle | hother
    · exact absurd hlater (Nat.not_lt.mpr hle)
    · exact hother hworkspace
  rw [hconfirm]
  refine ⟨{ h with
    queue := h.queue.confirm checkpoint
    confirmed := ⟨checkpoint, hpast, rfl⟩
    counted := h.toCore.counted_of hcommitted hcommitted rfl rfl rfl rfl
    stage := ?_ }, hrevision⟩
  cases h.stage with
  | quiet hrunning hrequest => exact .quiet hrunning hrequest
  | sent operation batch hrunning hbatch hrequest =>
    refine .overtaken operation s.queue.confirmed hrunning hlater (.inl ⟨_, _, hrequest, ?_⟩)
    rw [(h.queue.retry batch hbatch).revision]
    exact hlater
  | answered operation committed answer hrunning hbatch hrequest hanswer hle =>
    refine .overtaken operation s.queue.confirmed hrunning hlater (.inr ⟨answer, ?_⟩)
    rw [hrequest] at hcommitted
    cases committed with
    | true => cases hcommitted
    | false => exact hrequest
  | overtaken operation start hrunning hle hrequest =>
    refine .overtaken operation start hrunning (hle.trans hlater) ?_
    rcases hrequest with ⟨payload, intents, hrequest, hexpected⟩ | ⟨answer, hrequest⟩
    · exact .inl ⟨payload, intents, hrequest, hexpected.trans hlater⟩
    · exact .inr ⟨answer, hrequest⟩

theorem Core.counted_dropped (h : Core origin s) (hrequest : s.request.isCommitted = false) :
    appliedNumbers s.changes =
      (List.range s.accepted).filter fun number =>
        number ∉ s.dropped ++ s.queue.pending.flatMap PendingTopTabIntent.accepted := by
  have hcounted := h.counted
  rw [unapplied_eq hrequest] at hcounted
  have hnodup : ((List.range s.accepted).filter fun number => number ∉ s.dropped).Nodup :=
    List.nodup_range.filter _
  rw [← hcounted] at hnodup
  obtain ⟨-, -, hdisjoint⟩ := List.nodup_append.mp hnodup
  have hsplit : ((List.range s.accepted).filter fun number =>
      number ∉ s.dropped ++ s.queue.pending.flatMap PendingTopTabIntent.accepted) =
        ((List.range s.accepted).filter fun number => number ∉ s.dropped).filter
          fun number => number ∉ s.queue.pending.flatMap PendingTopTabIntent.accepted := by
    rw [List.filter_filter]
    refine List.filter_congr ?_
    intro number _
    rw [Bool.eq_iff_iff]
    simp only [List.mem_append, not_or, decide_eq_true_eq, Bool.and_eq_true]
    exact And.comm
  have hkept : (appliedNumbers s.changes).filter (fun number =>
      number ∉ s.queue.pending.flatMap PendingTopTabIntent.accepted) =
        appliedNumbers s.changes := by
    refine List.filter_eq_self.mpr ?_
    intro number hnumber
    exact decide_eq_true fun hmem => hdisjoint number hnumber number hmem rfl
  have hgone : (s.queue.pending.flatMap PendingTopTabIntent.accepted).filter (fun number =>
      number ∉ s.queue.pending.flatMap PendingTopTabIntent.accepted) = [] := by
    refine List.filter_eq_nil_iff.mpr ?_
    intro number hnumber hnot
    exact of_decide_eq_true hnot hnumber
  rw [hsplit, ← hcounted, List.filter_append, hkept, hgone, List.append_nil]

theorem Core.invalidate (h : Core origin s) (hrequest : s.request.isCommitted = false)
    (preserveError : Bool) :
    Core origin
      { s with
        queue := s.queue.invalidate preserveError
        dropped := s.dropped ++ s.queue.pending.flatMap PendingTopTabIntent.accepted } :=
  { h with
    queue := queueInv_invalidate s.queue preserveError
    counted := by
      rw [unapplied_eq (by exact hrequest)]
      exact (List.append_nil _).trans (h.counted_dropped hrequest)
    dropped := by
      intro number hnumber
      rcases List.mem_append.mp hnumber with hnumber | hnumber
      · exact h.dropped number hnumber
      · have hmem : number ∈ appliedNumbers s.changes ++ s.unapplied := by
          rw [unapplied_eq hrequest]
          exact List.mem_append_right _ hnumber
        rw [h.counted] at hmem
        exact List.mem_range.mp (List.mem_filter.mp hmem).1
    watched := fun _ _ _ => rfl }

theorem Inv.request_none (h : Inv origin s)
    (hrunning : ∀ operation start, s.running ≠ .saving operation start) :
    s.request = .none := by
  cases h.stage with
  | quiet _ hrequest => exact hrequest
  | sent _ _ hsaving | answered _ _ _ hsaving | overtaken _ _ hsaving =>
    exact absurd hsaving (hrunning _ _)

theorem Inv.begin (h : Inv origin s) (hok : Ok s (.begin activeTerminalTabId)) :
    Inv origin (s.begin activeTerminalTabId) := by
  obtain ⟨htext, hshows⟩ := hok
  unfold State.begin
  cases hrunning : s.running with
  | saving _ _ | mutating => exact h
  | idle =>
    have hrequest : s.request = .none := by
      refine h.request_none ?_
      intro operation start hsaving
      rw [hrunning] at hsaving
      cases hsaving
    have hcommitted : s.request.isCommitted = false := by
      rw [hrequest]
      rfl
    cases hwaiting : s.waiting with
    | nil => exact h
    | cons operation waiting =>
      have hrest : ∀ number, .flush number ∈ waiting → number < s.flushes := by
        intro number hnumber
        refine h.waiting number ?_
        rw [hwaiting]
        exact List.mem_cons_of_mem _ hnumber
      have hcore : Core origin { s with waiting := waiting } :=
        { h.toCore with
          counted := h.toCore.counted_of hcommitted hcommitted rfl rfl rfl rfl
          waiting := hrest }
      cases operation with
      | invalidate preserveError =>
        exact { hcore.invalidate hcommitted preserveError with
          stage := .quiet (by intro operation start hsaving; cases hsaving) hrequest
          running := by
            intro number start hsaving
            cases hsaving }
      | flush number =>
        refine hcore.drainLocal hrequest ?_ htext hshows
        intro other hother
        cases hother
        refine h.waiting number ?_
        rw [hwaiting]
        exact List.mem_cons_self
      | mutation =>
        refine hcore.drainLocal hrequest ?_ htext hshows
        intro other hother
        cases hother

theorem Inv.sent_cases (h : Inv origin s) {payload : SaveWorkspaceCheckpointData}
    {intents : List PendingTopTabIntent} (hrequest : s.request = .sent payload intents) :
    (∃ operation batch, s.running = .saving operation s.queue.confirmed ∧
      s.queue.retryBatch = some batch ∧ payload = batch.payload ∧
        intents = sentPending s.queue batch) ∨
      ∃ operation start, s.running = .saving operation start ∧
        start.navigationRevision < s.queue.confirmed.navigationRevision ∧
          payload.expectedRevision < s.queue.confirmed.navigationRevision := by
  cases h.stage with
  | quiet hrunning hnone => exact absurd (hnone.symm.trans hrequest) (by simp)
  | sent operation batch hrunning hbatch hsent =>
    cases hsent.symm.trans hrequest
    exact .inl ⟨operation, batch, hrunning, hbatch, rfl, rfl⟩
  | answered operation committed checkpoint hrunning hbatch hanswered =>
    exact absurd (hanswered.symm.trans hrequest) (by simp)
  | overtaken operation start hrunning hrevision hlate =>
    rcases hlate with ⟨other, others, hsent, hexpected⟩ | ⟨checkpoint, hanswered⟩
    · cases hsent.symm.trans hrequest
      exact .inr ⟨operation, start, hrunning, hrevision, hexpected⟩
    · exact absurd (hanswered.symm.trans hrequest) (by simp)

theorem Core.confirmed_eq (h : Core origin s)
    (hrevision : s.queue.confirmed.navigationRevision = s.server.navigationRevision) :
    s.queue.confirmed = cloneCheckpoint s.server := by
  obtain ⟨checkpoint, hpast, hconfirmed⟩ := h.confirmed
  have hsame : checkpoint = s.server := by
    refine h.eq_of_revision hpast List.mem_cons_self ?_
    rw [← hrevision, hconfirmed]
    rfl
  rw [hconfirmed, hsame]

section

variable (h : Inv origin s)
include h

/-- **The server stores the batch that is kept.** -/
theorem Inv.commit {batch : LocalCheckpointBatch}
    (hrunning : s.running = .saving operation s.queue.confirmed)
    (hbatch : s.queue.retryBatch = some batch)
    (hrequest : s.request = .sent batch.payload (sentPending s.queue batch))
    (hexpected : batch.payload.expectedRevision = s.server.navigationRevision) :
    Inv origin
      { s with
        request := .answered true (State.stored s.server batch.payload)
        server := State.stored s.server batch.payload
        earlier := s.past
        changes := s.changes ++ [.applied (sentPending s.queue batch)] } := by
  obtain ⟨hrevision, hcontent, htext, hshows, -⟩ := h.queue.retry batch hbatch
  have hconfirmed := h.toCore.confirmed_eq (hrevision.symm.trans hexpected)
  have hshown : s.queue.confirmed.shown = s.server.shown := by
    rw [hconfirmed, shown_cloneCheckpoint]
  rw [hshown] at hcontent hshows
  obtain ⟨hreadable, hfollows⟩ := h.readable s.server List.mem_cons_self
  obtain ⟨hbothAlike, hstored⟩ := hydrate_storedContent_applyPending hreadable hfollows
    (fun intent hintent => h.queue.plain intent (List.mem_of_mem_filter hintent)) htext hshows
  have hnew : (State.stored s.server batch.payload).shown =
      applyPending s.server.shown (sentPending s.queue batch) := by
    rw [WorkspaceCheckpoint.shown, State.stored, hcontent]
    exact hstored
  exact { h with
    confirmed := by
      obtain ⟨checkpoint, hpast, hsame⟩ := h.confirmed
      exact ⟨checkpoint, List.mem_cons_of_mem _ hpast, hsame⟩
    workspace := by
      intro checkpoint hpast
      rcases List.mem_cons.mp hpast with rfl | hpast
      · rfl
      · exact h.workspace checkpoint hpast
    revisions := by
      refine List.pairwise_cons.mpr ⟨?_, h.revisions⟩
      intro checkpoint hpast
      exact Nat.lt_succ_of_le (h.toCore.revision_le hpast)
    readable := by
      intro checkpoint hpast
      rcases List.mem_cons.mp hpast with rfl | hpast
      · rw [hnew]
        exact hbothAlike
      · exact h.readable checkpoint hpast
    replayed := by
      rw [hnew, replay, List.foldl_append, h.replayed]
      rfl
    counted := by
      have hcounted := h.counted
      rw [unapplied_eq (by rw [hrequest]; rfl),
        ← filter_append_filter h.queue.sorted batch.maxSequence, List.flatMap_append,
        ← List.append_assoc] at hcounted
      rw [← hcounted, State.unapplied, appliedNumbers, List.flatMap_append]
      simp only [Request.isCommitted, if_true, hbatch, Option.map_some, Option.getD_some]
      rw [List.flatMap_singleton]
      rfl
    stage := .answered operation true _ hrunning (by simp only [hbatch, Option.isSome_some]) rfl
      List.mem_cons_self
      (Nat.le_succ_of_le (hrevision.symm.trans hexpected).le) }

theorem Inv.refuse {payload : SaveWorkspaceCheckpointData}
    {intents : List PendingTopTabIntent} (hrequest : s.request = .sent payload intents) :
    Inv origin { s with request := .answered false s.server } :=
  { h with
    counted := h.toCore.counted_of (by rw [hrequest]; rfl) rfl rfl rfl rfl rfl
    stage := by
      rcases h.sent_cases hrequest with
        ⟨operation, batch, hrunning, hbatch, -⟩ | ⟨operation, start, hrunning, hrevision, -⟩
      · exact .answered operation false s.server hrunning
          (by simp only [hbatch, Option.isSome_some]) rfl List.mem_cons_self h.toCore.confirmed_le
      · exact .overtaken operation start hrunning hrevision (.inr ⟨s.server, rfl⟩) }

theorem Inv.serve : Inv origin s.serve := by
  unfold State.serve
  cases hrequest : s.request with
  | none | answered _ _ => exact h
  | sent payload intents =>
    simp only
    split_ifs with hexpected
    · rcases h.sent_cases hrequest with
        ⟨operation, batch, hrunning, hbatch, rfl, rfl⟩ | ⟨operation, start, -, -, hlate⟩
      · exact h.commit hrunning hbatch hrequest hexpected
      · exact absurd hexpected (Nat.ne_of_lt (hlate.trans_le h.toCore.confirmed_le))
    · exact h.refuse hrequest

theorem Inv.disregard (hcommitted : s.request.isCommitted = false) :
    Core origin s.disregard :=
  { h.toCore with
    queue := h.queue.forget
    counted := h.toCore.counted_of hcommitted rfl rfl rfl rfl rfl }

/-- **Taking in a response.** -/
theorem Inv.takeIn {start checkpoint : WorkspaceCheckpoint}
    {committed : Bool} (hrunning : s.running = .saving operation start)
    (hrequest : s.request = .answered committed checkpoint) :
    Core origin (s.takeIn start committed checkpoint) ∧
      (s.takeIn start committed checkpoint).request = .none ∧
      (s.takeIn start committed checkpoint).flushes = s.flushes ∧
      s.queue.confirmed.navigationRevision ≤
        (s.takeIn start committed checkpoint).queue.confirmed.navigationRevision := by
  unfold State.takeIn
  cases h.stage with
  | quiet hquiet hnone => exact absurd hrunning (hquiet _ _)
  | sent other batch hsaving hbatch hsent => exact absurd (hsent.symm.trans hrequest) (by simp)
  | answered other flag answer hsaving hbatch hanswered hpast hrevision =>
    cases hanswered.symm.trans hrequest
    cases hsaving.symm.trans hrunning
    rw [if_pos (checkpointsEquivalent_self _)]
    refine ⟨{ h.toCore with
      queue := h.queue.acknowledge committed checkpoint
      confirmed := ⟨checkpoint, hpast, rfl⟩
      counted := ?_
      watched := ?_ }, rfl, rfl, hrevision⟩
    · have hcounted := h.counted
      rw [← hcounted, unapplied_eq rfl]
      unfold State.unapplied
      rw [hrequest]
      cases committed with
      | true | false => rfl
    · intro flush hflush hended
      have hnil := h.watched flush hflush hended
      cases committed with
      | true =>
        change s.queue.pending.filter _ = []
        rw [hnil]
        rfl
      | false => exact hnil
  | overtaken other begun hsaving hlater hlate =>
    cases hsaving.symm.trans hrunning
    rw [not_checkpointsEquivalent (Nat.ne_of_gt hlater), if_neg Bool.false_ne_true]
    have hcommitted : s.request.isCommitted = false := by
      rcases hlate with ⟨payload, intents, hsent, -⟩ | ⟨answer, hanswered⟩
      · rw [hsent]
        rfl
      · rw [hanswered]
        rfl
    exact ⟨h.disregard hcommitted, rfl, rfl, Nat.le_refl _⟩

end

theorem confirmed_drainLocal (s : State) (operation : Operation)
    (activeTerminalTabId : JsString) :
    (s.drainLocal operation activeTerminalTabId).queue.confirmed = s.queue.confirmed := by
  unfold State.drainLocal
  split_ifs
  · cases operation <;> rfl
  · rfl

theorem Inv.respond (h : Inv origin s) (hok : Ok s (.respond activeTerminalTabId)) :
    Inv origin (s.respond activeTerminalTabId) ∧
      s.queue.confirmed.navigationRevision ≤
        (s.respond activeTerminalTabId).queue.confirmed.navigationRevision := by
  obtain ⟨htext, hshows⟩ := hok
  unfold State.taken at hshows
  unfold State.respond
  cases hrunning : s.running with
  | idle | mutating => exact ⟨h, Nat.le_refl _⟩
  | saving operation start =>
    cases hrequest : s.request with
    | none | sent _ _ => exact ⟨h, Nat.le_refl _⟩
    | answered committed checkpoint =>
      rw [hrunning, hrequest] at hshows
      obtain ⟨hcore, hnone, hflushes, hrevision⟩ := h.takeIn hrunning hrequest
      refine ⟨hcore.drainLocal hnone ?_ htext hshows, ?_⟩
      · intro number hnumber
        rw [hflushes]
        exact h.running number start (by rw [hrunning, hnumber])
      · simp only
        rw [confirmed_drainLocal]
        exact hrevision

theorem Inv.fail (h : Inv origin s) (hok : Ok s (.fail activeTerminalTabId)) :
    Inv origin (s.fail activeTerminalTabId) ∧
      (s.fail activeTerminalTabId).queue.confirmed = s.queue.confirmed := by
  obtain ⟨hcommitted, htext, hshows⟩ := hok
  unfold State.fail
  cases hrunning : s.running with
  | idle | mutating => exact ⟨h, rfl⟩
  | saving operation start =>
    simp only
    split_ifs with hsame
    · refine ⟨{ h.toCore with
        queue := h.queue.failed
        counted := h.toCore.counted_of hcommitted rfl rfl rfl rfl rfl
        stage := .quiet (by intro operation start hsaving; cases hsaving) rfl
        running := ?_ }, rfl⟩
      intro number start hsaving
      cases hsaving
    · refine ⟨(h.disregard hcommitted).drainLocal rfl ?_ htext hshows,
        confirmed_drainLocal _ _ _⟩
      intro number hnumber
      exact h.running number start (by rw [hrunning, hnumber])

theorem Stage.of {s' : State} (h : Stage s) (hqueue : s'.queue = s.queue)
    (hrunning : s'.running = s.running) (hrequest : s'.request = s.request)
    (hpast : s'.past = s.past) :
    Stage s' := by
  cases h with
  | quiet hquiet hnone =>
    rw [← hrunning] at hquiet
    exact .quiet hquiet (hrequest.trans hnone)
  | sent operation batch hsaving hbatch hsent =>
    rw [← hqueue] at hbatch hsent hsaving
    exact .sent operation batch (hrunning.trans hsaving) hbatch (hrequest.trans hsent)
  | answered operation committed answer hsaving hbatch hanswered hmem hrevision =>
    rw [← hqueue] at hbatch hsaving hrevision
    rw [← hpast] at hmem
    exact .answered operation committed answer (hrunning.trans hsaving) hbatch
      (hrequest.trans hanswered) hmem hrevision
  | overtaken operation start hsaving hrevision hlate =>
    rw [← hqueue] at hrevision hlate
    rw [← hrequest] at hlate
    exact .overtaken operation start (hrunning.trans hsaving) hrevision hlate

theorem Inv.waits (h : Inv origin s) (hoperation : ∀ number, operation ≠ .flush number) :
    Inv origin { s with waiting := s.waiting ++ [operation] } :=
  { h with
    waiting := by
      intro number hnumber
      rcases List.mem_append.mp hnumber with hnumber | hnumber
      · exact h.waiting number hnumber
      · exact absurd (List.mem_singleton.mp hnumber).symm (hoperation number)
    stage := h.stage.of rfl rfl rfl rfl }

theorem Inv.idle (h : Inv origin s) (hrequest : s.request = .none) :
    Inv origin { s with running := .idle } :=
  { h with
    stage := .quiet (by intro operation start hsaving; cases hsaving) hrequest
    running := by
      intro number start hsaving
      cases hsaving }

theorem Inv.other (h : Inv origin s) {checkpoint : WorkspaceCheckpoint}
    (hworkspace : checkpoint.workspaceId = s.server.workspaceId)
    (hlater : s.server.navigationRevision < checkpoint.navigationRevision)
    (hok : Ok s (.other checkpoint)) :
    Inv origin
      { s with
        server := checkpoint
        earlier := s.past
        changes := s.changes ++ [.other checkpoint] } :=
  { h with
    confirmed := by
      obtain ⟨old, hpast, hsame⟩ := h.confirmed
      exact ⟨old, List.mem_cons_of_mem _ hpast, hsame⟩
    workspace := by
      intro old hpast
      rcases List.mem_cons.mp hpast with rfl | hpast
      · rfl
      · exact (h.workspace old hpast).trans hworkspace.symm
    revisions := by
      refine List.pairwise_cons.mpr ⟨?_, h.revisions⟩
      intro old hpast
      exact (h.toCore.revision_le hpast).trans_lt hlater
    readable := by
      intro old hpast
      rcases List.mem_cons.mp hpast with rfl | hpast
      · exact hok
      · exact h.readable old hpast
    replayed := by
      rw [replay, List.foldl_append]
      rfl
    counted := by
      rw [appliedNumbers, List.flatMap_append]
      refine Eq.trans ?_ h.counted
      change (_ ++ []) ++ _ = _
      rw [List.append_nil]
      rfl
    stage := by
      cases h.stage with
      | quiet hrunning hrequest => exact .quiet hrunning hrequest
      | sent operation batch hrunning hbatch hrequest =>
        exact .sent operation batch hrunning hbatch hrequest
      | answered operation committed answer hrunning hbatch hrequest hpast hrevision =>
        exact .answered operation committed answer hrunning hbatch hrequest
          (List.mem_cons_of_mem _ hpast) hrevision
      | overtaken operation start hrunning hrevision hrequest =>
        exact .overtaken operation start hrunning hrevision hrequest }

end Steps

end NavigationQueue

import Crest.SessionAppend
import Crest.TurnAgreement

/-!
# Where offers and plans part

An offer of the session state is held against the plan that would run it: the
planner is called on the same entries, with the folded leaf and the workspace of
the checkpoint, and snapshots, commits and coverage raise no objection.  The two
part in four ways: an id is repeated that only the session state minds, a leaf
entry lies on the branch that only the planners mind, the turn or its checkpoint is
not committed, or an entry that is not committed is in the way.
-/

namespace Session

open Workspace

variable (digest : Digest)

/-- The input of a plan for a turn of the session, in the workspace of a
checkpoint. -/
def planInput (entries : List SessionTreeEntry) (sessionId turnId : JsString)
    (checkpoint : AvailableCheckpoint) : PlanTurnRestoreInput :=
  { sessionId
    workspaceIdentity := checkpoint.workspaceIdentity
    workspaceIncarnation := checkpoint.workspaceIncarnation
    rawEntries := entries
    semanticLeafId := (foldWorkspaceSessionState digest entries sessionId).semanticLeafId
    sourceTurnId := turnId }

theorem semanticLeafId_planInput (entries : List SessionTreeEntry) (sessionId turnId : JsString)
    (checkpoint : AvailableCheckpoint) :
    (planInput digest entries sessionId turnId checkpoint).semanticLeafId = rawLeafId entries := by
  simp only [planInput, foldWorkspaceSessionState]
  split <;> rfl

section Plan

variable {ρ : Type} (rest : PreparedTurn → ResolvedAuthority → Except JsString ρ)

/-- The plan that runs an action, when no snapshot, commit or coverage objects to
the checkpoint. -/
def planTurn (input : PlanTurnRestoreInput) :
    WorkspaceTurnMutationAuthority → Except HardBlock ρ
  | .undo => planTurnUndo digest (fun _ => none) rest input
  | .redo undoOperationId => planTurnRedo digest (fun _ => none) rest input undoOperationId

/-- A plan is hard-blocked on the structure of the session. -/
def BlocksOnStructure (input : PlanTurnRestoreInput)
    (action : WorkspaceTurnMutationAuthority) : Prop :=
  ∃ reason, planTurn digest rest input action = .error (.structure reason)

theorem planRest_ne_structure (prepared : PreparedTurn) (resolved : ResolvedAuthority)
    (reason : JsString) :
    planRest rest prepared resolved ≠ .error (.structure reason) := by
  unfold planRest
  cases rest prepared resolved <;> simp [Except.mapError]

/-- **A plan in the workspace of its checkpoint passes the structure of the session
exactly when the markers allow its action.** -/
theorem not_blocksOnStructure_iff {input : PlanTurnRestoreInput} {prepared : PreparedTurn}
    (hprepared : prepareStructure digest input = .ok prepared)
    (hidentity : prepared.checkpoint.workspaceIdentity = input.workspaceIdentity)
    (hincarnation : prepared.checkpoint.workspaceIncarnation = input.workspaceIncarnation)
    (action : WorkspaceTurnMutationAuthority) :
    ¬ BlocksOnStructure digest rest input action ↔
      (sourceMutationAuthority digest input prepared).authority = action := by
  have hok : prepare digest input (fun _ => none) = .ok prepared := by
    simp [prepare, hprepared, hidentity, hincarnation]
  unfold BlocksOnStructure planTurn
  cases action with
  | undo =>
    simp only [planTurnUndo, hok]
    split
    · rename_i hother
      simp [hother]
    · rename_i hsame
      simpa [planRest_ne_structure] using hsame
  | redo undoOperationId =>
    simp only [planTurnRedo, hok]
    split
    · rename_i hother
      refine iff_of_false (by simp) fun hsame => ?_
      -- the marker that led to this redo is its undo
      obtain ⟨state, sourceTurnId, hlatest, hmutation, hoperation⟩ :=
        coherent_sourceMutationAuthority digest input prepared undoOperationId hsame
      simp [hsame, hlatest, hmutation, hoperation] at hother
    · rename_i hsame
      rw [not_or, not_not] at hsame
      exact iff_of_true (by simp [planRest_ne_structure]) hsame.1

theorem exists_prepared_of_not_blocks {input : PlanTurnRestoreInput}
    {action : WorkspaceTurnMutationAuthority} (h : ¬ BlocksOnStructure digest rest input action) :
    ∃ prepared, prepareStructure digest input = .ok prepared := by
  cases hprepared : prepareStructure digest input with
  | ok prepared => exact ⟨prepared, rfl⟩
  | error reason =>
    refine absurd ⟨reason, ?_⟩ h
    cases action <;> simp [planTurn, planTurnUndo, planTurnRedo, prepare, hprepared]

/-- The planners, asked in the workspace of a checkpoint, find that checkpoint and
do not block an action on the structure of the session. -/
structure Plans (entries : List SessionTreeEntry) (sessionId turnId : JsString)
    (checkpoint : AvailableCheckpoint) (action : WorkspaceTurnMutationAuthority) : Prop where
  /-- It is the checkpoint they find. -/
  found : ∃ prepared,
    prepareStructure digest (planInput digest entries sessionId turnId checkpoint) =
      .ok prepared ∧ prepared.checkpoint = checkpoint
  /-- They do not block. -/
  passes : ¬ BlocksOnStructure digest rest
    (planInput digest entries sessionId turnId checkpoint) action

end Plan

variable {branch : List SessionTreeEntry}

theorem ClosesTurn.index_lt {counted : SessionTreeEntry → Bool}
    {turnId sessionId : JsString} {checkpoint : AvailableCheckpoint} {parts : TurnParts}
    (h : ClosesTurn digest counted branch turnId sessionId checkpoint parts) :
    parts.index < branch.length := by
  have hlength := congrArg List.length h.window
  simp only [turnWindow, slice, List.length_drop, List.length_take, List.length_append,
    List.length_cons] at hlength
  unfold TurnParts.index
  omega

/-- **The planners run an action for a turn exactly when a checkpoint closes the
turn among the committed entries of the branch and the markers after it lead to
that action.** -/
theorem plans_iff {ρ : Type} (rest : PreparedTurn → ResolvedAuthority → Except JsString ρ)
    (entries : List SessionTreeEntry) (sessionId turnId : JsString)
    (checkpoint : AvailableCheckpoint) (action : WorkspaceTurnMutationAuthority) :
    Plans digest rest entries sessionId turnId checkpoint action ↔
      ∃ branch parts, activeBranchForRestore entries (rawLeafId entries) = .ok branch ∧
        ClosesTurn digest (isCommitted digest branch) branch turnId sessionId checkpoint parts ∧
        authorityAfter digest branch sessionId turnId ⟨checkpoint, parts.index⟩ = action := by
  have hleaf := semanticLeafId_planInput digest entries sessionId turnId checkpoint
  constructor
  · rintro ⟨⟨⟨branch, _, index⟩, hprepared, rfl⟩, hpasses⟩
    obtain ⟨hactive, parts, hcloses, rfl⟩ := (prepareStructure_iff digest _ _ _ _).mp hprepared
    rw [hleaf] at hactive
    refine ⟨branch, parts, hactive, hcloses, ?_⟩
    rw [not_blocksOnStructure_iff digest rest hprepared rfl rfl,
      sourceMutationAuthority_authority digest _ _ _ _ (hcloses.index_lt digest) rfl rfl] at hpasses
    exact hpasses
  · rintro ⟨branch, parts, hactive, hcloses, rfl⟩
    have hprepared := (prepareStructure_iff digest
      (planInput digest entries sessionId turnId checkpoint) branch checkpoint parts.index).mpr
      ⟨hleaf ▸ hactive, parts, hcloses, rfl⟩
    refine { found := ⟨_, hprepared, rfl⟩, passes := ?_ }
    rw [not_blocksOnStructure_iff digest rest hprepared rfl rfl,
      sourceMutationAuthority_authority digest _ _ _ _ (hcloses.index_lt digest) rfl rfl]
    rfl

theorem ClosesTurn.unique {entries : List SessionTreeEntry}
    (hbranch : IsActiveBranch entries branch) {counted : SessionTreeEntry → Bool}
    {turnId sessionId : JsString} {checkpoint other : AvailableCheckpoint}
    {parts otherParts : TurnParts}
    (h : ClosesTurn digest (fun _ => true) branch turnId sessionId checkpoint parts)
    (hother : ClosesTurn digest counted branch turnId sessionId other otherParts) :
    otherParts = parts := by
  obtain ⟨sourceIndex, source, before, entry, after⟩ := parts
  obtain ⟨sourceIndex', source', before', entry', after'⟩ := otherParts
  obtain ⟨rfl, rfl⟩ := index_inj hbranch h.source hother.source
    (h.sourceId.trans hother.sourceId.symm)
  have hwindow := h.window.symm.trans hother.window
  have hcheckpoint := hother.closed.isCheckpoint
  have hbefore : entry' ∉ before := fun hmem => by
    simp [h.closed.noneBefore entry' hmem rfl] at hcheckpoint
  have hafter : entry' ∉ after := fun hmem => by
    simp [(h.closed.controlAfter entry' hmem rfl).1] at hcheckpoint
  obtain ⟨rfl, rfl, rfl⟩ := (List.append_cons_inj_of_notMem hbefore hafter).mp hwindow
  rfl

/-- The four ways of reading a turn differently. -/
inductive ReadDifferently (entries : List SessionTreeEntry) (sessionId turnId : JsString) : Prop
  /-- An id is repeated, and the planners find a checkpoint all the same. -/
  | repeatedId (branch : List SessionTreeEntry) (checkpoint : AvailableCheckpoint)
      (parts : TurnParts)
      (active : activeBranchForRestore entries (rawLeafId entries) = .ok branch)
      (closes : ClosesTurn digest (isCommitted digest branch) branch turnId sessionId
        checkpoint parts)
      (repeated : ¬ (entries.map SessionTreeEntry.id).Nodup)
  /-- The session state finds a checkpoint on a branch with a leaf entry. -/
  | leafOnBranch (branch : List SessionTreeEntry) (checkpoint : AvailableCheckpoint)
      (parts : TurnParts)
      (active : activeBranch entries (rawLeafId entries) = some branch)
      (closes : ClosesTurn digest (fun _ => true) branch turnId sessionId checkpoint parts)
      (leaf : ∃ entry ∈ branch, entry.isLeaf = true)
  /-- The session state finds a checkpoint, and it or its turn is not committed. -/
  | uncommitted (branch : List SessionTreeEntry) (checkpoint : AvailableCheckpoint)
      (parts : TurnParts)
      (active : activeBranch entries (rawLeafId entries) = some branch)
      (closes : ClosesTurn digest (fun _ => true) branch turnId sessionId checkpoint parts)
      (uncommitted : isCommitted digest branch parts.source = false ∨
        isCommitted digest branch parts.entry = false)
  /-- The planners find a checkpoint, and an entry that is not committed would be in
  its way. -/
  | inTheWay (branch : List SessionTreeEntry) (checkpoint : AvailableCheckpoint)
      (parts : TurnParts)
      (active : activeBranchForRestore entries (rawLeafId entries) = .ok branch)
      (closes : ClosesTurn digest (isCommitted digest branch) branch turnId sessionId
        checkpoint parts)
      (hidden : (∃ entry ∈ parts.before, isCheckpointEntry entry = true) ∨
        ∃ entry ∈ parts.after, isCheckpointEntry entry = true ∨
          isWorkspaceControlEntry entry = false)

/-- Offers and plans agree on a turn: what is offered can be planned, and what can
be planned is offered. -/
def AgreeOn {ρ : Type} (rest : PreparedTurn → ResolvedAuthority → Except JsString ρ)
    (entries : List SessionTreeEntry) (sessionId turnId : JsString) : Prop :=
  ∀ checkpoint action,
    (Offers (foldWorkspaceSessionState digest entries sessionId) turnId checkpoint action →
      ¬ BlocksOnStructure digest rest (planInput digest entries sessionId turnId checkpoint)
        action) ∧
    (Plans digest rest entries sessionId turnId checkpoint action →
      Offers (foldWorkspaceSessionState digest entries sessionId) turnId checkpoint action)

section Agree

variable {ρ : Type} (rest : PreparedTurn → ResolvedAuthority → Except JsString ρ)
  {entries : List SessionTreeEntry} {sessionId turnId : JsString}

variable {action : WorkspaceTurnMutationAuthority}

theorem plans_of_offers (hsame : ¬ ReadDifferently digest entries sessionId turnId)
    {checkpoint : AvailableCheckpoint}
    (h : Offers (foldWorkspaceSessionState digest entries sessionId) turnId checkpoint action) :
    Plans digest rest entries sessionId turnId checkpoint action := by
  obtain ⟨branch, parts, hactive, hcloses, hauthority⟩ := (offers_iff digest _ _ _ _ _).mp h
  have hleaf : ∀ entry ∈ branch, entry.isLeaf = false := by
    intro entry hmem
    by_contra hleaf
    rw [Bool.not_eq_false] at hleaf
    exact hsame (.leafOnBranch branch checkpoint parts hactive hcloses ⟨entry, hmem, hleaf⟩)
  have hcommitted : isCommitted digest branch parts.source = true ∧
      isCommitted digest branch parts.entry = true := by
    by_contra hnot
    rw [not_and_or, Bool.not_eq_true, Bool.not_eq_true] at hnot
    exact hsame (.uncommitted branch checkpoint parts hactive hcloses hnot)
  refine (plans_iff digest rest _ _ _ _ _).mpr
    ⟨branch, parts, restore_of_activeBranch hactive hleaf, ?_, hauthority⟩
  exact { hcloses with
    sourceCounted := hcommitted.1
    closed := { hcloses.closed with
      entryCounted := hcommitted.2
      noneBefore := fun entry hmem _ => hcloses.closed.noneBefore entry hmem rfl
      controlAfter := fun entry hmem _ => hcloses.closed.controlAfter entry hmem rfl } }

theorem offers_of_plans (hsame : ¬ ReadDifferently digest entries sessionId turnId)
    {checkpoint : AvailableCheckpoint}
    (h : Plans digest rest entries sessionId turnId checkpoint action) :
    Offers (foldWorkspaceSessionState digest entries sessionId) turnId checkpoint action := by
  obtain ⟨branch, parts, hactive, hcloses, hauthority⟩ := (plans_iff digest rest _ _ _ _ _).mp h
  have hnodup : (entries.map SessionTreeEntry.id).Nodup := by
    by_contra hrepeated
    exact hsame (.repeatedId branch checkpoint parts hactive hcloses hrepeated)
  have hclear : (∀ entry ∈ parts.before, isCheckpointEntry entry = false) ∧
      ∀ entry ∈ parts.after, isCheckpointEntry entry = false ∧
        isWorkspaceControlEntry entry = true := by
    by_contra hnot
    refine hsame (.inTheWay branch checkpoint parts hactive hcloses ?_)
    simpa [not_and_or, or_iff_not_imp_left] using hnot
  refine (offers_iff digest _ _ _ _ _).mpr
    ⟨branch, parts, activeBranch_of_restore hactive hnodup, ?_, hauthority⟩
  exact { hcloses with
    sourceCounted := rfl
    closed := { hcloses.closed with
      entryCounted := rfl
      noneBefore := fun entry hmem _ => hclear.1 entry hmem
      controlAfter := fun entry hmem _ => hclear.2 entry hmem } }

variable {branch : List SessionTreeEntry}

theorem AgreeOn.restores (hagree : AgreeOn digest rest entries sessionId turnId)
    {checkpoint : AvailableCheckpoint} {parts : TurnParts}
    (hactive : activeBranch entries (rawLeafId entries) = some branch)
    (hcloses : ClosesTurn digest (fun _ => true) branch turnId sessionId checkpoint parts) :
    activeBranchForRestore entries (rawLeafId entries) = .ok branch ∧
      ∃ other, ClosesTurn digest (isCommitted digest branch) branch turnId sessionId other
        parts := by
  have hpasses := (hagree checkpoint _).1
    ((offers_iff digest _ _ _ _ _).mpr ⟨branch, parts, hactive, hcloses, rfl⟩)
  obtain ⟨⟨restored, other, index⟩, hprepared⟩ := exists_prepared_of_not_blocks digest rest hpasses
  obtain ⟨hrestored, otherParts, hother, -⟩ := (prepareStructure_iff digest _ _ _ _).mp hprepared
  rw [semanticLeafId_planInput] at hrestored
  have hnodup := nodup_of_activeBranch hactive
    (List.ne_nil_of_mem (List.mem_of_getElem? hcloses.source))
  obtain rfl : restored = branch :=
    Option.some.inj ((activeBranch_of_restore hrestored hnodup).symm.trans hactive)
  obtain rfl := hcloses.unique digest (activeBranch_spec hactive) hother
  exact ⟨hrestored, other, hother⟩

theorem AgreeOn.offers (hagree : AgreeOn digest rest entries sessionId turnId)
    {checkpoint : AvailableCheckpoint} {parts : TurnParts}
    (hactive : activeBranchForRestore entries (rawLeafId entries) = .ok branch)
    (hcloses : ClosesTurn digest (isCommitted digest branch) branch turnId sessionId
      checkpoint parts) :
    (entries.map SessionTreeEntry.id).Nodup ∧
      ClosesTurn digest (fun _ => true) branch turnId sessionId checkpoint parts := by
  have hoffer := (hagree checkpoint _).2
    ((plans_iff digest rest _ _ _ _ _).mpr ⟨branch, parts, hactive, hcloses, rfl⟩)
  obtain ⟨folded, foldedParts, hfolded, hall, -⟩ := (offers_iff digest _ _ _ _ _).mp hoffer
  have hnodup := nodup_of_activeBranch hfolded
    (List.ne_nil_of_mem (List.mem_of_getElem? hall.source))
  obtain rfl : folded = branch :=
    Option.some.inj (hfolded.symm.trans (activeBranch_of_restore hactive hnodup))
  obtain rfl := hall.unique digest (activeBranch_spec hfolded) hcloses
  exact ⟨hnodup, hall⟩

theorem not_agreeOn_of_readDifferently
    (hdifferent : ReadDifferently digest entries sessionId turnId) :
    ¬ AgreeOn digest rest entries sessionId turnId := by
  intro hagree
  cases hdifferent with
  | repeatedId branch checkpoint parts hactive hcloses hrepeated =>
    exact hrepeated (hagree.offers digest rest hactive hcloses).1
  | leafOnBranch branch checkpoint parts hactive hcloses hleaf =>
    obtain ⟨entry, hmem, hleaf⟩ := hleaf
    have hrestored := (hagree.restores digest rest hactive hcloses).1
    simp [(activeBranchForRestore_spec hrestored).2 entry hmem] at hleaf
  | uncommitted branch checkpoint parts hactive hcloses huncommitted =>
    obtain ⟨-, other, hother⟩ := hagree.restores digest rest hactive hcloses
    simp [hother.sourceCounted, hother.closed.entryCounted] at huncommitted
  | inTheWay branch checkpoint parts hactive hcloses hhidden =>
    have hall := (hagree.offers digest rest hactive hcloses).2.closed
    rcases hhidden with ⟨entry, hmem, hcheckpoint⟩ | ⟨entry, hmem, hother⟩
    · simp [hall.noneBefore entry hmem rfl] at hcheckpoint
    · simp [hall.controlAfter entry hmem rfl] at hother

/-- **Offers and plans agree on a turn exactly when it is not read differently.** -/
theorem offers_agree_with_plans_iff
    (entries : List SessionTreeEntry) (sessionId turnId : JsString) :
    AgreeOn digest rest entries sessionId turnId ↔
      ¬ ReadDifferently digest entries sessionId turnId := by
  constructor
  · exact fun hagree hdifferent => not_agreeOn_of_readDifferently digest rest hdifferent hagree
  · intro hsame checkpoint action
    exact ⟨fun hoffers => (plans_of_offers digest rest hsame hoffers).passes,
      offers_of_plans digest rest hsame⟩

end Agree

/-- A snapshot of some workspace, named by one digit. -/
def someSnapshot (digit : UInt16) : WorkspaceSnapshotRefV1 where
  id := List.replicate 40 digit
  workspaceIdentity := List.replicate 64 0x61
  workspaceIncarnation := List.replicate 64 0x62
  tree := List.replicate 40 digit
  scopeManifest := List.replicate 40 0x66

/-- The checkpoint of a turn that changed nothing. -/
def quietCheckpoint : AvailableCheckpoint where
  originSessionId := js "session"
  turnId := js "turn"
  workspaceIdentity := List.replicate 64 0x61
  workspaceIncarnation := List.replicate 64 0x62
  before := someSnapshot 0x30
  after := someSnapshot 0x31
  changes := []
  coverage := { complete := true, eligibleEntryCount := 0, newlyHashedBytes := 0, exclusions := [] }

/-- A turn with its checkpoint, and after it the first entry of a transaction whose
manifest was never written. -/
def tornSession : List SessionTreeEntry :=
  [{ id := js "turn", parentId := none,
     body := .message (.obj [(js "role", .str (js "user"))]) },
   { id := js "checkpoint", parentId := some (js "turn"),
     body := .custom checkpointCustomType
       (some (WorkspaceCheckpointV1.available quietCheckpoint).toJson) },
   { id := js "torn", parentId := some (js "checkpoint"), transactionId := some (js "t"),
     body := .sessionInfo none }]

/-- **The torn entry hides an undo that the planner runs.** -/
theorem torn_session_hides_undo :
    planTurn constantDigest (fun _ _ => .ok ())
        (planInput constantDigest tornSession (js "session") (js "turn") quietCheckpoint) .undo =
      .ok () ∧
    (foldWorkspaceSessionState constantDigest tornSession (js "session")).eligibleTurnIds = [] ∧
    ¬ AgreeOn constantDigest (fun _ _ => Except.ok ()) tornSession (js "session")
      (js "turn") := by
  refine ⟨by decide +kernel, by decide +kernel, ?_⟩
  have hbranch : activeBranchForRestore tornSession (rawLeafId tornSession) =
      .ok tornSession := by
    decide +kernel
  refine not_agreeOn_of_readDifferently _ _ (.inTheWay tornSession quietCheckpoint
    ⟨0, tornSession[0], [], tornSession[1], [tornSession[2]]⟩ hbranch ?_ ?_)
  · exact
      { source := rfl
        sourceId := rfl
        isUser := by decide +kernel
        sourceCounted := by decide +kernel
        window := by decide +kernel
        closed :=
          { entryCounted := by decide +kernel
            isCheckpoint := by decide +kernel
            decoded := by decide +kernel
            turnId := rfl
            sessionId := rfl
            noneBefore := by decide +kernel
            controlAfter := by decide +kernel } }
  · exact Or.inr ⟨tornSession[2], by decide +kernel, Or.inr (by decide +kernel)⟩

end Session

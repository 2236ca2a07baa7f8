import Crest.SessionState

/-!
# Planning the undo and the redo of a turn

A turn is undone by going back to the snapshot before it, and the undo is redone
by going back to the snapshot before the undo.  Either plan first reads the
session: the leaf, the branch, the turn, its checkpoint, and what the markers
after the checkpoint allow.  What comes after that looks at snapshots, commits and
files and is a parameter here, so that a plan can be blocked for two kinds of
reasons.
-/

namespace Session

open Workspace

variable (digest : Digest)

/-- Why a plan is hard-blocked. -/
inductive HardBlock
  /-- The session does not have what the plan needs. -/
  | structure (reason : JsString)
  /-- Snapshots, commits, coverage or files do not allow it. -/
  | evidence (reason : JsString)
  deriving DecidableEq, Repr

/-- The part of `PlanTurnRestoreBaseInput` the session is read with. -/
structure PlanTurnRestoreInput where
  sessionId : JsString
  workspaceIdentity : JsString
  workspaceIncarnation : JsString
  rawEntries : List SessionTreeEntry
  semanticLeafId : Option JsString
  sourceTurnId : JsString

/-- The place of an entry in `entryIndexes`: a later entry of the same id replaces
an earlier one. -/
def entryIndex (branch : List SessionTreeEntry) (id : JsString) : Option Nat :=
  (branch.zipIdx.reverse.find? fun item => item.1.id == id).map Prod.snd

/-- Where a committed transaction starts: the index of its first entry. -/
def restoreTransactionStart (branch : List SessionTreeEntry)
    (transaction : CommittedSessionEntryTransaction) : Option Nat :=
  transaction.physicalEntries.head?.bind fun first => entryIndex branch first.id

/-- `committedTransactionStartsByUserId` of the planners. -/
def restoreTransactionStartsByUserId (branch : List SessionTreeEntry) : JsMap JsString Nat :=
  (filterCommittedTransactionEntries digest branch).committedTransactions.values.foldl
    (fun starts transaction =>
      starts.setSome transaction.userEntryId (restoreTransactionStart branch transaction))
    JsMap.empty

/-- The next user turn of the branch. -/
def nextUserIndex (branch : List SessionTreeEntry) (sourceIndex : Nat) : Option Nat :=
  (List.range branch.length).find? fun index =>
    sourceIndex < index && (branch[index]?).any isUserTurn

/-- The end of the window after a turn. -/
def restoreEnd (branch : List SessionTreeEntry) (sourceIndex : Nat) : Nat :=
  match nextUserIndex branch sourceIndex with
  | none => branch.length
  | some next =>
    match (branch[next]?).bind fun user =>
      (restoreTransactionStartsByUserId digest branch).get user.id with
    | some transactionStart => if sourceIndex < transactionStart then transactionStart else next
    | none => next

/-- `terminalCheckpoint`: the checkpoint of a turn and where it stands.  Only
committed entries count. -/
def terminalCheckpoint (branch : List SessionTreeEntry) (sourceIndex : Nat)
    (sourceTurnId sessionId : JsString) : Except JsString (AvailableCheckpoint × Nat) :=
  let stop := restoreEnd digest branch sourceIndex
  let items := (slice branch (sourceIndex + 1) stop).zipIdx (sourceIndex + 1)
  match items.filter fun item => isCommitted digest branch item.1 && isCheckpointEntry item.1 with
  | [] => .error (js "workspace checkpoint is missing")
  | [selected] =>
    match decodeWorkspaceCheckpointEntry selected.1 with
    | none => .error (js "workspace checkpoint is invalid")
    | some checkpoint =>
      if checkpoint.originSessionId ≠ sessionId then
        .error (js "checkpoint is owned by another session")
      else if checkpoint.turnId ≠ sourceTurnId then
        .error (js "workspace checkpoint is invalid")
      else if (slice branch (selected.2 + 1) stop).any fun entry =>
          isCommitted digest branch entry && !isWorkspaceControlEntry entry then
        .error (js "workspace checkpoint is not terminal")
      else
        match checkpoint with
        | .unavailable checkpoint =>
          .error (js "workspace checkpoint is unavailable: " ++ checkpoint.reasonCode.text)
        | .available checkpoint => .ok (checkpoint, selected.2)
  | _ => .error (js "workspace checkpoint is not unique")

/-- What `prepare` found. -/
structure PreparedTurn where
  branch : List SessionTreeEntry
  checkpoint : AvailableCheckpoint
  checkpointIndex : Nat

/-- The first half of `prepare`: what the session says. -/
def prepareStructure (input : PlanTurnRestoreInput) : Except JsString PreparedTurn :=
  match activeBranchForRestore input.rawEntries input.semanticLeafId with
  | .error reason => .error reason
  | .ok branch =>
    match branch.findIdx? fun entry => entry.id == input.sourceTurnId && isUserTurn entry with
    | none => .error (js "source turn is not a durable user entry on the active branch")
    | some sourceIndex =>
      if !(branch[sourceIndex]?).any fun entry => isCommitted digest branch entry then
        .error (js "source turn is not committed on the active branch")
      else
        match terminalCheckpoint digest branch sourceIndex input.sourceTurnId
            input.sessionId with
        | .error reason => .error reason
        | .ok (checkpoint, checkpointIndex) => .ok { branch, checkpoint, checkpointIndex }

/-- `prepare`: then the checkpoint is held against the workspace, its snapshots,
its commit and its coverage. -/
def prepare (input : PlanTurnRestoreInput)
    (evidence : AvailableCheckpoint → Option JsString) : Except HardBlock PreparedTurn :=
  match prepareStructure digest input with
  | .error reason => .error (.structure reason)
  | .ok prepared =>
    if prepared.checkpoint.workspaceIdentity ≠ input.workspaceIdentity ∨
        prepared.checkpoint.workspaceIncarnation ≠ input.workspaceIncarnation then
      .error (.evidence (js "checkpoint workspace identity or incarnation does not match"))
    else
      match evidence prepared.checkpoint with
      | some reason => .error (.evidence reason)
      | none => .ok prepared

/-- What the markers after a checkpoint allow, and the marker that decided it. -/
structure ResolvedAuthority where
  authority : WorkspaceTurnMutationAuthority := .undo
  latestState : Option WorkspaceStateV1 := none

/-- Whether a marker is about the turn of the input, in its session and
workspace. -/
def concernsTurn (input : PlanTurnRestoreInput) (state : WorkspaceStateV1) : Bool :=
  state.sessionId = input.sessionId &&
    (turnMutation state).any (fun mutation => mutation.sourceTurnId = input.sourceTurnId) &&
    state.workspaceIdentity = input.workspaceIdentity &&
    state.workspaceIncarnation = input.workspaceIncarnation

/-- One round of the loop of `sourceMutationAuthority`. -/
def resolveStep (resolved : ResolvedAuthority) (state : WorkspaceStateV1) : ResolvedAuthority :=
  let next := advanceTurnMutationAuthority resolved.authority state
  { authority := next
    latestState := if next = resolved.authority then resolved.latestState else some state }

def sourceMutationAuthority (input : PlanTurnRestoreInput) (prepared : PreparedTurn) :
    ResolvedAuthority :=
  ((prepared.branch.drop (prepared.checkpointIndex + 1)).filterMap fun entry =>
      if !isCommitted digest prepared.branch entry then none
      else (decodeWorkspaceStateEntry entry).filter (concernsTurn input)).foldl resolveStep {}

section Plan

variable {ρ : Type} (evidence : AvailableCheckpoint → Option JsString)
  (rest : PreparedTurn → ResolvedAuthority → Except JsString ρ)

/-- What remains of a plan once the session allows it. -/
def planRest (prepared : PreparedTurn) (resolved : ResolvedAuthority) : Except HardBlock ρ :=
  (rest prepared resolved).mapError .evidence

def planTurnUndo (input : PlanTurnRestoreInput) : Except HardBlock ρ :=
  match prepare digest input evidence with
  | .error block => .error block
  | .ok prepared =>
    let resolved := sourceMutationAuthority digest input prepared
    if resolved.authority ≠ .undo then
      .error (.structure
        (js "Undo requires the source turn's current authority to allow Undo"))
    else planRest rest prepared resolved

def planTurnRedo (input : PlanTurnRestoreInput) (undoOperationId : JsString) :
    Except HardBlock ρ :=
  match prepare digest input evidence with
  | .error block => .error block
  | .ok prepared =>
    let resolved := sourceMutationAuthority digest input prepared
    if resolved.authority ≠ .redo undoOperationId ∨
        !(resolved.latestState.any fun state =>
          (turnMutation state).any (fun mutation =>
            match mutation with | .turnUndo _ => true | .turnRedo .. => false) &&
            state.operationId = undoOperationId) then
      .error (.structure
        (js "Redo requires the source turn's current last marker to point at this undoOperationId"))
    else planRest rest prepared resolved

end Plan

end Session

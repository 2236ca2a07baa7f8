import Crest.SessionBranch
import Crest.TransactionVisibility
import Crest.WorkspaceValidation

/-!
# The workspace state of a session

`foldWorkspaceSessionState` reads the active branch of a session: which turns have
a checkpoint, and for each of them whether it can be undone or an undo of it can be
redone.  Markers count only when their entry is committed; user turns, checkpoints
and what follows them count as they stand on the branch.
-/

namespace Session

open Workspace

variable (digest : Digest)

/-- `WorkspaceControlCustomTypes.checkpoint`. -/
def checkpointCustomType : JsString := js "workspace_checkpoint"

/-- `WorkspaceControlCustomTypes.state`. -/
def stateCustomType : JsString := js "workspace_state"

/-- The custom type of an entry that has one. -/
def SessionTreeEntry.customType (entry : SessionTreeEntry) : Option JsString :=
  match entry.body with
  | .custom customType _ => some customType
  | _ => none

/-- The data of a custom entry. -/
def SessionTreeEntry.customData (entry : SessionTreeEntry) : Option Json :=
  match entry.body with
  | .custom _ data => data
  | _ => none

def isUserTurn (entry : SessionTreeEntry) : Bool :=
  match entry.body with
  | .message message => message.get (js "role") = some (.str (js "user"))
  | _ => false

/-- Whether an entry claims to be a checkpoint. -/
def isCheckpointEntry (entry : SessionTreeEntry) : Bool :=
  entry.customType = some checkpointCustomType

def isWorkspaceControlEntry (entry : SessionTreeEntry) : Bool :=
  entry.customType = some checkpointCustomType || entry.customType = some stateCustomType

def isContextCustomEntry (entry : SessionTreeEntry) : Bool :=
  entry.customType = some (js "context_artifact") ||
    entry.customType = some (js "context_attach") ||
    entry.customType = some (js "context_projection") ||
    entry.customType = some sessionTransactionManifestCustomType

def decodeWorkspaceCheckpointEntry (entry : SessionTreeEntry) : Option WorkspaceCheckpointV1 :=
  if entry.customType ≠ some checkpointCustomType then none
  else entry.customData.bind decodeWorkspaceCheckpointV1

def decodeWorkspaceStateEntry (entry : SessionTreeEntry) : Option WorkspaceStateV1 :=
  if entry.customType ≠ some stateCustomType then none
  else entry.customData.bind decodeWorkspaceStateV1

/-- `displayLeafId`: the last entry a reader of the conversation sees. -/
def displayLeafId (branch : List SessionTreeEntry) : Option JsString :=
  (branch.reverse.find? fun entry =>
    !entry.isLeaf && !(match entry.body with | .label .. => true | _ => false) &&
      !isContextCustomEntry entry && !isWorkspaceControlEntry entry).map SessionTreeEntry.id

/-- `WorkspaceTurnMutationAuthority`: what can be done to a turn next. -/
inductive WorkspaceTurnMutationAuthority
  | undo
  | redo (undoOperationId : JsString)
  deriving DecidableEq, Repr

/-- `WorkspaceTurnMutationStateV1`: a marker of an undo or a redo of a turn, with
the turn and, for a redo, the undo it took back. -/
inductive TurnMutation
  | turnUndo (sourceTurnId : JsString)
  | turnRedo (sourceTurnId undoOperationId : JsString)
  deriving DecidableEq, Repr

/-- The turn a marker is about. -/
def TurnMutation.sourceTurnId : TurnMutation → JsString
  | .turnUndo sourceTurnId => sourceTurnId
  | .turnRedo sourceTurnId _ => sourceTurnId

/-- What a marker does to a turn, if it does anything to one. -/
def turnMutation (state : WorkspaceStateV1) : Option TurnMutation :=
  match state.kind with
  | .turnUndo sourceTurnId => some (.turnUndo sourceTurnId)
  | .turnRedo sourceTurnId undoOperationId _ => some (.turnRedo sourceTurnId undoOperationId)
  | .rewind .. | .redo .. => none

def advanceTurnMutationAuthority (current : WorkspaceTurnMutationAuthority)
    (state : WorkspaceStateV1) : WorkspaceTurnMutationAuthority :=
  match turnMutation state, current with
  | some (.turnUndo _), .undo => .redo state.operationId
  | some (.turnRedo _ undoOperationId), .redo current' =>
    if current' = undoOperationId then .undo else current
  | _, _ => current

/-- `branch.slice(start, end)`. -/
def slice (branch : List SessionTreeEntry) (start stop : Nat) : List SessionTreeEntry :=
  (branch.take stop).drop start

/-- Where a committed transaction starts: the index of its first entry, if its user
entry comes later. -/
def transactionStart (branch : List SessionTreeEntry)
    (transaction : CommittedSessionEntryTransaction) : Option Nat := do
  let firstEntry ← transaction.physicalEntries.head?
  let firstIndex ← branch.findIdx? fun entry => entry == firstEntry
  let userIndex ← branch.findIdx? fun entry => entry.id == transaction.userEntryId
  if firstIndex < userIndex then some firstIndex else none

def committedTransactionStartsByUserId (branch : List SessionTreeEntry) : JsMap JsString Nat :=
  (filterCommittedTransactionEntries digest branch).committedTransactions.values.foldl
    (fun starts transaction =>
      starts.setSome transaction.userEntryId (transactionStart branch transaction))
    JsMap.empty

def userIndexes (branch : List SessionTreeEntry) : List Nat :=
  (List.range branch.length).filter fun index => (branch[index]?).any isUserTurn

/-- The end of the window after a turn: where the transaction of the next user turn
starts, or that turn itself, or the end of the branch. -/
def turnEnd (branch : List SessionTreeEntry) (nextUserIndex : Option Nat) : Nat :=
  match nextUserIndex with
  | none => branch.length
  | some next =>
    ((branch[next]?).bind fun user =>
      (committedTransactionStartsByUserId digest branch).get user.id).getD next

/-- A turn without a usable checkpoint. -/
structure CheckpointGap where
  turnId : JsString
  reason : JsString
  deriving DecidableEq, Repr

def checkpointGapReason (checkpoint : WorkspaceCheckpointV1) : JsString :=
  match checkpoint with
  | .unavailable checkpoint =>
    js "workspace checkpoint unavailable: " ++ checkpoint.reasonCode.text
  | .available _ => js "workspace checkpoint unavailable"

/-- The checkpoint of a turn and its place after the turn, or the reason there is
none.  Every entry of the window counts. -/
def checkpointOfTurn (turnEntries : List SessionTreeEntry) (turnId sessionId : JsString) :
    Except JsString (WorkspaceCheckpointV1 × Nat) :=
  match turnEntries.filter isCheckpointEntry with
  | [] => .error (js "workspace checkpoint is missing")
  | [checkpointEntry] =>
    match decodeWorkspaceCheckpointEntry checkpointEntry with
    | none => .error (js "workspace checkpoint is invalid")
    | some checkpoint =>
      let checkpointIndex := turnEntries.findIdx fun entry => entry == checkpointEntry
      if checkpoint.turnId ≠ turnId then
        .error (js "workspace checkpoint turnId does not match the active turn")
      else if checkpoint.originSessionId ≠ sessionId then
        .error (js "workspace checkpoint originSessionId does not match the session")
      else if (turnEntries.drop (checkpointIndex + 1)).any
          fun entry => !isWorkspaceControlEntry entry then
        .error (js "workspace checkpoint is not terminal")
      else .ok (checkpoint, checkpointIndex)
  | _ => .error (js "workspace checkpoint is not unique")

/-- One turn of the branch, with what the loop over the turns found out. -/
structure FoldedTurn where
  turnId : JsString
  /-- Its checkpoint and where that stands on the branch. -/
  checkpoint : Except JsString (WorkspaceCheckpointV1 × Nat)

/-- One round of the loop over the turns. -/
def foldTurn (branch : List SessionTreeEntry) (sessionId : JsString)
    (turn : Nat × Option Nat) : FoldedTurn :=
  let turnId := ((branch[turn.1]?).map SessionTreeEntry.id).getD []
  let turnEntries := slice branch (turn.1 + 1) (turnEnd digest branch turn.2)
  { turnId
    checkpoint := (checkpointOfTurn turnEntries turnId sessionId).map fun found =>
      (found.1, turn.1 + 1 + found.2) }

/-- Every user turn with the one after it. -/
def turnsWithNext (branch : List SessionTreeEntry) : List (Nat × Option Nat) :=
  let indexes := userIndexes branch
  indexes.zip (indexes.tail.map some ++ [none])

/-- The loop over the turns. -/
def foldedTurns (branch : List SessionTreeEntry) (sessionId : JsString) : List FoldedTurn :=
  (turnsWithNext branch).map (foldTurn digest branch sessionId)

/-- A source of undo and redo: a turn, its checkpoint and where that stands. -/
structure MutationSource where
  checkpoint : AvailableCheckpoint
  branchIndex : Nat
  deriving DecidableEq, Repr

/-- The source a turn is, if its checkpoint is available. -/
def FoldedTurn.mutationSource (turn : FoldedTurn) : Option MutationSource :=
  match turn.checkpoint with
  | .ok (.available checkpoint, branchIndex) => some { checkpoint, branchIndex }
  | _ => none

/-- What the fold says is wrong with a turn. -/
def FoldedTurn.gap (turn : FoldedTurn) : Option CheckpointGap :=
  match turn.checkpoint with
  | .error reason => some { turnId := turn.turnId, reason }
  | .ok (.available _, _) => none
  | .ok (.unavailable checkpoint, _) =>
    some { turnId := turn.turnId, reason := checkpointGapReason (.unavailable checkpoint) }

/-- `committedEntrySet.has(entry)`. -/
def isCommitted (branch : List SessionTreeEntry) (entry : SessionTreeEntry) : Bool :=
  decide (entry ∈ (filterCommittedTransactionEntries digest branch).entries)

/-- The committed markers of a session on the branch, with their places. -/
def committedStates (branch : List SessionTreeEntry) (sessionId : JsString) :
    List (Nat × WorkspaceStateV1) :=
  branch.zipIdx.filterMap fun item =>
    if !isCommitted digest branch item.1 then none
    else
      match decodeWorkspaceStateEntry item.1 with
      | some state => if state.sessionId = sessionId then some (item.2, state) else none
      | none => none

/-- One round of the loop over `turnMutationStates`. -/
def advanceTurn (sources : JsMap JsString MutationSource)
    (mutations : JsMap JsString WorkspaceTurnMutationAuthority)
    (item : Nat × WorkspaceStateV1) : JsMap JsString WorkspaceTurnMutationAuthority :=
  match turnMutation item.2 with
  | none => mutations
  | some mutation =>
    match sources.get mutation.sourceTurnId, mutations.get mutation.sourceTurnId with
    | some source, some current =>
      if item.1 ≤ source.branchIndex ∨
          item.2.workspaceIdentity ≠ source.checkpoint.workspaceIdentity ∨
          item.2.workspaceIncarnation ≠ source.checkpoint.workspaceIncarnation then mutations
      else
        mutations.set mutation.sourceTurnId (advanceTurnMutationAuthority current item.2)
    | _, _ => mutations

structure FoldedWorkspaceSessionState where
  /-- The checkpoint of every turn that has one. -/
  checkpointsByTurnId : JsMap JsString WorkspaceCheckpointV1
  activeWorkspaceState : Option WorkspaceStateV1
  /-- The rewind at the leaf, which can be taken back. -/
  conversationRedoState : Option WorkspaceStateV1
  /-- What can be done to each eligible turn. -/
  turnMutationsByTurnId : JsMap JsString WorkspaceTurnMutationAuthority
  semanticLeafId : Option JsString
  /-- The last entry a reader of the conversation sees. -/
  displayLeafId : Option JsString
  /-- The turns with an available checkpoint. -/
  eligibleTurnIds : List JsString
  checkpointGaps : List CheckpointGap

/-- The rewind marker at the end of a branch. -/
def conversationRedoState (branch : List SessionTreeEntry) (sessionId : JsString) :
    Option WorkspaceStateV1 := do
  let rawLeaf ← branch.getLast?
  if !isCommitted digest branch rawLeaf then none
  else
    let state ← decodeWorkspaceStateEntry rawLeaf
    match state.kind with
    | .rewind .. => if state.sessionId = sessionId then some state else none
    | _ => none

/-- The sources among some turns. -/
def mutationSources (turns : List FoldedTurn) : JsMap JsString MutationSource :=
  turns.foldl (fun sources turn => sources.setSome turn.turnId turn.mutationSource) JsMap.empty

/-- The eligible turns among some turns. -/
def eligibleTurns (turns : List FoldedTurn) : List JsString :=
  turns.filterMap fun turn => turn.mutationSource.map fun _ => turn.turnId

/-- `turnMutationsByTurnId`: every eligible turn starts at undo. -/
def turnMutations (branch : List SessionTreeEntry) (sessionId : JsString)
    (turns : List FoldedTurn) : JsMap JsString WorkspaceTurnMutationAuthority :=
  (committedStates digest branch sessionId).foldl (advanceTurn (mutationSources turns))
    ((eligibleTurns turns).foldl (fun mutations turnId => mutations.set turnId .undo) JsMap.empty)

def foldWorkspaceSessionState (entries : List SessionTreeEntry) (sessionId : JsString) :
    FoldedWorkspaceSessionState :=
  match activeBranch entries (rawLeafId entries) with
  | none =>
    { checkpointsByTurnId := JsMap.empty
      activeWorkspaceState := none
      conversationRedoState := none
      turnMutationsByTurnId := JsMap.empty
      semanticLeafId := rawLeafId entries
      displayLeafId := none
      eligibleTurnIds := []
      checkpointGaps := [] }
  | some branch =>
    let turns := foldedTurns digest branch sessionId
    { checkpointsByTurnId :=
        turns.foldl
          (fun checkpoints turn =>
            checkpoints.setSome turn.turnId (turn.checkpoint.toOption.map Prod.fst))
          JsMap.empty
      activeWorkspaceState :=
        ((committedStates digest branch sessionId).getLast?).map Prod.snd
      conversationRedoState := conversationRedoState digest branch sessionId
      turnMutationsByTurnId := turnMutations digest branch sessionId turns
      semanticLeafId := rawLeafId entries
      displayLeafId := displayLeafId branch
      eligibleTurnIds := eligibleTurns turns
      checkpointGaps := turns.filterMap FoldedTurn.gap }

end Session

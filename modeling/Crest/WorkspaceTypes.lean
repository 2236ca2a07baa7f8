import Crest.CapturedPath
import Crest.JsonRecord

/-!
# Checkpoints and workspace markers

The values the workspace code writes into a session: a checkpoint after every
user turn, and a marker after every restore.  `toJson` is the plain data a value
is made of, with its fields in the order the code writes them; writing that data
to a file and parsing it again gives the same data back.
-/

namespace Workspace

def WorkspaceCoverageReason.text : WorkspaceCoverageReason → JsString
  | .ignored => js "ignored"
  | .nestedRepository => js "nested-repository"
  | .oversizedUntracked => js "oversized-untracked"
  | .nonUtf8Path => js "non-utf8-path"
  | .hardLinked => js "hard-linked"
  | .specialEntry => js "special-entry"
  | .captureBudget => js "capture-budget"

/-- Why a turn has no checkpoint. -/
inductive WorkspaceCheckpointFailureCode
  | disabled
  | gitUnavailable
  | captureTimeout
  | captureBudget
  | unstableFile
  | enospc
  | quotaExceeded
  | hostedPtyRunning
  | processCrashBeforeFinalization
  | corruptSnapshot
  deriving DecidableEq, Repr

def WorkspaceCheckpointFailureCode.text : WorkspaceCheckpointFailureCode → JsString
  | .disabled => js "disabled"
  | .gitUnavailable => js "git_unavailable"
  | .captureTimeout => js "capture_timeout"
  | .captureBudget => js "capture_budget"
  | .unstableFile => js "unstable_file"
  | .enospc => js "enospc"
  | .quotaExceeded => js "quota_exceeded"
  | .hostedPtyRunning => js "hosted_pty_running"
  | .processCrashBeforeFinalization => js "process_crash_before_finalization"
  | .corruptSnapshot => js "corrupt_snapshot"

/-- A snapshot of the workspace, by the commit, the tree and the manifest that
hold it. -/
structure WorkspaceSnapshotRefV1 where
  id : JsString
  workspaceIdentity : JsString
  workspaceIncarnation : JsString
  tree : JsString
  /-- The blob that holds scope and coverage. -/
  scopeManifest : JsString
  deriving DecidableEq, Repr

/-- One path that differs between two snapshots. -/
structure WorkspacePathChangeV1 where
  path : JsString
  before : CapturedPathStateV1
  after : CapturedPathStateV1
  deriving DecidableEq, Repr

/-- A part of the workspace that was not captured. -/
inductive WorkspaceSnapshotCoverageExclusion
  | path (path : JsString) (reason : WorkspaceCoverageReason)
  | pathBytesBase64 (pathBytesBase64 : JsString) (reason : WorkspaceCoverageReason)
  | workspaceRoot
  deriving DecidableEq, Repr

/-- How much of the workspace a snapshot captured. -/
structure WorkspaceSnapshotCoverage where
  complete : Bool
  eligibleEntryCount : Nat
  newlyHashedBytes : Nat
  exclusions : List WorkspaceSnapshotCoverageExclusion
  deriving DecidableEq, Repr

/-- The checkpoint of a captured turn. -/
structure AvailableCheckpoint where
  originSessionId : JsString
  turnId : JsString
  workspaceIdentity : JsString
  workspaceIncarnation : JsString
  before : WorkspaceSnapshotRefV1
  after : WorkspaceSnapshotRefV1
  changes : List WorkspacePathChangeV1
  coverage : WorkspaceSnapshotCoverage
  deriving DecidableEq, Repr

/-- The checkpoint of a turn that was not captured. -/
structure UnavailableCheckpoint where
  originSessionId : JsString
  turnId : JsString
  workspaceIdentity : JsString
  workspaceIncarnation : Option JsString
  reasonCode : WorkspaceCheckpointFailureCode
  message : JsString
  coverage : Option WorkspaceSnapshotCoverage
  deriving DecidableEq, Repr

/-- A checkpoint of a user turn; the constructor is its `status`. -/
inductive WorkspaceCheckpointV1
  | available (checkpoint : AvailableCheckpoint)
  | unavailable (checkpoint : UnavailableCheckpoint)
  deriving DecidableEq, Repr

/-- The session of a checkpoint. -/
def WorkspaceCheckpointV1.originSessionId : WorkspaceCheckpointV1 → JsString
  | .available checkpoint => checkpoint.originSessionId
  | .unavailable checkpoint => checkpoint.originSessionId

/-- The turn of a checkpoint. -/
def WorkspaceCheckpointV1.turnId : WorkspaceCheckpointV1 → JsString
  | .available checkpoint => checkpoint.turnId
  | .unavailable checkpoint => checkpoint.turnId

/-- The operation a redo takes back. -/
structure WorkspaceLinkedOperationV1 where
  operationId : JsString
  sourceSnapshot : WorkspaceSnapshotRefV1
  currentSnapshot : WorkspaceSnapshotRefV1
  deriving DecidableEq, Repr

/-- A path with a state. -/
structure PathState where
  path : JsString
  state : CapturedPathStateV1
  deriving DecidableEq, Repr

/-- How a restore treated files that had drifted. -/
inductive RestoreApplyMode
  | normal
  | forceDrift
  deriving DecidableEq, Repr

def RestoreApplyMode.text : RestoreApplyMode → JsString
  | .normal => js "normal"
  | .forceDrift => js "force-drift"

/-- What a restore did, with the data only its kind has. -/
inductive WorkspaceStateKind
  | rewind (fromLeafId : Option JsString) (targetTurnId : JsString)
      (targetBoundaryId : Option JsString) (redoStates : List PathState)
  | redo (sourceRewindOperationId : JsString) (linkedOperation : WorkspaceLinkedOperationV1)
  | turnUndo (sourceTurnId : JsString)
  | turnRedo (sourceTurnId undoOperationId : JsString)
      (linkedOperation : WorkspaceLinkedOperationV1)
  deriving DecidableEq, Repr

/-- The marker of a restore. -/
structure WorkspaceStateV1 where
  sessionId : JsString
  operationId : JsString
  workspaceIdentity : JsString
  workspaceIncarnation : JsString
  applyMode : RestoreApplyMode
  /-- The drifted files that were overwritten. -/
  forcedPaths : List JsString
  sourceSnapshot : WorkspaceSnapshotRefV1
  currentSnapshot : WorkspaceSnapshotRefV1
  currentStates : List PathState
  kind : WorkspaceStateKind
  deriving DecidableEq, Repr

def CapturedPathStateV1.toJson : CapturedPathStateV1 → Json
  | .absent => .obj [(js "state", .str (js "absent"))]
  | .file oid executable =>
    .obj [(js "state", .str (js "file")), (js "oid", .str oid),
      (js "executable", .bool executable)]
  | .symlink oid => .obj [(js "state", .str (js "symlink")), (js "oid", .str oid)]
  | .excluded reason =>
    .obj [(js "state", .str (js "excluded")), (js "reason", .str reason.text)]

def WorkspaceSnapshotRefV1.toJson (ref : WorkspaceSnapshotRefV1) : Json :=
  .obj [(js "id", .str ref.id), (js "workspaceIdentity", .str ref.workspaceIdentity),
    (js "workspaceIncarnation", .str ref.workspaceIncarnation), (js "tree", .str ref.tree),
    (js "scopeManifest", .str ref.scopeManifest)]

def WorkspacePathChangeV1.toJson (change : WorkspacePathChangeV1) : Json :=
  .obj [(js "path", .str change.path), (js "before", change.before.toJson),
    (js "after", change.after.toJson)]

def WorkspaceSnapshotCoverageExclusion.toJson : WorkspaceSnapshotCoverageExclusion → Json
  | .path p reason => .obj [(js "path", .str p), (js "reason", .str reason.text)]
  | .pathBytesBase64 text reason =>
    .obj [(js "pathBytesBase64", .str text), (js "reason", .str reason.text)]
  | .workspaceRoot =>
    .obj [(js "scope", .str (js "workspace-root")), (js "reason", .str (js "capture-budget"))]

def WorkspaceSnapshotCoverage.toJson (coverage : WorkspaceSnapshotCoverage) : Json :=
  .obj [(js "complete", .bool coverage.complete),
    (js "eligibleEntryCount", .num coverage.eligibleEntryCount),
    (js "newlyHashedBytes", .num coverage.newlyHashedBytes),
    (js "exclusions", .arr (coverage.exclusions.map fun item => item.toJson))]

def WorkspaceCheckpointV1.toJson : WorkspaceCheckpointV1 → Json
  | .available checkpoint =>
    .obj [(js "schemaVersion", .num 1), (js "status", .str (js "available")),
      (js "originSessionId", .str checkpoint.originSessionId),
      (js "turnId", .str checkpoint.turnId),
      (js "workspaceIdentity", .str checkpoint.workspaceIdentity),
      (js "workspaceIncarnation", .str checkpoint.workspaceIncarnation),
      (js "before", checkpoint.before.toJson), (js "after", checkpoint.after.toJson),
      (js "changes", .arr (checkpoint.changes.map fun item => item.toJson)),
      (js "coverage", checkpoint.coverage.toJson)]
  | .unavailable checkpoint =>
    .obj ([(js "schemaVersion", .num 1), (js "status", .str (js "unavailable")),
      (js "originSessionId", .str checkpoint.originSessionId),
      (js "turnId", .str checkpoint.turnId),
      (js "workspaceIdentity", .str checkpoint.workspaceIdentity)] ++
      Json.optionalField (js "workspaceIncarnation")
        (checkpoint.workspaceIncarnation.map .str) ++
      [(js "reasonCode", .str checkpoint.reasonCode.text),
        (js "message", .str checkpoint.message)] ++
      Json.optionalField (js "coverage") (checkpoint.coverage.map fun item => item.toJson))

def WorkspaceLinkedOperationV1.toJson (operation : WorkspaceLinkedOperationV1) : Json :=
  .obj [(js "operationId", .str operation.operationId),
    (js "sourceSnapshot", operation.sourceSnapshot.toJson),
    (js "currentSnapshot", operation.currentSnapshot.toJson)]

def PathState.toJson (item : PathState) : Json :=
  .obj [(js "path", .str item.path), (js "state", item.state.toJson)]

/-- A string, or `null` where there is none. -/
def nullableString (value : Option JsString) : Json := (value.map Json.str).getD .null

/-- The fields a marker of each kind has after the common ones. -/
def WorkspaceStateKind.fields : WorkspaceStateKind → List (JsString × Json)
  | .rewind fromLeafId targetTurnId targetBoundaryId redoStates =>
    [(js "kind", .str (js "rewind")),
      (js "rewind", .obj [(js "fromLeafId", nullableString fromLeafId),
        (js "targetTurnId", .str targetTurnId),
        (js "targetBoundaryId", nullableString targetBoundaryId),
        (js "redoStates", .arr (redoStates.map PathState.toJson))])]
  | .redo sourceRewindOperationId linkedOperation =>
    [(js "kind", .str (js "redo")),
      (js "sourceRewindOperationId", .str sourceRewindOperationId),
      (js "linkedOperation", linkedOperation.toJson)]
  | .turnUndo sourceTurnId =>
    [(js "kind", .str (js "turn-undo")), (js "sourceTurnId", .str sourceTurnId)]
  | .turnRedo sourceTurnId undoOperationId linkedOperation =>
    [(js "kind", .str (js "turn-redo")), (js "sourceTurnId", .str sourceTurnId),
      (js "undoOperationId", .str undoOperationId),
      (js "linkedOperation", linkedOperation.toJson)]

def WorkspaceStateV1.toJson (state : WorkspaceStateV1) : Json :=
  .obj ([(js "schemaVersion", .num 1), (js "sessionId", .str state.sessionId),
    (js "operationId", .str state.operationId),
    (js "workspaceIdentity", .str state.workspaceIdentity),
    (js "workspaceIncarnation", .str state.workspaceIncarnation),
    (js "applyMode", .str state.applyMode.text),
    (js "forcedPaths", .arr (state.forcedPaths.map .str)),
    (js "sourceSnapshot", state.sourceSnapshot.toJson),
    (js "currentSnapshot", state.currentSnapshot.toJson),
    (js "currentStates", .arr (state.currentStates.map PathState.toJson))] ++ state.kind.fields)

end Workspace

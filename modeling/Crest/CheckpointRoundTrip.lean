import Crest.RestoreState

/-!
# What is written and what is read back

At the end of a user turn the manager appends one checkpoint: why there is none,
the head of the workspace for a turn that wrote nothing, or the difference of two
snapshots.  The store writes file names that look like a drive letter, the
decoders do not read them, and nothing else keeps a checkpoint from being read
back.

A restore writes a pending record and then a marker.  The record always reads
back; the marker does unless the record names its operation by something that
only looks like a token once it is turned into a string.
-/

namespace Workspace

open JsString

/-- What the manager knows about a user turn when it ends. -/
inductive TurnOutcome
  /-- The turn could not be captured. -/
  | failed (reasonCode : WorkspaceCheckpointFailureCode) (message : JsString)
  /-- The turn never asked for the writer lease. -/
  | idle (head : StoredSnapshot)
  /-- The capture found the tree and the coverage of the base. -/
  | unchanged (base : StoredSnapshot) (captured : StoreCoverage)
  /-- The capture became a commit of its own. -/
  | committed (base after : StoredSnapshot) (captured : StoreCoverage)

/-- What names the turn and the workspace in a checkpoint. -/
structure TurnIdentity where
  sessionId : JsString
  userEntryId : JsString
  workspaceIdentity : JsString
  workspaceIncarnation : JsString

/-- The checkpoint of a captured turn. -/
def availableCheckpoint (turn : TurnIdentity) (before after : StoredSnapshot)
    (changes : List WorkspacePathChangeV1) (coverage : StoreCoverage) : AvailableCheckpoint where
  originSessionId := turn.sessionId
  turnId := turn.userEntryId
  workspaceIdentity := turn.workspaceIdentity
  workspaceIncarnation := turn.workspaceIncarnation
  before := before.ref
  after := after.ref
  changes
  coverage := coverage.toWorkspaceSnapshotCoverage

/-- The checkpoint `onTerminal` appends. -/
def TurnOutcome.checkpoint (turn : TurnIdentity) : TurnOutcome → WorkspaceCheckpointV1
  | .failed reasonCode message =>
    .unavailable
      { originSessionId := turn.sessionId
        turnId := turn.userEntryId
        workspaceIdentity := turn.workspaceIdentity
        workspaceIncarnation := some turn.workspaceIncarnation
        reasonCode
        message
        coverage := none }
  | .idle head => .available (availableCheckpoint turn head head [] head.coverage)
  | .unchanged base captured => .available (availableCheckpoint turn base base [] captured)
  | .committed base after captured =>
    .available (availableCheckpoint turn base after (diff base after) captured)

/-- Whether an exclusion is about a name no decoder takes for a drive letter. -/
def WorkspaceSnapshotCoverageExclusion.hasPlainPath : WorkspaceSnapshotCoverageExclusion → Bool
  | .path p _ => !startsWithDriveLetter p
  | .pathBytesBase64 text _ => isCanonicalRelativePathBytes (Base64.fromBase64 text)
  | .workspaceRoot => true

/-- Whether every path of a checkpoint is such a name. -/
def WorkspaceCheckpointV1.hasPlainPaths : WorkspaceCheckpointV1 → Bool
  | .available checkpoint =>
    (checkpoint.changes.all fun change => !startsWithDriveLetter change.path) &&
      checkpoint.coverage.exclusions.all fun item => item.hasPlainPath
  | .unavailable _ => true

theorem isReadable_eq_hasPlainPath {item : WorkspaceSnapshotCoverageExclusion}
    (h : item.IsStorable) :
    item.isReadable = item.hasPlainPath := by
  cases item with
  | path p reason =>
    simp only [WorkspaceSnapshotCoverageExclusion.IsStorable, isStorablePath, Bool.and_eq_true,
      Bool.not_eq_true'] at h
    have hiff := isCanonicalRelativePath_iff p h.1 h.2
    simp only [WorkspaceSnapshotCoverageExclusion.isReadable,
      WorkspaceSnapshotCoverageExclusion.hasPlainPath]
    rw [Bool.eq_iff_iff, hiff]
    simp
  | pathBytesBase64 text reason =>
    obtain ⟨bytes, hbytes, rfl⟩ := h
    simp only [WorkspaceSnapshotCoverageExclusion.isReadable,
      WorkspaceSnapshotCoverageExclusion.hasPlainPath, Base64.fromBase64_toBase64,
      decodeCanonicalRelativePathBytes_toBase64 bytes hbytes]
    cases isCanonicalRelativePathBytes bytes <;> rfl
  | workspaceRoot => rfl

theorem checkpoint_reads_back_iff (turn : TurnIdentity) (before after : StoredSnapshot)
    (changes : List WorkspacePathChangeV1) (coverage : StoreCoverage)
    (hnodup : (changes.map WorkspacePathChangeV1.path).Nodup)
    (hstates : ∀ change ∈ changes,
      change.before.hasGitOid = true ∧ change.after.hasGitOid = true)
    (hpaths : ∀ change ∈ changes, isStorablePath change.path = true) :
    let checkpoint :=
      WorkspaceCheckpointV1.available (availableCheckpoint turn before after changes coverage)
    decodeWorkspaceCheckpointV1 checkpoint.toJson = some checkpoint ↔
      checkpoint.hasPlainPaths = true := by
  have hdecode := decodeWorkspaceCheckpointV1_available_iff
    (availableCheckpoint turn before after changes coverage) before.hasGitOids after.hasGitOids
    hnodup hstates coverage.counted
  refine hdecode.trans ?_
  simp only [availableCheckpoint, WorkspaceCheckpointV1.hasPlainPaths, Bool.and_eq_true,
    List.all_eq_true]
  refine and_congr ?_ ?_
  · refine forall₂_congr fun change hmem => ?_
    have hstorable := hpaths change hmem
    simp only [isStorablePath, Bool.and_eq_true, Bool.not_eq_true'] at hstorable
    rw [isCanonicalRelativePath_iff change.path hstorable.1 hstorable.2]
    simp
  · refine forall₂_congr fun item hmem => ?_
    rw [isReadable_eq_hasPlainPath (coverage.storable item hmem)]

/-- **What the manager appends reads back exactly when its names are plain.** -/
theorem appended_checkpoint_reads_back_iff (turn : TurnIdentity) (outcome : TurnOutcome) :
    decodeWorkspaceCheckpointV1 (outcome.checkpoint turn).toJson =
        some (outcome.checkpoint turn) ↔
      (outcome.checkpoint turn).hasPlainPaths = true := by
  cases outcome with
  | failed reasonCode message =>
    have hdecode := decodeWorkspaceCheckpointV1_unavailable
      { originSessionId := turn.sessionId
        turnId := turn.userEntryId
        workspaceIdentity := turn.workspaceIdentity
        workspaceIncarnation := some turn.workspaceIncarnation
        reasonCode
        message
        coverage := none } rfl
    simpa [TurnOutcome.checkpoint, WorkspaceCheckpointV1.hasPlainPaths] using hdecode
  | idle head =>
    exact checkpoint_reads_back_iff turn head head [] head.coverage (by simp) (by simp) (by simp)
  | unchanged base captured =>
    exact checkpoint_reads_back_iff turn base base [] captured (by simp) (by simp) (by simp)
  | committed base after captured =>
    exact checkpoint_reads_back_iff turn base after (diff base after) captured
      (nodup_diff base after) (fun _ hmem => hasGitOid_diff hmem)
      fun _ hmem => isStorablePath_diff hmem

section Samples

/-- A coverage without exclusions. -/
def fullCoverage : StoreCoverage where
  complete := true
  eligibleEntryCount := 1
  newlyHashedBytes := 0
  exclusions := []
  counted := ⟨by decide, by decide, by simp⟩
  storable := by simp

/-- A snapshot without exclusions, of the given leaves; commit and tree are named
by one digit each. -/
def plainSnapshot (commit tree : UInt16) (leaves : JsMap JsString TreeLeaf)
    (hrefs : isLowerHexUnit commit = true ∧ isLowerHexUnit tree = true)
    (hleaves : ∀ entry ∈ leaves.entries,
      isStorablePath entry.1 = true ∧ entry.2.state.hasGitOid = true) : StoredSnapshot where
  ref :=
    { id := List.replicate 40 commit
      workspaceIdentity := List.replicate 64 0x61
      workspaceIncarnation := List.replicate 64 0x62
      tree := List.replicate 40 tree
      scopeManifest := List.replicate 40 0x66 }
  leaves
  coverage := fullCoverage
  hasGitOids := by
    simp [WorkspaceSnapshotRefV1.hasGitOids, isGitOid, hrefs.1, hrefs.2]
    decide
  leafPaths := fun _ _ h => (hleaves _ (JsMap.mem_entries_of_get h)).1
  leafOids := fun _ _ h => (hleaves _ (JsMap.mem_entries_of_get h)).2

def emptyWorkspace : StoredSnapshot :=
  plainSnapshot 0x30 0x31 JsMap.empty (by decide) (by decide)

/-- A workspace with one file of the given name. -/
def oneFileWorkspace (name : JsString) (hname : isStorablePath name = true) : StoredSnapshot :=
  plainSnapshot 0x32 0x33
    { entries := [(name, .file (List.replicate 40 0x63) false)], nodup := by simp }
    (by decide) (by simpa using ⟨hname, by decide⟩)

/-- A turn of some session. -/
def someTurn : TurnIdentity where
  sessionId := js "session"
  userEntryId := js "turn"
  workspaceIdentity := List.replicate 64 0x61
  workspaceIncarnation := List.replicate 64 0x62

/-- A turn that wrote one file of the given name. -/
def oneFileOutcome (name : JsString) (hname : isStorablePath name = true) : TurnOutcome :=
  .committed emptyWorkspace (oneFileWorkspace name hname) fullCoverage

/-- A turn that wrote a file whose name looks like a drive letter. -/
def driveLetterOutcome : TurnOutcome := oneFileOutcome (js "c:foo") (by decide)

/-- A pending rewind of one file, with the given name for its operation. -/
def pendingRewind (operationId : Json) : PendingWorkspaceRestoreV2 where
  operationId
  workspaceIdentity := List.replicate 64 0x61
  workspaceIncarnation := List.replicate 64 0x62
  sessionId := js "session"
  sessionPath := js "/s"
  target := .rewind (js "turn")
  applyMode := .normal
  forcedPaths := []
  expectedSemanticLeafId := some (js "leaf")
  commitParentId := none
  workspaceStateEntryId := js "entry"
  workspaceStateTimestamp := js "2026-01-02T03:04:05.678Z"
  sourceCommit := List.replicate 40 0x30
  plannedCommit := List.replicate 40 0x32
  affectedPaths := [js "foo"]

/-- The states of that rewind: the file appears. -/
def pendingRewindStates (operationId : Json) : RestoreStates (pendingRewind operationId) where
  sourceSnapshot := emptyWorkspace
  plannedSnapshot := oneFileWorkspace (js "foo") (by decide)
  sourceStates := [⟨js "foo", .absent⟩]
  plannedStates := [⟨js "foo", .file (List.replicate 40 0x63) false⟩]
  sourcePaths := rfl
  plannedPaths := rfl
  sourceOids := by simp [RestorableState.captured, CapturedPathStateV1.hasGitOid]
  plannedOids := by
    simp only [List.mem_singleton, forall_eq]
    decide

theorem pendingRewind_accepted (numberText : ℚ → JsString) (operationId : Json)
    (h : matchesTokenPattern (stringOf numberText operationId) = true) :
    decodePendingWorkspaceRestoreV2 numberText (pendingRewind operationId).toJson =
      some (pendingRewind operationId) := by
  have hreadable : (pendingRewind operationId).Readable :=
    { target := by
        show isSafeString (js "turn") = true
        decide +kernel
      forcedPaths := by simp [pendingRewind, ArePendingPaths]
      affectedPaths := by
        simp only [pendingRewind, ArePendingPaths, List.mem_singleton, forall_eq]
        decide +kernel }
  rw [decodePendingWorkspaceRestoreV2, readPendingFields_toJson _ hreadable]
  -- the checks on the other fields do not depend on the name
  have hfixed : (pendingRewind (.str (js "op-1"))).passesChecks (fun _ => []) = true := by
    decide +kernel
  have hchecks : (pendingRewind operationId).passesChecks numberText = true := by
    have htoken : matchesTokenPattern
        (stringOf (fun _ => []) (pendingRewind (.str (js "op-1"))).operationId) = true := by
      decide
    have hname : matchesTokenPattern
        (stringOf numberText (pendingRewind operationId).operationId) = true := h
    simp only [PendingWorkspaceRestoreV2.passesChecks, htoken, hname, Bool.true_and]
      at hfixed ⊢
    exact hfixed
  simp [hchecks]

end Samples

end Workspace

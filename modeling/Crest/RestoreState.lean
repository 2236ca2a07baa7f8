import Crest.PendingRestore
import Crest.SnapshotStore

/-!
# The marker of a restore

The executor and recovery build the marker of a restore from the pending record,
the two snapshots and the states of the affected paths.  Recovery reads those
states back from the snapshots.
-/

namespace Workspace

open JsString

/-- A path with a state that can be applied to it. -/
structure RestorablePathState where
  path : JsString
  state : RestorableState
  deriving DecidableEq, Repr

/-- A restorable path state as a captured one. -/
def RestorablePathState.captured (item : RestorablePathState) : PathState where
  path := item.path
  state := item.state.captured

/-- What a restore goes from and to. -/
structure DerivedWorkspaceRestoreState where
  sourceSnapshot : WorkspaceSnapshotRefV1
  plannedSnapshot : WorkspaceSnapshotRefV1
  sourceStates : List RestorablePathState
  plannedStates : List RestorablePathState
  markerState : Json
  deriving DecidableEq, Repr

/-- What the marker says about its own kind. -/
def markerKind (pending : PendingWorkspaceRestoreV2) (sourceStates : List RestorablePathState) :
    WorkspaceStateKind :=
  match pending.target with
  | .rewind targetTurnId =>
    .rewind pending.expectedSemanticLeafId targetTurnId pending.commitParentId
      (sourceStates.map RestorablePathState.captured)
  | .redo sourceRewindOperationId linkedOperation => .redo sourceRewindOperationId linkedOperation
  | .turnUndo sourceTurnId => .turnUndo sourceTurnId
  | .turnRedo sourceTurnId undoOperationId linkedOperation =>
    .turnRedo sourceTurnId undoOperationId linkedOperation

def makeWorkspaceRestoreState (pending : PendingWorkspaceRestoreV2)
    (sourceSnapshot plannedSnapshot : WorkspaceSnapshotRefV1)
    (sourceStates plannedStates : List RestorablePathState) : DerivedWorkspaceRestoreState where
  sourceSnapshot
  plannedSnapshot
  sourceStates
  plannedStates
  markerState :=
    .obj ([(js "schemaVersion", .num 1), (js "sessionId", .str pending.sessionId),
      (js "operationId", pending.operationId),
      (js "workspaceIdentity", .str pending.workspaceIdentity),
      (js "workspaceIncarnation", .str pending.workspaceIncarnation),
      (js "applyMode", .str pending.applyMode.text),
      (js "forcedPaths", .arr (pending.forcedPaths.map .str)),
      (js "sourceSnapshot", sourceSnapshot.toJson),
      (js "currentSnapshot", plannedSnapshot.toJson),
      (js "currentStates",
        .arr ((plannedStates.map RestorablePathState.captured).map PathState.toJson))] ++
      (markerKind pending sourceStates).fields)

/-- The states of some paths in a snapshot; `none` where one is excluded. -/
def readRestorableStates (snapshot : StoredSnapshot) (paths : List JsString) :
    Option (List RestorablePathState) :=
  paths.mapM fun path =>
    (readPathState snapshot path).restorable.map fun state => { path, state }

/-- `deriveWorkspaceRestoreState`: the marker, with its states read from the two
commits; `none` where the code throws. -/
def deriveWorkspaceRestoreState (readCommitSnapshot : JsString → Option StoredSnapshot)
    (pending : PendingWorkspaceRestoreV2) : Option DerivedWorkspaceRestoreState := do
  let sourceSnapshot ← readCommitSnapshot pending.sourceCommit
  let plannedSnapshot ← readCommitSnapshot pending.plannedCommit
  let sourceStates ← readRestorableStates sourceSnapshot pending.affectedPaths
  let plannedStates ← readRestorableStates plannedSnapshot pending.affectedPaths
  some (makeWorkspaceRestoreState pending sourceSnapshot.ref plannedSnapshot.ref sourceStates
    plannedStates)

/-- The states a marker is built from: those of the affected paths, with object
ids, in two snapshots. -/
structure RestoreStates (pending : PendingWorkspaceRestoreV2) where
  sourceSnapshot : StoredSnapshot
  plannedSnapshot : StoredSnapshot
  sourceStates : List RestorablePathState
  plannedStates : List RestorablePathState
  /-- They are the affected paths. -/
  sourcePaths : sourceStates.map RestorablePathState.path = pending.affectedPaths
  /-- They are the affected paths. -/
  plannedPaths : plannedStates.map RestorablePathState.path = pending.affectedPaths
  /-- The states before have object ids. -/
  sourceOids : ∀ item ∈ sourceStates, item.state.captured.hasGitOid = true
  /-- The states after have object ids. -/
  plannedOids : ∀ item ∈ plannedStates, item.state.captured.hasGitOid = true

/-- The marker built from some states. -/
def RestoreStates.markerState {pending : PendingWorkspaceRestoreV2}
    (states : RestoreStates pending) : Json :=
  (makeWorkspaceRestoreState pending states.sourceSnapshot.ref states.plannedSnapshot.ref
    states.sourceStates states.plannedStates).markerState

theorem ne_nil_of_isSafeString {value : JsString} (h : isSafeString value = true) :
    value ≠ [] := by
  rintro rfl
  simp [isSafeString] at h

variable {record : PendingWorkspaceRestoreV2}

section

variable (hreadable : record.Readable) (hsorted : isSortedUnique record.affectedPaths = true)
  (items : List RestorablePathState)
  (hpaths : items.map RestorablePathState.path = record.affectedPaths)
include hreadable hsorted items hpaths

variable (hoids : ∀ item ∈ items, item.state.captured.hasGitOid = true)
include hoids

theorem capturedStates_readable :
    ((items.map RestorablePathState.captured).map PathState.path).Nodup ∧
      ∀ item ∈ items.map RestorablePathState.captured,
        isCanonicalRelativePath (.str item.path) = true ∧ item.state.hasGitOid = true := by
  have hmap : (items.map RestorablePathState.captured).map PathState.path =
      record.affectedPaths := by
    rw [← hpaths, List.map_map]
    rfl
  refine ⟨hmap ▸ nodup_of_isSortedUnique _ hsorted, ?_⟩
  intro captured hmem
  obtain ⟨item, hitem, rfl⟩ := List.mem_map.mp hmem
  have hpath : item.path ∈ record.affectedPaths := hpaths ▸ List.mem_map_of_mem hitem
  exact ⟨isCanonicalRelativePath_of_pending _ (hreadable.affectedPaths _ hpath),
    hoids item hitem⟩

theorem markerKind_readable :
    (markerKind record items).Readable := by
  have htarget := hreadable.target
  unfold markerKind
  cases hkind : record.target with
  | rewind targetTurnId => exact capturedStates_readable hreadable hsorted items hpaths hoids
  | redo sourceRewindOperationId linkedOperation =>
    rw [hkind] at htarget
    exact ⟨ne_nil_of_isSafeString htarget.1, htarget.2⟩
  | turnUndo sourceTurnId => exact trivial
  | turnRedo sourceTurnId undoOperationId linkedOperation =>
    rw [hkind] at htarget
    exact ⟨ne_nil_of_isSafeString htarget.2.1, htarget.2.2⟩

end

/-- **The marker of an accepted record reads back exactly when the record names
its operation by a string.** -/
theorem markerState_reads_back_iff {numberText : ℚ → JsString} {value : Json}
    (h : decodePendingWorkspaceRestoreV2 numberText value = some record)
    (states : RestoreStates record) :
    (∃ state, decodeWorkspaceStateV1 states.markerState = some state ∧
        state.toJson = states.markerState) ↔
      ∃ operationId, record.operationId = .str operationId := by
  obtain ⟨hreadable, hchecks⟩ := decodePendingWorkspaceRestoreV2_eq_some h
  simp only [PendingWorkspaceRestoreV2.passesChecks, Bool.and_eq_true] at hchecks
  have haffected : isSortedUnique record.affectedPaths = true := hchecks.1.1.1.2
  have hforced : isSortedUnique record.forcedPaths = true := hchecks.1.1.2
  constructor
  · rintro ⟨state, hstate, htoJson⟩
    refine ⟨state.operationId, ?_⟩
    have hfield := congrArg (fun data => data.get (js "operationId")) htoJson
    simpa [WorkspaceStateV1.toJson, RestoreStates.markerState, makeWorkspaceRestoreState,
      eq_comm] using hfield
  · rintro ⟨operationId, hoperation⟩
    have hplanned := capturedStates_readable hreadable haffected states.plannedStates
      states.plannedPaths states.plannedOids
    let state : WorkspaceStateV1 :=
      { sessionId := record.sessionId
        operationId
        workspaceIdentity := record.workspaceIdentity
        workspaceIncarnation := record.workspaceIncarnation
        applyMode := record.applyMode
        forcedPaths := record.forcedPaths
        sourceSnapshot := states.sourceSnapshot.ref
        currentSnapshot := states.plannedSnapshot.ref
        currentStates := states.plannedStates.map RestorablePathState.captured
        kind := markerKind record states.sourceStates }
    have htoJson : state.toJson = states.markerState := by
      simp [state, WorkspaceStateV1.toJson, RestoreStates.markerState, makeWorkspaceRestoreState,
        hoperation]
    have hstate : state.Readable :=
      { forcedNodup := nodup_of_isSortedUnique _ hforced
        forcedPaths := fun path hmem =>
          isCanonicalRelativePath_of_pending _ (hreadable.forcedPaths path hmem)
        sourceSnapshot := states.sourceSnapshot.hasGitOids
        currentSnapshot := states.plannedSnapshot.hasGitOids
        statesNodup := hplanned.1
        currentStates := hplanned.2
        kind := markerKind_readable hreadable haffected states.sourceStates states.sourcePaths
          states.sourceOids }
    exact ⟨state, htoJson ▸ decodeWorkspaceStateV1_toJson state hstate, htoJson⟩

end Workspace

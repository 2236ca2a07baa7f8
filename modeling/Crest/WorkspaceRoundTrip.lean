import Crest.WorkspaceValidation

/-!
# Reading back what was written

A value is read back from its own data when the decoder would accept each of its
parts: object ids are object ids, paths are canonical, and nothing that must be
unique occurs twice.
-/

namespace Workspace

open JsString

/-- Whether the object id of a state is one. -/
def CapturedPathStateV1.hasGitOid : CapturedPathStateV1 → Bool
  | .absent => true
  | .file oid _ => isGitOid oid
  | .symlink oid => isGitOid oid
  | .excluded _ => true

/-- Whether all object ids of a reference are object ids. -/
def WorkspaceSnapshotRefV1.hasGitOids (ref : WorkspaceSnapshotRefV1) : Bool :=
  isGitOid ref.id && isGitOid ref.tree && isGitOid ref.scopeManifest

@[simp] theorem decodeCoverageReason_text (reason : WorkspaceCoverageReason) :
    decodeCoverageReason (.str reason.text) = some reason := by
  cases reason <;>
    simp [decodeCoverageReason, allCoverageReasons, WorkspaceCoverageReason.text, List.find?]

@[simp] theorem decodeFailureCode_text (code : WorkspaceCheckpointFailureCode) :
    decodeFailureCode (.str code.text) = some code := by
  cases code <;>
    simp [decodeFailureCode, allFailureCodes, WorkspaceCheckpointFailureCode.text, List.find?]

@[simp] theorem decodeApplyMode_text (mode : RestoreApplyMode) :
    decodeApplyMode (.str mode.text) = some mode := by
  cases mode <;> simp [decodeApplyMode, RestoreApplyMode.text]

@[simp] theorem decodeNullableString_nullableString (value : Option JsString) :
    decodeNullableString (nullableString value) = some value := by
  cases value <;> simp [decodeNullableString, nullableString]

theorem decodeNonnegativeInteger_num (n : Nat) (h : n ≤ maxSafeInteger) :
    decodeNonnegativeInteger (.num n) = some n := by
  simp [decodeNonnegativeInteger, h]

attribute [local simp] Json.hasExactKeys Json.hasOwn Json.stringField WorkspaceStateV1.toJson
  WorkspaceSnapshotCoverageExclusion.toJson WorkspaceStateKind.fields decodeWorkspaceStateKind
  workspaceStateBaseKeys

theorem decodeCapturedPathStateV1_toJson (s : CapturedPathStateV1) :
    decodeCapturedPathStateV1 s.toJson = if s.hasGitOid then some s else none := by
  cases s with
  | absent | excluded _ =>
    simp [CapturedPathStateV1.toJson, decodeCapturedPathStateV1, CapturedPathStateV1.hasGitOid]
  | file oid _ | symlink oid =>
    cases hoid : isGitOid oid <;>
      simp [CapturedPathStateV1.toJson, decodeCapturedPathStateV1, CapturedPathStateV1.hasGitOid, hoid]

theorem decodeWorkspaceSnapshotRefV1_toJson (ref : WorkspaceSnapshotRefV1) :
    decodeWorkspaceSnapshotRefV1 ref.toJson = if ref.hasGitOids then some ref else none := by
  cases hid : isGitOid ref.id <;> cases htree : isGitOid ref.tree <;>
    cases hmanifest : isGitOid ref.scopeManifest <;>
    simp [WorkspaceSnapshotRefV1.toJson, decodeWorkspaceSnapshotRefV1, WorkspaceSnapshotRefV1.hasGitOids, hid, htree, hmanifest]

theorem decodeLinkedOperationWith_toJson (isOperationId : JsString → Bool)
    (operation : WorkspaceLinkedOperationV1) (hname : isOperationId operation.operationId = true)
    (hsource : operation.sourceSnapshot.hasGitOids = true)
    (hcurrent : operation.currentSnapshot.hasGitOids = true)
    (hlinks : linksTwoSnapshots operation.sourceSnapshot operation.currentSnapshot = true) :
    decodeLinkedOperationWith isOperationId operation.toJson = some operation := by
  simp [WorkspaceLinkedOperationV1.toJson, decodeLinkedOperationWith, decodeWorkspaceSnapshotRefV1_toJson, hname, hsource, hcurrent, hlinks]

theorem hasGitOids_of_decode {value : Json} {ref : WorkspaceSnapshotRefV1}
    (h : decodeWorkspaceSnapshotRefV1 value = some ref) :
    ref.hasGitOids = true := by
  simp only [decodeWorkspaceSnapshotRefV1, Option.bind_eq_bind] at h
  split at h
  · cases h
  · simp only [Option.bind_eq_some_iff] at h
    obtain ⟨id, -, identity, -, incarnation, -, tree, -, manifest, -, h⟩ := h
    split at h
    · obtain rfl := Option.some.inj h
      assumption
    · cases h

theorem decodeLinkedOperationWith_eq_some {isOperationId : JsString → Bool} {value : Json}
    {operation : WorkspaceLinkedOperationV1}
    (h : decodeLinkedOperationWith isOperationId value = some operation) :
    isOperationId operation.operationId = true ∧
      operation.sourceSnapshot.hasGitOids = true ∧
      operation.currentSnapshot.hasGitOids = true ∧
      linksTwoSnapshots operation.sourceSnapshot operation.currentSnapshot = true := by
  simp only [decodeLinkedOperationWith, Option.bind_eq_bind] at h
  split at h
  · cases h
  · simp only [Option.bind_eq_some_iff] at h
    obtain ⟨source, ⟨_, -, hsource⟩, current, ⟨_, -, hcurrent⟩, operationId, -, h⟩ := h
    split at h
    · rename_i hchecks
      obtain rfl := Option.some.inj h
      rw [Bool.and_eq_true] at hchecks
      exact ⟨hchecks.1, hasGitOids_of_decode hsource, hasGitOids_of_decode hcurrent, hchecks.2⟩
    · cases h
theorem decodeWorkspacePathChangeV1_toJson (change : WorkspacePathChangeV1) :
    decodeWorkspacePathChangeV1 change.toJson =
      if isCanonicalRelativePath (.str change.path) && change.before.hasGitOid &&
        change.after.hasGitOid then some change else none := by
  cases hpath : isCanonicalRelativePath (.str change.path) <;>
    cases hbefore : change.before.hasGitOid <;>
    cases hafter : change.after.hasGitOid <;>
    simp [WorkspacePathChangeV1.toJson, decodeWorkspacePathChangeV1, decodeCapturedPathStateV1_toJson, hpath, hbefore, hafter]

theorem decodePathState_toJson (item : PathState) :
    decodePathState item.toJson =
      if isCanonicalRelativePath (.str item.path) && item.state.hasGitOid then some item
      else none := by
  cases hpath : isCanonicalRelativePath (.str item.path) <;>
    cases hstate : item.state.hasGitOid <;>
    simp [PathState.toJson, decodePathState, decodeCapturedPathStateV1_toJson, hpath, hstate]

/-- Whether the decoder can tell where an exclusion is. -/
def WorkspaceSnapshotCoverageExclusion.isReadable : WorkspaceSnapshotCoverageExclusion → Bool
  | .path p _ => isCanonicalRelativePath (.str p)
  | .pathBytesBase64 text _ => (decodeCanonicalRelativePathBytes (.str text)).isSome
  | .workspaceRoot => true

theorem decodeCoverageExclusion_toJson (item : WorkspaceSnapshotCoverageExclusion) :
    decodeCoverageExclusion item.toJson = if item.isReadable then some item else none := by
  cases item with
  | path path reason =>
    cases hpath : isCanonicalRelativePath (.str path) <;>
      simp [decodeCoverageExclusion, WorkspaceSnapshotCoverageExclusion.isReadable, hpath]
  | pathBytesBase64 text reason =>
    cases hbytes : decodeCanonicalRelativePathBytes (.str text) <;>
      simp [decodeCoverageExclusion, WorkspaceSnapshotCoverageExclusion.isReadable, hbytes]
  | workspaceRoot =>
    have hreason := decodeCoverageReason_text .captureBudget
    simp only [WorkspaceCoverageReason.text] at hreason
    simp [decodeCoverageExclusion, WorkspaceSnapshotCoverageExclusion.isReadable, hreason]

section Distinct

variable {α κ : Type} [DecidableEq κ] (decode : Json → Option α) (key : α → κ)
  (encode : α → Json)

theorem decodeDistinct_map_iff (seen : List κ) (items : List α)
    (hnodup : (items.map key).Nodup) (hseen : ∀ item ∈ items, key item ∉ seen) :
    decodeDistinct decode key seen (items.map encode) = some items ↔
      ∀ item ∈ items, decode (encode item) = some item := by
  induction items generalizing seen with
  | nil => simp [decodeDistinct]
  | cons item rest ih =>
    rw [List.map_cons, List.nodup_cons] at hnodup
    have hrest : ∀ other ∈ rest, key other ∉ key item :: seen := by
      intro other hmem
      rw [List.mem_cons, not_or]
      refine ⟨?_, hseen other (List.mem_cons_of_mem item hmem)⟩
      intro heq
      exact hnodup.1 (heq ▸ List.mem_map_of_mem hmem)
    have hitem := hseen item List.mem_cons_self
    have htail := ih (key item :: seen) hnodup.2 hrest
    rw [List.forall_mem_cons, ← htail]
    constructor
    · intro h
      simp only [List.map_cons, decodeDistinct, Option.bind_eq_bind,
        Option.bind_eq_some_iff] at h
      obtain ⟨decoded, hdecoded, h⟩ := h
      split at h
      · cases h
      · obtain ⟨others, hothers, h⟩ := Option.bind_eq_some_iff.mp h
        simp only [Option.some.injEq, List.cons.injEq] at h
        obtain ⟨rfl, rfl⟩ := h
        exact ⟨hdecoded, hothers⟩
    · rintro ⟨hdecoded, hothers⟩
      simp [decodeDistinct, hdecoded, hitem, hothers]

end Distinct

theorem decodePathStates_toJson (items : List PathState)
    (hnodup : (items.map PathState.path).Nodup)
    (hpath : ∀ item ∈ items, isCanonicalRelativePath (.str item.path) = true)
    (hstate : ∀ item ∈ items, item.state.hasGitOid = true) :
    decodePathStates (.arr (items.map PathState.toJson)) = some items := by
  simp only [decodePathStates, Json.asArray_arr, Option.bind_some]
  rw [decodeDistinct_map_iff _ _ _ _ _ hnodup (by simp)]
  intro item hmem
  simp [decodePathState_toJson, hpath item hmem, hstate item hmem]

theorem decodeUniquePaths_map (paths : List JsString) (hnodup : paths.Nodup)
    (hpath : ∀ path ∈ paths, isCanonicalRelativePath (.str path) = true) :
    decodeUniquePaths (.arr (paths.map .str)) = some paths := by
  simp only [decodeUniquePaths, Json.asArray_arr, Option.bind_some]
  rw [decodeDistinct_map_iff _ _ _ _ _ (by simpa using hnodup) (by simp)]
  intro path hmem
  simp [hpath path hmem]

/-- What the store promises about a coverage: its counts are safe integers and
no locator occurs twice. -/
structure WorkspaceSnapshotCoverage.Counted (coverage : WorkspaceSnapshotCoverage) : Prop where
  /-- The entry count is a safe integer. -/
  eligibleEntryCount : coverage.eligibleEntryCount ≤ maxSafeInteger
  /-- The byte count is a safe integer. -/
  newlyHashedBytes : coverage.newlyHashedBytes ≤ maxSafeInteger
  /-- Every exclusion is about another part of the workspace. -/
  nodup : (coverage.exclusions.map exclusionLocator).Nodup

theorem decodeWorkspaceSnapshotCoverage_toJson_iff (coverage : WorkspaceSnapshotCoverage)
    (hcounted : coverage.Counted) :
    decodeWorkspaceSnapshotCoverage coverage.toJson = some coverage ↔
      ∀ item ∈ coverage.exclusions, item.isReadable = true := by
  have hexclusions := decodeDistinct_map_iff decodeCoverageExclusion exclusionLocator
    (fun item => item.toJson) [] coverage.exclusions hcounted.nodup (by simp)
  have hitems : (∀ item ∈ coverage.exclusions,
      decodeCoverageExclusion item.toJson = some item) ↔
      ∀ item ∈ coverage.exclusions, item.isReadable = true := by
    refine forall₂_congr fun item _ => ?_
    rw [decodeCoverageExclusion_toJson]
    cases item.isReadable <;> simp
  rw [← hitems, ← hexclusions]
  obtain ⟨complete, eligibleEntryCount, newlyHashedBytes, exclusions⟩ := coverage
  have hcount := decodeNonnegativeInteger_num eligibleEntryCount hcounted.eligibleEntryCount
  have hbytes := decodeNonnegativeInteger_num newlyHashedBytes hcounted.newlyHashedBytes
  simp [WorkspaceSnapshotCoverage.toJson, decodeWorkspaceSnapshotCoverage, Json.arrayField, hcount, hbytes, Option.bind_eq_some_iff]

/-- **A checkpoint of a captured turn is read back exactly when all its paths
are canonical.** -/
theorem decodeWorkspaceCheckpointV1_available_iff (checkpoint : AvailableCheckpoint)
    (hbefore : checkpoint.before.hasGitOids = true) (hafter : checkpoint.after.hasGitOids = true)
    (hnodup : (checkpoint.changes.map WorkspacePathChangeV1.path).Nodup)
    (hstates : ∀ change ∈ checkpoint.changes,
      change.before.hasGitOid = true ∧ change.after.hasGitOid = true)
    (hcounted : checkpoint.coverage.Counted) :
    decodeWorkspaceCheckpointV1 (WorkspaceCheckpointV1.available checkpoint).toJson =
        some (.available checkpoint) ↔
      (∀ change ∈ checkpoint.changes, isCanonicalRelativePath (.str change.path) = true) ∧
        ∀ item ∈ checkpoint.coverage.exclusions, item.isReadable = true := by
  have hchanges : decodeDistinct decodeWorkspacePathChangeV1 WorkspacePathChangeV1.path []
      (checkpoint.changes.map fun item => item.toJson) = some checkpoint.changes ↔
      ∀ change ∈ checkpoint.changes, isCanonicalRelativePath (.str change.path) = true := by
    rw [decodeDistinct_map_iff _ _ _ _ _ hnodup (by simp)]
    refine forall₂_congr fun change hmem => ?_
    rw [decodeWorkspacePathChangeV1_toJson, (hstates change hmem).1, (hstates change hmem).2]
    cases isCanonicalRelativePath (.str change.path) <;> simp
  have hcoverage := decodeWorkspaceSnapshotCoverage_toJson_iff checkpoint.coverage hcounted
  rw [← hchanges, ← hcoverage]
  obtain ⟨_, _, _, _, before, after, changes, coverage⟩ := checkpoint
  simp only [WorkspaceCheckpointV1.toJson, decodeWorkspaceCheckpointV1]
  cases hcov : decodeWorkspaceSnapshotCoverage coverage.toJson <;>
    simp_all [Json.arrayField, decodeWorkspaceSnapshotRefV1_toJson, Option.bind_eq_some_iff, and_comm]

theorem decodeWorkspaceCheckpointV1_unavailable (checkpoint : UnavailableCheckpoint)
    (hcoverage : checkpoint.coverage = none) :
    decodeWorkspaceCheckpointV1 (WorkspaceCheckpointV1.unavailable checkpoint).toJson =
      some (.unavailable checkpoint) := by
  obtain ⟨_, _, _, workspaceIncarnation, _, _, coverage⟩ := checkpoint
  obtain rfl : coverage = none := hcoverage
  cases workspaceIncarnation <;>
    simp [WorkspaceCheckpointV1.toJson, decodeWorkspaceCheckpointV1, Json.optionalField]

/-- What a kind of marker needs to be read back. -/
def WorkspaceStateKind.Readable : WorkspaceStateKind → Prop
  | .rewind _ _ _ redoStates =>
    (redoStates.map PathState.path).Nodup ∧
      ∀ item ∈ redoStates,
        isCanonicalRelativePath (.str item.path) = true ∧ item.state.hasGitOid = true
  | .redo operationId linkedOperation | .turnRedo _ operationId linkedOperation =>
    operationId ≠ [] ∧ linkedOperation.operationId = operationId ∧
      linkedOperation.sourceSnapshot.hasGitOids = true ∧
      linkedOperation.currentSnapshot.hasGitOids = true ∧
      linksTwoSnapshots linkedOperation.sourceSnapshot linkedOperation.currentSnapshot = true
  | .turnUndo _ => True

theorem decodeWorkspaceLinkedOperationV1_toJson (operation : WorkspaceLinkedOperationV1)
    (hname : operation.operationId ≠ []) (hsource : operation.sourceSnapshot.hasGitOids = true)
    (hcurrent : operation.currentSnapshot.hasGitOids = true)
    (hlinks : linksTwoSnapshots operation.sourceSnapshot operation.currentSnapshot = true) :
    decodeWorkspaceLinkedOperationV1 operation.toJson = some operation :=
  decodeLinkedOperationWith_toJson _ operation
    (by simpa using List.length_pos_of_ne_nil hname) hsource hcurrent hlinks

theorem decodeWorkspaceStateKind_toJson (state : WorkspaceStateV1)
    (hkind : state.kind.Readable) :
    decodeWorkspaceStateKind state.toJson = some state.kind := by
  cases hstate : state.kind with
  | rewind fromLeafId targetTurnId targetBoundaryId redoStates =>
    rw [hstate] at hkind
    have hredo := decodePathStates_toJson redoStates hkind.1 (fun item h => (hkind.2 item h).1)
      fun item h => (hkind.2 item h).2
    simp [hstate, hredo]
  | redo sourceRewindOperationId linkedOperation =>
    rw [hstate] at hkind
    obtain ⟨hname, hoperation, hsource, hcurrent, hlinks⟩ := hkind
    have hlinked := decodeWorkspaceLinkedOperationV1_toJson linkedOperation
      (hoperation ▸ hname) hsource hcurrent hlinks
    simp [hstate, hlinked, hoperation, hname]
  | turnUndo sourceTurnId =>
    simp [hstate]
  | turnRedo sourceTurnId undoOperationId linkedOperation =>
    rw [hstate] at hkind
    obtain ⟨hname, hoperation, hsource, hcurrent, hlinks⟩ := hkind
    have hlinked := decodeWorkspaceLinkedOperationV1_toJson linkedOperation
      (hoperation ▸ hname) hsource hcurrent hlinks
    simp [hstate, hlinked, hoperation]

/-- What a marker needs to be read back. -/
structure WorkspaceStateV1.Readable (state : WorkspaceStateV1) : Prop where
  forcedNodup : state.forcedPaths.Nodup
  /-- The forced paths are canonical. -/
  forcedPaths : ∀ path ∈ state.forcedPaths, isCanonicalRelativePath (.str path) = true
  /-- The snapshot before the restore is a reference. -/
  sourceSnapshot : state.sourceSnapshot.hasGitOids = true
  /-- The snapshot after the restore is a reference. -/
  currentSnapshot : state.currentSnapshot.hasGitOids = true
  statesNodup : (state.currentStates.map PathState.path).Nodup
  /-- The restored paths are canonical and their states have object ids. -/
  currentStates : ∀ item ∈ state.currentStates,
    isCanonicalRelativePath (.str item.path) = true ∧ item.state.hasGitOid = true
  kind : state.kind.Readable

/-- **A marker is read back from its data.** -/
theorem decodeWorkspaceStateV1_toJson (state : WorkspaceStateV1) (h : state.Readable) :
    decodeWorkspaceStateV1 state.toJson = some state := by
  have hkind := decodeWorkspaceStateKind_toJson state h.kind
  have hforced := decodeUniquePaths_map state.forcedPaths h.forcedNodup h.forcedPaths
  have hstates := decodePathStates_toJson state.currentStates h.statesNodup
    (fun item hmem => (h.currentStates item hmem).1) fun item hmem => (h.currentStates item hmem).2
  have hsource := decodeWorkspaceSnapshotRefV1_toJson state.sourceSnapshot
  have hcurrent := decodeWorkspaceSnapshotRefV1_toJson state.currentSnapshot
  rw [h.sourceSnapshot] at hsource
  rw [h.currentSnapshot] at hcurrent
  simp only [decodeWorkspaceStateV1, hkind]
  simp [hforced, hstates, hsource, hcurrent]

end Workspace

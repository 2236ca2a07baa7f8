import Crest.CheckpointManagerInvariant

/-!
# The file of a pending boundary

The record of a turn under way is written with its keys in order, to a file and to a
blob that a ref points to.  Whoever scans the pending boundaries reads both copies again.
A record that passes the check it has to pass before it is written is the record that is
read back.
-/

namespace PendingBoundaryStore

open Workspace

/-- The fields of an optional part of the record. -/
def optionalField (key : String) (value : Option Json) : List (JsString × Json) :=
  (value.map fun v => (js key, v)).toList

/-- The data of a process owner. -/
def processOwnerJson (owner : ProcessOwnerIdentity) : Json :=
  .obj [(js "pid", .num owner.pid), (js "processStartToken", .str owner.processStartToken),
    (js "nonce", .str owner.nonce)]

/-- The data of a record. -/
def recordJson (record : PendingWorkspaceBoundaryV1) : Json :=
  .obj ([(js "boundaryToken", .str record.boundaryToken), (js "sessionId", .str record.sessionId),
    (js "workspaceIdentity", .str record.workspaceIdentity),
    (js "workspaceIncarnation", .str record.workspaceIncarnation),
    (js "processOwner", processOwnerJson record.processOwner), (js "nonce", .str record.nonce),
    (js "before", record.before.toJson)] ++
    (optionalField "userEntryId" (record.userEntryId.map .str) ++
      optionalField "after" (record.after.map (·.toJson))))

/-- The value that `encodeDurableJson` writes the text of: the data of the record, with the
keys of every object in order. -/
def encodeDurableJson (record : PendingWorkspaceBoundaryV1) : Json :=
  (recordJson record).copyJsonValue

/-- `isNonce` of a string. -/
def isNonce (value : JsString) : Bool :=
  decide (32 ≤ value.length) && decide (value.length ≤ 128) && value.all isLowerHexUnit

/-- `isProcessOwner`, with the owner it recognised. -/
def decodeProcessOwner (value : Json) : Option ProcessOwnerIdentity := do
  if !value.isRecord || !value.hasExactKeys
      [js "nonce", js "pid", js "processStartToken"] [] then none
  else
    let pid ← (value.get (js "pid")).bind decodeNonnegativeInteger
    let processStartToken ← value.stringField (js "processStartToken")
    let nonce ← value.stringField (js "nonce")
    if decide (0 < pid) && CheckpointManager.isSafeString processStartToken && isNonce nonce then
      some { pid, processStartToken, nonce }
    else none

/-- The value of a field that is neither absent nor null. -/
def presentField (value : Json) (key : JsString) : Option Json :=
  (value.get key).filter (· ≠ .null)

/-- The keys a record may have. -/
def recordKeys : List JsString :=
  [js "boundaryToken", js "sessionId", js "workspaceIdentity", js "workspaceIncarnation",
    js "processOwner", js "nonce", js "before", js "userEntryId", js "after"]

/-- Whether a snapshot is one of the workspace of the record. -/
def isOfWorkspace (snapshot : WorkspaceSnapshotRefV1)
    (workspaceIdentity workspaceIncarnation : JsString) : Bool :=
  snapshot.workspaceIdentity = workspaceIdentity &&
    snapshot.workspaceIncarnation = workspaceIncarnation

/-- The field `userEntryId` of a record: absent, or a safe string. -/
def decodeUserEntryId (value : Json) : Option (Option JsString) :=
  match presentField value (js "userEntryId") with
  | none => some none
  | some (.str userEntryId) =>
    if CheckpointManager.isSafeString userEntryId then some (some userEntryId) else none
  | some _ => none

/-- The field `after` of a record: absent, or a snapshot of the workspace, which only a
bound record has. -/
def decodeAfter (value : Json) (workspaceIdentity workspaceIncarnation : JsString)
    (userEntryId : Option JsString) : Option (Option WorkspaceSnapshotRefV1) :=
  match presentField value (js "after") with
  | none => some none
  | some field => do
      let after ← decodeWorkspaceSnapshotRefV1 field
      if userEntryId.isSome && isOfWorkspace after workspaceIdentity workspaceIncarnation then
        some (some after)
      else none

/-- `decodePendingWorkspaceBoundaryV1`.  A token that is not a string can pass in the source
when its text is a token; such a record is refused one call later, where the name of its ref
is made, so it is refused here. -/
def decodePendingWorkspaceBoundaryV1 (value : Json) : Option PendingWorkspaceBoundaryV1 := do
  if !value.isRecord || !value.keys.all (fun key => recordKeys.contains key) then none
  else
    let boundaryToken ← value.stringField (js "boundaryToken")
    let sessionId ← value.stringField (js "sessionId")
    let workspaceIdentity ← value.stringField (js "workspaceIdentity")
    let workspaceIncarnation ← value.stringField (js "workspaceIncarnation")
    let processOwner ← (value.get (js "processOwner")).bind decodeProcessOwner
    let nonce ← value.stringField (js "nonce")
    if !matchesTokenPattern boundaryToken || !CheckpointManager.isSafeString sessionId ||
        !isIdentity workspaceIdentity || !isIdentity workspaceIncarnation || !isNonce nonce then
      none
    else
      let before ← (value.get (js "before")).bind decodeWorkspaceSnapshotRefV1
      if !isOfWorkspace before workspaceIdentity workspaceIncarnation then none
      else
        let userEntryId ← decodeUserEntryId value
        let after ← decodeAfter value workspaceIdentity workspaceIncarnation userEntryId
        some { boundaryToken, sessionId, workspaceIdentity, workspaceIncarnation, processOwner,
               nonce, before, userEntryId, after }

def validatePendingRecord (record : PendingWorkspaceBoundaryV1) : Bool :=
  (decodePendingWorkspaceBoundaryV1 (recordJson record)).isSome

section RoundTrip

theorem snapshotJson_ne_null (ref : WorkspaceSnapshotRefV1) : ref.toJson ≠ .null := by
  simp [WorkspaceSnapshotRefV1.toJson]

theorem decodeWorkspaceSnapshotRefV1_copyJsonValue (ref : WorkspaceSnapshotRefV1) :
    decodeWorkspaceSnapshotRefV1 ref.toJson.copyJsonValue =
      decodeWorkspaceSnapshotRefV1 ref.toJson := by
  have hcopy : ref.toJson.copyJsonValue = .obj [(js "id", .str ref.id),
      (js "scopeManifest", .str ref.scopeManifest), (js "tree", .str ref.tree),
      (js "workspaceIdentity", .str ref.workspaceIdentity),
      (js "workspaceIncarnation", .str ref.workspaceIncarnation)] := rfl
  rw [hcopy]
  simp [WorkspaceSnapshotRefV1.toJson, decodeWorkspaceSnapshotRefV1, Json.stringField,
    Json.hasExactKeys, Json.hasOwn]

theorem decodeProcessOwner_copyJsonValue (owner : ProcessOwnerIdentity) :
    decodeProcessOwner (processOwnerJson owner).copyJsonValue =
      decodeProcessOwner (processOwnerJson owner) := by
  have hcopy : (processOwnerJson owner).copyJsonValue = .obj [(js "nonce", .str owner.nonce),
      (js "pid", .num owner.pid), (js "processStartToken", .str owner.processStartToken)] := rfl
  rw [hcopy]
  simp [processOwnerJson, decodeProcessOwner, Json.stringField, Json.hasExactKeys, Json.hasOwn]

theorem encodeDurableJson_eq (record : PendingWorkspaceBoundaryV1) :
    encodeDurableJson record = .obj
      (optionalField "after" (record.after.map (·.toJson.copyJsonValue)) ++
        [(js "before", record.before.toJson.copyJsonValue),
          (js "boundaryToken", .str record.boundaryToken), (js "nonce", .str record.nonce),
          (js "processOwner", (processOwnerJson record.processOwner).copyJsonValue),
          (js "sessionId", .str record.sessionId)] ++
        optionalField "userEntryId" (record.userEntryId.map .str) ++
        [(js "workspaceIdentity", .str record.workspaceIdentity),
          (js "workspaceIncarnation", .str record.workspaceIncarnation)]) := by
  obtain ⟨_, _, _, _, _, _, _, userEntryId, after⟩ := record
  cases userEntryId <;> cases after <;> rfl

theorem decode_encodeDurableJson (record : PendingWorkspaceBoundaryV1) :
    decodePendingWorkspaceBoundaryV1 (encodeDurableJson record) =
      decodePendingWorkspaceBoundaryV1 (recordJson record) := by
  have hnull : ∀ ref : WorkspaceSnapshotRefV1, ref.toJson.copyJsonValue ≠ .null := by
    intro ref h
    have : (Json.null).isRecord = true := h ▸ rfl
    cases this
  rw [encodeDurableJson_eq]
  obtain ⟨_, _, _, _, _, _, _, userEntryId, after⟩ := record
  cases userEntryId <;> cases after <;>
    simp [recordJson, optionalField, decodePendingWorkspaceBoundaryV1, Json.stringField,
      recordKeys, decodeUserEntryId, decodeAfter, presentField, Option.filter, hnull,
      snapshotJson_ne_null, decodeWorkspaceSnapshotRefV1_copyJsonValue,
      decodeProcessOwner_copyJsonValue]

theorem eq_of_decodeProcessOwner {owner found : ProcessOwnerIdentity}
    (h : decodeProcessOwner (processOwnerJson owner) = some found) :
    found = owner := by
  simp only [processOwnerJson, decodeProcessOwner, Json.stringField, Json.get_obj_cons] at h
  simp [Json.hasExactKeys, Json.hasOwn, decodeNonnegativeInteger, Option.bind_eq_some_iff] at h
  exact h.2.2.symm

theorem eq_of_decodeSnapshot {ref found : WorkspaceSnapshotRefV1}
    (h : decodeWorkspaceSnapshotRefV1 ref.toJson = some found) :
    found = ref := by
  rw [decodeWorkspaceSnapshotRefV1_toJson] at h
  split at h
  · exact (Option.some.inj h).symm
  · cases h

theorem eq_of_decode {record found : PendingWorkspaceBoundaryV1}
    (h : decodePendingWorkspaceBoundaryV1 (recordJson record) = some found) :
    found = record ∧ matchesTokenPattern record.boundaryToken = true := by
  obtain ⟨_, _, _, _, _, _, _, userEntryId, after⟩ := record
  cases userEntryId <;> cases after <;>
    simp [recordJson, optionalField, decodePendingWorkspaceBoundaryV1, Json.stringField,
      recordKeys, decodeUserEntryId, decodeAfter, presentField, Option.filter,
      snapshotJson_ne_null, Option.bind_eq_some_iff] at h
  case none.none =>
    obtain ⟨owner, howner, htexts, before, hbefore, -, rfl⟩ := h
    rw [eq_of_decodeProcessOwner howner, eq_of_decodeSnapshot hbefore]
    exact ⟨rfl, htexts.1.1.1.1⟩
  case some.none =>
    obtain ⟨owner, howner, htexts, before, hbefore, -, -, rfl⟩ := h
    rw [eq_of_decodeProcessOwner howner, eq_of_decodeSnapshot hbefore]
    exact ⟨rfl, htexts.1.1.1.1⟩
  case some.some =>
    obtain ⟨owner, howner, htexts, before, hbefore, -, -, after, ⟨hafter, -⟩, rfl⟩ := h
    rw [eq_of_decodeProcessOwner howner, eq_of_decodeSnapshot hbefore,
      eq_of_decodeSnapshot hafter]
    exact ⟨rfl, htexts.1.1.1.1⟩

variable {record : PendingWorkspaceBoundaryV1}

/-- **A record that passes the check is read back from what is written for it.** -/
theorem decode_of_validate (h : validatePendingRecord record = true) :
    decodePendingWorkspaceBoundaryV1 (encodeDurableJson record) = some record := by
  obtain ⟨found, hfound⟩ := Option.isSome_iff_exists.mp h
  obtain ⟨rfl, -⟩ := eq_of_decode hfound
  rw [decode_encodeDurableJson, hfound]

theorem token_of_validate (h : validatePendingRecord record = true) :
    matchesTokenPattern record.boundaryToken = true := by
  obtain ⟨found, hfound⟩ := Option.isSome_iff_exists.mp h
  exact (eq_of_decode hfound).2

end RoundTrip

end PendingBoundaryStore

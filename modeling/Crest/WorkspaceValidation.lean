import Crest.WorkspacePath
import Crest.WorkspaceTypes

/-!
# Decoding checkpoints and markers

The decoders take apart an unknown value and put the record together again, so
that a value which does not have exactly the expected shape is not read at all.
Each decoder is followed by what it makes of the data of a value of its type.
-/

namespace Workspace

open JsString

/-- The class `[0-9a-f]`. -/
def isLowerHexUnit (u : UInt16) : Bool := (0x30 ≤ u && u ≤ 0x39) || (0x61 ≤ u && u ≤ 0x66)

/-- `GitOidPattern.test(value)`: forty lowercase hexadecimal digits. -/
def isGitOid (value : JsString) : Bool := decide (value.length = 40) && value.all isLowerHexUnit

/-- All coverage reasons. -/
def allCoverageReasons : List WorkspaceCoverageReason :=
  [.ignored, .nestedRepository, .oversizedUntracked, .nonUtf8Path, .hardLinked, .specialEntry,
    .captureBudget]

/-- `isWorkspaceCoverageReason`, with the reason it recognised. -/
def decodeCoverageReason (value : Json) : Option WorkspaceCoverageReason :=
  value.asString.bind fun s => allCoverageReasons.find? fun reason => reason.text == s

/-- All failure codes. -/
def allFailureCodes : List WorkspaceCheckpointFailureCode :=
  [.disabled, .gitUnavailable, .captureTimeout, .captureBudget, .unstableFile, .enospc,
    .quotaExceeded, .hostedPtyRunning, .processCrashBeforeFinalization, .corruptSnapshot]

/-- `isWorkspaceCheckpointFailureCode`, with the code it recognised. -/
def decodeFailureCode (value : Json) : Option WorkspaceCheckpointFailureCode :=
  value.asString.bind fun s => allFailureCodes.find? fun code => code.text == s

/-- The largest safe integer. -/
def maxSafeInteger : Nat := 9007199254740991

/-- `isNonnegativeInteger`, with the number it recognised. -/
def decodeNonnegativeInteger : Json → Option Nat
  | .num n => if n.den = 1 ∧ 0 ≤ n.num ∧ n.num.toNat ≤ maxSafeInteger then some n.num.toNat else none
  | _ => none

def decodeCapturedPathStateV1 (value : Json) : Option CapturedPathStateV1 := do
  let state ← value.stringField (js "state")
  if state = js "absent" then
    if value.hasExactKeys [js "state"] [] then some .absent else none
  else if state = js "file" then
    if !value.hasExactKeys [js "state", js "oid", js "executable"] [] then none
    else
      let oid ← value.stringField (js "oid")
      let executable ← (value.get (js "executable")).bind Json.asBool
      if isGitOid oid then some (.file oid executable) else none
  else if state = js "symlink" then
    if !value.hasExactKeys [js "state", js "oid"] [] then none
    else
      let oid ← value.stringField (js "oid")
      if isGitOid oid then some (.symlink oid) else none
  else if state = js "excluded" then
    if !value.hasExactKeys [js "state", js "reason"] [] then none
    else
      let reason ← (value.get (js "reason")).bind decodeCoverageReason
      some (.excluded reason)
  else none

def decodeWorkspaceSnapshotRefV1 (value : Json) : Option WorkspaceSnapshotRefV1 := do
  if !value.isRecord || !value.hasExactKeys
      [js "id", js "workspaceIdentity", js "workspaceIncarnation", js "tree",
        js "scopeManifest"] [] then none
  else
    let id ← value.stringField (js "id")
    let workspaceIdentity ← value.stringField (js "workspaceIdentity")
    let workspaceIncarnation ← value.stringField (js "workspaceIncarnation")
    let tree ← value.stringField (js "tree")
    let scopeManifest ← value.stringField (js "scopeManifest")
    if isGitOid id && isGitOid tree && isGitOid scopeManifest then
      some { id, workspaceIdentity, workspaceIncarnation, tree, scopeManifest }
    else none

/-- Whether a linked operation names two different snapshots of one
workspace. -/
def linksTwoSnapshots (sourceSnapshot currentSnapshot : WorkspaceSnapshotRefV1) : Bool :=
  sourceSnapshot.id ≠ currentSnapshot.id &&
    sourceSnapshot.workspaceIdentity == currentSnapshot.workspaceIdentity &&
    sourceSnapshot.workspaceIncarnation == currentSnapshot.workspaceIncarnation

/-- A decoder of linked operations; the two copies in the source differ in the
test of the operation's name. -/
def decodeLinkedOperationWith (isOperationId : JsString → Bool) (value : Json) :
    Option WorkspaceLinkedOperationV1 := do
  if !value.isRecord || !value.hasExactKeys
      [js "operationId", js "sourceSnapshot", js "currentSnapshot"] [] then none
  else
    let sourceSnapshot ← (value.get (js "sourceSnapshot")).bind decodeWorkspaceSnapshotRefV1
    let currentSnapshot ← (value.get (js "currentSnapshot")).bind decodeWorkspaceSnapshotRefV1
    let operationId ← value.stringField (js "operationId")
    if isOperationId operationId && linksTwoSnapshots sourceSnapshot currentSnapshot then
      some { operationId, sourceSnapshot, currentSnapshot }
    else none

def decodeWorkspaceLinkedOperationV1 (value : Json) : Option WorkspaceLinkedOperationV1 :=
  decodeLinkedOperationWith (fun operationId => decide (0 < operationId.length)) value

def decodeWorkspacePathChangeV1 (value : Json) : Option WorkspacePathChangeV1 := do
  if !value.isRecord || !value.hasExactKeys [js "path", js "before", js "after"] [] then none
  else
    let pathValue ← value.get (js "path")
    if !isCanonicalRelativePath pathValue then none
    else
      let path ← pathValue.asString
      let before ← (value.get (js "before")).bind decodeCapturedPathStateV1
      let after ← (value.get (js "after")).bind decodeCapturedPathStateV1
      some { path, before, after }

/-- One item of `decodeWorkspaceSnapshotCoverage`'s loop, without the look-out
for repeated locators. -/
def decodeCoverageExclusion (item : Json) : Option WorkspaceSnapshotCoverageExclusion := do
  if !item.isRecord ||
      !item.hasExactKeys [js "reason"] [js "path", js "pathBytesBase64", js "scope"] then none
  else
    let hasPath := item.hasOwn (js "path")
    let hasPathBytes := item.hasOwn (js "pathBytesBase64")
    let hasScope := item.hasOwn (js "scope")
    if hasPath.toNat + hasPathBytes.toNat + hasScope.toNat ≠ 1 then none
    else
      let reason ← (item.get (js "reason")).bind decodeCoverageReason
      if hasScope then
        if item.get (js "scope") = some (.str (js "workspace-root")) &&
            reason = .captureBudget then some .workspaceRoot
        else none
      else if hasPath then
        let pathValue ← item.get (js "path")
        if !isCanonicalRelativePath pathValue then none
        else
          let path ← pathValue.asString
          some (.path path reason)
      else
        let pathBytesBase64 ← item.get (js "pathBytesBase64")
        let _ ← decodeCanonicalRelativePathBytes pathBytesBase64
        let text ← pathBytesBase64.asString
        some (.pathBytesBase64 text reason)

/-- What an exclusion is about, as the decoder remembers it: the bytes of its
path, or nothing for the workspace root. -/
def exclusionLocator : WorkspaceSnapshotCoverageExclusion → Option (List UInt8)
  | .path path _ => some (utf8 path)
  | .pathBytesBase64 text _ => some (Base64.fromBase64 text)
  | .workspaceRoot => none

/-- A loop over an array that decodes each item and refuses a key it has already
seen. -/
def decodeDistinct {α κ : Type} [DecidableEq κ] (decode : Json → Option α) (key : α → κ)
    (seen : List κ) : List Json → Option (List α)
  | [] => some []
  | item :: rest => do
      let decoded ← decode item
      if key decoded ∈ seen then none
      else
        let others ← decodeDistinct decode key (key decoded :: seen) rest
        some (decoded :: others)

def decodeWorkspaceSnapshotCoverage (value : Json) : Option WorkspaceSnapshotCoverage := do
  if !value.isRecord || !value.hasExactKeys
      [js "complete", js "eligibleEntryCount", js "newlyHashedBytes", js "exclusions"] [] then none
  else
    let complete ← (value.get (js "complete")).bind Json.asBool
    let eligibleEntryCount ← (value.get (js "eligibleEntryCount")).bind decodeNonnegativeInteger
    let newlyHashedBytes ← (value.get (js "newlyHashedBytes")).bind decodeNonnegativeInteger
    let items ← value.arrayField (js "exclusions")
    let exclusions ← decodeDistinct decodeCoverageExclusion exclusionLocator [] items
    some { complete, eligibleEntryCount, newlyHashedBytes, exclusions }

/-- One item of `decodePathStates`. -/
def decodePathState (item : Json) : Option PathState := do
  if !item.isRecord || !item.hasExactKeys [js "path", js "state"] [] then none
  else
    let pathValue ← item.get (js "path")
    if !isCanonicalRelativePath pathValue then none
    else
      let path ← pathValue.asString
      let state ← (item.get (js "state")).bind decodeCapturedPathStateV1
      some { path, state }

def decodePathStates (value : Json) : Option (List PathState) :=
  value.asArray.bind fun items => decodeDistinct decodePathState PathState.path [] items

def decodeUniquePaths (value : Json) : Option (List JsString) :=
  value.asArray.bind fun items =>
    decodeDistinct (fun path => if isCanonicalRelativePath path then path.asString else none)
      (fun path => path) [] items

def decodeWorkspaceCheckpointV1 (value : Json) : Option WorkspaceCheckpointV1 := do
  if !value.isRecord || value.get (js "schemaVersion") ≠ some (.num 1) then none
  else
    let status ← value.stringField (js "status")
    if status = js "available" then
      if !value.hasExactKeys
          [js "schemaVersion", js "status", js "originSessionId", js "turnId",
            js "workspaceIdentity", js "workspaceIncarnation", js "before", js "after",
            js "changes", js "coverage"] [] then none
      else
        let originSessionId ← value.stringField (js "originSessionId")
        let turnId ← value.stringField (js "turnId")
        let workspaceIdentity ← value.stringField (js "workspaceIdentity")
        let workspaceIncarnation ← value.stringField (js "workspaceIncarnation")
        let items ← value.arrayField (js "changes")
        let before ← (value.get (js "before")).bind decodeWorkspaceSnapshotRefV1
        let after ← (value.get (js "after")).bind decodeWorkspaceSnapshotRefV1
        let coverage ← (value.get (js "coverage")).bind decodeWorkspaceSnapshotCoverage
        let changes ← decodeDistinct decodeWorkspacePathChangeV1 WorkspacePathChangeV1.path [] items
        some (.available { originSessionId, turnId, workspaceIdentity, workspaceIncarnation,
                           before, after, changes, coverage })
    else if status ≠ js "unavailable" then none
    else if !value.hasExactKeys
        [js "schemaVersion", js "status", js "originSessionId", js "turnId",
          js "workspaceIdentity", js "reasonCode", js "message"]
        [js "workspaceIncarnation", js "coverage"] then none
    else
      let originSessionId ← value.stringField (js "originSessionId")
      let turnId ← value.stringField (js "turnId")
      let workspaceIdentity ← value.stringField (js "workspaceIdentity")
      let reasonCode ← (value.get (js "reasonCode")).bind decodeFailureCode
      let message ← value.stringField (js "message")
      let workspaceIncarnation ←
        match value.get (js "workspaceIncarnation") with
        | none => some none
        | some item => item.asString.map some
      let coverage ←
        match value.get (js "coverage") with
        | none => some none
        | some item => (decodeWorkspaceSnapshotCoverage item).map some
      some (.unavailable { originSessionId, turnId, workspaceIdentity, workspaceIncarnation,
                           reasonCode, message, coverage })

/-- The test `value.applyMode !== "normal" && value.applyMode !== "force-drift"`,
with the mode it recognised. -/
def decodeApplyMode (value : Json) : Option RestoreApplyMode :=
  value.asString.bind fun s =>
    if s = js "normal" then some .normal
    else if s = js "force-drift" then some .forceDrift
    else none

/-- A string, or `null` for none. -/
def decodeNullableString : Json → Option (Option JsString)
  | .null => some none
  | .str s => some (some s)
  | _ => none

/-- `baseKeys`. -/
def workspaceStateBaseKeys : List JsString :=
  [js "schemaVersion", js "sessionId", js "operationId", js "workspaceIdentity",
    js "workspaceIncarnation", js "kind", js "applyMode", js "forcedPaths", js "sourceSnapshot",
    js "currentSnapshot", js "currentStates"]

/-- The kind of a marker, with the fields of that kind. -/
def decodeWorkspaceStateKind (value : Json) : Option WorkspaceStateKind := do
  let kind ← value.stringField (js "kind")
  if kind = js "rewind" then
    if !value.hasExactKeys (workspaceStateBaseKeys ++ [js "rewind"]) [] then none
    else
      let rewind ← value.get (js "rewind")
      if !rewind.isRecord || !rewind.hasExactKeys
          [js "fromLeafId", js "targetTurnId", js "targetBoundaryId", js "redoStates"] [] then none
      else
        let fromLeafId ← (rewind.get (js "fromLeafId")).bind decodeNullableString
        let targetTurnId ← rewind.stringField (js "targetTurnId")
        let targetBoundaryId ← (rewind.get (js "targetBoundaryId")).bind decodeNullableString
        let redoStates ← (rewind.get (js "redoStates")).bind decodePathStates
        some (.rewind fromLeafId targetTurnId targetBoundaryId redoStates)
  else if kind = js "redo" then
    if !value.hasExactKeys
        (workspaceStateBaseKeys ++ [js "sourceRewindOperationId", js "linkedOperation"]) [] then none
    else
      let sourceRewindOperationId ← value.stringField (js "sourceRewindOperationId")
      if sourceRewindOperationId.length = 0 then none
      else
        let linkedOperation ←
          (value.get (js "linkedOperation")).bind decodeWorkspaceLinkedOperationV1
        if linkedOperation.operationId = sourceRewindOperationId then
          some (.redo sourceRewindOperationId linkedOperation)
        else none
  else if kind = js "turn-undo" then
    if !value.hasExactKeys (workspaceStateBaseKeys ++ [js "sourceTurnId"]) [] then none
    else
      let sourceTurnId ← value.stringField (js "sourceTurnId")
      some (.turnUndo sourceTurnId)
  else if kind = js "turn-redo" then
    if !value.hasExactKeys
        (workspaceStateBaseKeys ++ [js "sourceTurnId", js "undoOperationId", js "linkedOperation"])
        [] then none
    else
      let sourceTurnId ← value.stringField (js "sourceTurnId")
      let undoOperationId ← value.stringField (js "undoOperationId")
      let linkedOperation ← (value.get (js "linkedOperation")).bind decodeWorkspaceLinkedOperationV1
      if linkedOperation.operationId = undoOperationId then
        some (.turnRedo sourceTurnId undoOperationId linkedOperation)
      else none
  else none

def decodeWorkspaceStateV1 (value : Json) : Option WorkspaceStateV1 := do
  if !value.isRecord || value.get (js "schemaVersion") ≠ some (.num 1) then none
  else
    let sessionId ← value.stringField (js "sessionId")
    let operationId ← value.stringField (js "operationId")
    let workspaceIdentity ← value.stringField (js "workspaceIdentity")
    let workspaceIncarnation ← value.stringField (js "workspaceIncarnation")
    let applyMode ← (value.get (js "applyMode")).bind decodeApplyMode
    let forcedPaths ← (value.get (js "forcedPaths")).bind decodeUniquePaths
    let sourceSnapshot ← (value.get (js "sourceSnapshot")).bind decodeWorkspaceSnapshotRefV1
    let currentSnapshot ← (value.get (js "currentSnapshot")).bind decodeWorkspaceSnapshotRefV1
    let currentStates ← (value.get (js "currentStates")).bind decodePathStates
    let kind ← decodeWorkspaceStateKind value
    some { sessionId, operationId, workspaceIdentity, workspaceIncarnation, applyMode,
           forcedPaths, sourceSnapshot, currentSnapshot, currentStates, kind }

end Workspace

import Mathlib.Data.Nat.Digits.Defs
import Crest.WorkspaceRoundTrip

/-!
# The pending restore record

Before a restore touches a file it writes a record of what it is about to do.
The record is decoded from an unknown value.  Every field but one is tested for
being a string; the name of the operation is only tested after it has been
turned into one.  The field is therefore a plain value here.
-/

namespace Workspace

open JsString

/-- What a restore goes back to. -/
inductive RestoreTargetV1
  | rewind (targetTurnId : JsString)
  | redo (sourceRewindOperationId : JsString) (linkedOperation : WorkspaceLinkedOperationV1)
  | turnUndo (sourceTurnId : JsString)
  | turnRedo (sourceTurnId undoOperationId : JsString)
      (linkedOperation : WorkspaceLinkedOperationV1)
  deriving DecidableEq, Repr

/-- A record of a restore that has not been completed. -/
structure PendingWorkspaceRestoreV2 where
  /-- The operation; a string by its declared type. -/
  operationId : Json
  workspaceIdentity : JsString
  workspaceIncarnation : JsString
  sessionId : JsString
  sessionPath : JsString
  target : RestoreTargetV1
  applyMode : RestoreApplyMode
  forcedPaths : List JsString
  expectedSemanticLeafId : Option JsString
  commitParentId : Option JsString
  workspaceStateEntryId : JsString
  workspaceStateTimestamp : JsString
  sourceCommit : JsString
  plannedCommit : JsString
  affectedPaths : List JsString
  deriving DecidableEq, Repr

def RestoreTargetV1.toJson : RestoreTargetV1 → Json
  | .rewind targetTurnId =>
    .obj [(js "kind", .str (js "rewind")), (js "targetTurnId", .str targetTurnId)]
  | .redo sourceRewindOperationId linkedOperation =>
    .obj [(js "kind", .str (js "redo")),
      (js "sourceRewindOperationId", .str sourceRewindOperationId),
      (js "linkedOperation", linkedOperation.toJson)]
  | .turnUndo sourceTurnId =>
    .obj [(js "kind", .str (js "turn-undo")), (js "sourceTurnId", .str sourceTurnId)]
  | .turnRedo sourceTurnId undoOperationId linkedOperation =>
    .obj [(js "kind", .str (js "turn-redo")), (js "sourceTurnId", .str sourceTurnId),
      (js "undoOperationId", .str undoOperationId),
      (js "linkedOperation", linkedOperation.toJson)]

def PendingWorkspaceRestoreV2.toJson (record : PendingWorkspaceRestoreV2) : Json :=
  .obj [(js "schemaVersion", .num 2), (js "operationId", record.operationId),
    (js "workspaceIdentity", .str record.workspaceIdentity),
    (js "workspaceIncarnation", .str record.workspaceIncarnation),
    (js "sessionId", .str record.sessionId), (js "sessionPath", .str record.sessionPath),
    (js "target", record.target.toJson), (js "applyMode", .str record.applyMode.text),
    (js "forcedPaths", .arr (record.forcedPaths.map .str)),
    (js "expectedSemanticLeafId", nullableString record.expectedSemanticLeafId),
    (js "commitParentId", nullableString record.commitParentId),
    (js "workspaceStateEntryId", .str record.workspaceStateEntryId),
    (js "workspaceStateTimestamp", .str record.workspaceStateTimestamp),
    (js "sourceCommit", .str record.sourceCommit),
    (js "plannedCommit", .str record.plannedCommit),
    (js "affectedPaths", .arr (record.affectedPaths.map .str))]

/-- The class `[0-9]`. -/
def isDigitUnit (u : UInt16) : Bool := 0x30 ≤ u && u ≤ 0x39

/-- The class `[A-Za-z0-9]`. -/
def isAlphanumericUnit (u : UInt16) : Bool :=
  isDigitUnit u || (0x41 ≤ u && u ≤ 0x5A) || (0x61 ≤ u && u ≤ 0x7A)

/-- `TokenPattern.test(value)`. -/
def matchesTokenPattern : JsString → Bool
  | [] => false
  | u :: rest =>
    isAlphanumericUnit u && decide (rest.length ≤ 127) &&
      rest.all fun v => isAlphanumericUnit v || v == 0x2E || v == 0x5F || v == 0x2D

mutual

/-- `String(value ?? "")`, with the text of a number as a parameter. -/
def stringOf (numberText : ℚ → JsString) : Json → JsString
  | .null => []
  | .bool true => js "true"
  | .bool false => js "false"
  | .num n => numberText n
  | .str s => s
  | .arr items => stringOfItems numberText items
  | .obj _ => js "[object Object]"

/-- The items of an array, joined by commas. -/
def stringOfItems (numberText : ℚ → JsString) : List Json → JsString
  | [] => []
  | [item] => stringOf numberText item
  | item :: other :: rest =>
    stringOf numberText item ++ js "," ++ stringOfItems numberText (other :: rest)

end

/-- `IdentityPattern.test(value)`: sixty-four lowercase hexadecimal digits. -/
def isIdentity (value : JsString) : Bool := decide (value.length = 64) && value.all isLowerHexUnit

/-- `isSafeString` of a string. -/
def isSafeString (value : JsString) : Bool :=
  decide (0 < value.length) && decide (value.length ≤ 16384) && hasWellFormedUtf16 value &&
    !value.contains 0

/-- One segment of `normalize`'s loop over an absolute path. -/
def normalizeSegment (resolved : List JsString) (segment : JsString) : List JsString :=
  if segment = [] || segment = js "." then resolved
  else if segment = js ".." then resolved.dropLast
  else resolved ++ [segment]

/-- `normalize(path)` of an absolute POSIX path. -/
def normalize (path : JsString) : JsString :=
  let resolved := (splitPath path).foldl normalizeSegment []
  let trailing : JsString := if path.getLast? = some 0x2F && resolved ≠ [] then [0x2F] else []
  [0x2F] ++ List.intercalate [0x2F] resolved ++ trailing

/-- `isAbsoluteSafePath` of a string. -/
def isAbsoluteSafePath (path : JsString) : Bool :=
  isAbsolute path && normalize path == path && decide (path.length ≤ 16384) &&
    hasWellFormedUtf16 path && !path.contains 0

/-- The number of days of a month. -/
def daysInMonth (year : Int) (month : Nat) : Nat :=
  if month = 2 then if year % 4 = 0 ∧ (year % 100 ≠ 0 ∨ year % 400 = 0) then 29 else 28
  else if month ∈ [4, 6, 9, 11] then 30
  else 31

/-- The year of a text `toISOString` writes: four digits, or a sign and six for a
year that needs them. -/
def isoYear : JsString → Option Int
  | [a, b, c, d] =>
    if [a, b, c, d].all isDigitUnit then some (Json.digitsValue [a, b, c, d]) else none
  | sign :: digits =>
    if digits.length ≠ 6 || !digits.all isDigitUnit then none
    else
      let year := Json.digitsValue digits
      if sign = 0x2B then if 9999 < year then some year else none
      else if sign = 0x2D then if 0 < year then some (-year) else none
      else none
  | [] => none

/-- The place of a moment in the order of all moments. -/
def datePosition (year : Int) (month day milliseconds : Nat) : Int :=
  ((year * 12 + month) * 32 + day) * 86400000 + milliseconds

/-- Whether a date is within the range of a `Date`, which ends a hundred million
days from the epoch on either side. -/
def isInDateRange (year : Int) (month day milliseconds : Nat) : Bool :=
  decide (datePosition (-271821) 4 20 0 ≤ datePosition year month day milliseconds) &&
    decide (datePosition year month day milliseconds ≤ datePosition 275760 9 13 0)

/-- `isCanonicalTimestamp` of a string: `toISOString` of some date. -/
def isCanonicalTimestamp (value : JsString) : Bool :=
  let yearText := value.take (value.length - 20)
  match isoYear yearText, value.drop (value.length - 20) with
  | some year, [dash, m, m', dash', d, d', t, h, h', colon, n, n', colon', s, s', dot,
      i, i', i'', z] =>
      let month := Json.digitsValue [m, m']
      let day := Json.digitsValue [d, d']
      let hour := Json.digitsValue [h, h']
      let minute := Json.digitsValue [n, n']
      let second := Json.digitsValue [s, s']
      let millisecond := Json.digitsValue [i, i', i'']
      [dash, dash', t, colon, colon', dot, z] == js "--T::.Z" &&
        [m, m', d, d', h, h', n, n', s, s', i, i', i''].all isDigitUnit &&
        decide (1 ≤ month ∧ month ≤ 12) && decide (1 ≤ day ∧ day ≤ daysInMonth year month) &&
        decide (hour ≤ 23) && decide (minute ≤ 59) && decide (second ≤ 59) &&
        isInDateRange year month day (((hour * 60 + minute) * 60 + second) * 1000 + millisecond)
  | _, _ => false

/-- `hasExactKeys` of this file: as many keys as required, and all of those. -/
def hasPendingKeys (value : Json) (required : List JsString) : Bool :=
  required.length == value.keys.length && required.all fun key => value.hasOwn key

def decodeLinkedOperation (value : Json) : Option WorkspaceLinkedOperationV1 :=
  decodeLinkedOperationWith isSafeString value

def decodeRestoreTargetV1 (value : Json) : Option RestoreTargetV1 := do
  if !value.isRecord then none
  else
    let kind ← value.stringField (js "kind")
    if kind = js "rewind" && hasPendingKeys value [js "kind", js "targetTurnId"] then
      let targetTurnId ← value.stringField (js "targetTurnId")
      if isSafeString targetTurnId then some (.rewind targetTurnId) else none
    else if kind = js "redo" &&
        hasPendingKeys value [js "kind", js "sourceRewindOperationId", js "linkedOperation"] then
      let sourceRewindOperationId ← value.stringField (js "sourceRewindOperationId")
      let linkedOperation ← (value.get (js "linkedOperation")).bind decodeLinkedOperation
      if isSafeString sourceRewindOperationId &&
          linkedOperation.operationId = sourceRewindOperationId then
        some (.redo sourceRewindOperationId linkedOperation)
      else none
    else if kind = js "turn-undo" && hasPendingKeys value [js "kind", js "sourceTurnId"] then
      let sourceTurnId ← value.stringField (js "sourceTurnId")
      if isSafeString sourceTurnId then some (.turnUndo sourceTurnId) else none
    else if kind = js "turn-redo" && hasPendingKeys value
        [js "kind", js "sourceTurnId", js "undoOperationId", js "linkedOperation"] then
      let sourceTurnId ← value.stringField (js "sourceTurnId")
      let undoOperationId ← value.stringField (js "undoOperationId")
      let linkedOperation ← (value.get (js "linkedOperation")).bind decodeLinkedOperation
      if isSafeString sourceTurnId && isSafeString undoOperationId &&
          linkedOperation.operationId = undoOperationId then
        some (.turnRedo sourceTurnId undoOperationId linkedOperation)
      else none
    else none

/-- The paths of an array of canonical paths. -/
def decodePendingPaths (value : Json) : Option (List JsString) :=
  value.asArray.bind fun items =>
    items.mapM fun path => if isPendingRelativePath path then path.asString else none

/-- Whether only a rewind or an undo of a turn is forced. -/
def RestoreTargetV1.mayForceDrift : RestoreTargetV1 → Bool
  | .rewind _ | .turnUndo _ => true
  | .redo .. | .turnRedo .. => false

/-- The tests `decodePendingWorkspaceRestoreV2` makes on the fields once each has
its type. -/
def PendingWorkspaceRestoreV2.passesChecks (numberText : ℚ → JsString)
    (record : PendingWorkspaceRestoreV2) : Bool :=
  matchesTokenPattern (stringOf numberText record.operationId) &&
    isIdentity record.workspaceIdentity &&
    isIdentity record.workspaceIncarnation &&
    isSafeString record.sessionId &&
    isAbsoluteSafePath record.sessionPath &&
    record.expectedSemanticLeafId.all isSafeString &&
    record.commitParentId.all isSafeString &&
    isSafeString record.workspaceStateEntryId &&
    isCanonicalTimestamp record.workspaceStateTimestamp &&
    isGitOid record.sourceCommit &&
    isGitOid record.plannedCommit &&
    record.sourceCommit ≠ record.plannedCommit &&
    decide (record.affectedPaths.length ≤ 4096) &&
    (record.applyMode ≠ .forceDrift || record.target.mayForceDrift) &&
    isSortedUnique record.affectedPaths &&
    isSortedUnique record.forcedPaths &&
    record.forcedPaths.all (fun path => record.affectedPaths.contains path) &&
    (record.applyMode ≠ .normal || record.forcedPaths.isEmpty)

/-- The typed fields of a record. -/
def readPendingFields (value : Json) : Option PendingWorkspaceRestoreV2 := do
  if !value.isRecord || !hasPendingKeys value
      [js "schemaVersion", js "operationId", js "workspaceIdentity", js "workspaceIncarnation",
        js "sessionId", js "sessionPath", js "target", js "applyMode", js "forcedPaths",
        js "expectedSemanticLeafId", js "commitParentId", js "workspaceStateEntryId",
        js "workspaceStateTimestamp", js "sourceCommit", js "plannedCommit",
        js "affectedPaths"] then none
  else if value.get (js "schemaVersion") ≠ some (.num 2) then none
  else
    let operationId ← value.get (js "operationId")
    let workspaceIdentity ← value.stringField (js "workspaceIdentity")
    let workspaceIncarnation ← value.stringField (js "workspaceIncarnation")
    let sessionId ← value.stringField (js "sessionId")
    let sessionPath ← value.stringField (js "sessionPath")
    let target ← (value.get (js "target")).bind decodeRestoreTargetV1
    let applyMode ← (value.get (js "applyMode")).bind decodeApplyMode
    let forcedPaths ← (value.get (js "forcedPaths")).bind decodePendingPaths
    let expectedSemanticLeafId ←
      (value.get (js "expectedSemanticLeafId")).bind decodeNullableString
    let commitParentId ← (value.get (js "commitParentId")).bind decodeNullableString
    let workspaceStateEntryId ← value.stringField (js "workspaceStateEntryId")
    let workspaceStateTimestamp ← value.stringField (js "workspaceStateTimestamp")
    let sourceCommit ← value.stringField (js "sourceCommit")
    let plannedCommit ← value.stringField (js "plannedCommit")
    let affectedPaths ← (value.get (js "affectedPaths")).bind decodePendingPaths
    some { operationId, workspaceIdentity, workspaceIncarnation, sessionId, sessionPath, target,
           applyMode, forcedPaths, expectedSemanticLeafId, commitParentId,
           workspaceStateEntryId, workspaceStateTimestamp, sourceCommit, plannedCommit,
           affectedPaths }

/-- `decodePendingWorkspaceRestoreV2`: the fields, if they pass every check. -/
def decodePendingWorkspaceRestoreV2 (numberText : ℚ → JsString) (value : Json) :
    Option PendingWorkspaceRestoreV2 :=
  (readPendingFields value).filter fun record => record.passesChecks numberText

/-- What a target needs to be read back. -/
def RestoreTargetV1.Readable : RestoreTargetV1 → Prop
  | .rewind turnId | .turnUndo turnId => isSafeString turnId = true
  | .redo operationId linkedOperation =>
    isSafeString operationId = true ∧ linkedOperation.operationId = operationId ∧
      linkedOperation.sourceSnapshot.hasGitOids = true ∧
      linkedOperation.currentSnapshot.hasGitOids = true ∧
      linksTwoSnapshots linkedOperation.sourceSnapshot linkedOperation.currentSnapshot = true
  | .turnRedo turnId operationId linkedOperation =>
    isSafeString turnId = true ∧ isSafeString operationId = true ∧
      linkedOperation.operationId = operationId ∧
      linkedOperation.sourceSnapshot.hasGitOids = true ∧
      linkedOperation.currentSnapshot.hasGitOids = true ∧
      linksTwoSnapshots linkedOperation.sourceSnapshot linkedOperation.currentSnapshot = true

theorem decodeRestoreTargetV1_readable {value : Json} {target : RestoreTargetV1}
    (h : decodeRestoreTargetV1 value = some target) :
    target.Readable := by
  simp only [decodeRestoreTargetV1, Option.bind_eq_bind] at h
  split at h
  · cases h
  obtain ⟨kind, -, h⟩ := Option.bind_eq_some_iff.mp h
  split at h
  · obtain ⟨turnId, -, h⟩ := Option.bind_eq_some_iff.mp h
    split at h
    · obtain rfl := Option.some.inj h
      assumption
    · cases h
  split at h
  · simp only [Option.bind_eq_some_iff] at h
    obtain ⟨operationId, -, linked, ⟨_, -, hlinked⟩, h⟩ := h
    split at h
    · rename_i hchecks
      obtain rfl := Option.some.inj h
      simp only [Bool.and_eq_true, decide_eq_true_eq] at hchecks
      exact ⟨hchecks.1, hchecks.2, (decodeLinkedOperationWith_eq_some hlinked).2⟩
    · cases h
  split at h
  · obtain ⟨turnId, -, h⟩ := Option.bind_eq_some_iff.mp h
    split at h
    · obtain rfl := Option.some.inj h
      assumption
    · cases h
  split at h
  · simp only [Option.bind_eq_some_iff] at h
    obtain ⟨turnId, -, operationId, -, linked, ⟨_, -, hlinked⟩, h⟩ := h
    split at h
    · rename_i hchecks
      obtain rfl := Option.some.inj h
      simp only [Bool.and_eq_true, decide_eq_true_eq] at hchecks
      exact ⟨hchecks.1.1, hchecks.1.2, hchecks.2, (decodeLinkedOperationWith_eq_some hlinked).2⟩
    · cases h
  · cases h

theorem decodeRestoreTargetV1_toJson (target : RestoreTargetV1) (h : target.Readable) :
    decodeRestoreTargetV1 target.toJson = some target := by
  cases target with
  | rewind _ | turnUndo _ =>
    simp only [RestoreTargetV1.Readable] at h
    simp [RestoreTargetV1.toJson, decodeRestoreTargetV1, Json.stringField, hasPendingKeys,
      Json.hasOwn, h]
  | redo sourceRewindOperationId linkedOperation =>
    obtain ⟨hname, hoperation, hsource, hcurrent, hlinks⟩ := h
    have hlinked := decodeLinkedOperationWith_toJson isSafeString linkedOperation
      (hoperation ▸ hname) hsource hcurrent hlinks
    simp [RestoreTargetV1.toJson, decodeRestoreTargetV1, Json.stringField, hasPendingKeys,
      Json.hasOwn, decodeLinkedOperation, hlinked, hname, hoperation]
  | turnRedo sourceTurnId undoOperationId linkedOperation =>
    obtain ⟨hturn, hname, hoperation, hsource, hcurrent, hlinks⟩ := h
    have hlinked := decodeLinkedOperationWith_toJson isSafeString linkedOperation
      (hoperation ▸ hname) hsource hcurrent hlinks
    simp [RestoreTargetV1.toJson, decodeRestoreTargetV1, Json.stringField, hasPendingKeys,
      Json.hasOwn, decodeLinkedOperation, hlinked, hturn, hname, hoperation]

/-- Whether the pending-record decoder accepts each of some paths. -/
def ArePendingPaths (paths : List JsString) : Prop :=
  ∀ path ∈ paths, isPendingRelativePath (.str path) = true

theorem decodePendingPaths_eq_some {value : Json} {paths : List JsString}
    (h : decodePendingPaths value = some paths) :
    ArePendingPaths paths := by
  obtain ⟨items, -, hitems⟩ := Option.bind_eq_some_iff.mp h
  clear h
  induction items generalizing paths with
  | nil =>
    obtain rfl : [] = paths := by simpa using hitems
    simp [ArePendingPaths]
  | cons item items ih =>
    simp only [List.mapM_cons, Option.bind_eq_bind, Option.pure_def] at hitems
    obtain ⟨path, hitem, hitems⟩ := Option.bind_eq_some_iff.mp hitems
    obtain ⟨rest, hrest, hitems⟩ := Option.bind_eq_some_iff.mp hitems
    obtain rfl := Option.some.inj hitems
    refine List.forall_mem_cons.mpr ⟨?_, ih hrest⟩
    split at hitem
    · rename_i hpath
      obtain rfl := (Json.asString_eq_some _ _).mp hitem
      exact hpath
    · cases hitem

theorem decodePendingPaths_map (paths : List JsString) (h : ArePendingPaths paths) :
    decodePendingPaths (.arr (paths.map .str)) = some paths := by
  simp only [decodePendingPaths, Json.asArray_arr, Option.bind_some]
  induction paths with
  | nil => rfl
  | cons path rest ih =>
    have hpath := h path List.mem_cons_self
    have hrest := ih fun other hmem => h other (List.mem_cons_of_mem path hmem)
    simp [hpath, hrest]

/-- What a record needs besides its checks: a target and paths that read
back. -/
structure PendingWorkspaceRestoreV2.Readable (record : PendingWorkspaceRestoreV2) : Prop where
  target : record.target.Readable
  forcedPaths : ArePendingPaths record.forcedPaths
  affectedPaths : ArePendingPaths record.affectedPaths

variable {record : PendingWorkspaceRestoreV2}

theorem readPendingFields_eq_some {value : Json}
    (h : readPendingFields value = some record) :
    record.Readable := by
  unfold readPendingFields at h
  split at h
  · cases h
  split at h
  · cases h
  obtain ⟨operationId, -, h⟩ := Option.bind_eq_some_iff.mp h
  obtain ⟨workspaceIdentity, -, h⟩ := Option.bind_eq_some_iff.mp h
  obtain ⟨workspaceIncarnation, -, h⟩ := Option.bind_eq_some_iff.mp h
  obtain ⟨sessionId, -, h⟩ := Option.bind_eq_some_iff.mp h
  obtain ⟨sessionPath, -, h⟩ := Option.bind_eq_some_iff.mp h
  obtain ⟨target, htarget, h⟩ := Option.bind_eq_some_iff.mp h
  obtain ⟨applyMode, -, h⟩ := Option.bind_eq_some_iff.mp h
  obtain ⟨forcedPaths, hforced, h⟩ := Option.bind_eq_some_iff.mp h
  obtain ⟨expectedSemanticLeafId, -, h⟩ := Option.bind_eq_some_iff.mp h
  obtain ⟨commitParentId, -, h⟩ := Option.bind_eq_some_iff.mp h
  obtain ⟨workspaceStateEntryId, -, h⟩ := Option.bind_eq_some_iff.mp h
  obtain ⟨workspaceStateTimestamp, -, h⟩ := Option.bind_eq_some_iff.mp h
  obtain ⟨sourceCommit, -, h⟩ := Option.bind_eq_some_iff.mp h
  obtain ⟨plannedCommit, -, h⟩ := Option.bind_eq_some_iff.mp h
  obtain ⟨affectedPaths, haffected, h⟩ := Option.bind_eq_some_iff.mp h
  obtain ⟨_, -, htarget⟩ := Option.bind_eq_some_iff.mp htarget
  obtain ⟨_, -, hforced⟩ := Option.bind_eq_some_iff.mp hforced
  obtain ⟨_, -, haffected⟩ := Option.bind_eq_some_iff.mp haffected
  obtain rfl := Option.some.inj h
  exact { target := decodeRestoreTargetV1_readable htarget
          forcedPaths := decodePendingPaths_eq_some hforced
          affectedPaths := decodePendingPaths_eq_some haffected }

theorem readPendingFields_toJson (record : PendingWorkspaceRestoreV2) (h : record.Readable) :
    readPendingFields record.toJson = some record := by
  have htarget := decodeRestoreTargetV1_toJson record.target h.target
  have hforced := decodePendingPaths_map record.forcedPaths h.forcedPaths
  have haffected := decodePendingPaths_map record.affectedPaths h.affectedPaths
  simp [PendingWorkspaceRestoreV2.toJson, readPendingFields, Json.stringField, hasPendingKeys,
    Json.hasOwn, htarget, hforced, haffected]

/-- **An accepted record is one whose parts read back and whose checks pass.** -/
theorem decodePendingWorkspaceRestoreV2_eq_some {numberText : ℚ → JsString} {value : Json}
    (h : decodePendingWorkspaceRestoreV2 numberText value = some record) :
    record.Readable ∧ record.passesChecks numberText = true := by
  obtain ⟨hfields, hchecks⟩ := Option.filter_eq_some_iff.mp h
  exact ⟨readPendingFields_eq_some hfields, hchecks⟩

/-- **An accepted record is read back from its data.** -/
theorem decodePendingWorkspaceRestoreV2_toJson {numberText : ℚ → JsString} {value : Json}
    (h : decodePendingWorkspaceRestoreV2 numberText value = some record) :
    decodePendingWorkspaceRestoreV2 numberText record.toJson = some record := by
  obtain ⟨hreadable, hchecks⟩ := decodePendingWorkspaceRestoreV2_eq_some h
  rw [decodePendingWorkspaceRestoreV2, readPendingFields_toJson record hreadable]
  simp [hchecks]

end Workspace

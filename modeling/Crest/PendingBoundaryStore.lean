import Crest.PendingBoundaryJson
import Crest.SnapshotOwners

/-!
# The pending boundaries on disk

A boundary is written in two places: a ref of the snapshot store first, then a file of the
pending directory.  A file is written under a temporary name in the same directory and
renamed.  The operations of a boundary run one after the other; those of different
boundaries, which may belong to different sessions and processes, run in any order and are
cut off anywhere.

Whoever looks for pending boundaries reads the whole directory, and throws when a name or a
record in it is not as expected.
-/

namespace PendingBoundaryStore

open Workspace

/-- What a file of the pending directory holds. -/
inductive PendingFile
  /-- Bytes that are not the text of a JSON value. -/
  | damaged
  /-- The text of a JSON value. -/
  | whole (value : Json)
  deriving DecidableEq

/-- The pending directory and the pending refs. -/
structure Disk where
  files : JsMap JsString PendingFile := JsMap.empty
  /-- What the blobs that the refs point to hold. -/
  refs : JsMap JsString Json := JsMap.empty
  deriving DecidableEq

/-- The workspace snapshot store that the pending boundaries belong to. -/
structure Store where
  identity : StoreIdentity
  /-- The hash of the session in the name of a ref. -/
  digest : Digest
  /-- The snapshot of a commit, as `verify` finds it. -/
  readSnapshot : JsString → Option WorkspaceSnapshotRefV1

/-- The name of the file of a boundary. -/
def fileName (boundaryToken : JsString) : JsString := boundaryToken ++ js ".json"

/-- The name `writeDurableJson` first gives a file. -/
def temporaryName (hex : JsString) : JsString := js "." ++ hex ++ js ".tmp"

section Reading

variable (store : Store) (disk : Disk)

def resolvePendingRefRecord (jsonRecord : PendingWorkspaceBoundaryV1) :
    Option PendingWorkspaceBoundaryV1 := do
  let name ← pendingRefName store.digest jsonRecord
  match disk.refs.get name with
  | none => some jsonRecord
  | some descriptor =>
    let refRecord ← decodePendingWorkspaceBoundaryV1 descriptor
    if encodeDurableJson refRecord = descriptor &&
        pendingRefName store.digest refRecord = some name &&
        CheckpointManager.isPendingSuccessor jsonRecord refRecord then
      some refRecord
    else none

/-- The record of a file that can be read. -/
def readFile (name : JsString) : Option PendingWorkspaceBoundaryV1 :=
  match disk.files.get name with
  | some (.whole value) => decodePendingWorkspaceBoundaryV1 value
  | some .damaged | none => none

def read (boundaryToken : JsString) : Option PendingWorkspaceBoundaryV1 :=
  if matchesTokenPattern boundaryToken then do
    let record ← readFile disk (fileName boundaryToken)
    resolvePendingRefRecord store disk record
  else none

/-- Whether a name ends in `.json` and the rest of it is a token. -/
def isRecordName (name : JsString) : Bool :=
  (js ".json").isSuffixOf name && matchesTokenPattern (name.take (name.length - 5))

/-- One name of the directory. -/
def scanName (name : JsString) : Option PendingWorkspaceBoundaryV1 :=
  if isRecordName name then do
    let record ← readFile disk name
    if fileName record.boundaryToken = name then resolvePendingRefRecord store disk record
    else none
  else none

/-- `names.sort()`. -/
def sortedNames : List JsString :=
  disk.files.keys.insertionSort fun a b => Json.codeUnitsLE a b

def scanPendingBoundaryRecords : Option (List PendingWorkspaceBoundaryV1) :=
  (sortedNames disk).mapM (scanName store disk)

end Reading

/-- What is asked of the pending boundary store. -/
inductive Operation
  | begin (record : PendingWorkspaceBoundaryV1)
  | bind (boundaryToken userEntryId : JsString)
  | recordAfter (boundaryToken : JsString) (after : WorkspaceSnapshotRefV1)
  | complete (boundaryToken : JsString)
  | retireUnavailable (boundaryToken : JsString)
  | retireUnbound (boundaryToken : JsString) (processOwner : ProcessOwnerIdentity)
  /-- With whether the owner of the record is proven dead. -/
  | retireRecoveredUnbound (boundaryToken : JsString) (ownerDead : Bool)
  deriving DecidableEq

/-- The boundary of an operation. -/
def Operation.boundaryToken : Operation → JsString
  | .begin record => record.boundaryToken
  | .bind boundaryToken _ | .recordAfter boundaryToken _ | .complete boundaryToken
  | .retireUnavailable boundaryToken | .retireUnbound boundaryToken _
  | .retireRecoveredUnbound boundaryToken _ => boundaryToken

/-- What an operation does next.  `opening` tells `begin` from the other writers. -/
inductive Stage
  /-- Its checks and the read of the record. -/
  | starting (operation : Operation)
  /-- `anchorPending`. -/
  | anchoring (opening : Bool) (record : PendingWorkspaceBoundaryV1)
  /-- The exclusive creation of the temporary file. -/
  | creating (opening : Bool) (record : PendingWorkspaceBoundaryV1)
  /-- The write to the temporary file. -/
  | writing (record : PendingWorkspaceBoundaryV1) (temporary : JsString)
  /-- The sync of the temporary file. -/
  | syncing (record : PendingWorkspaceBoundaryV1) (temporary : JsString)
  /-- The rename. -/
  | moving (record : PendingWorkspaceBoundaryV1) (temporary : JsString)
  /-- The sync of the directory after it. -/
  | syncingDirectory (record : PendingWorkspaceBoundaryV1)
  /-- The `deleteCrestRef` of a `begin` that could not write. -/
  | undoing (record : PendingWorkspaceBoundaryV1)
  /-- The `deleteCrestRef` of `remove`. -/
  | removingRef (record : PendingWorkspaceBoundaryV1)
  /-- The `unlink` of `removeDurableFile`. -/
  | removingFile (record : PendingWorkspaceBoundaryV1)
  /-- The sync of the directory after it. -/
  | syncingRemoval (record : PendingWorkspaceBoundaryV1)
  deriving DecidableEq

/-- The temporary name an operation has in the directory. -/
def Stage.temporary : Stage → Option JsString
  | .writing _ temporary | .syncing _ temporary | .moving _ temporary => some temporary
  | _ => none

/-- The sessions with their operations, and the disk they share. -/
structure System where
  disk : Disk := {}
  running : JsMap JsString Stage := JsMap.empty
  /-- The record of the last transition that completed, for every boundary whose removal has
  not started. -/
  completed : JsMap JsString PendingWorkspaceBoundaryV1 := JsMap.empty
  deriving DecidableEq

/-- What can happen. -/
inductive Event
  /-- An operation is called. -/
  | call (operation : Operation)
  /-- The operation of a boundary takes its next step; `random` is the text of the bytes it
  draws when the step creates a temporary file. -/
  | advance (boundaryToken random : JsString)
  /-- The process of an operation dies. -/
  | crash (boundaryToken : JsString)
  deriving DecidableEq

namespace System

variable (store : Store) (s : System)

def assertIdentity (record : PendingWorkspaceBoundaryV1) : Bool :=
  isOwnerIdentity store.identity record.workspaceIdentity record.workspaceIncarnation

/-- `assertSnapshotIdentity` and `verifyUntrustedSnapshot`. -/
def verifySnapshot (snapshot : WorkspaceSnapshotRefV1) : Bool :=
  snapshot.hasGitOids && isOfStore store.identity snapshot &&
    decide (store.readSnapshot snapshot.id = some snapshot)

/-- Whether Git takes the name of the ref: it must not end in a dot. -/
def isGitRefName (name : JsString) : Bool := decide (name.getLast? ≠ some 0x2E)

/-- The name under which `anchorPending` stores the record; there is none when one of its
checks throws. -/
def anchorName (record : PendingWorkspaceBoundaryV1) : Option JsString :=
  if validatePendingRecord record && (pendingSnapshots record).all (verifySnapshot store) then
    (pendingRefName store.digest record).filter isGitRefName
  else none

/-- The operation of a boundary goes on with a stage. -/
def goOn (boundaryToken : JsString) (stage : Stage) : System :=
  { s with running := s.running.set boundaryToken stage }

/-- The operation of a boundary returns, throws or dies. -/
def finish (boundaryToken : JsString) : System :=
  { s with running := s.running.delete boundaryToken }

/-- The checks of `persist`, and what comes after them. -/
def persist (boundaryToken : JsString) (record : PendingWorkspaceBoundaryV1) : System :=
  if validatePendingRecord record && assertIdentity store record then
    s.goOn boundaryToken (.anchoring false record)
  else s.finish boundaryToken

/-- The checks of an operation. -/
def start (operation : Operation) : System :=
  let boundaryToken := operation.boundaryToken
  match operation with
  | .begin record =>
    if validatePendingRecord record && assertIdentity store record &&
        (s.disk.files.get (fileName boundaryToken)).isNone then
      s.goOn boundaryToken (.anchoring true record)
    else s.finish boundaryToken
  | .bind _ userEntryId =>
    match read store s.disk boundaryToken with
    | none => s.finish boundaryToken
    | some record =>
      if record.userEntryId.isSome || record.after.isSome ||
          !CheckpointManager.isSafeString userEntryId then
        s.finish boundaryToken
      else s.persist store boundaryToken { record with userEntryId := some userEntryId }
  | .recordAfter _ after =>
    match read store s.disk boundaryToken with
    | none => s.finish boundaryToken
    | some record =>
      if record.userEntryId.isNone || record.after.isSome then s.finish boundaryToken
      else s.persist store boundaryToken { record with after := some after }
  | .complete _ =>
    match read store s.disk boundaryToken with
    | none => s.finish boundaryToken
    | some record =>
      if record.userEntryId.isNone || record.after.isNone then s.finish boundaryToken
      else s.goOn boundaryToken (.removingRef record)
  | .retireUnavailable _ =>
    match read store s.disk boundaryToken with
    | none => s.finish boundaryToken
    | some record =>
      if record.userEntryId.isNone then s.finish boundaryToken
      else s.goOn boundaryToken (.removingRef record)
  | .retireUnbound _ processOwner =>
    match read store s.disk boundaryToken with
    | none => s.finish boundaryToken
    | some record =>
      if record.userEntryId.isSome || record.after.isSome ||
          decide (record.processOwner ≠ processOwner) then
        s.finish boundaryToken
      else s.goOn boundaryToken (.removingRef record)
  | .retireRecoveredUnbound _ ownerDead =>
    match read store s.disk boundaryToken with
    | none => s.finish boundaryToken
    | some record =>
      if record.userEntryId.isSome || record.after.isSome || !ownerDead then
        s.finish boundaryToken
      else s.goOn boundaryToken (.removingRef record)

/-- A ref gets a blob. -/
def putRef (name : JsString) (descriptor : Json) : System :=
  { s with disk := { s.disk with refs := s.disk.refs.set name descriptor } }

/-- The ref of a record is deleted, if it has one. -/
def deleteRef (record : PendingWorkspaceBoundaryV1) : System :=
  match pendingRefName store.digest record with
  | none => s
  | some name => { s with disk := { s.disk with refs := s.disk.refs.delete name } }

/-- A file of the directory gets a content. -/
def putFile (name : JsString) (file : PendingFile) : System :=
  { s with disk := { s.disk with files := s.disk.files.set name file } }

/-- A file of the directory goes. -/
def removeFile (name : JsString) : System :=
  { s with disk := { s.disk with files := s.disk.files.delete name } }

/-- The next step of an operation. -/
def advance (boundaryToken random : JsString) : Stage → System
  | .starting operation => s.start store operation
  | .anchoring opening record =>
    match anchorName store record with
    | none => s.finish boundaryToken
    | some name =>
      (s.putRef name (encodeDurableJson record)).goOn boundaryToken (.creating opening record)
  | .creating opening record =>
    let temporary := temporaryName random
    if (s.disk.files.get temporary).isSome then
      if opening then s.goOn boundaryToken (.undoing record) else s.finish boundaryToken
    else (s.putFile temporary .damaged).goOn boundaryToken (.writing record temporary)
  | .writing record temporary =>
    (s.putFile temporary (.whole (encodeDurableJson record))).goOn boundaryToken
      (.syncing record temporary)
  | .syncing record temporary => s.goOn boundaryToken (.moving record temporary)
  | .moving record temporary =>
    ((s.removeFile temporary).putFile (fileName record.boundaryToken)
      (.whole (encodeDurableJson record))).goOn boundaryToken (.syncingDirectory record)
  | .syncingDirectory record =>
    { s with completed := s.completed.set boundaryToken record }.finish boundaryToken
  | .undoing record => (s.deleteRef store record).finish boundaryToken
  | .removingRef record =>
    { s with completed := s.completed.delete boundaryToken }.deleteRef store record |>.goOn
      boundaryToken (.removingFile record)
  | .removingFile record =>
    (s.removeFile (fileName record.boundaryToken)).goOn boundaryToken (.syncingRemoval record)
  | .syncingRemoval _ => s.finish boundaryToken

/-- One event.  A call for a boundary that has an operation under way waits for it, so it
does nothing yet. -/
def step : Event → System
  | .call operation =>
    match s.running.get operation.boundaryToken with
    | some _ => s
    | none => s.goOn operation.boundaryToken (.starting operation)
  | .advance boundaryToken random =>
    match s.running.get boundaryToken with
    | none => s
    | some stage => s.advance store boundaryToken random stage
  | .crash boundaryToken => s.finish boundaryToken

end System

end PendingBoundaryStore

import Crest.PendingRestore

/-!
# The record of a turn under way

When a user turn starts, the workspace code writes down which snapshot it started
from; later it adds the entry of the turn and the snapshot the turn left.  The record
lives in a file, and a ref of the snapshot store points to a second copy of it.
-/

namespace Workspace

open JsString

structure ProcessOwnerIdentity where
  pid : Nat
  /-- When it started, as the system tells it. -/
  processStartToken : JsString
  nonce : JsString
  deriving DecidableEq, Repr

structure PendingWorkspaceBoundaryV1 where
  boundaryToken : JsString
  sessionId : JsString
  workspaceIdentity : JsString
  workspaceIncarnation : JsString
  processOwner : ProcessOwnerIdentity
  nonce : JsString
  before : WorkspaceSnapshotRefV1
  /-- The user entry of the turn, once it is known. -/
  userEntryId : Option JsString := none
  /-- The snapshot after the turn, once it is known. -/
  after : Option WorkspaceSnapshotRefV1 := none
  deriving DecidableEq, Repr

/-- The workspace a snapshot store belongs to. -/
structure StoreIdentity where
  workspaceIdentity : JsString
  workspaceIncarnation : JsString
  deriving DecidableEq, Repr

/-- Whether two code units occur next to each other. -/
def containsPair (first second : UInt16) : JsString → Bool
  | u :: v :: rest => (u = first && v = second) || containsPair first second (v :: rest)
  | _ => false

/-- Whether a name ends in `.lock` or contains `..`, which Git does not allow. -/
def isUnsafeRefSuffix (value : JsString) : Bool :=
  (js ".lock").isSuffixOf value || containsPair 0x2E 0x2E value

/-- `validateRefToken`. -/
def isRefToken (value : JsString) : Bool :=
  matchesTokenPattern value && !isUnsafeRefSuffix value

def ownerRefName (snapshotId : JsString) : JsString := js "refs/crest/snapshots/" ++ snapshotId

def snapshotObjectRefName (snapshotId : JsString) : JsString :=
  js "refs/crest-objects/snapshots/" ++ snapshotId

/-- `pendingRefName`, if the token can be part of a name. -/
def pendingRefName (digest : Digest) (record : PendingWorkspaceBoundaryV1) : Option JsString :=
  if isRefToken record.boundaryToken then
    some (js "refs/crest/pending/" ++ digest.sha256 record.sessionId ++ js "/" ++
      record.boundaryToken)
  else none

end Workspace

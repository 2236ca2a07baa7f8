import Crest.Faults
import Crest.JsMap
import Crest.PendingBoundary
import Crest.Runs

/-!
# The checkpoint manager

A turn that may write takes the writer lease and leaves a record of its boundary: a ref
of the snapshot store, and a file next to it.  The record gets the user entry of the
turn and the snapshot after it; then a checkpoint is appended to the session, and the
record goes.  A turn that writes nothing has no record.  When a process has stopped, the
next one finds the record and finishes the turn.

Everything that outlives the process is a `DurableCall`.  Any of them may throw, with or
without its effect; what makes the store refuse a record is a throw of the call that
would have written it.  The operations of a session run one after the other.
-/

namespace CheckpointManager

open Workspace Faults Faulty

/-- What is thrown, as far as the manager tells errors apart. -/
inductive Thrown
  /-- `WorkspaceSnapshotStoreError`. -/
  | storeError (code : WorkspaceCheckpointFailureCode) (message : JsString)
  /-- Any other error. -/
  | other (message : JsString)
  deriving DecidableEq, Repr

structure CheckpointFailure where
  reasonCode : WorkspaceCheckpointFailureCode
  message : JsString
  coverage : Option WorkspaceSnapshotCoverage := none
  deriving DecidableEq, Repr

def classifyCheckpointFailure : Thrown → CheckpointFailure
  | .storeError code message => { reasonCode := code, message }
  | .other message => { reasonCode := .gitUnavailable, message }

structure WorkspaceCheckpointHead where
  ref : WorkspaceSnapshotRefV1
  coverage : WorkspaceSnapshotCoverage
  deriving DecidableEq, Repr

structure WorkspaceOwnedTurnCapture where
  after : WorkspaceSnapshotRefV1
  changes : List WorkspacePathChangeV1
  coverage : WorkspaceSnapshotCoverage
  deriving DecidableEq, Repr

/-- `ActiveBoundary`.  Operations do not overlap, so no acquisition is under way between
them. -/
structure ActiveBoundary where
  token : JsString
  userEntryId : Option JsString := none
  base : Option WorkspaceCheckpointHead := none
  lease : Bool := false
  acquisitionFailure : Option Thrown := none
  /-- Why there is no snapshot before the turn. -/
  beforeFailure : Option CheckpointFailure := none
  pending : Bool := false
  pendingBound : Bool := false
  deriving DecidableEq, Repr

/-- A call whose effect outlives the process. -/
inductive DurableCall
  | anchorPending (record : PendingWorkspaceBoundaryV1)
  | writeDurableJson (record : PendingWorkspaceBoundaryV1)
  | deleteCrestRef (boundaryToken : JsString)
  | removeDurableFile (boundaryToken : JsString)
  /-- The append of a checkpoint, by `onTerminal` or by `recover`. -/
  | appendCheckpoint (checkpoint : WorkspaceCheckpointV1) (recovering : Bool)
  deriving DecidableEq, Repr

/-- What outlives the process. -/
structure Durable where
  refs : JsMap JsString PendingWorkspaceBoundaryV1 := JsMap.empty
  files : JsMap JsString PendingWorkspaceBoundaryV1 := JsMap.empty
  session : List WorkspaceCheckpointV1 := []
  deriving DecidableEq

/-- What a call does. -/
def Durable.apply (d : Durable) : DurableCall → Durable
  | .anchorPending record => { d with refs := d.refs.set record.boundaryToken record }
  | .writeDurableJson record => { d with files := d.files.set record.boundaryToken record }
  | .deleteCrestRef boundaryToken => { d with refs := d.refs.delete boundaryToken }
  | .removeDurableFile boundaryToken => { d with files := d.files.delete boundaryToken }
  | .appendCheckpoint checkpoint _ => { d with session := d.session ++ [checkpoint] }

/-- What the manager was registered with. -/
structure Registration where
  sessionId : JsString
  workspaceIdentity : JsString
  workspaceIncarnation : JsString
  deriving DecidableEq, Repr

/-- A process with its manager, the store and the session. -/
structure World where
  durable : Durable := {}
  /-- The calls so far and what became of them. -/
  log : List (DurableCall × Outcome Thrown) := []
  boundaries : JsMap JsString ActiveBoundary := JsMap.empty
  activeBoundaryToken : Option JsString := none
  processOwner : ProcessOwnerIdentity
  /-- Whether `onTerminal` has tried to retire the record. -/
  retirementAttempted : Bool := false
  deriving DecidableEq

/-- An operation of the manager. -/
abbrev Operation (α : Type) := Faulty World Thrown α

/-- What a call leaves. -/
def effect (call : DurableCall) (outcome : Outcome Thrown) (w : World) : World :=
  { w with
    durable := if outcome.persisted then w.durable.apply call else w.durable
    log := w.log ++ [(call, outcome)] }

/-- Make a call. -/
def perform (call : DurableCall) : Operation Unit := attempt (effect call)

/-- Change a boundary of the process. -/
def updateBoundary (token : JsString) (f : ActiveBoundary → ActiveBoundary) : Operation Unit :=
  modify fun w =>
    { w with boundaries := w.boundaries.setSome token ((w.boundaries.get token).map f) }

section PendingBoundaryStore

def isSafeString (value : JsString) : Bool :=
  decide (0 < value.length) && decide (value.length ≤ 1024) && !value.contains 0

/-- A record without what is added to it. -/
def unboundPart (record : PendingWorkspaceBoundaryV1) : PendingWorkspaceBoundaryV1 :=
  { record with userEntryId := none, after := none }

def isPendingSuccessor (previous next : PendingWorkspaceBoundaryV1) : Bool :=
  decide (unboundPart previous = unboundPart next) &&
    (previous.userEntryId.all fun id => decide (next.userEntryId = some id)) &&
    previous.after.all fun ref => decide (next.after = some ref)

/-- `resolvePendingRefRecord` of the record in a file, if the two go together. -/
def pendingRecord (d : Durable) (boundaryToken : JsString) :
    Option PendingWorkspaceBoundaryV1 :=
  match d.files.get boundaryToken with
  | none => none
  | some jsonRecord =>
    match d.refs.get boundaryToken with
    | none => some jsonRecord
    | some refRecord => if isPendingSuccessor jsonRecord refRecord then some refRecord else none

/-- `read`. -/
def readPending (boundaryToken : JsString) : Operation PendingWorkspaceBoundaryV1 := do
  let w ← get
  match pendingRecord w.durable boundaryToken with
  | some record => pure record
  | none => throwing (.other (js "Invalid pending boundary record"))

def persist (record : PendingWorkspaceBoundaryV1) : Operation Unit := do
  perform (.anchorPending record)
  perform (.writeDurableJson record)

/-- `begin`. -/
def beginPending (record : PendingWorkspaceBoundaryV1) : Operation Unit := do
  let w ← get
  if (w.durable.files.get record.boundaryToken).isSome then
    throwing (.other (js "Pending boundary already exists"))
  else do
    perform (.anchorPending record)
    catching (perform (.writeDurableJson record)) fun error => do
      perform (.deleteCrestRef record.boundaryToken)
      throwing error

/-- `bind`. -/
def bindPending (boundaryToken userEntryId : JsString) : Operation Unit := do
  let record ← readPending boundaryToken
  if record.userEntryId.isSome || record.after.isSome || !isSafeString userEntryId then
    throwing (.other (js "Invalid pending boundary bind transition"))
  else persist { record with userEntryId := some userEntryId }

def recordAfter (boundaryToken : JsString) (after : WorkspaceSnapshotRefV1) :
    Operation Unit := do
  let record ← readPending boundaryToken
  if record.userEntryId.isNone then
    throwing (.other (js "Pending boundary must be bound before recording after snapshot"))
  else if record.after.isSome then
    throwing (.other (js "Invalid pending boundary after transition"))
  else persist { record with after := some after }

/-- `remove`. -/
def removePending (boundaryToken : JsString) : Operation Unit := do
  perform (.deleteCrestRef boundaryToken)
  perform (.removeDurableFile boundaryToken)

/-- `complete`. -/
def completePending (boundaryToken : JsString) : Operation Unit := do
  let record ← readPending boundaryToken
  if record.userEntryId.isNone || record.after.isNone then
    throwing (.other (js "Pending boundary cannot complete before finalization"))
  else removePending record.boundaryToken

def retireUnavailable (boundaryToken : JsString) : Operation Unit := do
  let record ← readPending boundaryToken
  if record.userEntryId.isNone then
    throwing (.other (js "Only a bound pending boundary can retire unavailable"))
  else removePending record.boundaryToken

def retireUnbound (boundaryToken : JsString) (processOwner : ProcessOwnerIdentity) :
    Operation Unit := do
  let record ← readPending boundaryToken
  if record.userEntryId.isSome || record.after.isSome then
    throwing (.other (js "Only an unbound pending boundary can retire unbound"))
  else if record.processOwner ≠ processOwner then
    throwing (.other (js "Pending boundary belongs to another process owner"))
  else removePending record.boundaryToken

/-- Whether a process was found dead, where `dead` are the other processes that were. -/
def foundDead (dead : List ProcessOwnerIdentity) (w : World) (owner : ProcessOwnerIdentity) :
    Bool :=
  decide (owner ≠ w.processOwner) && decide (owner ∈ dead)

def retireRecoveredUnbound (dead : List ProcessOwnerIdentity) (boundaryToken : JsString) :
    Operation Unit := do
  let record ← readPending boundaryToken
  if record.userEntryId.isSome || record.after.isSome then
    throwing (.other (js "Only an unbound pending boundary can retire after recovery"))
  else do
    let w ← get
    if !foundDead dead w record.processOwner then
      throwing (.other (js "Pending boundary process owner is not proven dead"))
    else removePending record.boundaryToken

def scanPendingBoundaryRecords (d : Durable) : Except Thrown (List PendingWorkspaceBoundaryV1) :=
  let names := d.files.keys.insertionSort fun a b =>
    Json.codeUnitsLE (a ++ js ".json") (b ++ js ".json")
  names.mapM fun boundaryToken =>
    match pendingRecord d boundaryToken with
    | some record => .ok record
    | none => .error (.other (js "Invalid pending boundary ref descriptor"))

end PendingBoundaryStore

variable (input : Registration)

/-- The checkpoint of a turn with snapshots. -/
def capturedCheckpoint (turnId : JsString) (before after : WorkspaceSnapshotRefV1)
    (changes : List WorkspacePathChangeV1) (coverage : WorkspaceSnapshotCoverage) :
    WorkspaceCheckpointV1 :=
  .available
    { originSessionId := input.sessionId
      turnId
      workspaceIdentity := input.workspaceIdentity
      workspaceIncarnation := input.workspaceIncarnation
      before
      after
      changes
      coverage }

/-- The checkpoint of a turn without. -/
def failedCheckpoint (turnId : JsString) (failure : CheckpointFailure) : WorkspaceCheckpointV1 :=
  .unavailable
    { originSessionId := input.sessionId
      turnId
      workspaceIdentity := input.workspaceIdentity
      workspaceIncarnation := some input.workspaceIncarnation
      reasonCode := failure.reasonCode
      message := failure.message
      coverage := failure.coverage }

def appendUnavailable (turnId : JsString) (failure : CheckpointFailure) (recovering : Bool) :
    Operation Unit :=
  perform (.appendCheckpoint (failedCheckpoint input turnId failure) recovering)

def retireFailedPending (token : JsString) : Operation Unit := do
  let w ← get
  match w.boundaries.get token with
  | none => pure ()
  | some boundary =>
    if !boundary.pending then pure ()
    else do
      if boundary.pendingBound then retireUnavailable token
      else retireUnbound token w.processOwner
      updateBoundary token fun boundary => { boundary with pending := false }

/-- What `acquireBoundary` does after a failure. -/
def acquisitionFailed (token : JsString) (error : Thrown) : Operation Unit := do
  let w ← get
  let failure ←
    if (w.boundaries.get token).any fun boundary => boundary.pending && !boundary.pendingBound then
      catching (do
        retireFailedPending token
        pure error) fun _ =>
        pure (.other (js "Workspace writer acquisition and pending-boundary cleanup failed"))
    else pure error
  updateBoundary token fun boundary =>
    { boundary with
      acquisitionFailure := some failure
      beforeFailure := some (classifyCheckpointFailure failure)
      lease := false }
  throwing failure

/-- The acquisition of `acquireBoundary`: the lease, the head and the record. -/
def acquire
    (token : JsString) (userEntryId : Option JsString) (lease : Except Thrown Unit)
    (base : Except Thrown WorkspaceCheckpointHead)
    (nonce : JsString) : Operation Unit := do
  ofExcept lease
  updateBoundary token fun boundary => { boundary with lease := true }
  let head ← ofExcept base
  updateBoundary token fun boundary => { boundary with base := some head }
  let w ← get
  beginPending
    { boundaryToken := token
      sessionId := input.sessionId
      workspaceIdentity := input.workspaceIdentity
      workspaceIncarnation := input.workspaceIncarnation
      processOwner := w.processOwner
      nonce
      before := head.ref }
  updateBoundary token fun boundary => { boundary with pending := true }
  match userEntryId with
  | none => pure ()
  | some userEntryId => do
      bindPending token userEntryId
      updateBoundary token fun boundary => { boundary with pendingBound := true }

def acquireBoundary
    (boundary : ActiveBoundary) (lease : Except Thrown Unit)
    (base : Except Thrown WorkspaceCheckpointHead)
    (nonce : JsString) : Operation Unit :=
  match boundary.acquisitionFailure with
  | some failure => throwing failure
  | none =>
    if boundary.lease && boundary.base.isSome then pure ()
    else
      catching (acquire input boundary.token boundary.userEntryId lease base nonce)
        (acquisitionFailed boundary.token)

def beforeWritingOperation
    (lease : Except Thrown Unit) (base : Except Thrown WorkspaceCheckpointHead)
    (nonce : JsString) : Operation Unit := do
  let w ← get
  match w.activeBoundaryToken.bind w.boundaries.get with
  | none => throwing (.other (js "Workspace-capable tool requires an active user-turn boundary"))
  | some boundary => acquireBoundary input boundary lease base nonce

/-- `onBefore`; the boundary that a repeated token had is given up. -/
def onBefore (boundaryToken : JsString) : Operation Unit :=
  modify fun w =>
    { w with
      boundaries := w.boundaries.set boundaryToken { token := boundaryToken }
      activeBoundaryToken := some boundaryToken }

/-- What `onCommitted` does when the record cannot be bound. -/
def bindFailed (boundaryToken : JsString) (error : Thrown) : Operation Unit := do
  updateBoundary boundaryToken fun boundary =>
    { boundary with
      acquisitionFailure := some error
      beforeFailure := some (classifyCheckpointFailure error)
      lease := false }
  retireFailedPending boundaryToken
  throwing error

def onCommitted (boundaryToken userEntryId : JsString) : Operation Unit := do
  let w ← get
  match w.boundaries.get boundaryToken with
  | none => pure ()
  | some boundary => do
      updateBoundary boundaryToken fun boundary =>
        { boundary with userEntryId := some userEntryId }
      if boundary.pending then
        catching (do
          bindPending boundaryToken userEntryId
          updateBoundary boundaryToken fun boundary => { boundary with pendingBound := true })
          (bindFailed boundaryToken)
      else pure ()

/-- `retirePending` of `onTerminal`. -/
def retirePending (boundaryToken : JsString) : Operation Unit := do
  modify fun w => { w with retirementAttempted := true }
  retireFailedPending boundaryToken

/-- What `onTerminal` finds out about the workspace. -/
structure TurnEnd where
  /-- Whether a hosted command is still running. -/
  hostedRunning : Bool
  head : Except Thrown WorkspaceCheckpointHead
  captured : Except Thrown WorkspaceOwnedTurnCapture
  reason : JsString

/-- An unavailable checkpoint, and then the record goes. -/
def finishUnavailable (boundaryToken turnId : JsString) (failure : CheckpointFailure) :
    Operation Bool := do
  appendUnavailable input turnId failure false
  retirePending boundaryToken
  pure true

/-- The checkpoint of a turn that did not ask for the lease. -/
def finishIdle (turnId : JsString) (head : Except Thrown WorkspaceCheckpointHead) :
    Operation Bool := do
  catching (do
    let current ← ofExcept head
    perform (.appendCheckpoint
      (capturedCheckpoint input turnId current.ref current.ref [] current.coverage) false))
    fun error => appendUnavailable input turnId (classifyCheckpointFailure error) false
  pure true

/-- The checkpoint of a turn with both snapshots. -/
def finishCaptured
    (boundary : ActiveBoundary) (turnId : JsString) (base : WorkspaceCheckpointHead)
    (captured : WorkspaceOwnedTurnCapture) : Operation Bool := do
  if boundary.pending then recordAfter boundary.token captured.after else pure ()
  perform (.appendCheckpoint
    (capturedCheckpoint input turnId base.ref captured.after captured.changes captured.coverage)
    false)
  if boundary.pending then do
    completePending boundary.token
    updateBoundary boundary.token fun boundary => { boundary with pending := false }
  else pure ()
  pure true

/-- The body of `onTerminal`. -/
def finishTurn (boundary : ActiveBoundary) (turnEnd : TurnEnd) : Operation Bool :=
  match boundary.userEntryId with
  | none => do
      retirePending boundary.token
      pure false
  | some turnId =>
    match boundary.beforeFailure with
    | some failure => finishUnavailable input boundary.token turnId failure
    | none =>
      if turnEnd.hostedRunning then
        finishUnavailable input boundary.token turnId
          { reasonCode := .hostedPtyRunning
            message :=
              js "A hosted PTY command was still running at the user-turn boundary" }
      else if !boundary.lease then finishIdle input turnId turnEnd.head
      else
        match boundary.base with
        | none =>
          finishUnavailable input boundary.token turnId
            { reasonCode := .corruptSnapshot
              message :=
                js "Workspace writer acquisition did not retain a base checkpoint (" ++
                  turnEnd.reason ++ js ")" }
        | some base =>
          match turnEnd.captured with
          | .error error =>
            finishUnavailable input boundary.token turnId (classifyCheckpointFailure error)
          | .ok captured => finishCaptured input boundary turnId base captured

/-- What `onTerminal` does when its body throws. -/
def terminalFailed (boundaryToken : JsString) (error : Thrown) : Operation Bool := do
  let w ← get
  if ((w.boundaries.get boundaryToken).any fun boundary => boundary.pending) &&
      !w.retirementAttempted then do
    catching (retirePending boundaryToken) fun _ =>
      throwing
        (.other (js "Workspace checkpoint persistence and pending-boundary cleanup failed"))
    throwing error
  else throwing error

/-- The end of `onTerminal`: the lease goes, and the boundary unless its record is left. -/
def terminalDone (boundaryToken : JsString) (w : World) : World :=
  { w with
    boundaries :=
      match w.boundaries.get boundaryToken with
      | none => w.boundaries
      | some boundary =>
        if boundary.pending then w.boundaries.set boundaryToken { boundary with lease := false }
        else w.boundaries.delete boundaryToken
    activeBoundaryToken :=
      if w.activeBoundaryToken = some boundaryToken then none else w.activeBoundaryToken
    retirementAttempted := false }

def onTerminal (boundaryToken : JsString) (turnEnd : TurnEnd) : Operation Bool := do
  let w ← get
  match w.boundaries.get boundaryToken with
  | none => pure false
  | some boundary =>
    cleaningUp
      (catching (finishTurn input boundary turnEnd) (terminalFailed boundaryToken))
      (terminalDone boundaryToken)

/-- One record of `recover`. -/
def recoverRecord
    (dead : List ProcessOwnerIdentity) (finalizedTurns : List JsString)
    (record : PendingWorkspaceBoundaryV1) : Operation Unit := do
  let w ← get
  if record.sessionId ≠ input.sessionId || !foundDead dead w record.processOwner then pure ()
  else
    match record.userEntryId with
    | none => retireRecoveredUnbound dead record.boundaryToken
    | some userEntryId => do
        if userEntryId ∈ finalizedTurns then pure ()
        else
          appendUnavailable input userEntryId
            { reasonCode := .processCrashBeforeFinalization
              message :=
                js "The agent process exited before the workspace checkpoint was finalized" }
            true
        retireUnavailable record.boundaryToken

/-- The turns whose checkpoint can be read. -/
def finalizedTurns (d : Durable) : List JsString :=
  d.session.filterMap fun checkpoint =>
    (decodeWorkspaceCheckpointV1 checkpoint.toJson).map WorkspaceCheckpointV1.turnId

def recover (dead : List ProcessOwnerIdentity) : Operation Unit := do
  let w ← get
  let records ← ofExcept (scanPendingBoundaryRecords w.durable)
  forEach records (recoverRecord input dead (finalizedTurns w.durable))

/-- The turns of a session, over all the processes that run them. -/
structure SessionTurns where
  world : World
  running : Bool := true
  used : List JsString := []
  /-- The user entries of the turns that have one. -/
  committed : JsMap JsString JsString := JsMap.empty
  ended : List JsString := []
  /-- Those whose end was handled without a throw. -/
  handled : List JsString := []
  owners : List ProcessOwnerIdentity
  deriving DecidableEq

/-- What can happen next: the process is asked for something, or another one starts. -/
inductive Event
  | before (boundaryToken : JsString)
  | writing (lease : Except Thrown Unit) (base : Except Thrown WorkspaceCheckpointHead)
      (nonce : JsString)
  | committed (boundaryToken userEntryId : JsString)
  | terminal (boundaryToken : JsString) (turnEnd : TurnEnd)
  | recover (dead : List ProcessOwnerIdentity)
  | restart (processOwner : ProcessOwnerIdentity)

/-- A process that has stopped. -/
def stopped (w : World) : World :=
  { w with
    boundaries := JsMap.empty
    activeBoundaryToken := none
    retirementAttempted := false }

namespace SessionTurns

/-- The first process of a session. -/
def initial (processOwner : ProcessOwnerIdentity) : SessionTurns :=
  { world := { processOwner }, owners := [processOwner] }

/-- After an operation. -/
def after {α : Type} (s : SessionTurns)
    (result : Ending Thrown α × World × List (Outcome Thrown)) : SessionTurns :=
  match result with
  | (.died, w, _) => { s with world := stopped w, running := false }
  | (_, w, _) => { s with world := w }

/-- One step, with what becomes of its calls.  The harness begins a turn once, gives it one
user entry of its own, and announces its end once, all in one process. -/
def step (s : SessionTurns) : Event × List (Outcome Thrown) → SessionTurns
  | (.before boundaryToken, os) =>
    if s.running && decide (boundaryToken ∉ s.used) then
      { s with used := boundaryToken :: s.used }.after (onBefore boundaryToken s.world os)
    else s
  | (.writing lease base nonce, os) =>
    if s.running then s.after (beforeWritingOperation input lease base nonce s.world os) else s
  | (.committed boundaryToken userEntryId, os) =>
    if s.running && s.world.boundaries.has boundaryToken && decide (boundaryToken ∉ s.ended) &&
        !s.committed.has boundaryToken && decide (userEntryId ∉ s.committed.values) then
      { s with committed := s.committed.set boundaryToken userEntryId }.after
        (onCommitted boundaryToken userEntryId s.world os)
    else s
  | (.terminal boundaryToken turnEnd, os) =>
    if s.running && s.world.boundaries.has boundaryToken && decide (boundaryToken ∉ s.ended) then
      let result := onTerminal input boundaryToken turnEnd s.world os
      { s with
        ended := boundaryToken :: s.ended
        handled :=
          match result.1 with
          | .returned _ => boundaryToken :: s.handled
          | _ => s.handled }.after result
    else s
  | (.recover dead, os) =>
    if s.running then s.after (recover input dead s.world os) else s
  | (.restart processOwner, _) =>
    if processOwner ∈ s.owners then s
    else
      { s with
        world := { stopped s.world with processOwner }
        running := true
        owners := processOwner :: s.owners }

end SessionTurns

end CheckpointManager

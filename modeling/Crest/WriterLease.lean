import Crest.JsString
import Crest.JsMap
import Crest.Runs

/-!
# The workspace writer lease registry

`WorkspaceWriterLeaseRegistry` hands out at most one writer lease per workspace
and keeps the other callers in a queue.  A caller that comes back with the same
session and boundary token while its first acquisition is pending or active
gets the first promise again.

The objects of the source are reached through references that outlive their
place in the maps: a lease closure keeps its `WorkspaceLeaseState` after the
registry has dropped it, and an abort listener keeps its acquisition.  The model
therefore has a heap of states and a heap of acquisitions, both addressed by
numbers handed out in creation order, and the maps hold these numbers.

Aborting a signal and running the registry's listener on it are two events.
The listeners of other parties run between them and may call `acquire` and
`release` themselves, so every order of the two kinds of event is a run.
-/

namespace WriterLease

abbrev SignalId := Nat
abbrev StateId := Nat
abbrev AcquisitionId := Nat

/-- An abort signal.  `reason` is the reason given to `abort`, if it is not
nullish. -/
structure AbortSignal where
  aborted : Bool := false
  reason : Option JsString := none
deriving DecidableEq, Repr, Inhabited

/-- What a promise is rejected with. -/
inductive AbortReason
  | given (reason : JsString)
  | abortError
deriving DecidableEq, Repr

/-- `abortReason`: the signal's own reason, else a fresh `AbortError`. -/
def abortReason (signal : AbortSignal) : AbortReason :=
  match signal.reason with
  | some reason => .given reason
  | none => .abortError

structure WorkspaceWriterLeaseInput where
  workspaceKey : JsString
  sessionId : JsString
  boundaryToken : JsString
  signal : Option SignalId := none
deriving DecidableEq, Repr, Inhabited

/-- `WorkspaceWriterLease`.  The acquisition number stands for the `release`
closure, which captures exactly the acquisition and its state. -/
structure WorkspaceWriterLease where
  workspaceKey : JsString
  sessionId : JsString
  boundaryToken : JsString
  acquisition : AcquisitionId
deriving DecidableEq, Repr

/-- The state of the promise of an acquisition. -/
inductive PromiseState
  | pending
  | resolved (lease : WorkspaceWriterLease)
  | rejected (reason : AbortReason)
deriving DecidableEq, Repr, Inhabited

/-- The key under which a workspace finds an acquisition again: the JSON text of
the pair in the source, which determines the pair. -/
abbrev BoundaryKey := JsString × JsString

/-- `PendingAcquisition`.  `state` is the state object its closures capture. -/
structure PendingAcquisition where
  key : BoundaryKey
  snapshot : WorkspaceWriterLeaseInput
  state : StateId
  promise : PromiseState
  abortListener : Bool
deriving Repr, Inhabited

structure WorkspaceLeaseState where
  workspaceKey : JsString
  active : Option AcquisitionId := none
  queue : List AcquisitionId := []
  acquisitions : JsMap BoundaryKey AcquisitionId := JsMap.empty
deriving Inhabited

/-- The registry with the heap its closures reach.  `grants` and `releases`
record the leases granted and released so far; the code never reads them. -/
structure WorkspaceWriterLeaseRegistry where
  workspaces : JsMap JsString StateId := JsMap.empty
  states : StateId → WorkspaceLeaseState := fun _ => ⟨[], none, [], JsMap.empty⟩
  stateCount : Nat := 0
  acquisitions : AcquisitionId → PendingAcquisition := fun _ => default
  acquisitionCount : Nat := 0
  signals : SignalId → AbortSignal := fun _ => {}
  grants : List AcquisitionId := []
  releases : List AcquisitionId := []

abbrev Registry := WorkspaceWriterLeaseRegistry

namespace WorkspaceWriterLeaseRegistry

variable (r : Registry)

/-- Assign to fields of a state object. -/
def updateState (s : StateId) (f : WorkspaceLeaseState → WorkspaceLeaseState) : Registry :=
  { r with states := Function.update r.states s (f (r.states s)) }

/-- Assign to fields of an acquisition. -/
def updateAcquisition
    (p : AcquisitionId)
    (f : PendingAcquisition → PendingAcquisition) : Registry :=
  { r with acquisitions := Function.update r.acquisitions p (f (r.acquisitions p)) }

/-- `pending.snapshot.signal`, as the signal object. -/
def signalOf (p : AcquisitionId) : Option AbortSignal :=
  (r.acquisitions p).snapshot.signal.map r.signals

/-- `pending.snapshot.signal?.aborted`. -/
def isAborted (p : AcquisitionId) : Bool :=
  (r.signalOf p).any AbortSignal.aborted

/-- The lease object `grant` builds for an acquisition. -/
def leaseOf (p : AcquisitionId) : WorkspaceWriterLease where
  workspaceKey := (r.acquisitions p).snapshot.workspaceKey
  sessionId := (r.acquisitions p).snapshot.sessionId
  boundaryToken := (r.acquisitions p).snapshot.boundaryToken
  acquisition := p

/-- Settle a promise; only the first settlement counts. -/
def settle (p : AcquisitionId) (outcome : PromiseState) : Registry :=
  r.updateAcquisition p fun a =>
    match a.promise with
    | .pending => { a with promise := outcome }
    | _ => a

def cleanupAbortListener (p : AcquisitionId) : Registry :=
  if (r.acquisitions p).snapshot.signal.isNone || !(r.acquisitions p).abortListener then r
  else r.updateAcquisition p fun a => { a with abortListener := false }

def deleteIdleState (workspaceKey : JsString) (s : StateId) : Registry :=
  if (r.states s).active.isSome || 0 < (r.states s).queue.length
      || 0 < (r.states s).acquisitions.size then r
  else if r.workspaces.get workspaceKey ≠ some s then r
  else { r with workspaces := r.workspaces.delete workspaceKey }

def grant (s : StateId) (p : AcquisitionId) : Registry :=
  let r := r.cleanupAbortListener p
  let r := r.updateState s fun st => { st with active := some p }
  let r := r.settle p (.resolved (r.leaseOf p))
  { r with grants := r.grants ++ [p] }

/-- What `grantNext` and `abortQueued` both do with an aborted waiter that has
just left the queue: forget it if it still owns its key, drop its listener and
reject its promise. -/
def rejectAborted (s : StateId) (p : AcquisitionId) : Registry :=
  let r :=
    if (r.states s).acquisitions.get (r.acquisitions p).key = some p then
      r.updateState s fun st =>
        { st with acquisitions := st.acquisitions.delete (r.acquisitions p).key }
    else r
  let r := r.cleanupAbortListener p
  match r.signalOf p with
  | some signal => r.settle p (.rejected (abortReason signal))
  | none => r

/-- Replace the queue of a state. -/
def setQueue (s : StateId) (queue : List AcquisitionId) : Registry :=
  r.updateState s fun st => { st with queue := queue }

/-- The loop of `grantNext`, over the queue it shifts from. -/
def grantLoop (s : StateId) : Registry → List AcquisitionId → Registry
  | r, [] => r.deleteIdleState (r.states s).workspaceKey s
  | r, p :: rest =>
    let r := r.setQueue s rest
    if r.isAborted p then grantLoop s (r.rejectAborted s p) rest
    else r.grant s p

def grantNext (s : StateId) : Registry :=
  if (r.states s).active.isSome then r else grantLoop s r (r.states s).queue

/-- `abortQueued`, the abort listener of an acquisition. -/
def abortQueued (s : StateId) (p : AcquisitionId) : Registry :=
  if p ∈ (r.states s).queue then
    let r := r.setQueue s ((r.states s).queue.erase p)
    let r := r.rejectAborted s p
    r.grantNext s
  else r

/-- What a caller of `acquire` gets: an exception naming the bad field, the
promise of an acquisition, or a promise that is already rejected. -/
inductive AcquireResult
  | threw (field : JsString)
  | promise (p : AcquisitionId)
  | rejected (reason : AbortReason)
deriving DecidableEq, Repr

/-- `assertValidInput`: the first field that is blank. -/
def assertValidInput (input : WorkspaceWriterLeaseInput) : Option JsString :=
  if input.workspaceKey.isBlank then some (js "workspaceKey")
  else if input.sessionId.isBlank then some (js "sessionId")
  else if input.boundaryToken.isBlank then some (js "boundaryToken")
  else none

/-- The acquisition a state keeps under the key of an input. -/
def existing (input : WorkspaceWriterLeaseInput) : Option AcquisitionId :=
  (r.workspaces.get input.workspaceKey).bind fun s =>
    (r.states s).acquisitions.get (input.sessionId, input.boundaryToken)

/-- Find the state of a workspace or create it. -/
def ensureState (workspaceKey : JsString) : Registry × StateId :=
  match r.workspaces.get workspaceKey with
  | some s => (r, s)
  | none =>
    let s := r.stateCount
    ({ r with
        workspaces := r.workspaces.set workspaceKey s
        states := Function.update r.states s ⟨workspaceKey, none, [], JsMap.empty⟩
        stateCount := s + 1 }, s)

/-- Create the acquisition, file it under its key, queue it and register its
abort listener. -/
def enqueue (s : StateId) (input : WorkspaceWriterLeaseInput) : Registry × AcquisitionId :=
  let p := r.acquisitionCount
  let key := (input.sessionId, input.boundaryToken)
  let r :=
    { r with
        acquisitions := Function.update r.acquisitions p
          { key := key, snapshot := input, state := s, promise := .pending,
            abortListener := input.signal.isSome }
        acquisitionCount := p + 1 }
  (r.updateState s fun st =>
    { st with acquisitions := st.acquisitions.set key p, queue := st.queue ++ [p] }, p)

def acquire (input : WorkspaceWriterLeaseInput) : Registry × AcquireResult :=
  match assertValidInput input with
  | some field => (r, .threw field)
  | none =>
    match r.existing input with
    | some p => (r, .promise p)
    | none =>
      match input.signal.map r.signals with
      | some ⟨true, reason⟩ => (r, .rejected (abortReason ⟨true, reason⟩))
      | _ =>
        let (r, s) := r.ensureState input.workspaceKey
        let (r, p) := r.enqueue s input
        (r.grantNext s, .promise p)

/-- What `release` does when it is called. -/
inductive ReleaseResult
  | released
  | threw
deriving DecidableEq, Repr

/-- `release` of the lease granted to an acquisition. -/
def release (p : AcquisitionId) : Registry × ReleaseResult :=
  let s := (r.acquisitions p).state
  if (r.states s).active ≠ some p then (r, .threw)
  else
    let r := r.updateState s fun st =>
      { st with acquisitions := st.acquisitions.delete (r.acquisitions p).key, active := none }
    let r := { r with releases := r.releases ++ [p] }
    (r.grantNext s, .released)

/-- `controller.abort(reason)`: the first call fixes the reason. -/
def abortSignal (signal : SignalId) (reason : Option JsString) : Registry :=
  if (r.signals signal).aborted then r
  else { r with signals := Function.update r.signals signal ⟨true, reason⟩ }

/-- The registry's listener of an acquisition runs, if it is still registered
and its signal has been aborted. -/
def runListener (p : AcquisitionId) : Registry :=
  if (r.acquisitions p).abortListener && r.isAborted p then
    r.abortQueued (r.acquisitions p).state p
  else r

end WorkspaceWriterLeaseRegistry

/-- What can happen to the registry. -/
inductive Event
  | acquire (input : WorkspaceWriterLeaseInput)
  | abort (signal : SignalId) (reason : Option JsString)
  | listener (p : AcquisitionId)
  | release (p : AcquisitionId)
deriving DecidableEq, Repr

/-- The registry after one event.  Only a lease that has been granted has a
`release` to call. -/
def step (r : Registry) : Event → Registry
  | .acquire input => (r.acquire input).1
  | .abort signal reason => r.abortSignal signal reason
  | .listener p => if p < r.acquisitionCount then r.runListener p else r
  | .release p => if p ∈ r.grants then (r.release p).1 else r

/-- The registry after a list of events, from `new WorkspaceWriterLeaseRegistry()`. -/
def runEvents (es : List Event) : Registry := Runs.run step {} es

end WriterLease

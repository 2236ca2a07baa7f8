import Crest.TopTabStore
import Crest.Runs

/-!
# The queue of navigation intents

The frontend shows the confirmed checkpoint of a workspace with its pending intents applied.
Saves, terminal mutations and invalidations run one after the other.  A save sends all that is
pending as one content state with the revision it expects.  The server stores it when the
revision is its own, and answers with its checkpoint either way.  Beside, the server's
checkpoints are delivered in any order, and other writers advance it.

The server keeps all its checkpoints here, newest first.  The other fields that the code does
not have count the accepted intents, and note what was dropped, what changed the server, and
which flushes have ended.
-/

namespace NavigationQueue

open ContentState ContentState.Frontend

/-- `WorkspaceCheckpoint`; a terminal that is left out is the empty one. -/
structure WorkspaceCheckpoint where
  workspaceId : JsString
  navigationRevision : Nat
  terminalTabIds : List JsString
  activeTerminalTabId : JsString
  contentState : PersistedWorkspaceContentState
deriving DecidableEq, Repr

/-- What the frontend shows for a checkpoint. -/
def WorkspaceCheckpoint.shown (checkpoint : WorkspaceCheckpoint) : WorkspaceContentState :=
  hydrateWorkspaceContentState checkpoint.contentState checkpoint.activeTerminalTabId

def cloneCheckpoint (checkpoint : WorkspaceCheckpoint) : WorkspaceCheckpoint :=
  { checkpoint with contentState := serializeContentState checkpoint.shown }

def checkpointsEquivalent (left right : WorkspaceCheckpoint) : Bool :=
  decide (cloneCheckpoint left = cloneCheckpoint right)

/-- `PendingTopTabIntent`, with the numbers of the accepted intents it stands for. -/
structure PendingTopTabIntent where
  sequence : Nat
  action : WorkspaceContentAction
  accepted : List Nat
deriving DecidableEq, Repr

structure SaveWorkspaceCheckpointData where
  workspaceId : JsString
  expectedRevision : Nat
  contentState : PersistedWorkspaceContentState
  activeTerminalTabId : JsString
deriving DecidableEq, Repr

structure LocalCheckpointBatch where
  payload : SaveWorkspaceCheckpointData
  maxSequence : Nat
deriving DecidableEq, Repr

structure TopTabNavigationQueue where
  confirmed : WorkspaceCheckpoint
  pending : List PendingTopTabIntent := []
  projected : WorkspaceContentState
  nextSequence : Nat := 1
  error : Bool := false
  retryBatch : Option LocalCheckpointBatch := none
  saving : Bool := false
deriving DecidableEq, Repr

/-- The state that pending intents make of another. -/
def applyPending (state : WorkspaceContentState) (pending : List PendingTopTabIntent) :
    WorkspaceContentState :=
  pending.foldl (fun state intent => reduceWorkspaceContent state intent.action) state

/-- `{...candidate.updates, ...ownedAction.updates}`. -/
def spreadUpdates (updates later : TopTabUpdates) : TopTabUpdates where
  kind := later.kind
  title := later.title.or updates.title
  path := later.path.or updates.path
  repoRoot := later.repoRoot.or updates.repoRoot
  mode := later.mode.or updates.mode
  originalPath := later.originalPath.or updates.originalPath

def isUpdateBarrier (action : WorkspaceContentAction) (topTabId : JsString) : Bool :=
  match action with
  | .openTopTab tab => tab.id = topTabId
  | .closeTopTab id _ | .reorderTopTab id _ => id = topTabId
  | .activateAgent | .activateTerminal _ | .activateTopTab _ | .updateTopTab _ _ => false

/-- The loop of `enqueue` over the pending intents, newest first: the update is merged into an
earlier one of the same tab, unless that was sent already or another intent is in the way. -/
def mergeUpdate (sent number : Nat) (topTabId : JsString) (updates : TopTabUpdates) :
    List PendingTopTabIntent → Option (List PendingTopTabIntent)
  | [] => none
  | intent :: older =>
    match intent.action with
    | .updateTopTab id earlier =>
      if id = topTabId then
        if intent.sequence ≤ sent then none
        else
          some ({ intent with
            action := .updateTopTab id (spreadUpdates earlier updates)
            accepted := intent.accepted ++ [number] } :: older)
      else (mergeUpdate sent number topTabId updates older).map (intent :: ·)
    | action =>
      if isUpdateBarrier action topTabId then none
      else (mergeUpdate sent number topTabId updates older).map (intent :: ·)

namespace TopTabNavigationQueue

/-- The constructor. -/
def make (confirmed : WorkspaceCheckpoint) : TopTabNavigationQueue where
  confirmed := cloneCheckpoint confirmed
  projected := (cloneCheckpoint confirmed).shown

def recomputeProjected (queue : TopTabNavigationQueue) : TopTabNavigationQueue :=
  { queue with projected := applyPending queue.confirmed.shown queue.pending }

/-- The pending intents after an action was merged into one of them, if it is. -/
def merged (queue : TopTabNavigationQueue) (number : Nat) :
    WorkspaceContentAction → Option (List PendingTopTabIntent)
  | .updateTopTab topTabId updates =>
    (mergeUpdate ((queue.retryBatch.map LocalCheckpointBatch.maxSequence).getD 0) number
      topTabId updates queue.pending.reverse).map List.reverse
  | _ => none

/-- `enqueue` of an intent that has a number; it answers whether the intent is accepted. -/
def enqueue (queue : TopTabNavigationQueue) (number : Nat) (action : WorkspaceContentAction) :
    TopTabNavigationQueue × Bool :=
  let next := reduceWorkspaceContent queue.projected action
  if next = queue.projected then (queue, false)
  else
    match queue.merged number action with
    | some pending => ({ queue with pending := pending }.recomputeProjected, true)
    | none =>
      ({ queue with
          pending := queue.pending ++ [⟨queue.nextSequence, action, [number]⟩]
          nextSequence := queue.nextSequence + 1
          projected := next }, true)

/-- The operation of `invalidate`. -/
def invalidate (queue : TopTabNavigationQueue) (preserveError : Bool) : TopTabNavigationQueue :=
  { queue with
    pending := []
    retryBatch := none
    error := preserveError && queue.error }.recomputeProjected

/-- A checkpoint that `reconcile` looks at. -/
def acceptable (queue : TopTabNavigationQueue) (checkpoint : WorkspaceCheckpoint) : Bool :=
  decide (checkpoint.workspaceId = queue.confirmed.workspaceId) &&
    decide checkpoint.terminalTabIds.Nodup &&
    (decide (checkpoint.activeTerminalTabId = []) ||
      decide (checkpoint.activeTerminalTabId ∈ checkpoint.terminalTabIds)) &&
    decide (queue.confirmed.navigationRevision ≤ checkpoint.navigationRevision)

def reconcile (queue : TopTabNavigationQueue) (checkpoint : WorkspaceCheckpoint)
    (force : Bool) : TopTabNavigationQueue :=
  let owned := cloneCheckpoint checkpoint
  if !queue.acceptable owned then queue
  else if checkpointsEquivalent owned queue.confirmed then queue
  else if !force && decide (owned.navigationRevision = queue.confirmed.navigationRevision) then
    queue
  else
    { queue with
      confirmed := owned
      error := false
      retryBatch := none }.recomputeProjected

/-- The batch that `drainLocal` sends, for the terminal that is active now. -/
def nextBatch (queue : TopTabNavigationQueue) (activeTerminalTabId : JsString) :
    LocalCheckpointBatch :=
  queue.retryBatch.getD
    { payload :=
        { workspaceId := queue.confirmed.workspaceId
          expectedRevision := queue.confirmed.navigationRevision
          contentState := serializeContentState queue.projected
          activeTerminalTabId := activeTerminalTabId }
      maxSequence := (queue.pending.getLast?.map PendingTopTabIntent.sequence).getD 0 }

/-- `drainLocal` sends a batch. -/
def send (queue : TopTabNavigationQueue) (batch : LocalCheckpointBatch) :
    TopTabNavigationQueue :=
  { queue with retryBatch := some batch, saving := true }

/-- `drainLocal` is answered with a checkpoint, while the confirmed one is the same. -/
def acknowledge (queue : TopTabNavigationQueue) (committed : Bool)
    (checkpoint : WorkspaceCheckpoint) : TopTabNavigationQueue :=
  let acknowledged := (queue.retryBatch.map LocalCheckpointBatch.maxSequence).getD 0
  { queue with
    retryBatch := none
    confirmed := cloneCheckpoint checkpoint
    error := false
    pending :=
      if committed then queue.pending.filter fun intent => acknowledged < intent.sequence
      else queue.pending
    saving := false }.recomputeProjected

end TopTabNavigationQueue

/-- What waits in the tail of the queue. -/
inductive Operation
  | flush (number : Nat)
  | invalidate (preserveError : Bool)
  | mutation
deriving DecidableEq, Repr

/-- The operation that runs. -/
inductive Running
  | idle
  /-- `drainLocal` waits for a save. -/
  | saving (operation : Operation) (confirmedAtStart : WorkspaceCheckpoint)
  /-- A terminal mutation waits for its own request. -/
  | mutating
deriving DecidableEq, Repr

/-- The request of a save, with the intents it carries. -/
inductive Request
  | none
  | sent (payload : SaveWorkspaceCheckpointData) (intents : List PendingTopTabIntent)
  | answered (committed : Bool) (checkpoint : WorkspaceCheckpoint)
deriving DecidableEq, Repr

/-- The save has taken effect, and its response is under way. -/
def Request.isCommitted : Request → Bool
  | .answered committed _ => committed
  | .none | .sent _ _ => false

/-- What has changed the server's checkpoint: another writer, or a save with some intents. -/
inductive Change
  | other (checkpoint : WorkspaceCheckpoint)
  | applied (intents : List PendingTopTabIntent)
deriving DecidableEq, Repr

/-- The queue, its tail, and the server. -/
structure State where
  queue : TopTabNavigationQueue
  waiting : List Operation := []
  running : Running := .idle
  request : Request := .none
  server : WorkspaceCheckpoint
  earlier : List WorkspaceCheckpoint := []
  accepted : Nat := 0
  dropped : List Nat := []
  changes : List Change := []
  flushes : Nat := 0
  ended : List Nat := []
  watched : List (Option Nat) := []
deriving DecidableEq, Repr

/-- What happens.  Where `drainLocal` makes a new batch, the event has the terminal that is
active then. -/
inductive Event
  | enqueue (action : WorkspaceContentAction)
  | flush
  | invalidate (preserveError : Bool)
  | runTerminalMutation
  | reconcile (checkpoint : WorkspaceCheckpoint) (force : Bool)
  /-- The first operation of the tail begins. -/
  | begin (activeTerminalTabId : JsString)
  /-- The server handles the save. -/
  | serve
  /-- The response of the save arrives. -/
  | respond (activeTerminalTabId : JsString)
  /-- The save fails: the request or its response is lost. -/
  | fail (activeTerminalTabId : JsString)
  | mutated (checkpoint : WorkspaceCheckpoint)
  | mutationFailed
  /-- Another writer advances the checkpoint. -/
  | other (checkpoint : WorkspaceCheckpoint)
deriving DecidableEq, Repr

namespace State

/-- The queue of a window that starts with the server's checkpoint. -/
def start (checkpoint : WorkspaceCheckpoint) : State where
  queue := TopTabNavigationQueue.make checkpoint
  server := checkpoint

/-- All checkpoints of the server. -/
def past (s : State) : List WorkspaceCheckpoint := s.server :: s.earlier

/-- `drainLocal` has nothing left to send. -/
def finish (s : State) : Operation → State
  | .flush number => { s with running := .idle, ended := number :: s.ended }
  | .mutation => { s with running := .mutating }
  | .invalidate _ => { s with running := .idle }

/-- The head of the loop of `drainLocal`. -/
def drainLocal (s : State) (operation : Operation) (activeTerminalTabId : JsString) : State :=
  if s.queue.pending = [] then s.finish operation
  else
    let batch := s.queue.nextBatch activeTerminalTabId
    { s with
      queue := s.queue.send batch
      running := .saving operation s.queue.confirmed
      request := .sent batch.payload
        (s.queue.pending.filter fun intent => intent.sequence ≤ batch.maxSequence) }

/-- The server's checkpoint after a save with this payload. -/
def stored (server : WorkspaceCheckpoint) (payload : SaveWorkspaceCheckpointData) :
    WorkspaceCheckpoint :=
  { server with
    navigationRevision := server.navigationRevision + 1
    activeTerminalTabId := payload.activeTerminalTabId
    contentState := storedContent payload.contentState payload.activeTerminalTabId }

/-- `SaveWorkspaceCheckpoint`. -/
def serve (s : State) : State :=
  match s.request with
  | .sent payload intents =>
    if payload.expectedRevision = s.server.navigationRevision then
      { s with
        request := .answered true (stored s.server payload)
        server := stored s.server payload
        earlier := s.past
        changes := s.changes ++ [.applied intents] }
    else { s with request := .answered false s.server }
  | .none | .answered _ _ => s

/-- `drainLocal` goes on without what it was answered, as the confirmed checkpoint is another
by now. -/
def disregard (s : State) : State :=
  { s with
    request := .none
    queue := { s.queue with retryBatch := none, saving := false } }

/-- The response of a save is taken in. -/
def takeIn (s : State) (confirmedAtStart : WorkspaceCheckpoint) (committed : Bool)
    (checkpoint : WorkspaceCheckpoint) : State :=
  if checkpointsEquivalent s.queue.confirmed confirmedAtStart then
    { s with request := .none, queue := s.queue.acknowledge committed checkpoint }
  else s.disregard

/-- The first operation of the tail begins. -/
def begin (s : State) (activeTerminalTabId : JsString) : State :=
  match s.running, s.waiting with
  | .idle, .invalidate preserveError :: waiting =>
    { s with
      waiting := waiting
      queue := s.queue.invalidate preserveError
      dropped := s.dropped ++ s.queue.pending.flatMap PendingTopTabIntent.accepted }
  | .idle, operation :: waiting =>
    { s with waiting := waiting }.drainLocal operation activeTerminalTabId
  | _, _ => s

/-- The response of the save arrives. -/
def respond (s : State) (activeTerminalTabId : JsString) : State :=
  match s.running, s.request with
  | .saving operation confirmedAtStart, .answered committed checkpoint =>
    (s.takeIn confirmedAtStart committed checkpoint).drainLocal operation activeTerminalTabId
  | _, _ => s

/-- The save fails. -/
def fail (s : State) (activeTerminalTabId : JsString) : State :=
  match s.running with
  | .saving operation confirmedAtStart =>
    if checkpointsEquivalent s.queue.confirmed confirmedAtStart then
      { s with
        running := .idle
        request := .none
        queue := { s.queue with error := true, saving := false } }
    else s.disregard.drainLocal operation activeTerminalTabId
  | .idle | .mutating => s

def step (s : State) : Event → State
  | .enqueue action =>
    let (queue, isAccepted) := s.queue.enqueue s.accepted action
    if isAccepted then
      { s with queue := queue, accepted := s.accepted + 1, watched := [] }
    else s
  | .flush =>
    if s.queue.pending = [] then { s with watched := none :: s.watched }
    else
      { s with
        waiting := s.waiting ++ [.flush s.flushes]
        flushes := s.flushes + 1
        watched := some s.flushes :: s.watched }
  | .invalidate preserveError => { s with waiting := s.waiting ++ [.invalidate preserveError] }
  | .runTerminalMutation => { s with waiting := s.waiting ++ [.mutation] }
  | .reconcile checkpoint force =>
    if checkpoint ∈ s.past ∨ checkpoint.workspaceId ≠ s.server.workspaceId then
      { s with queue := s.queue.reconcile checkpoint force }
    else s
  | .begin activeTerminalTabId => s.begin activeTerminalTabId
  | .serve => s.serve
  | .respond activeTerminalTabId => s.respond activeTerminalTabId
  | .fail activeTerminalTabId => s.fail activeTerminalTabId
  | .mutated checkpoint =>
    if s.running = .mutating ∧ checkpoint ∈ s.past then
      { s with running := .idle, queue := s.queue.reconcile checkpoint false }
    else s
  | .mutationFailed => if s.running = .mutating then { s with running := .idle } else s
  | .other checkpoint =>
    if checkpoint.workspaceId = s.server.workspaceId ∧
        s.server.navigationRevision < checkpoint.navigationRevision then
      { s with
        server := checkpoint
        earlier := s.past
        changes := s.changes ++ [.other checkpoint] }
    else s

end State

end NavigationQueue

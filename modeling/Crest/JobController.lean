import Crest.JsMap
import Crest.Runs

/-!
# The life of a job

A job is a record of the store: its manager starts, runs and is done, and it is attached to
a block, which names it in turn.  The operations of the job controller read and write these
records in transactions; between two transactions they wait for the remote side, for seconds,
and everything else goes on.

A call is the list of the tasks it still has to do.  A task is one transaction of the store,
or one wait for the remote side, whose answer the environment chooses; it may put further
tasks in front of the rest.  Ids are generated, so a new id is one that nothing has
mentioned before.
-/

namespace JobController

/-- The id of a job. -/
abbrev JobId := Nat

/-- The id of a block. -/
abbrev BlockId := Nat

inductive JobManagerStatus
  | init
  | running
  | done
deriving DecidableEq, Repr

inductive JobDoneReason
  | startupError
  | gone
  | terminated
deriving DecidableEq, Repr

/-- A job, as far as its life depends on it. -/
structure Job where
  jobManagerStatus : JobManagerStatus := .init
  jobManagerDoneReason : Option JobDoneReason := none
  attachedBlockId : Option BlockId := none
  terminateOnReconnect : Bool := false
  cmdExitTs : Int := 0
  streamDone : Bool := false
deriving DecidableEq, Repr

/-- A block, as far as jobs are concerned. -/
structure Block where
  jobId : Option JobId := none
deriving DecidableEq, Repr

/-- The stored objects. -/
structure Store where
  jobs : JsMap JobId Job := JsMap.empty
  blocks : JsMap BlockId Block := JsMap.empty

namespace Store

/-- `DBUpdateFn` of a job; it fails when the job is not stored. -/
def updateJob (store : Store) (jobId : JobId) (f : Job → Job) : Option Store :=
  (store.jobs.get jobId).map fun job => { store with jobs := store.jobs.set jobId (f job) }

/-- What `AttachJobToBlock` does to the job that the block named before. -/
def detachOldJob (store : Store) (oldJobId : Option JobId) (jobId : JobId) (blockId : BlockId) :
    Store :=
  match oldJobId with
  | none => store
  | some old =>
    if old = jobId then store
    else
      (store.updateJob old fun oldJob =>
        if oldJob.attachedBlockId = some blockId then { oldJob with attachedBlockId := none }
        else oldJob).getD store

/-- The transaction of `AttachJobToBlock`. -/
def attachJobToBlock (store : Store) (jobId : JobId) (blockId : BlockId) : Option Store :=
  match store.blocks.get blockId with
  | none => none
  | some block =>
    let named := { store with blocks := store.blocks.set blockId { jobId := some jobId } }
    let detached := named.detachOldJob block.jobId jobId blockId
    match detached.jobs.get jobId with
    | none => none
    | some job =>
      if job.attachedBlockId.any fun other => decide (other ≠ blockId) then none
      else detached.updateJob jobId fun job => { job with attachedBlockId := some blockId }

/-- The transaction of `DetachJobFromBlock` with `updateBlock`. -/
def detachJobFromBlock (store : Store) (jobId : JobId) : Option Store :=
  match store.jobs.get jobId with
  | none => none
  | some job =>
    match job.attachedBlockId with
    | none => some store
    | some blockId =>
      let cleared :=
        match store.blocks.get blockId with
        | none => store
        | some _ => { store with blocks := store.blocks.set blockId { jobId := none } }
      cleared.updateJob jobId fun job => { job with attachedBlockId := none }

/-- The jobs attached to a block, as `handleBlockCloseEvent` looks them up. -/
def attachedJobs (store : Store) (blockId : BlockId) : List JobId :=
  (store.jobs.entries.filter fun e => e.2.attachedBlockId = some blockId).map Prod.fst

/-- The candidates of `pruneUnusedJobs`. -/
def unusedJobs (store : Store) : List JobId :=
  (store.jobs.entries.filter fun e =>
    e.2.jobManagerStatus = .done ∧ e.2.attachedBlockId = none).map Prod.fst

/-- The blocks that name a job. -/
def blocksOf (store : Store) (jobId : JobId) : List BlockId :=
  (store.blocks.entries.filter fun e => e.2.jobId = some jobId).map Prod.fst

end Store

/-- What a call does between two moments at which others run. -/
inductive Task
  /-- `StartJob` attaches the job it has inserted. -/
  | startAttach (jobId : JobId) (blockId : BlockId)
  /-- `StartJob` waits for `RemoteStartJobCommand`. -/
  | startRemote (jobId : JobId)
  | recordRunning (jobId : JobId)
  | recordStartupError (jobId : JobId)
  | attach (jobId : JobId) (blockId : BlockId)
  | detach (jobId : JobId)
  /-- `HandleCmdJobExited` records how the command ended. -/
  | recordExit (jobId : JobId) (exitTs : Int)
  /-- The output loop, or a restart of it, records the end of the stream. -/
  | recordStreamDone (jobId : JobId)
  | tryTerminate (jobId : JobId)
  /-- `TerminateJobManager` joins the flight that is under way, or starts one. -/
  | terminate (jobId : JobId)
  | waitTerminate (jobId : JobId) (flight : Nat)
  /-- `doTerminateJobManager` sets `TerminateOnReconnect`. -/
  | markTerminate (jobId : JobId)
  /-- `remoteTerminateJobManager` waits for `RemoteTerminateJobManagerCommand`. -/
  | remoteTerminate (jobId : JobId)
  | recordTerminated (jobId : JobId)
  | leaveTerminate (jobId : JobId)
  /-- `ReconnectJob` joins the flight that is under way, or starts one. -/
  | reconnect (jobId : JobId)
  | waitReconnect (jobId : JobId) (flight : Nat)
  /-- `doReconnectJob` reads the job. -/
  | readReconnect (jobId : JobId)
  /-- `doReconnectJob` waits for `RemoteReconnectToJobManagerCommand` and for the route. -/
  | remoteReconnect (jobId : JobId)
  | recordGone (jobId : JobId)
  /-- `restartStreaming` waits for `JobPrepareConnectCommand`. -/
  | restartStreaming (jobId : JobId)
  | leaveReconnect (jobId : JobId)
  /-- `DeleteJob` for one job of the pruner's list. -/
  | pruneDelete (jobId : JobId)
deriving DecidableEq, Repr

/-- The job a task is about. -/
def Task.jobId : Task → JobId
  | .startAttach j _ | .startRemote j | .recordRunning j | .recordStartupError j
  | .attach j _ | .detach j | .recordExit j _ | .recordStreamDone j | .tryTerminate j
  | .terminate j | .waitTerminate j _ | .markTerminate j | .remoteTerminate j
  | .recordTerminated j | .leaveTerminate j | .reconnect j | .waitReconnect j _
  | .readReconnect j | .remoteReconnect j | .recordGone j | .restartStreaming j
  | .leaveReconnect j | .pruneDelete j => j

/-- What the remote side and the connections answer. -/
structure Answer where
  /-- The command succeeded; for `readReconnect`: the connection is up, the job is not
  connected yet. -/
  ok : Bool := true
  /-- `JobManagerGone`. -/
  gone : Bool := false
  /-- `HasExited`, with the time at which the exit is recorded. -/
  exited : Option Int := none
  /-- `StreamDone`. -/
  streamDone : Bool := false

/-- A job as it was deleted, and the blocks that named it then. -/
structure Deletion where
  job : Job
  blocks : List BlockId
deriving DecidableEq, Repr

/-- The store and the calls under way. -/
structure State where
  store : Store := {}
  calls : List (List Task) := []
  terminateGroup : JobId → Option Nat := fun _ => none
  reconnectGroup : JobId → Option Nat := fun _ => none
  nextFlight : Nat := 0
  nextJob : JobId := 0
  /-- The block ids that something has mentioned. -/
  knownBlocks : List BlockId := []
  /-- The closed blocks whose event was not handled yet. -/
  pendingCloses : List BlockId := []
  /-- History: the closed blocks whose event was handled. -/
  handledCloses : List BlockId := []
  /-- History: the jobs that were attached to a block when its close event was handled. -/
  closed : List JobId := []
  /-- History: the jobs that were deleted. -/
  deletions : List Deletion := []

namespace State

/-- A transaction that updates one job, and what the call does when it went through. -/
def update (s : State) (jobId : JobId) (f : Job → Job) (next : List Task) : State × List Task :=
  match s.store.updateJob jobId f with
  | none => (s, [])
  | some store => ({ s with store := store }, next)

def deleteJob (s : State) (jobId : JobId) : State :=
  match s.store.jobs.get jobId with
  | none => s
  | some job =>
    { s with
      store := { s.store with jobs := s.store.jobs.delete jobId }
      deletions := s.deletions ++ [{ job := job, blocks := s.store.blocksOf jobId }] }

/-- A task, and the tasks that it puts before the rest of its call. -/
def exec (s : State) (answer : Answer) : Task → State × List Task
  | .startAttach j b =>
    match s.store.attachJobToBlock j b with
    | none => (s, [])
    | some store => ({ s with store := store }, [.startRemote j])
  | .startRemote j => (s, [if answer.ok then .recordRunning j else .recordStartupError j])
  | .recordRunning j => s.update j (fun job => { job with jobManagerStatus := .running }) []
  | .recordStartupError j =>
    s.update j (fun job =>
      { job with
        jobManagerStatus := .done
        jobManagerDoneReason := some .startupError }) []
  | .attach j b =>
    match s.store.attachJobToBlock j b with
    | none => (s, [])
    | some store => ({ s with store := store }, [])
  | .detach j =>
    match s.store.detachJobFromBlock j with
    | none => (s, [])
    | some store => ({ s with store := store }, [])
  | .recordExit j exitTs =>
    s.update j (fun job => { job with cmdExitTs := exitTs }) [.tryTerminate j]
  | .recordStreamDone j => s.update j (fun job => { job with streamDone := true }) []
  | .tryTerminate j =>
    match s.store.jobs.get j with
    | none => (s, [])
    | some job =>
      if job.jobManagerStatus = .running ∧ job.cmdExitTs ≠ 0 ∧ job.streamDone = true then
        (s, [.terminate j])
      else (s, [])
  | .terminate j =>
    match s.terminateGroup j with
    | some flight => (s, [.waitTerminate j flight])
    | none =>
      ({ s with
         terminateGroup := Function.update s.terminateGroup j (some s.nextFlight)
         nextFlight := s.nextFlight + 1 },
        [.markTerminate j, .leaveTerminate j])
  | .waitTerminate j flight =>
    (s, if s.terminateGroup j = some flight then [.waitTerminate j flight] else [])
  | .markTerminate j =>
    match s.store.jobs.get j with
    | none => (s, [])
    | some job =>
      if job.jobManagerStatus = .done then (s, [])
      else
        s.update j (fun job => { job with terminateOnReconnect := true })
          [.remoteTerminate j]
  | .remoteTerminate j => (s, if answer.ok then [.recordTerminated j] else [])
  | .recordTerminated j =>
    s.update j (fun job =>
      { job with
        jobManagerStatus := .done
        jobManagerDoneReason := some .terminated
        terminateOnReconnect := false
        streamDone := true }) []
  | .leaveTerminate j =>
    ({ s with terminateGroup := Function.update s.terminateGroup j none }, [])
  | .reconnect j =>
    match s.reconnectGroup j with
    | some flight => (s, [.waitReconnect j flight])
    | none =>
      ({ s with
         reconnectGroup := Function.update s.reconnectGroup j (some s.nextFlight)
         nextFlight := s.nextFlight + 1 },
        [.readReconnect j, .leaveReconnect j])
  | .waitReconnect j flight =>
    (s, if s.reconnectGroup j = some flight then [.waitReconnect j flight] else [])
  | .readReconnect j =>
    match s.store.jobs.get j with
    | none => (s, [])
    | some job =>
      if answer.ok = false then (s, [])
      else if job.terminateOnReconnect then
        (s, if job.jobManagerStatus = .done then [] else [.remoteTerminate j])
      else (s, [.remoteReconnect j])
  | .remoteReconnect j =>
    (s, if answer.ok then [.restartStreaming j]
        else if answer.gone then [.recordGone j] else [])
  | .recordGone j =>
    s.update j (fun job =>
      { job with
        jobManagerStatus := .done
        jobManagerDoneReason := some .gone }) []
  | .restartStreaming j =>
    if s.store.jobs.has j = false ∨ answer.ok = false then (s, [])
    else
      (s, (answer.exited.map fun exitTs => Task.recordExit j exitTs).toList ++
        (if answer.streamDone then [.recordStreamDone j] else []) ++
        (if answer.exited.isSome ∧ answer.streamDone = true then [.tryTerminate j] else []))
  | .leaveReconnect j =>
    ({ s with reconnectGroup := Function.update s.reconnectGroup j none }, [])
  | .pruneDelete j => (s.deleteJob j, [])

/-- A call does its next task. -/
def advance (s : State) (call : Nat) (answer : Answer) : State :=
  match s.calls[call]? with
  | some (task :: rest) =>
    let (s', next) := s.exec answer task
    { s' with calls := s'.calls.set call (next ++ rest) }
  | _ => s

/-- A new call. -/
def call (s : State) (tasks : List Task) : State := { s with calls := s.calls ++ [tasks] }

/-- A call about a job that somebody may know. -/
def callFor (s : State) (jobId : JobId) (tasks : List Task) : State :=
  if jobId < s.nextJob then s.call tasks else s

/-- `StartJob` inserts its job. -/
def startJob (s : State) (blockId : Option BlockId) : State :=
  let j := s.nextJob
  { s with
    store := { s.store with jobs := s.store.jobs.set j { attachedBlockId := blockId } }
    nextJob := j + 1
    knownBlocks := s.knownBlocks ++ blockId.toList
    calls := s.calls ++
      [match blockId with
       | none => [.startRemote j]
       | some b => [.startAttach j b]] }

/-- The object of a block is deleted, and its close event published. -/
def closeBlock (s : State) (blockId : BlockId) : State :=
  if s.store.blocks.has blockId then
    { s with
      store := { s.store with blocks := s.store.blocks.delete blockId }
      pendingCloses := s.pendingCloses ++ [blockId] }
  else s

def terminateAndDetachJob (jobId : JobId) : List Task := [.terminate jobId, .detach jobId]

/-- `handleBlockCloseEvent`. -/
def handleBlockClose (s : State) (blockId : BlockId) : State :=
  if blockId ∈ s.pendingCloses then
    { s with
      pendingCloses := s.pendingCloses.filter fun b => b ≠ blockId
      handledCloses := s.handledCloses ++ [blockId]
      closed := s.closed ++ s.store.attachedJobs blockId
      calls := s.calls ++ [(s.store.attachedJobs blockId).flatMap terminateAndDetachJob] }
  else s

end State

/-- What happens. -/
inductive Event
  | createBlock (blockId : BlockId)
  | closeBlock (blockId : BlockId)
  | handleBlockClose (blockId : BlockId)
  | startJob (blockId : Option BlockId)
  | attachJobToBlock (jobId : JobId) (blockId : BlockId)
  | detachJobFromBlock (jobId : JobId)
  | terminateAndDetachJob (jobId : JobId)
  | handleCmdJobExited (jobId : JobId) (exitTs : Int)
  | reconnectJob (jobId : JobId)
  /-- `runOutputLoop` comes to the end of its stream. -/
  | streamEnded (jobId : JobId)
  | pruneUnusedJobs (previousCandidates : List JobId)
  | advance (call : Nat) (answer : Answer)

/-- One event. -/
def step (s : State) : Event → State
  | .createBlock b =>
    if b ∈ s.knownBlocks then s
    else
      { s with
        store := { s.store with blocks := s.store.blocks.set b {} }
        knownBlocks := s.knownBlocks ++ [b] }
  | .closeBlock b => s.closeBlock b
  | .handleBlockClose b => s.handleBlockClose b
  | .startJob blockId => s.startJob blockId
  | .attachJobToBlock j b => s.callFor j [.attach j b]
  | .detachJobFromBlock j => s.callFor j [.detach j]
  | .terminateAndDetachJob j => s.callFor j (State.terminateAndDetachJob j)
  | .handleCmdJobExited j exitTs => s.callFor j [.recordExit j exitTs]
  | .reconnectJob j => s.callFor j [.reconnect j]
  | .streamEnded j => s.callFor j [.recordStreamDone j, .tryTerminate j]
  | .pruneUnusedJobs previousCandidates =>
    s.call ((s.store.unusedJobs.filter fun j => j ∈ previousCandidates).map .pruneDelete)
  | .advance call answer => s.advance call answer

/-- A run from an empty store. -/
def run (events : List Event) : State := Runs.run step {} events

end JobController

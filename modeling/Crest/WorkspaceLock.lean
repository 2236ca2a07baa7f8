import Mathlib.Logic.Function.Basic

/-!
# The workspace mutation lock

A process holds the lock while the file `owner.json` of the lock directory is its own.
It gets there by creating the file where there is none, or by renaming a file of its own
over the record of a process that is gone, inside a reclaim transaction that one process
at a time can be in.  It leaves by unlinking the file.

A task is one call of `runExclusive` that had to wait for its turn.  Each step of a task
is one access to the directory, to the process table or to the database; between two of
them any other task of any process may take steps, and a process may die at any moment.
A file has an identity that is never used again, and what it contains can be decoded only
once it has been written completely.  Its creator is a history that the code does not keep.

A step may go wrong at the file system's will, or because a check that guards the
directory itself fails; the last kind poisons the lock for its process.
-/

namespace WorkspaceLock

/-- What a complete owner record says.  A start token names one life of a process. -/
structure Record where
  workspace : String
  pid : Nat
  token : String
  nonce : Nat
deriving DecidableEq

/-- How a step's accesses turn out, as far as the shared state does not decide it. -/
inductive Result where
  | ok
  | fails
  | poisons
deriving DecidableEq

/-- What `inspectOwner` finds. -/
inductive OwnerState where
  | live
  | stale
  | unknown
  | absent
deriving DecidableEq

/-- What a reclaim transaction ends with. -/
inductive Reclaim where
  | acquired (record : Record) (id : Nat)
  | retry
  | failed
deriving DecidableEq

/-- The file a record is written to: `owner.json`, or a candidate that is to replace a
stale one. -/
inductive Place where
  | owner
  | candidate (stale : Nat)
deriving DecidableEq

/-- Where a task is. -/
inductive Pc where
  | idle
  /-- Awaiting the previous turn. -/
  | waiting (previous : Option Nat)
  | entered
  /-- The top of the loop of `acquire`. -/
  | acquiring
  | creating (record : Record)
  /-- The steps of `writeOwnerAt`. -/
  | created (place : Place) (record : Record) (id : Nat)
  | statted (place : Place) (record : Record) (id : Nat)
  | written (place : Place) (record : Record) (id : Nat)
  | verified (place : Place) (record : Record) (id : Nat)
  | cleanup (place : Place) (id : Nat)
  | unlinking (id : Nat)
  /-- The steps of `inspectOwner`, in the reclaim transaction or outside. -/
  | inspecting (inTx : Bool) (record : Record)
  | opened (inTx : Bool) (record : Record) (id : Nat)
  | identified (inTx : Bool) (record : Record) (id : Nat)
  | read (inTx : Bool) (record : Record) (id : Nat) (found : Option Record)
  | undecoded (inTx : Bool) (record : Record) (id : Nat)
  | decoded (inTx : Bool) (record : Record) (id : Nat) (found : Record)
  | probed (inTx : Bool) (record : Record) (id : Nat) (found : Record)
  | compared (inTx : Bool) (record : Record) (id : Nat) (same : Bool)
  | vanished (inTx : Bool) (record : Record) (id : Nat) (found : Record)
  | reprobing (inTx : Bool) (record : Record) (id : Nat) (found : Record)
  /-- The steps of `reclaimInTransaction` and `replaceStaleOwner`. -/
  | preparing (record : Record)
  | beginning (record : Record)
  | replacing (record : Record) (stale : Nat)
  | candidateReady (record : Record) (stale : Nat) (id : Nat)
  | staleChecked (record : Record) (stale : Nat) (id : Nat)
  | renamed (record : Record) (id : Nat)
  | rollback (outcome : Reclaim)
  /-- `acquire` has returned. -/
  | acquired (record : Record) (id : Nat)
  | running (record : Record) (id : Nat)
  /-- The steps of `release`. -/
  | releasing (record : Record) (id : Nat)
  | releaseOpened (record : Record) (id : Nat) (found : Nat)
  | releaseRead (record : Record) (id : Nat) (found : Nat) (bytes : Option Record)
  | releaseMatched (record : Record) (id : Nat)
  | releaseUnlinking (record : Record) (id : Nat)
  /-- The end of `runExclusive`, where the turn is passed on. -/
  | finishing
  | done
deriving DecidableEq

/-- What a step does to the shared state, besides moving its task. -/
inductive Effect where
  | none
  | makeOwner
  | create
  | createCandidate
  | write (id : Nat) (record : Record)
  | unlinkOwner
  | renameOver (id : Nat)
  | beginTransaction
  | endTransaction
  | passTurn
  | poison
  | releaseFailure
deriving DecidableEq

/-- The lock directory, the processes and their tasks. -/
structure State where
  /-- The identity of `owner.json`, if it is there. -/
  owner : Option Nat
  /-- The records that were written completely. -/
  content : Nat → Option Record
  /-- History: the process and task that created a file. -/
  creator : Nat → String × Nat
  nextId : Nat
  nextNonce : Nat
  reclaim : Option (String × Nat)
  /-- The process id of each life that was started. -/
  started : String → Option Nat
  /-- The life that has a process id now. -/
  runs : Nat → Option String
  /-- `InProcessTails`, per process. -/
  tails : String → Option Nat
  /-- The number of turns a process has handed out. -/
  calls : String → Nat
  /-- The workspace identity and incarnation of a task's lock. -/
  workspace : String → Nat → String
  /-- `InProcessIntegrityFailures`, per process. -/
  poisoned : String → Bool
  /-- `InProcessReleaseFailures`, per process. -/
  releaseFailed : String → Bool
  pc : String → Nat → Pc

/-- No process and no file. -/
def init : State where
  owner := none
  content := fun _ => none
  creator := fun _ => ("", 0)
  nextId := 0
  nextNonce := 0
  reclaim := none
  started := fun _ => none
  runs := fun _ => none
  tails := fun _ => none
  calls := fun _ => 0
  workspace := fun _ _ => ""
  poisoned := fun _ => false
  releaseFailed := fun _ => false
  pc := fun _ _ => .idle

/-- A life that was started and still has its process id. -/
def State.alive (s : State) (t : String) : Bool :=
  match s.started t with
  | some pid => s.runs pid = some t
  | none => false

/-- An error thrown before the lock is held. -/
def throwAt (inTx : Bool) : Pc := if inTx then .rollback .failed else .finishing

/-- The effect of an error. -/
def thrown : Result → Effect
  | .poisons => .poison
  | _ => .none

/-- Where the state that was found leads. -/
def verdict (inTx : Bool) (record : Record) (id : Nat) : OwnerState → Pc
  | .unknown => throwAt inTx
  | .stale => if inTx then .replacing record id else .preparing record
  | .absent => if inTx then .rollback .retry else .acquiring
  | .live => if inTx then .rollback .retry else .acquiring

/-- Where an error in `writeOwnerAt` leads: a candidate is only written in the
transaction. -/
def Place.throwAt : Place → Pc
  | .owner => .finishing
  | .candidate _ => .rollback .failed

/-- One step of a task: where it goes and what it does. -/
def advance (s : State) (t : String) (k : Nat) (r : Result) : Pc × Effect :=
  match s.pc t k with
  | .idle => (.idle, .none)
  | .waiting previous =>
    match previous with
    | none => (.entered, .none)
    | some j => if s.pc t j = .done then (.entered, .none) else (.waiting previous, .none)
  | .entered =>
    if s.poisoned t ∨ s.releaseFailed t then (.finishing, .none)
    else if r = .ok then (.acquiring, .none)
    else (.finishing, thrown r)
  | .acquiring =>
    (.creating ⟨s.workspace t k, (s.started t).getD 0, t, s.nextNonce⟩, .makeOwner)
  | .creating record =>
    if r ≠ .ok then (.finishing, thrown r)
    else
      match s.owner with
      | none => (.created .owner record s.nextId, .create)
      | some _ => (.inspecting false record, .none)
  | .created place record id =>
    if r = .ok then (.statted place record id, .none) else (place.throwAt, thrown r)
  | .statted place record id =>
    if r = .ok then (.written place record id, .write id record)
    else (.cleanup place id, thrown r)
  | .written place record id =>
    match place with
    | .owner =>
      if s.owner ≠ some id then (.cleanup place id, .poison)
      else if r = .ok then (.verified place record id, .none)
      else (.cleanup place id, thrown r)
    | .candidate _ =>
      if r = .ok then (.verified place record id, .none)
      else (.cleanup place id, thrown r)
  | .verified place record id =>
    if r ≠ .ok then (place.throwAt, thrown r)
    else
      match place with
      | .owner => (.acquired record id, .none)
      | .candidate stale => (.candidateReady record stale id, .none)
  | .cleanup place id =>
    match place with
    | .candidate _ => (place.throwAt, thrown r)
    | .owner =>
      match s.owner with
      | none => (.finishing, .none)
      | some id' =>
        if id' ≠ id then (.finishing, .poison)
        else if r = .ok then (.unlinking id, .none)
        else (.finishing, thrown r)
  | .unlinking _ => if r = .ok then (.finishing, .unlinkOwner) else (.finishing, thrown r)
  | .inspecting inTx record =>
    if r ≠ .ok then (throwAt inTx, thrown r)
    else
      match s.owner with
      | none => (verdict inTx record 0 .absent, .none)
      | some id => (.opened inTx record id, .none)
  | .opened inTx record id =>
    if s.owner ≠ some id ∨ r ≠ .ok then
      -- a file that was unlinked meanwhile counts as absent
      if s.owner = none ∧ r = .ok then (verdict inTx record id .absent, .none)
      else (throwAt inTx, .poison)
    else (.identified inTx record id, .none)
  | .identified inTx record id =>
    if r = .ok then (.read inTx record id (s.content id), .none)
    else (throwAt inTx, .poison)
  | .read inTx record id found =>
    if s.owner ≠ some id ∨ r ≠ .ok then (throwAt inTx, .poison)
    else
      match found with
      | none => (.undecoded inTx record id, .none)
      | some found => (.decoded inTx record id found, .none)
  | .undecoded inTx record id =>
    match r with
    | .fails => (verdict inTx record id .unknown, .none)
    | .poisons => (throwAt inTx, .poison)
    | .ok =>
      match s.owner with
      | none => (verdict inTx record id .absent, .none)
      | some id' =>
        if id' = id then (.identified inTx record id, .none) else (throwAt inTx, .poison)
  | .decoded inTx record id found =>
    if found.workspace ≠ s.workspace t k then (verdict inTx record id .unknown, .none)
    else
      match s.runs found.pid with
      | none => (verdict inTx record id .stale, .none)
      | some _ =>
        if r = .ok then (.probed inTx record id found, .none)
        else (verdict inTx record id .unknown, .none)
  | .probed inTx record id found =>
    if r ≠ .ok then (.vanished inTx record id found, .none)
    else
      match s.runs found.pid with
      | none => (.vanished inTx record id found, .none)
      | some current => (.compared inTx record id (decide (current = found.token)), .none)
  | .compared inTx record id same =>
    match s.owner with
    | none => (verdict inTx record id .absent, .none)
    | some id' =>
      if id' ≠ id ∨ r ≠ .ok then (throwAt inTx, .poison)
      else (verdict inTx record id (if same then .live else .stale), .none)
  | .vanished inTx record id found =>
    match s.owner with
    | none => (verdict inTx record id .absent, .none)
    | some id' =>
      if id' ≠ id ∨ r ≠ .ok then (throwAt inTx, .poison)
      else (.reprobing inTx record id found, .none)
  | .reprobing inTx record id found =>
    match s.runs found.pid with
    | none => (verdict inTx record id .stale, .none)
    | some _ => (verdict inTx record id .unknown, .none)
  | .preparing record => if r = .ok then (.beginning record, .none) else (.finishing, thrown r)
  | .beginning record =>
    if r ≠ .ok then (.finishing, thrown r)
    else
      match s.reclaim with
      | none => (.inspecting true record, .beginTransaction)
      | some _ => (.beginning record, .none)
  | .replacing record stale =>
    if r = .ok then (.created (.candidate stale) record s.nextId, .createCandidate)
    else (.rollback .failed, thrown r)
  | .candidateReady record stale id =>
    if s.owner ≠ some stale ∨ r ≠ .ok then (.rollback .failed, .poison)
    else (.staleChecked record stale id, .none)
  | .staleChecked record _ id =>
    if r = .ok then (.renamed record id, .renameOver id) else (.rollback .failed, thrown r)
  | .renamed record id =>
    if s.owner ≠ some id ∨ r ≠ .ok then (.rollback .failed, .poison)
    else (.rollback (.acquired record id), .none)
  | .rollback outcome =>
    match outcome with
    | .acquired record id =>
      if r = .ok then (.acquired record id, .endTransaction)
      else (.finishing, .endTransaction)
    | .retry =>
      if r = .ok then (.acquiring, .endTransaction) else (.finishing, .endTransaction)
    | .failed => (.finishing, .endTransaction)
  | .acquired record id =>
    if r = .ok then (.running record id, .none) else (.releasing record id, thrown r)
  | .running record id => (.releasing record id, .none)
  | .releasing record id =>
    if r ≠ .ok then (.finishing, .releaseFailure)
    else
      match s.owner with
      | none => (.finishing, .releaseFailure)
      | some found => (.releaseOpened record id found, .none)
  | .releaseOpened record id found =>
    if r = .ok then (.releaseRead record id found (s.content found), .none)
    else (.finishing, .releaseFailure)
  | .releaseRead record id found bytes =>
    if s.owner ≠ some found ∨ r ≠ .ok ∨ found ≠ id then (.finishing, .releaseFailure)
    else if bytes.map Record.nonce = some record.nonce then (.releaseMatched record id, .none)
    else (.finishing, .releaseFailure)
  | .releaseMatched record id =>
    if s.owner ≠ some id ∨ r ≠ .ok then (.finishing, .releaseFailure)
    else (.releaseUnlinking record id, .none)
  | .releaseUnlinking _ _ =>
    if r = .ok then (.finishing, .unlinkOwner) else (.finishing, .releaseFailure)
  | .finishing => (.done, .passTurn)
  | .done => (.done, .none)

/-- What an effect of a task does. -/
def State.apply (s : State) (t : String) (k : Nat) : Effect → State
  | .none => s
  | .makeOwner => { s with nextNonce := s.nextNonce + 1 }
  | .create =>
    { s with
      owner := some s.nextId
      content := Function.update s.content s.nextId none
      creator := Function.update s.creator s.nextId (t, k)
      nextId := s.nextId + 1 }
  | .createCandidate =>
    { s with
      content := Function.update s.content s.nextId none
      creator := Function.update s.creator s.nextId (t, k)
      nextId := s.nextId + 1 }
  | .write id record => { s with content := Function.update s.content id (some record) }
  | .unlinkOwner => { s with owner := none }
  | .renameOver id => { s with owner := some id }
  | .beginTransaction => { s with reclaim := some (t, k) }
  | .endTransaction => { s with reclaim := none }
  | .passTurn =>
    if s.tails t = some k then { s with tails := Function.update s.tails t none } else s
  | .poison => { s with poisoned := Function.update s.poisoned t true }
  | .releaseFailure => { s with releaseFailed := Function.update s.releaseFailed t true }

/-- A task at a new place. -/
def State.setPc (s : State) (t : String) (k : Nat) (pc : Pc) : State :=
  { s with pc := Function.update s.pc t (Function.update (s.pc t) k pc) }

/-- What can happen. -/
inductive Event where
  /-- A new life starts with a process id that no life has. -/
  | spawn (t : String) (pid : Nat)
  /-- A process dies; the database lets go of its transaction. -/
  | die (t : String)
  /-- `runExclusive` is called, perhaps from inside an operation of a task. -/
  | call (t : String) (workspace : String) (context : Option Nat)
  /-- A task takes a step. -/
  | task (t : String) (k : Nat) (r : Result)

/-- Whether the token of a task's context is active. -/
def Pc.isRunning : Pc → Bool
  | .running _ _ => true
  | _ => false

def step (s : State) : Event → State
  | .spawn t pid =>
    if s.started t = none ∧ s.runs pid = none then
      { s with
        started := Function.update s.started t (some pid)
        runs := Function.update s.runs pid (some t) }
    else s
  | .die t =>
    match s.started t with
    | none => s
    | some pid =>
      if s.runs pid = some t then
        { s with
          runs := Function.update s.runs pid none
          reclaim := if s.reclaim.map Prod.fst = some t then none else s.reclaim }
      else s
  | .call t workspace context =>
    if s.alive t = false then s
    else if (context.map fun k => (s.pc t k).isRunning) = some true then
      -- reentrant: the operation runs inside the one that holds the lock
      s
    else
      { s.setPc t (s.calls t) (.waiting (s.tails t)) with
        tails := Function.update s.tails t (some (s.calls t))
        calls := Function.update s.calls t (s.calls t + 1)
        workspace := Function.update s.workspace t
          (Function.update (s.workspace t) (s.calls t) workspace) }
  | .task t k r =>
    if s.alive t then (s.apply t k (advance s t k r).2).setPc t k (advance s t k r).1
    else s

end WorkspaceLock

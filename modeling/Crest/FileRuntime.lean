import Crest.JsMap
import Crest.JsString
import Crest.Runs

/-!
# The runtime of an open file

A file that is open in the workspace has one runtime: the text in the editor, the text the
runtime takes to be saved, whether the two differ, and what is going on.  Saves and renames
wait in one queue and run one after the other; reads run beside them, and two loads of one
path share a read that is under way.

The disk maps a path to the text of its file, the empty text where there is none.  It is
changed by the writes of the saves and by the files a rename moves.  A read looks at the disk
at some moment between its call and its answer; a write changes it at some such moment, and
may fail with or without having done so.
-/

namespace FileRuntime

/-- `status` of a runtime that is open. -/
inductive Status
  | loading
  | ready
  | error
deriving DecidableEq, Repr

/-- `RightEditorSaveStatus`. -/
inductive SaveStatus
  | idle
  | saving
  | saved
  | error
deriving DecidableEq, Repr

/-- `WorkspaceFileOperation`, without the deletion of the file. -/
inductive Operation
  | idle
  | read
  | save
  | rename
deriving DecidableEq, Repr

/-- How a read ends. -/
inductive ReadAnswer
  | failed (message : JsString)
  | done (text : JsString) (readonly : Bool)
deriving DecidableEq, Repr

/-- A read: the text it has seen on the disk, and how it has ended.  It is stale once the
file was written after the read had looked at it. -/
structure Read where
  path : JsString
  seen : Option JsString := none
  stale : Bool := false
  answer : Option ReadAnswer := none
deriving DecidableEq, Repr

/-- A call of `load` that waits for its read.  The running rename may wait for it in turn.  It
is explicit when it comes from a `reload` that was called on a clean runtime, and nothing was
typed since. -/
structure Load where
  path : JsString
  read : Nat
  renames : Bool := false
  explicit : Bool := false
deriving DecidableEq, Repr

/-- What waits in the mutation queue: a save, `migratePath`, or `migratePaths` of one file. -/
inductive Mutation
  | save (value : JsString) (valueGeneration saveGeneration : Nat)
  | rename (oldPath newPath : JsString) (batch : Bool)
deriving DecidableEq, Repr

/-- The mutation that runs. -/
inductive Running
  /-- A save waits for `writeFile`, which may have written already. -/
  | save (path value : JsString) (valueGeneration saveGeneration : Nat) (written : Bool)
  /-- A rename that does not concern the runtime waits for its own mutation. -/
  | other
  /-- A rename waits for its mutation, which may have moved the file already.  A batch puts
  status, operation and error back when it fails. -/
  | rename (oldPath newPath : JsString) (batch : Bool) (status : Status)
      (operation : Operation) (error : Option JsString) (moved : Bool)
  /-- A rename waits for the load from its new path. -/
  | reload
deriving DecidableEq, Repr

/-- How the mutation of a rename ends; only `migratePath` minds that it answers `false`. -/
inductive MutateAnswer
  | accepted
  | refused
  | failed (message : JsString)
deriving DecidableEq, Repr

/-- A runtime, its registry and the disk.  Three fields only observe: whether the text in the
editor was put there by the user, whether the text that counts as saved was read from or
written to the file and no write has changed the file since, and whether the last write
failed. -/
structure State where
  disk : JsString → JsString
  path : JsString
  savedValue : JsString := []
  value : JsString := []
  model : JsString := []
  dirty : Bool := false
  readonly : Bool := false
  status : Status := .loading
  saveStatus : SaveStatus := .idle
  operation : Operation := .read
  error : Option JsString := none
  saveGeneration : Nat := 0
  valueGeneration : Nat := 0
  reads : List Read := []
  readsByPath : JsMap JsString Nat := JsMap.empty
  loads : List Load := []
  queue : List Mutation := []
  running : Option Running := none
  typed : Bool := false
  recorded : Bool := false
  lastWriteFailed : Bool := false

namespace State

def applyModelValue (s : State) (value : JsString) : State :=
  if value = s.value then s
  else
    let applied :=
      { s with
        value := value
        valueGeneration := s.valueGeneration + 1
        dirty := decide (value ≠ s.savedValue)
        saveStatus := .idle }
    if s.operation = .rename then applied
    else { applied with operation := .idle, status := .ready, error := none }

/-- `setValue`; the listener of the model hands its text to `applyModelValue`. -/
def setValue (s : State) (value : JsString) : State :=
  if s.model ≠ value then applyModelValue { s with model := value } value
  else applyModelValue s value

/-- The user types, in the model or through `setValue`. -/
def type (s : State) (value : JsString) : State :=
  if value = s.value then s.setValue value
  else
    { s.setValue value with
      typed := true
      loads := s.loads.map fun load => { load with explicit := false } }

def discard (s : State) : State :=
  { s.setValue s.savedValue with typed := s.typed && decide (s.savedValue = s.value) }

def applyReadValue (s : State) (value : JsString) : State :=
  { s with
    savedValue := value
    value := value
    dirty := false
    model := value
    typed := s.typed && decide (value = s.value)
    recorded := true }

/-- `save` of the runtime, up to the end of the queue. -/
def save (s : State) : State :=
  if s.dirty then
    { s with
      saveGeneration := s.saveGeneration + 1
      queue := s.queue ++ [.save s.value s.valueGeneration (s.saveGeneration + 1)] }
  else s

/-- `load` up to its `await`: it shares the read of the path that is under way. -/
def load (s : State) (path : JsString) (renames explicit : Bool) : State :=
  match s.readsByPath.get path with
  | some read =>
    { s with loads := s.loads ++ [{ path, read, renames, explicit }] }
  | none =>
    { s with
      reads := s.reads ++ [{ path }]
      readsByPath := s.readsByPath.set path s.reads.length
      loads := s.loads ++ [{ path, read := s.reads.length, renames, explicit }] }

def reload (s : State) : State :=
  { s with status := .loading, operation := .read, error := none }.load s.path false (!s.dirty)

/-- A read looks at the disk. -/
def look (s : State) (i : Nat) : State :=
  match s.reads[i]? with
  | none => s
  | some read =>
    match read.answer with
    | some _ => s
    | none =>
      { s with
        reads := s.reads.set i { read with seen := some (s.disk read.path), stale := false } }

/-- A read that ends is no longer shared. -/
def settle (s : State) (i : Nat) (read : Read) (answer : ReadAnswer) : State :=
  { s with
    reads := s.reads.set i { read with answer := some answer }
    readsByPath :=
      if s.readsByPath.get read.path = some i then s.readsByPath.delete read.path
      else s.readsByPath }

/-- `readFile` throws, or answers with what it has seen. -/
def settleRead (s : State) (i : Nat) (failure : Option JsString) (readonly : Bool) : State :=
  match s.reads[i]? with
  | none => s
  | some read =>
    match read.answer, failure, read.seen with
    | none, some message, _ => s.settle i read (.failed message)
    | none, none, some text => s.settle i read (.done text readonly)
    | _, _, _ => s

/-- The rest of `load` after its `await`. -/
def endLoad (s : State) (path : JsString) : ReadAnswer → State
  | .done text readonly =>
    if s.path ≠ path ∨ s.dirty then s
    else
      let applied := { s.applyReadValue text with readonly := readonly }
      if s.operation = .rename then applied
      else { applied with status := .ready, operation := .idle, error := none }
  | .failed message =>
    if s.path ≠ path then s
    else { s with status := .error, operation := .idle, error := some message }

/-- The end of a rename that has waited for its load. -/
def endRename (s : State) : State :=
  if s.status ≠ .error then
    { s with status := .ready, operation := .idle, error := none, running := none }
  else { s with running := none }

/-- What the load that waits at the given place goes on with, once its read has ended. -/
def settled (s : State) (k : Nat) : Option (Load × Read × ReadAnswer) :=
  s.loads[k]?.bind fun load =>
    s.reads[load.read]?.bind fun read => read.answer.map fun answer => (load, read, answer)

/-- A load goes on after its read has ended, and with it a rename that waits for the load. -/
def continueLoad (s : State) (k : Nat) : State :=
  match s.settled k with
  | none => s
  | some (load, _, answer) =>
    let ended := { s with loads := s.loads.eraseIdx k }.endLoad load.path answer
    if load.renames then ended.endRename else ended

/-- A mutation starts. -/
def start (s : State) : Mutation → State
  | .save value valueGeneration saveGeneration =>
    let writing :=
      { s with running := some (.save s.path value valueGeneration saveGeneration false) }
    if saveGeneration = s.saveGeneration then
      { writing with
        saveStatus := .saving
        operation := .save
        status := .ready
        error := none }
    else writing
  | .rename oldPath newPath batch =>
    if s.path ≠ oldPath ∨ oldPath = newPath then { s with running := some .other }
    else
      { s with
        running :=
          some (.rename oldPath newPath batch s.status s.operation s.error false)
        status := .loading
        operation := .rename
        error := none }

/-- The queue starts its next mutation when none is running. -/
def startMutation (s : State) : State :=
  match s.running, s.queue with
  | none, mutation :: queue => { s with queue := queue }.start mutation
  | _, _ => s

/-- The reads that have looked at one of the files before it was changed are stale. -/
def outdate (reads : List Read) (changed : JsString → Bool) : List Read :=
  reads.map fun read => if changed read.path then { read with stale := true } else read

/-- The write of the running save reaches the disk. -/
def writeDisk (s : State) : State :=
  match s.running with
  | some (.save path value valueGeneration saveGeneration false) =>
    { s with
      disk := Function.update s.disk path value
      reads := outdate s.reads fun changed => changed = path
      running := some (.save path value valueGeneration saveGeneration true)
      recorded := false }
  | _ => s

/-- `writeFile` has written and answers, or throws. -/
def finishWrite (s : State) (failure : Option JsString) : State :=
  match s.running, failure with
  | some (.save _ value valueGeneration saveGeneration true), none =>
    let ended := { s with running := none, lastWriteFailed := false }
    if saveGeneration ≠ s.saveGeneration then ended
    else
      { ended with
        savedValue := value
        dirty := decide (s.value ≠ value)
        saveStatus := if s.valueGeneration = valueGeneration then .saved else .idle
        operation := .idle
        status := .ready
        recorded := true }
  | some (.save _ _ _ saveGeneration _), some message =>
    let ended := { s with running := none, lastWriteFailed := true }
    if saveGeneration ≠ s.saveGeneration then ended
    else
      { ended with
        saveStatus := .error
        operation := .idle
        status := .error
        error := some message }
  | _, _ => s

/-- The mutation of the running rename moves the file. -/
def moveDisk (s : State) : State :=
  match s.running with
  | some (.rename oldPath newPath batch status operation error false) =>
    { s with
      disk := Function.update (Function.update s.disk newPath (s.disk oldPath)) oldPath []
      reads := outdate s.reads fun changed => changed = oldPath ∨ changed = newPath
      running := some (.rename oldPath newPath batch status operation error true) }
  | _ => s

/-- The runtime takes on its new path, and reads it unless it is dirty. -/
def applyIdentity (s : State) (newPath : JsString) (moved : Bool) : State :=
  let renamed := { s with path := newPath, model := s.value, recorded := s.recorded && moved }
  if s.dirty then { renamed with status := .ready, operation := .idle, running := none }
  else { renamed with running := some .reload }.load newPath true false

/-- The error of `migratePath` when the descriptor was not relocated. -/
def relocationRejected : JsString :=
  js "Workspace file descriptor relocation was rejected"

/-- A rename fails.  A file that has moved meanwhile is not where the runtime is. -/
def failRename (s : State) (batch : Bool) (status : Status) (operation : Operation)
    (error : Option JsString) (moved : Bool) (message : JsString) : State :=
  let ended := { s with running := none, recorded := s.recorded && !moved }
  if batch then { ended with status := status, operation := operation, error := error }
  else { ended with status := .error, operation := .idle, error := some message }

/-- The mutation of the running rename ends. -/
def finishMutate (s : State) (answer : MutateAnswer) : State :=
  match s.running with
  | some .other => { s with running := none }
  | some (.rename _ newPath batch status operation error moved) =>
    match answer with
    | .accepted => s.applyIdentity newPath moved
    | .refused =>
      if batch then s.applyIdentity newPath moved
      else s.failRename batch status operation error moved relocationRejected
    | .failed message => s.failRename batch status operation error moved message
  | _ => s

end State

/-- What can happen next. -/
inductive Event
  | setValue (value : JsString)
  | discard
  | save
  | reload
  | rename (oldPath newPath : JsString) (batch : Bool)
  | look (read : Nat)
  | settleRead (read : Nat) (failure : Option JsString) (readonly : Bool)
  | continueLoad (load : Nat)
  | startMutation
  | writeDisk
  | finishWrite (failure : Option JsString)
  | moveDisk
  | finishMutate (answer : MutateAnswer)
deriving DecidableEq, Repr

/-- One event. -/
def step (s : State) : Event → State
  | .setValue value => s.type value
  | .discard => s.discard
  | .save => s.save
  | .reload => s.reload
  | .rename oldPath newPath batch => { s with queue := s.queue ++ [.rename oldPath newPath batch] }
  | .look read => s.look read
  | .settleRead read failure readonly => s.settleRead read failure readonly
  | .continueLoad load => s.continueLoad load
  | .startMutation => s.startMutation
  | .writeDisk => s.writeDisk
  | .finishWrite failure => s.finishWrite failure
  | .moveDisk => s.moveDisk
  | .finishMutate answer => s.finishMutate answer

/-- The constructor of a runtime: it loads its path. -/
def opened (disk : JsString → JsString) (path : JsString) : State :=
  ({ disk, path } : State).load path false false

/-- The state after a list of events. -/
def run (disk : JsString → JsString) (path : JsString) (events : List Event) : State :=
  Runs.run step (opened disk path) events

end FileRuntime

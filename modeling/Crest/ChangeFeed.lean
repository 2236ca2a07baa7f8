import Crest.Runs
import Crest.Utf8
import Crest.WorkspacePath

/-!
# The change feed of a workspace

A watcher reports what changes below the workspace.  The feed gathers the reported paths,
and a drain takes them: it is either complete, or it says why it is not.  The fast capture
looks at the paths of a complete drain only.

`start`, `drain` and `dispose` go through a queue, one after the other; `start` waits for
the old subscription to end and for the new one to begin, and the watcher may call back at
any time, for the new subscription or still for an old one.  A subscription is known by the
feed's generation at its request.
-/

namespace WorkspaceChangeFeed

open JsString
open Workspace (isAbsolute splitPath validateWorkspaceRelativePath)

/-! ## Paths of the operating system -/

/-- One segment of the loop of `normalize`. -/
def normalizeSegment (allowAboveRoot : Bool) (resolved : List JsString) (segment : JsString) :
    List JsString :=
  if segment = [] || segment = js "." then resolved
  else if segment = js ".." then
    if resolved = [] || resolved.getLast? = some (js "..") then
      if allowAboveRoot then resolved ++ [segment] else resolved
    else resolved.dropLast
  else resolved ++ [segment]

/-- The segments that `normalize` keeps of a path. -/
def normalizeSegments (path : JsString) : List JsString :=
  (splitPath path).foldl (normalizeSegment !(isAbsolute path)) []

/-- `segments.join("/")`. -/
def joinPath (segments : List JsString) : JsString := List.intercalate [0x2F] segments

/-- `normalize(path)` on a POSIX system. -/
def normalize (path : JsString) : JsString :=
  if path = [] then js "."
  else
    let trailing : JsString := if path.getLast? = some 0x2F then [0x2F] else []
    let resolved := joinPath (normalizeSegments path)
    if resolved = [] then
      if isAbsolute path then [0x2F] else if trailing = [] then js "." else js "./"
    else if isAbsolute path then [0x2F] ++ resolved ++ trailing
    else resolved ++ trailing

/-- What is left of two lists behind the elements that they begin with together. -/
def behindCommon : List JsString → List JsString → List JsString × List JsString
  | a :: as, b :: bs => if a = b then behindCommon as bs else (a :: as, b :: bs)
  | as, bs => (as, bs)

/-- `relative(from, to)` of two absolute paths on a POSIX system. -/
def relative (start target : JsString) : JsString :=
  if start = target then []
  else
    let (up, down) := behindCommon (normalizeSegments start) (normalizeSegments target)
    joinPath (up.map (fun _ => js "..") ++ down)

/-! ## Events -/

inductive EventType where
  | create
  | update
  | delete
deriving DecidableEq

/-- An event of the watcher. -/
structure WorkspaceChangeEvent where
  path : JsString
  type : EventType
deriving DecidableEq

/-- `normalizeEventPath`: the path below the workspace, none where the code throws. -/
def normalizeEventPath (workspaceRoot input : JsString) : Option JsString :=
  if input = [] || fromUtf8 (utf8 input) ≠ input || normalize input ≠ input then none
  else if isAbsolute input then
    let path := relative workspaceRoot input
    if path = [] || path = js ".." || (js "../").isPrefixOf path || isAbsolute path then none
    else if validateWorkspaceRelativePath path then some path else none
  else if validateWorkspaceRelativePath input then some input else none

/-- Whether a path is that of the repository's own directory, or below it. -/
def isGitPath (path : JsString) : Bool := path = js ".git" || (js ".git/").isPrefixOf path

/-! ## The feed -/

/-- Why a drain is not complete. -/
inductive UnavailableReason where
  | notStarted
  | watcherError
  | unsafePath
  | overflow
  | disposed
deriving DecidableEq

/-- The answer of a drain. -/
inductive Drain where
  | complete (changedPaths : List JsString)
  | unavailable (reason : UnavailableReason)
deriving DecidableEq

/-- The options of a feed, as its constructor tests them. -/
structure Options where
  workspaceRoot : JsString
  callbackPathCapacity : Nat
  absolute : isAbsolute workspaceRoot = true
  canonical : normalize workspaceRoot = workspaceRoot
  positive : 1 ≤ callbackPathCapacity

/-- An operation in the queue. -/
inductive Transition where
  | start
  | drain
  | dispose
deriving DecidableEq

/-- What the operation that is under way waits for. -/
inductive Waiting where
  /-- `start` of a generation: that the previous subscription has ended. -/
  | unsubscribing (previous : Option Nat) (generation : Nat)
  /-- `start` of a generation: that the watcher has subscribed. -/
  | subscribing (generation : Nat)
  /-- `start`, disposed of on its way: that its own subscription has ended. -/
  | givingUp
  /-- `dispose`: that the subscription has ended. -/
  | disposing
deriving DecidableEq

/-- What an observer of the feed and its watcher notes. -/
inductive Happening where
  /-- The feed asks the watcher for a subscription. -/
  | requested (generation : Nat)
  /-- `start` has succeeded. -/
  | started (generation : Nat)
  /-- The watcher calls back for a subscription. -/
  | delivered (generation : Nat) (error : Bool) (events : List WorkspaceChangeEvent)
  /-- A drain has answered. -/
  | drained (answer : Drain)
deriving DecidableEq

/-- The state of a feed, and history: what has happened, the newest first. -/
structure FeedState where
  callbackPaths : List JsString
  generation : Nat
  queue : List Transition
  waiting : Option Waiting
  subscription : Option Nat
  gapReason : Option UnavailableReason
  disposed : Bool
  started : Bool
  trusted : Bool
  history : List Happening

def FeedState.initial : FeedState where
  callbackPaths := []
  generation := 0
  queue := []
  waiting := none
  subscription := none
  gapReason := none
  disposed := false
  started := false
  trusted := false
  history := []

/-- What calls the feed or answers it. -/
inductive Event where
  | start
  | drain
  | dispose
  /-- The next operation of the queue begins. -/
  | begin
  /-- What the operation under way waits for has come, or has failed. -/
  | settle (ok : Bool)
  /-- The watcher calls back for the subscription of a generation. -/
  | callback (generation : Nat) (error : Bool) (events : List WorkspaceChangeEvent)
deriving DecidableEq

namespace FeedState

def loseTrust (s : FeedState) (reason : UnavailableReason) : FeedState :=
  { s with trusted := false, gapReason := some reason, callbackPaths := [] }

/-- The loop of `addEvents`. -/
def addEach (o : Options) : List WorkspaceChangeEvent → FeedState → FeedState
  | [], s => s
  | event :: rest, s =>
    if event.path = o.workspaceRoot ∧ event.type ≠ .delete then addEach o rest s
    else
      match normalizeEventPath o.workspaceRoot event.path with
      | none => s.loseTrust .unsafePath
      | some path =>
        if isGitPath path then addEach o rest s
        else if path ∈ s.callbackPaths then addEach o rest s
        else if o.callbackPathCapacity ≤ s.callbackPaths.length then s.loseTrust .overflow
        else addEach o rest { s with callbackPaths := s.callbackPaths ++ [path] }

def addEvents (o : Options) (events : List WorkspaceChangeEvent) (s : FeedState) : FeedState :=
  if s.trusted = false ∧ s.started = true then s else addEach o events s

/-- The watcher's callback of a generation. -/
def callback (o : Options) (generation : Nat) (error : Bool)
    (events : List WorkspaceChangeEvent) (s : FeedState) : FeedState :=
  if s.disposed = true ∨ generation ≠ s.generation then s
  else if error then s.loseTrust .watcherError
  else s.addEvents o events

/-- What `drainState` answers. -/
def answer (s : FeedState) : Drain :=
  if s.disposed then .unavailable .disposed
  else if s.started = false then .unavailable .notStarted
  else if s.trusted = false then .unavailable (s.gapReason.getD .watcherError)
  else .complete (s.callbackPaths.insertionSort fun left right => utf8 left ≤ utf8 right)

def drainState (s : FeedState) : FeedState :=
  { s with
    callbackPaths := match s.answer with
      | .complete _ => []
      | .unavailable _ => s.callbackPaths
    history := .drained s.answer :: s.history }

/-- `startState`, up to its first wait. -/
def startState (s : FeedState) : FeedState :=
  if s.disposed then s
  else
    { s with
      generation := s.generation + 1
      started := false
      trusted := false
      gapReason := none
      callbackPaths := []
      subscription := none
      waiting := some (.unsubscribing s.subscription (s.generation + 1)) }

/-- `disposeState`, up to its wait. -/
def disposeState (s : FeedState) : FeedState :=
  { s with subscription := none, callbackPaths := [], waiting := some .disposing }

/-- The next operation of the queue begins when the one before it has ended. -/
def begin (s : FeedState) : FeedState :=
  if s.waiting.isSome then s
  else
    match s.queue with
    | [] => s
    | .start :: rest => { s with queue := rest }.startState
    | .drain :: rest => { s with queue := rest }.drainState
    | .dispose :: rest => { s with queue := rest }.disposeState

/-- The operation under way goes on behind its wait, or ends there. -/
def settle (ok : Bool) (s : FeedState) : FeedState :=
  match s.waiting with
  | none => s
  | some (.unsubscribing previous generation) =>
    if (ok = false ∧ previous.isSome = true) ∨ s.disposed = true ∨ generation ≠ s.generation then
      { s with waiting := none }
    else
      { s with
        waiting := some (.subscribing generation)
        history := .requested generation :: s.history }
  | some (.subscribing generation) =>
    if ok = false then
      { s with started := true, waiting := none }.loseTrust .watcherError
    else if s.disposed = true ∨ generation ≠ s.generation then
      { s with waiting := some .givingUp }
    else
      { s with
        subscription := some generation
        started := true
        trusted := s.gapReason.isNone
        waiting := none
        history := .started generation :: s.history }
  | some .givingUp => { s with waiting := none }
  | some .disposing => { s with waiting := none }

/-- `dispose` up to the queue; it is queued once. -/
def dispose (s : FeedState) : FeedState :=
  if s.disposed then s
  else
    { s with
      disposed := true
      trusted := false
      generation := s.generation + 1
      queue := s.queue ++ [.dispose] }

/-- One step of the feed and its surroundings.  The watcher calls back only for
subscriptions that were requested. -/
def step (o : Options) (s : FeedState) : Event → FeedState
  | .start => { s with queue := s.queue ++ [.start] }
  | .drain => { s with queue := s.queue ++ [.drain] }
  | .dispose => s.dispose
  | .begin => s.begin
  | .settle ok => s.settle ok
  | .callback generation error events =>
    if .requested generation ∈ s.history then
      { s with history := .delivered generation error events :: s.history }.callback o
        generation error events
    else s

end FeedState

end WorkspaceChangeFeed

import Crest.TopTabPath

/-!
# The content state of a workspace

A workspace shows the agent, a terminal or one of its tabs on top.  The backend stores which,
with the tabs and the one that was active last, and normalizes what it is asked to store.  The
frontend hydrates what is stored, changes it by actions, and serializes it to be stored again.
Both drop tabs that are not valid, and of two tabs with one id or one identity the later one.

What is stored is text: the backend sees its bytes, the frontend its UTF-16 units.  On the way
from the backend to the frontend an empty field is left out, and on the way back a field that
is left out is empty.
-/

namespace ContentState

open CodeUnit Encoding TopTabPath

/-- A word in ASCII, as units. -/
def word {α : Type} [CodeUnit α] (s : String) : List α := s.toList.map fun c => ascii c.toNat

/-- `TopTabDescriptor`, with strings of any kind. -/
structure TopTabDescriptor (S : Type) where
  id : S
  kind : S
  path : S
  title : S
  repoRoot : S
  mode : S
  originalPath : S
  sessionId : S
  sessionCreatedAt : S
  sessionCwd : S
  sessionPath : S
  turnId : S
deriving DecidableEq, Repr

structure ActiveContent (S : Type) where
  kind : S
  terminalTabId : S
  topTabId : S
deriving DecidableEq, Repr

/-- `WorkspaceContentState` of the backend. -/
structure StoredContentState (S : Type) where
  activeContent : ActiveContent S
  topTabs : List (TopTabDescriptor S)
  lastActiveTopTabId : S
deriving DecidableEq, Repr

section Map

variable {S T : Type} (f : S → T)

def TopTabDescriptor.map (d : TopTabDescriptor S) : TopTabDescriptor T where
  id := f d.id
  kind := f d.kind
  path := f d.path
  title := f d.title
  repoRoot := f d.repoRoot
  mode := f d.mode
  originalPath := f d.originalPath
  sessionId := f d.sessionId
  sessionCreatedAt := f d.sessionCreatedAt
  sessionCwd := f d.sessionCwd
  sessionPath := f d.sessionPath
  turnId := f d.turnId

def ActiveContent.map (a : ActiveContent S) : ActiveContent T where
  kind := f a.kind
  terminalTabId := f a.terminalTabId
  topTabId := f a.topTabId

def StoredContentState.map (state : StoredContentState S) : StoredContentState T where
  activeContent := state.activeContent.map f
  topTabs := state.topTabs.map (·.map f)
  lastActiveTopTabId := f state.lastActiveTopTabId

end Map

section FirstOfEach

variable {δ β ι κ : Type} [DecidableEq ι] [DecidableEq κ]

/-- The loop of both sides over the descriptors: one that is not valid is dropped, and one
whose id or identity has occurred before. -/
def firstOfEach (entry : δ → Option β) (id : β → ι) (identity : β → κ)
    (validIds : List ι) (validIdentities : List κ) : List δ → List β
  | [] => []
  | d :: rest =>
    match entry d with
    | none => firstOfEach entry id identity validIds validIdentities rest
    | some tab =>
      if id tab ∈ validIds ∨ identity tab ∈ validIdentities then
        firstOfEach entry id identity validIds validIdentities rest
      else
        tab :: firstOfEach entry id identity (id tab :: validIds)
          (identity tab :: validIdentities) rest

end FirstOfEach

namespace Backend

/-- A string of the backend. -/
abbrev Bytes := List UInt8

def isValidTopTabDescriptor (d : TopTabDescriptor Bytes) : Bool :=
  if d.id = [] then false
  else if d.kind = word "file" ∨ d.kind = word "preview" then isAbsoluteTopTabPath d.path
  else if d.kind = word "git-diff" then
    decide (d.repoRoot ≠ [] ∧ d.path ≠ [] ∧ (d.mode = word "+" ∨ d.mode = word "-"))
  else if d.kind = word "agent-turn-diff" then
    decide (d.sessionId ≠ []) && decide (d.sessionCreatedAt ≠ []) &&
      isCanonicalAbsoluteTopTabPath d.sessionCwd &&
      isCanonicalAbsoluteTopTabPath d.sessionPath && decide (d.turnId ≠ []) &&
      isCanonicalCheckpointTopTabPath d.path
  else false

def topTabIdentityKey (d : TopTabDescriptor Bytes) : Bytes :=
  if d.kind = word "file" then tupleIdentityKey [word "file", topTabPathIdentity d.path]
  else if d.kind = word "preview" then
    tupleIdentityKey [word "preview", topTabPathIdentity d.path]
  else if d.kind = word "git-diff" then
    tupleIdentityKey [word "git-diff", topTabPathIdentity d.repoRoot,
      topTabPathIdentity d.path, d.mode, topTabPathIdentity d.originalPath]
  else if d.kind = word "agent-turn-diff" then
    tupleIdentityKey [word "agent-turn-diff", topTabPathIdentity d.sessionPath, d.sessionId,
      d.sessionCreatedAt, d.turnId, topTabPathIdentity d.path]
  else []

/-- The descriptor, if it is valid. -/
def validTopTab (d : TopTabDescriptor Bytes) : Option (TopTabDescriptor Bytes) :=
  if isValidTopTabDescriptor d then some d else none

/-- The descriptors that are kept. -/
def normalizeTopTabs (topTabs : List (TopTabDescriptor Bytes)) : List (TopTabDescriptor Bytes) :=
  firstOfEach validTopTab TopTabDescriptor.id topTabIdentityKey [] [] topTabs

section ActiveContent

variable {α : Type} [CodeUnit α] [DecidableEq α]

def fallbackActiveContent (lastActiveTopTabId terminalId : List α) : ActiveContent (List α) :=
  if lastActiveTopTabId ≠ [] then
    { kind := word "top-tab", terminalTabId := [], topTabId := lastActiveTopTabId }
  else if terminalId ≠ [] then
    { kind := word "terminal", terminalTabId := terminalId, topTabId := [] }
  else { kind := word "agent", terminalTabId := [], topTabId := [] }

/-- The active content, for the last active tab and the ids of the tabs that are kept. -/
def normalizeActiveContent (active : ActiveContent (List α))
    (lastActiveTopTabId terminalId : List α) (validTopTabIds : List (List α)) :
    ActiveContent (List α) :=
  if active.kind = word "agent" then
    { kind := word "agent", terminalTabId := [], topTabId := [] }
  else if active.kind = word "terminal" then
    if active.terminalTabId = terminalId ∧ terminalId ≠ [] then
      { kind := word "terminal", terminalTabId := terminalId, topTabId := [] }
    else fallbackActiveContent lastActiveTopTabId terminalId
  else if active.kind = word "top-tab" then
    if active.topTabId ∈ validTopTabIds then
      { kind := word "top-tab", terminalTabId := [], topTabId := active.topTabId }
    else fallbackActiveContent lastActiveTopTabId terminalId
  else fallbackActiveContent lastActiveTopTabId terminalId

end ActiveContent

end Backend

/-- The id of a tab that was active last, if the tab is kept. -/
def keptLast {α : Type} [DecidableEq α] (topTabIds : List (List α))
    (lastActiveTopTabId : List α) : List α :=
  if lastActiveTopTabId ∈ topTabIds then lastActiveTopTabId else []

namespace Backend

def normalizeWorkspaceContentState (state : StoredContentState Bytes) (terminalId : Bytes) :
    StoredContentState Bytes :=
  let topTabs := normalizeTopTabs state.topTabs
  let validTopTabIds := topTabs.map TopTabDescriptor.id
  let lastActiveTopTabId :=
    if state.lastActiveTopTabId ∈ validTopTabIds then state.lastActiveTopTabId else []
  let activeContent :=
    normalizeActiveContent state.activeContent lastActiveTopTabId terminalId validTopTabIds
  { activeContent := activeContent
    topTabs := topTabs
    lastActiveTopTabId :=
      if activeContent.kind = word "top-tab" then activeContent.topTabId else lastActiveTopTabId }

end Backend

namespace Frontend

/-- `PersistedTopTab`: what the frontend is sent of a descriptor. -/
structure PersistedTopTab where
  id : JsString
  kind : JsString
  title : JsString
  path : Option JsString := none
  repoRoot : Option JsString := none
  mode : Option JsString := none
  originalPath : Option JsString := none
  sessionId : Option JsString := none
  sessionCreatedAt : Option JsString := none
  sessionCwd : Option JsString := none
  sessionPath : Option JsString := none
  turnId : Option JsString := none
deriving DecidableEq, Repr

structure PersistedActiveContent where
  kind : JsString
  terminalTabId : Option JsString := none
  topTabId : Option JsString := none
deriving DecidableEq, Repr

structure PersistedWorkspaceContentState where
  activeContent : PersistedActiveContent
  topTabs : List PersistedTopTab
  lastActiveTopTabId : Option JsString := none
deriving DecidableEq, Repr

/-- `ActiveContent` of the frontend. -/
inductive ActiveContent
  | agent
  | terminal (terminalTabId : JsString)
  | topTab (topTabId : JsString)
deriving DecidableEq, Repr

/-- `activeContent.kind === "top-tab" ? activeContent.topTabId : ""`. -/
def ActiveContent.shownTopTabId : ActiveContent → JsString
  | .topTab topTabId => topTabId
  | .agent | .terminal _ => []

inductive TopTab
  | file (id path title : JsString)
  | preview (id path title : JsString)
  | gitDiff (id repoRoot path mode originalPath title : JsString)
  | agentTurnDiff (id sessionId sessionCreatedAt sessionCwd sessionPath turnId path
      title : JsString)
deriving DecidableEq, Repr

namespace TopTab

/-- The id of a tab. -/
def id : TopTab → JsString
  | .file id .. | .preview id .. | .gitDiff id .. | .agentTurnDiff id .. => id

end TopTab

/-- `WorkspaceContentState` of the frontend. -/
structure WorkspaceContentState where
  activeContent : ActiveContent
  topTabs : List TopTab
  lastActiveTopTabId : JsString
deriving DecidableEq, Repr

def topTabIdentityKey : TopTab → JsString
  | .file _ path _ => tupleIdentityKey [word "file", pathIdentityKey path]
  | .preview _ path _ => tupleIdentityKey [word "preview", pathIdentityKey path]
  | .gitDiff _ repoRoot path mode originalPath _ =>
    tupleIdentityKey [word "git-diff", pathIdentityKey repoRoot, pathIdentityKey path, mode,
      pathIdentityKey originalPath]
  | .agentTurnDiff _ sessionId sessionCreatedAt _ sessionPath turnId path _ =>
    tupleIdentityKey [word "agent-turn-diff", pathIdentityKey sessionPath, sessionId,
      sessionCreatedAt, turnId, pathIdentityKey path]

def isValidTopTab (tab : TopTab) : Bool :=
  decide (tab.id ≠ []) &&
    match tab with
    | .file _ path _ | .preview _ path _ => isAbsoluteLocalPath path
    | .gitDiff _ repoRoot path mode _ _ =>
      decide (repoRoot ≠ [] ∧ path ≠ [] ∧ (mode = word "+" ∨ mode = word "-"))
    | .agentTurnDiff _ sessionId sessionCreatedAt sessionCwd sessionPath turnId path _ =>
      decide (sessionId ≠ []) && decide (sessionCreatedAt ≠ []) &&
        isCanonicalAbsoluteLocalPath sessionCwd && isCanonicalAbsoluteLocalPath sessionPath &&
        decide (turnId ≠ []) && isCanonicalCheckpointPath path

/-- The tab that a descriptor is about; a field that was left out fails the checks as the
empty text does. -/
def readTopTab (tab : PersistedTopTab) : Option TopTab :=
  let text : Option JsString → JsString := fun field => field.getD []
  if tab.kind = word "file" then some (.file tab.id (text tab.path) tab.title)
  else if tab.kind = word "preview" then some (.preview tab.id (text tab.path) tab.title)
  else if tab.kind = word "git-diff" then
    some (.gitDiff tab.id (text tab.repoRoot) (text tab.path) (text tab.mode)
      (text tab.originalPath) tab.title)
  else if tab.kind = word "agent-turn-diff" then
    some (.agentTurnDiff tab.id (text tab.sessionId) (text tab.sessionCreatedAt)
      (text tab.sessionCwd) (text tab.sessionPath) (text tab.turnId) (text tab.path) tab.title)
  else none

/-- `fromPersistedTopTab`; it makes the checks of `isValidTopTab`. -/
def fromPersistedTopTab (tab : PersistedTopTab) : Option TopTab :=
  (readTopTab tab).filter isValidTopTab

def normalizePersistedTopTabs (topTabs : List PersistedTopTab) : List TopTab :=
  firstOfEach fromPersistedTopTab TopTab.id topTabIdentityKey [] [] topTabs

def hasTopTab (topTabs : List TopTab) (topTabId : JsString) : Bool :=
  decide (topTabId ≠ []) && topTabs.any fun tab => tab.id = topTabId

def resolveActiveContentFromTopTabs (active : PersistedActiveContent)
    (lastActiveTopTabId : Option JsString) (topTabs : List TopTab)
    (activeTerminalTabId : JsString) : ActiveContent :=
  if active.kind = word "agent" then .agent
  else if active.kind = word "terminal" ∧ active.terminalTabId.getD [] ≠ [] ∧
      active.terminalTabId.getD [] = activeTerminalTabId then
    .terminal (active.terminalTabId.getD [])
  else if active.kind = word "top-tab" ∧ hasTopTab topTabs (active.topTabId.getD []) then
    .topTab (active.topTabId.getD [])
  else if hasTopTab topTabs (lastActiveTopTabId.getD []) then
    .topTab (lastActiveTopTabId.getD [])
  else if activeTerminalTabId ≠ [] then .terminal activeTerminalTabId
  else .agent

def hydrateWorkspaceContentState (snapshot : PersistedWorkspaceContentState)
    (activeTerminalTabId : JsString) : WorkspaceContentState :=
  let topTabs := normalizePersistedTopTabs snapshot.topTabs
  let activeContent :=
    resolveActiveContentFromTopTabs snapshot.activeContent snapshot.lastActiveTopTabId topTabs
      activeTerminalTabId
  { activeContent := activeContent
    topTabs := topTabs
    lastActiveTopTabId :=
      if hasTopTab topTabs (snapshot.lastActiveTopTabId.getD []) then
        snapshot.lastActiveTopTabId.getD []
      else activeContent.shownTopTabId }

def serializeActiveContent : ActiveContent → PersistedActiveContent
  | .agent => { kind := word "agent" }
  | .terminal terminalTabId => { kind := word "terminal", terminalTabId := some terminalTabId }
  | .topTab topTabId => { kind := word "top-tab", topTabId := some topTabId }

def serializeTopTab : TopTab → PersistedTopTab
  | .file id path title => { id, kind := word "file", title, path := some path }
  | .preview id path title => { id, kind := word "preview", title, path := some path }
  | .gitDiff id repoRoot path mode originalPath title =>
    { id, kind := word "git-diff", title, path := some path, repoRoot := some repoRoot,
      mode := some mode, originalPath := some originalPath }
  | .agentTurnDiff id sessionId sessionCreatedAt sessionCwd sessionPath turnId path title =>
    { id, kind := word "agent-turn-diff", title, path := some path,
      sessionId := some sessionId, sessionCreatedAt := some sessionCreatedAt,
      sessionCwd := some sessionCwd, sessionPath := some sessionPath, turnId := some turnId }

def serializeContentState (state : WorkspaceContentState) : PersistedWorkspaceContentState where
  activeContent := serializeActiveContent state.activeContent
  topTabs := state.topTabs.map serializeTopTab
  lastActiveTopTabId := some state.lastActiveTopTabId

/-- The kinds of tabs that are updated. -/
inductive UpdatesKind
  | file
  | preview
  | gitDiff
deriving DecidableEq, Repr

/-- `TopTabUpdates`, with the fields an update has. -/
structure TopTabUpdates where
  kind : UpdatesKind
  title : Option JsString := none
  path : Option JsString := none
  repoRoot : Option JsString := none
  mode : Option JsString := none
  originalPath : Option JsString := none
deriving DecidableEq, Repr

/-- `hasOnlyKeys` for an update of a file or a preview. -/
def TopTabUpdates.onlyTitleAndPath (updates : TopTabUpdates) : Bool :=
  updates.repoRoot.isNone && updates.mode.isNone && updates.originalPath.isNone

/-- `WorkspaceContentAction`; a target index that is no integer is `none`. -/
inductive WorkspaceContentAction
  | activateAgent
  | activateTerminal (terminalTabId : JsString)
  | activateTopTab (topTabId : JsString)
  | openTopTab (tab : TopTab)
  | closeTopTab (topTabId : JsString) (activeTerminalTabId : Option JsString)
  | reorderTopTab (topTabId : JsString) (targetIndex : Option Int)
  | updateTopTab (topTabId : JsString) (updates : TopTabUpdates)
deriving DecidableEq, Repr

def findOpenTopTab (topTabs : List TopTab) (candidate : TopTab) : Option TopTab :=
  (topTabs.find? fun tab => tab.id = candidate.id).or
    (topTabs.find? fun tab => topTabIdentityKey tab = topTabIdentityKey candidate)

/-- `updateTopTab`, before its last check. -/
def mergeUpdates (tab : TopTab) (updates : TopTabUpdates) : Option TopTab :=
  match tab with
  | .file id path title =>
    if updates.kind = .file ∧ updates.onlyTitleAndPath then
      some (.file id (updates.path.getD path) (updates.title.getD title))
    else none
  | .preview id path title =>
    if updates.kind = .preview ∧ updates.onlyTitleAndPath then
      some (.preview id (updates.path.getD path) (updates.title.getD title))
    else none
  | .gitDiff id repoRoot path mode originalPath title =>
    if updates.kind = .gitDiff ∧ updates.mode.all fun mode => mode = word "+" ∨ mode = word "-"
    then
      some (.gitDiff id (updates.repoRoot.getD repoRoot) (updates.path.getD path)
        (updates.mode.getD mode) (updates.originalPath.getD originalPath)
        (updates.title.getD title))
    else none
  | .agentTurnDiff .. => none

def updateTopTab (tab : TopTab) (updates : TopTabUpdates) : Option TopTab :=
  (mergeUpdates tab updates).filter isValidTopTab

def fallbackAfterClose (remainingTabs : List TopTab) (closedIndex : Nat)
    (activeTerminalTabId : JsString) : ActiveContent :=
  match remainingTabs[min closedIndex (remainingTabs.length - 1)]? with
  | some adjacent => .topTab adjacent.id
  | none =>
    if activeTerminalTabId ≠ [] then .terminal activeTerminalTabId else .agent

/-- The tabs with one of them moved to a place. -/
def moveTopTab (topTabs : List TopTab) (currentIndex : Nat) (targetIndex : Int) : List TopTab :=
  match topTabs[currentIndex]? with
  | none => topTabs
  | some tab =>
    let others := topTabs.eraseIdx currentIndex
    others.insertIdx (max 0 (min targetIndex others.length)).toNat tab

def reduceWorkspaceContent (state : WorkspaceContentState) :
    WorkspaceContentAction → WorkspaceContentState
  | .activateAgent => { state with activeContent := .agent }
  | .activateTerminal terminalTabId =>
    if terminalTabId = [] then state
    else { state with activeContent := .terminal terminalTabId }
  | .activateTopTab topTabId =>
    if hasTopTab state.topTabs topTabId then
      { state with activeContent := .topTab topTabId, lastActiveTopTabId := topTabId }
    else state
  | .openTopTab tab =>
    if isValidTopTab tab then
      match findOpenTopTab state.topTabs tab with
      | some existing =>
        { state with
          activeContent := .topTab existing.id
          lastActiveTopTabId := existing.id }
      | none =>
        { activeContent := .topTab tab.id
          topTabs := state.topTabs ++ [tab]
          lastActiveTopTabId := tab.id }
    else state
  | .closeTopTab topTabId activeTerminalTabId =>
    match state.topTabs.findIdx? fun tab => tab.id = topTabId with
    | none => state
    | some closedIndex =>
      let topTabs := state.topTabs.eraseIdx closedIndex
      let activeContent :=
        if state.activeContent = .topTab topTabId then
          fallbackAfterClose topTabs closedIndex (activeTerminalTabId.getD [])
        else state.activeContent
      { activeContent := activeContent
        topTabs := topTabs
        lastActiveTopTabId :=
          if state.lastActiveTopTabId = topTabId then activeContent.shownTopTabId
          else state.lastActiveTopTabId }
  | .reorderTopTab topTabId targetIndex =>
    match state.topTabs.findIdx? fun tab => tab.id = topTabId, targetIndex with
    | some currentIndex, some target =>
      { state with topTabs := moveTopTab state.topTabs currentIndex target }
    | _, _ => state
  | .updateTopTab topTabId updates =>
    match state.topTabs.findIdx? fun tab => tab.id = topTabId with
    | none => state
    | some currentIndex =>
      match state.topTabs[currentIndex]?.bind fun tab => updateTopTab tab updates with
      | none => state
      | some updated =>
        if (state.topTabs.eraseIdx currentIndex).any fun tab =>
            topTabIdentityKey tab = topTabIdentityKey updated then state
        else { state with topTabs := state.topTabs.set currentIndex updated }

end Frontend

/-- What a field is on the way to the frontend: nothing, when it is empty. -/
def omitEmpty (field : JsString) : Option JsString := if field = [] then none else some field

/-- What the frontend is sent of a descriptor. -/
def persistedTopTab (d : TopTabDescriptor JsString) : Frontend.PersistedTopTab where
  id := d.id
  kind := d.kind
  title := d.title
  path := omitEmpty d.path
  repoRoot := omitEmpty d.repoRoot
  mode := omitEmpty d.mode
  originalPath := omitEmpty d.originalPath
  sessionId := omitEmpty d.sessionId
  sessionCreatedAt := omitEmpty d.sessionCreatedAt
  sessionCwd := omitEmpty d.sessionCwd
  sessionPath := omitEmpty d.sessionPath
  turnId := omitEmpty d.turnId

/-- What the frontend is sent of a stored state. -/
def persisted (state : StoredContentState JsString) : Frontend.PersistedWorkspaceContentState where
  activeContent :=
    { kind := state.activeContent.kind
      terminalTabId := omitEmpty state.activeContent.terminalTabId
      topTabId := omitEmpty state.activeContent.topTabId }
  topTabs := state.topTabs.map persistedTopTab
  lastActiveTopTabId := omitEmpty state.lastActiveTopTabId

/-- What the backend receives of a serialized tab. -/
def receivedTopTab (tab : Frontend.PersistedTopTab) : TopTabDescriptor JsString where
  id := tab.id
  kind := tab.kind
  path := tab.path.getD []
  title := tab.title
  repoRoot := tab.repoRoot.getD []
  mode := tab.mode.getD []
  originalPath := tab.originalPath.getD []
  sessionId := tab.sessionId.getD []
  sessionCreatedAt := tab.sessionCreatedAt.getD []
  sessionCwd := tab.sessionCwd.getD []
  sessionPath := tab.sessionPath.getD []
  turnId := tab.turnId.getD []

/-- What the backend receives of a serialized state. -/
def received (state : Frontend.PersistedWorkspaceContentState) : StoredContentState JsString where
  activeContent :=
    { kind := state.activeContent.kind
      terminalTabId := state.activeContent.terminalTabId.getD []
      topTabId := state.activeContent.topTabId.getD [] }
  topTabs := state.topTabs.map receivedTopTab
  lastActiveTopTabId := state.lastActiveTopTabId.getD []

/-- A text, as it is stored. -/
abbrev Text := List Char

/-- What the frontend is sent of a stored text. -/
def sent (state : StoredContentState Text) : Frontend.PersistedWorkspaceContentState :=
  persisted (state.map utf16.text)

/-- What the frontend is sent of a stored descriptor. -/
def sentTopTab (d : TopTabDescriptor Text) : Frontend.PersistedTopTab :=
  persistedTopTab (d.map utf16.text)

end ContentState

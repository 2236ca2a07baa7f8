import Crest.Utf8
import Crest.WorkspacePath

/-!
# Foreign changes of a workspace

Every change of a workspace is a commit whose parent is the change before it.  Before a session
takes back its own changes, the log is followed from the head back to the commit before them:
what others have changed in between at the same paths is in the way.

Git is a finite set of commits that the code reads; a commit it cannot read is an error.
-/

namespace Workspace

open JsString

namespace MutationLog

inductive WorkspaceMutationKind
  | external
  | agentTurn
  | turnUndo
  | turnRedo
  | rewind
  | redo
deriving DecidableEq, Repr

/-- `WorkspaceMutationMetadataV1`, as far as the log looks at it. -/
structure WorkspaceMutationMetadata where
  kind : WorkspaceMutationKind
  sessionid : Option JsString := none
deriving DecidableEq, Repr

structure ValidatedWorkspaceMutation where
  parent : Option JsString
  metadata : WorkspaceMutationMetadata
deriving DecidableEq, Repr

structure ForeignOverlapInput where
  afterCommit : JsString
  head : Option JsString := none
  paths : List JsString
  includedCommits : List JsString
  ownerSessionId : JsString
deriving DecidableEq, Repr

structure ForeignOverlap where
  commit : JsString
  path : JsString
  sessionId : Option JsString
deriving DecidableEq, Repr

/-- What the code reads of Git: finitely many commits with what `git diff-tree` prints of them,
and the head of the workspace before and after. -/
structure Repository where
  commits : List JsString
  read : JsString → Except JsString ValidatedWorkspaceMutation
  diffTree : JsString → Except JsString (List UInt8)
  head : Except JsString (Option JsString)
  headAfter : Except JsString (Option JsString)
  mem_commits : ∀ commit mutation, read commit = .ok mutation → commit ∈ commits

section Code

/-- `validateSha1`: `true` where the code does not throw. -/
def validateSha1 (value : JsString) : Bool :=
  value.length == 40 && value.all fun u => (0x30 ≤ u && u ≤ 0x39) || (0x61 ≤ u && u ≤ 0x66)

def decodeUtf8 (value : List UInt8) (label : String) : Except JsString JsString :=
  let decoded := fromUtf8 value
  if utf8 decoded = value then .ok decoded else .error (js "Invalid UTF-8 " ++ js label)

/-- What `validateWorkspaceRelativePath` throws. -/
def invalidPath (path : JsString) : JsString := js "Invalid workspace-relative path: " ++ path

/-- The loop of `decodePaths` over the bytes: `current` are those since the last zero. -/
def scanPaths (current : List UInt8) (seen : List JsString) :
    List UInt8 → Except JsString (List JsString)
  | [] => .ok seen
  | byte :: rest =>
    if byte ≠ 0 then scanPaths (current ++ [byte]) seen rest
    else if current = [] then .error (js "Invalid Git path output")
    else
      match decodeUtf8 current "workspace-relative path" with
      | .error e => .error e
      | .ok path =>
        if !validateWorkspaceRelativePath path then .error (invalidPath path)
        else if path ∈ seen then
          .error (js "Duplicate workspace-relative path returned by Git")
        else scanPaths [] (seen ++ [path]) rest

def decodePaths (value : List UInt8) : Except JsString (List JsString) :=
  if value = [] then .ok []
  else if value.getLast? ≠ some 0 then .error (js "Invalid Git path output")
  else
    (scanPaths [] [] value).map fun paths =>
      paths.insertionSort fun left right => utf8 left ≤ utf8 right

namespace Repository

variable (log : Repository)

def changedPaths (commit : JsString) : Except JsString (List JsString) :=
  if !validateSha1 commit then .error (js "Invalid SHA-1 object id")
  else
    match log.diffTree commit with
    | .error e => .error e
    | .ok output => decodePaths output

/-- `readHead`, where there has to be a head. -/
def currentHead : Except JsString JsString :=
  match log.head with
  | .error e => .error e
  | .ok none => .error (js "Workspace mutation head is missing")
  | .ok (some head) => .ok head

end Repository

/-- The session of an overlap: none for an external change. -/
def overlapSession (metadata : WorkspaceMutationMetadata) : Option JsString :=
  if metadata.kind = .external then none else metadata.sessionid

/-- The loop over the paths that a foreign commit has changed. -/
def foreignPaths (paths : List JsString) (cursor : JsString)
    (metadata : WorkspaceMutationMetadata) : List JsString → Except JsString (List ForeignOverlap)
  | [] => .ok []
  | path :: rest =>
    if path ∉ paths then foreignPaths paths cursor metadata rest
    else if metadata.kind ≠ .external ∧ metadata.sessionid = none then
      .error (js "Overlapping Crest mutation is missing its owner Session")
    else
      (foreignPaths paths cursor metadata rest).map
        ({ commit := cursor, path := path, sessionId := overlapSession metadata } :: ·)

/-- What a commit adds to the overlaps: nothing, if it is one of the session's own. -/
def inspect (input : ForeignOverlapInput) (cursor : JsString)
    (metadata : WorkspaceMutationMetadata) (changedPaths : List JsString) :
    Except JsString (List ForeignOverlap) :=
  if cursor ∈ input.includedCommits then
    if metadata.kind = .external ∨ metadata.sessionid ≠ some input.ownerSessionId then
      .error (js "Included commit is not owned by the owner Session")
    else .ok []
  else foreignPaths input.paths cursor metadata changedPaths

/-- What the loop reads of a commit: its parent, and what it adds to the overlaps. -/
def visit (log : Repository) (input : ForeignOverlapInput) (cursor : JsString) :
    Except JsString (Option JsString × List ForeignOverlap) :=
  match log.read cursor with
  | .error e => .error e
  | .ok entry =>
    match log.changedPaths cursor with
    | .error e => .error e
    | .ok changedPaths =>
      (inspect input cursor entry.metadata changedPaths).map (entry.parent, ·)

/-- What the loop throws at the first commit of all. -/
def notInChain : JsString :=
  js "The requested mutation boundary is not in the workspace commit chain"

/-- The loop of `findForeignOverlap`, for at most so many commits; it returns the included
commits that were not met, and the overlaps. -/
def walk (log : Repository) (input : ForeignOverlapInput) :
    Nat → JsString → List JsString → List JsString → List ForeignOverlap →
      Option (Except JsString (List JsString × List ForeignOverlap))
  | 0, _, _, _, _ => none
  | fuel + 1, cursor, visited, remaining, overlaps =>
    if cursor = input.afterCommit then some (.ok (remaining, overlaps))
    else if cursor ∈ visited then some (.error (js "Invalid workspace mutation commit chain"))
    else
      match visit log input cursor with
      | .error e => some (.error e)
      | .ok (none, _) => some (.error notInChain)
      | .ok (some parent, found) =>
        walk log input fuel parent (cursor :: visited) (remaining.filter (· ≠ cursor))
          (overlaps ++ found)

/-- The checks before the loop; they return the head to start at. -/
def prepareWalk (log : Repository) (input : ForeignOverlapInput) : Except JsString JsString :=
  if !validateSha1 input.afterCommit then .error (js "Invalid SHA-1 object id")
  else if !input.head.all validateSha1 then .error (js "Invalid SHA-1 object id")
  else if input.ownerSessionId = [] then .error (js "Invalid owner Session id")
  else
    match input.paths.find? fun path => !validateWorkspaceRelativePath path with
    | some path => .error (invalidPath path)
    | none =>
      if !input.includedCommits.all validateSha1 then .error (js "Invalid SHA-1 object id")
      else
        match log.read input.afterCommit, input.head with
        | .error e, _ => .error e
        | .ok _, some head => .ok head
        | .ok _, none => log.currentHead

/-- The checks after the loop. -/
def finishWalk (log : Repository) (input : ForeignOverlapInput) (head : JsString)
    (remaining : List JsString) (overlaps : List ForeignOverlap) :
    Except JsString (List ForeignOverlap) :=
  if remaining ≠ [] then .error (js "Included commit is outside the requested mutation suffix")
  else if input.head.isSome then .ok overlaps
  else
    match log.headAfter with
    | .error e => .error e
    | .ok headAfter =>
      if headAfter ≠ some head then
        .error (js "Workspace mutation head moved during overlap inspection")
      else .ok overlaps

/-- `findForeignOverlap`, for at most so many commits. -/
def findForeignOverlap (log : Repository) (input : ForeignOverlapInput) (fuel : Nat) :
    Option (Except JsString (List ForeignOverlap)) :=
  match prepareWalk log input with
  | .error e => some (.error e)
  | .ok head =>
    (walk log input fuel head [] input.includedCommits []).map fun result =>
      match result with
      | .error e => .error e
      | .ok (remaining, overlaps) => finishWalk log input head remaining overlaps

end Code

end MutationLog

end Workspace

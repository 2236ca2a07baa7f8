import Crest.CapturedPath
import Crest.MutationLog

/-!
# The shadow index

A snapshot is written from an index of its own.  A list of changed paths is applied to the index
in one run of `git update-index`: first the paths that have to go, then the ones that come.  A file
that comes where a directory was, or a directory where a file was, replaces it, so that the paths
to remove are more than the ones that are named.

Git's index is the list of its entries.  Git is given bytes and reads a path from them.
-/

namespace Workspace

open JsString

namespace ShadowIndex

/-- The modes of an entry: `"100644"`, `"100755"` and `"120000"`. -/
inductive IndexMode
  | file
  | executable
  | symlink
deriving DecidableEq, Repr

structure IndexEntry where
  path : JsString
  mode : IndexMode
  oid : JsString
deriving DecidableEq, Repr

/-- A path and its new state, as the callers give them. -/
structure PathState where
  path : JsString
  state : CapturedPathStateV1
deriving DecidableEq, Repr

structure ValidatedMutation where
  path : JsString
  state : CapturedPathStateV1
  addition : Option IndexEntry
deriving DecidableEq, Repr

/-- A line of what `git update-index --index-info` reads; without a mode (`"0"`) the path is
removed. -/
structure IndexLine where
  mode : Option IndexMode
  oid : JsString
  path : List UInt8
deriving DecidableEq, Repr

/-- `ShadowWorkspaceIndex`, with the index that Git keeps for it. -/
structure ShadowWorkspaceIndex where
  loaded : Bool
  index : List IndexEntry
deriving DecidableEq, Repr

section Git

/-- What Git's index holds for a path. -/
def find (index : List IndexEntry) (path : JsString) : Option (IndexMode × JsString) :=
  (index.find? fun entry => entry.path = path).map fun entry => (entry.mode, entry.oid)

/-- `git ls-files --stage -- <paths>`, with literal paths: the entries at or under them. -/
def lsFiles (index : List IndexEntry) (pathspecs : List (List UInt8)) : List IndexEntry :=
  index.filter fun entry => pathspecs.any fun spec =>
    utf8 entry.path == spec || (spec ++ [0x2F]).isPrefixOf (utf8 entry.path)

/-- What `git update-index --index-info` does with one line. -/
def applyLine (index : List IndexEntry) (line : IndexLine) : List IndexEntry :=
  let path := fromUtf8 line.path
  let others := index.filter fun entry => entry.path ≠ path
  match line.mode with
  | none => others
  | some mode => others ++ [⟨path, mode, line.oid⟩]

/-- `git update-index --index-info`. -/
def updateIndex (index : List IndexEntry) (lines : List IndexLine) : List IndexEntry :=
  lines.foldl applyLine index

end Git

section Code

/-- `"0".repeat(40)`. -/
def zeroOid : JsString := List.replicate 40 0x30

/-- The loop `while (parent.includes("/"))`: the paths above a path, from the nearest on. -/
def ancestorsWithin : Nat → JsString → List JsString
  | 0, _ => []
  | fuel + 1, path =>
    if path.contains 0x2F then
      let parent := ((path.reverse.dropWhile (· ≠ 0x2F)).drop 1).reverse
      parent :: ancestorsWithin fuel parent
    else []

/-- The paths above a path; each one is shorter than the one before. -/
def ancestors (path : JsString) : List JsString := ancestorsWithin path.length path

/-- `validateState`; what a state is made of is in its type. -/
def validateState : CapturedPathStateV1 → Except JsString CapturedPathStateV1
  | .absent => .ok .absent
  | .file oid executable =>
    if !MutationLog.validateSha1 oid then .error (js "Invalid Git object id")
    else .ok (.file oid executable)
  | .symlink oid =>
    if !MutationLog.validateSha1 oid then .error (js "Invalid Git object id")
    else .ok (.symlink oid)
  | .excluded reason => .ok (.excluded reason)

def toIndexEntry (path : JsString) : CapturedPathStateV1 → Option IndexEntry
  | .file oid executable => some ⟨path, if executable then .executable else .file, oid⟩
  | .symlink oid => some ⟨path, .symlink, oid⟩
  | _ => none

/-- The loop of `validateMutations` over the states; `seen` are the paths before. -/
def readMutations (seen : List JsString) :
    List PathState → Except JsString (List ValidatedMutation)
  | [] => .ok []
  | input :: rest =>
    if !validateWorkspaceRelativePath input.path then
      .error (MutationLog.invalidPath input.path)
    else if input.path ∈ seen then
      .error (js "Duplicate Shadow Workspace index path: " ++ input.path)
    else
      match validateState input.state with
      | .error e => .error e
      | .ok state =>
        (readMutations (input.path :: seen) rest).map
          (⟨input.path, state, toIndexEntry input.path state⟩ :: ·)

/-- The entries that a list of mutations adds. -/
def additions (mutations : List ValidatedMutation) : List IndexEntry :=
  mutations.filterMap ValidatedMutation.addition

/-- The first path to add, and the first path above it that is to be added too. -/
def conflict (added : List JsString) : List JsString → Option (JsString × JsString)
  | [] => none
  | path :: rest =>
    match (ancestors path).find? (· ∈ added) with
    | some parent => some (parent, path)
    | none => conflict added rest

def validateMutations (states : List PathState) : Except JsString (List ValidatedMutation) :=
  match readMutations [] states with
  | .error e => .error e
  | .ok mutations =>
    let added := (additions mutations).map IndexEntry.path
    match conflict added added with
    | some (parent, path) =>
      .error (js "Conflicting Shadow Workspace index additions: " ++ parent ++ js " and " ++
        path)
    | none => .ok mutations

/-- `parseIndexEntries`, where `seen` are the paths before; what Git prints is the UTF-8 of its
paths. -/
def parseEntries (seen : List JsString) : List IndexEntry → Except JsString (List IndexEntry)
  | [] => .ok []
  | entry :: rest =>
    if !MutationLog.validateSha1 entry.oid then .error (js "Invalid private index entry")
    else if !validateWorkspaceRelativePath entry.path then
      .error (MutationLog.invalidPath entry.path)
    else if entry.path ∈ seen then .error (js "Duplicate private index path")
    else (parseEntries (entry.path :: seen) rest).map (entry :: ·)

/-- `comparePathBytes`, as an order of entries. -/
def sortEntries (entries : List IndexEntry) : List IndexEntry :=
  entries.insertionSort fun left right => utf8 left.path ≤ utf8 right.path

/-- `[...new Set(paths)].sort(comparePathBytes)`. -/
def collectPathspecs (paths : List JsString) : List JsString :=
  paths.eraseDups.insertionSort fun left right => utf8 left ≤ utf8 right

def readCandidateEntries (index : List IndexEntry) (paths : List JsString) :
    Except JsString (List IndexEntry) :=
  (parseEntries [] (lsFiles index ((collectPathspecs paths).map utf8))).map sortEntries

/-- What `collectRemovals` collects of an entry that the index has, for one mutation. -/
def removalsOf (mutation : ValidatedMutation) (entry : IndexEntry) : List JsString :=
  if entry.path = mutation.path || (mutation.path ++ [0x2F]).isPrefixOf entry.path then
    [entry.path]
  else if mutation.addition.isSome && (entry.path ++ [0x2F]).isPrefixOf mutation.path then
    [entry.path]
  else []

def collectRemovals (existing : List IndexEntry) (mutations : List ValidatedMutation) :
    List JsString :=
  collectPathspecs <| mutations.flatMap fun mutation =>
    (if mutation.addition.isSome then ancestors mutation.path else []) ++
      existing.flatMap (removalsOf mutation)

/-- The line that removes a path. -/
def removeLine (path : JsString) : IndexLine := ⟨none, zeroOid, utf8 path⟩

/-- The line that adds an entry. -/
def addLine (entry : IndexEntry) : IndexLine := ⟨some entry.mode, entry.oid, utf8 entry.path⟩

/-- The updates of `apply`: the removals, then the additions. -/
def updates (existing : List IndexEntry) (mutations : List ValidatedMutation) : List IndexLine :=
  (collectRemovals existing mutations).map removeLine ++
    (sortEntries (additions mutations)).map addLine

/-- `apply`; `isBlob` tells which objects `git cat-file --batch-check` finds to be blobs.  Where
the code throws, nothing has been changed. -/
def ShadowWorkspaceIndex.apply (shadow : ShadowWorkspaceIndex) (isBlob : JsString → Bool)
    (states : List PathState) : Except JsString ShadowWorkspaceIndex :=
  if !shadow.loaded then .error (js "Shadow Workspace index must be loaded first")
  else
    match validateMutations states with
    | .error e => .error e
    | .ok mutations =>
      if mutations.length = 0 then .ok shadow
      else if ((additions mutations).map IndexEntry.oid).any (!isBlob ·) then
        .error (js "Shadow Workspace index state object must be a blob")
      else
        match readCandidateEntries shadow.index (mutations.map ValidatedMutation.path) with
        | .error e => .error e
        | .ok existing =>
          let lines := updates existing mutations
          if lines.length = 0 then .ok shadow
          else .ok { loaded := true, index := updateIndex shadow.index lines }

end Code

end ShadowIndex

end Workspace

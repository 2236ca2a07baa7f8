import Crest.JsMap
import Crest.PathRoots

/-!
# The baseline of a Git workspace

The first snapshot of a workspace can be made of the tree of the last Git commit.  A scan of the
workspace has found files, symbolic links and what is excluded.  What differs from the commit is
planned: the entries to capture, and the paths of the commit that are absent.  Both are laid over
the index of the commit's tree in one update.

The alternative is to capture everything that the scan has found.
-/

namespace Workspace

open JsString ShadowIndex PathRoots

namespace GitBaseline

/-- The kind of an entry of a scope, with the reason for which it is excluded. -/
inductive ScopeEntryKind
  | file
  | symlink
  | excluded (exclusionReason : WorkspaceCoverageReason)
deriving DecidableEq, Repr

/-- `WorkspaceScopeEntry`; an entry whose bytes are not UTF-8 has no path. -/
structure WorkspaceScopeEntry where
  pathBytes : List UInt8
  path : Option JsString
  kind : ScopeEntryKind
  tracked : Bool
  executable : Option Bool
  size : Option Nat
deriving DecidableEq, Repr

/-- `WorkspaceScope`, with the number of entries that its coverage gives. -/
structure WorkspaceScope where
  entries : List WorkspaceScopeEntry
  eligibleEntryCount : Nat
deriving DecidableEq, Repr

structure GitBaselineTreeEntry where
  path : JsString
  mode : JsString
  oid : JsString
deriving DecidableEq, Repr

/-- A path that is absent. -/
structure AbsentEntry where
  path : JsString
  pathBytes : List UInt8
deriving DecidableEq, Repr

structure GitBaselineProjection where
  captureEntries : List WorkspaceScopeEntry
  absentEntries : List AbsentEntry
deriving DecidableEq, Repr

section Plan

def maxSingleFileBytes : Nat := 64 * 1024 * 1024

/-- `entry.kind === "excluded"`. -/
def WorkspaceScopeEntry.isExcluded (entry : WorkspaceScopeEntry) : Bool :=
  match entry.kind with
  | .excluded _ => true
  | _ => false

def WorkspaceScopeEntry.expectedMode (entry : WorkspaceScopeEntry) : JsString :=
  if entry.kind = .symlink then js "120000"
  else if entry.executable = some true then js "100755"
  else js "100644"

/-- The modes of files and symbolic links. -/
def blobModes : List JsString := [js "100644", js "100755", js "120000"]

/-- `new Map(sourceEntries.map((entry) => [entry.path, entry]))`. -/
def sourceMap (sourceEntries : List GitBaselineTreeEntry) :
    JsMap JsString GitBaselineTreeEntry :=
  sourceEntries.foldl (fun source entry => source.set entry.path entry) .empty

/-- The keys of a map in the order of their bytes. -/
def sortedKeys {ν : Type} (map : JsMap JsString ν) : List JsString :=
  map.keys.insertionSort fun left right => utf8 left ≤ utf8 right

/-- The loop over the entries of the scope, with `physical` and `exclusionByPath`; an empty path is
none. -/
def readScope : List WorkspaceScopeEntry → JsMap JsString WorkspaceScopeEntry →
    JsMap JsString WorkspaceScopeEntry →
    Option (JsMap JsString WorkspaceScopeEntry × JsMap JsString WorkspaceScopeEntry)
  | [], physical, exclusionByPath => some (physical, exclusionByPath)
  | entry :: rest, physical, exclusionByPath =>
    let path := entry.path.getD []
    if path = [] then
      if entry.isExcluded then readScope rest physical exclusionByPath else none
    else if entry.isExcluded then
      readScope rest physical (exclusionByPath.set path entry)
    else readScope rest (physical.set path entry) exclusionByPath

/-- Whether an entry that has been found is captured. -/
def differs (source : JsMap JsString GitBaselineTreeEntry) (candidates : List JsString)
    (entry : WorkspaceScopeEntry) : Bool :=
  !entry.tracked ||
    (match source.get (entry.path.getD []) with
      | none => true
      | some sourceEntry => decide (sourceEntry.mode ≠ entry.expectedMode)) ||
    pathsOverlapIndex candidates (entry.path.getD [])

/-- The loop over `physical.values()`. -/
def capturePhysical (source : JsMap JsString GitBaselineTreeEntry)
    (candidates : List JsString) : List WorkspaceScopeEntry →
    JsMap JsString WorkspaceScopeEntry → Option (JsMap JsString WorkspaceScopeEntry)
  | [], capture => some capture
  | entry :: rest, capture =>
    if entry.size.all (maxSingleFileBytes < ·) then none
    else
      capturePhysical source candidates rest
        (if differs source candidates entry then capture.set (entry.path.getD []) entry
          else capture)

/-- The loop over `exclusionPaths`. -/
def captureExclusions (sourcePaths candidates : List JsString)
    (exclusionByPath : JsMap JsString WorkspaceScopeEntry) :
    JsMap JsString WorkspaceScopeEntry :=
  (normalizePathRoots exclusionByPath.keys).foldl (fun capture path =>
    if pathsOverlapIndex sourcePaths path || pathsOverlapIndex candidates path then
      capture.setSome path (exclusionByPath.get path)
    else capture) .empty

/-- `absentRoots`. -/
def absentRootsOf (sourcePaths physicalPaths candidates : List JsString) : List JsString :=
  candidates.filter fun candidate =>
    !hasPathAtOrBelow physicalPaths candidate && hasPathAtOrBelow sourcePaths candidate

/-- `absent.set(path, { path, pathBytes: Buffer.from(path), .. })`. -/
def setAbsent (absent : JsMap JsString AbsentEntry) (path : JsString) :
    JsMap JsString AbsentEntry :=
  absent.set path ⟨path, utf8 path⟩

/-- The loops that fill `absent`. -/
def findAbsent (sourceEntries : List GitBaselineTreeEntry)
    (physical : JsMap JsString WorkspaceScopeEntry) (exclusionPaths absentRoots : List JsString) :
    JsMap JsString AbsentEntry :=
  sourceEntries.foldl (fun absent entry =>
    if physical.has entry.path then absent
    else if hasCoveringPath exclusionPaths entry.path then absent
    else if hasCoveringPath absentRoots entry.path then absent
    else setAbsent absent entry.path) (absentRoots.foldl setAbsent .empty)

def planGitBaselineProjection (scope : WorkspaceScope)
    (sourceEntries : List GitBaselineTreeEntry) (candidatePaths : List JsString) :
    Option GitBaselineProjection :=
  let source := sourceMap sourceEntries
  if source.size ≠ sourceEntries.length then none
  else if sourceEntries.any fun entry => decide (entry.mode ∉ blobModes) then none
  else
    let sourcePaths := sortedKeys source
    let candidates := normalizePathRoots candidatePaths
    match readScope scope.entries .empty .empty with
    | none => none
    | some (physical, exclusionByPath) =>
      if physical.size ≠ scope.eligibleEntryCount then none
      else
        let exclusions := captureExclusions sourcePaths candidates exclusionByPath
        match capturePhysical source candidates physical.values exclusions with
        | none => none
        | some capture =>
          let absentRoots := absentRootsOf sourcePaths (sortedKeys physical) candidates
          let absent := findAbsent sourceEntries physical
            (normalizePathRoots exclusionByPath.keys) absentRoots
          some {
            captureEntries := capture.values.insertionSort fun left right =>
              left.pathBytes ≤ right.pathBytes
            absentEntries := absent.values.insertionSort fun left right =>
              left.pathBytes ≤ right.pathBytes }

end Plan

section Overlay

/-- The state that is captured for an entry; `content` is the object of what is at the path. -/
def WorkspaceScopeEntry.capturedState (entry : WorkspaceScopeEntry) (oid : JsString) :
    CapturedPathStateV1 :=
  match entry.kind with
  | .excluded reason => .excluded reason
  | .symlink => .symlink oid
  | .file => .file oid (decide (entry.executable = some true))

/-- `captureEntries`: the states of the entries that have a path. -/
def captureEntries (content : JsString → JsString) (entries : List WorkspaceScopeEntry) :
    List PathState :=
  entries.filterMap fun entry => entry.path.map fun path => ⟨path, entry.capturedState (content path)⟩

/-- `writeWorkspaceTree`: the files and symbolic links among the states. -/
def workspaceTree (states : List PathState) : List IndexEntry :=
  states.filterMap fun input => toIndexEntry input.path input.state

def mutations (content : JsString → JsString) (projection : GitBaselineProjection) :
    List PathState :=
  captureEntries content projection.captureEntries ++
    projection.absentEntries.map fun entry => ⟨entry.path, .absent⟩

/-- The mode of a tree entry, as an index has it. -/
def indexMode (mode : JsString) : Option IndexMode :=
  if mode = js "100644" then some .file
  else if mode = js "100755" then some .executable
  else if mode = js "120000" then some .symlink
  else none

/-- The index that `load` makes of the source tree. -/
def sourceIndex (sourceEntries : List GitBaselineTreeEntry) : List IndexEntry :=
  sourceEntries.filterMap fun entry => (indexMode entry.mode).map (⟨entry.path, ·, entry.oid⟩)

/-- Whether an update leaves no old entry at a path: the path is named or below one that is, or it is
above one that is added. -/
def clears (states : List PathState) (path : JsString) : Bool :=
  states.any fun input =>
    input.path == path || (input.path ++ [0x2F]).isPrefixOf path ||
      (toIndexEntry input.path input.state).isSome && (path ++ [0x2F]).isPrefixOf input.path

/-- What an index has for a path after the states have been laid over it. -/
def overlay (index : List IndexEntry) (states : List PathState) (path : JsString) :
    Option (IndexMode × JsString) :=
  (find (workspaceTree states) path).or
    (if clears states path then none else find index path)

end Overlay

end GitBaseline

end Workspace

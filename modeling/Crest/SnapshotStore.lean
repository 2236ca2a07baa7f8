import Mathlib.Data.List.Dedup
import Crest.JsMap
import Crest.WorkspaceRoundTrip

/-!
# Snapshots and their differences

A snapshot is a commit whose tree holds the captured files and whose manifest
records what was left out.  The state of a path is its leaf in the tree; where
the tree has none, the manifest says whether the path is absent or excluded, and
an exclusion covers everything below it.

The structures carry what the store checks before it writes and when it reads:
paths it accepts, object ids, counts, and exclusions that are about different
parts of the workspace.
-/

namespace Workspace

open JsString

/-- A leaf of a workspace tree. -/
inductive TreeLeaf
  | file (oid : JsString) (executable : Bool)
  | symlink (oid : JsString)
  deriving DecidableEq, Repr

/-- The state a leaf records. -/
def TreeLeaf.state : TreeLeaf → CapturedPathStateV1
  | .file oid executable => .file oid executable
  | .symlink oid => .symlink oid

/-- A path the store writes: one it accepts, decoded from valid UTF-8. -/
def isStorablePath (path : JsString) : Bool :=
  validateWorkspaceRelativePath path && !hasUnpairedSurrogate path

/-- Whether the store writes an exclusion: a path it accepts, the base64 text of
a file name, or the whole workspace. -/
def WorkspaceSnapshotCoverageExclusion.IsStorable : WorkspaceSnapshotCoverageExclusion → Prop
  | .path p _ => isStorablePath p = true
  | .pathBytesBase64 text _ => ∃ bytes, bytes ≠ [] ∧ text = Base64.toBase64 bytes
  | .workspaceRoot => True

/-- A coverage the store produced. -/
structure StoreCoverage extends WorkspaceSnapshotCoverage where
  /-- The counts are safe integers and no exclusion is repeated. -/
  counted : toWorkspaceSnapshotCoverage.Counted
  /-- Every exclusion is one the store writes. -/
  storable : ∀ item ∈ exclusions, item.IsStorable

/-- A snapshot the store can read. -/
structure StoredSnapshot where
  /-- The reference, as markers and checkpoints carry it. -/
  ref : WorkspaceSnapshotRefV1
  leaves : JsMap JsString TreeLeaf
  coverage : StoreCoverage
  /-- The reference is made of object ids. -/
  hasGitOids : ref.hasGitOids = true
  /-- The tree holds paths the store accepts. -/
  leafPaths : ∀ path leaf, leaves.get path = some leaf → isStorablePath path = true
  /-- The leaves are blobs. -/
  leafOids : ∀ path leaf, leaves.get path = some leaf → leaf.state.hasGitOid = true

/-- The values `candidate` takes in the loop of `readCoveragePathState`: the path
and then its ancestors, the nearest first. -/
def pathAndAncestors (path : JsString) : List JsString :=
  (splitPath path).inits.tail.reverse.map (List.intercalate [0x2F])

/-- The first exclusion of a path. -/
def exclusionOf (coverage : WorkspaceSnapshotCoverage) (candidate : JsString) :
    Option WorkspaceCoverageReason :=
  coverage.exclusions.findSome? fun
    | .path p reason => if p = candidate then some reason else none
    | _ => none

/-- `readCoveragePathState`: the state of a path without a leaf. -/
def readCoveragePathState (coverage : WorkspaceSnapshotCoverage) (path : JsString) :
    CapturedPathStateV1 :=
  match (pathAndAncestors path).findSome? (exclusionOf coverage) with
  | some reason => .excluded reason
  | none =>
    if coverage.exclusions.contains .workspaceRoot then .excluded .captureBudget else .absent

/-- `readPathState`: a leaf of the tree, or what the manifest says. -/
def readPathState (snapshot : StoredSnapshot) (path : JsString) : CapturedPathStateV1 :=
  match snapshot.leaves.get path with
  | some leaf => leaf.state
  | none => readCoveragePathState snapshot.coverage.toWorkspaceSnapshotCoverage path

/-- The state of a path in the tree alone. -/
def treeState (snapshot : StoredSnapshot) (path : JsString) : CapturedPathStateV1 :=
  ((snapshot.leaves.get path).map TreeLeaf.state).getD .absent

/-- `#readRawTreeDelta`: the paths at which two trees differ.  Equal trees are
not compared. -/
def readRawTreeDelta (before after : StoredSnapshot) : List WorkspacePathChangeV1 :=
  if before.ref.tree = after.ref.tree then []
  else
    ((before.leaves.keys ++ after.leaves.keys).dedup.filter fun path =>
      treeState before path ≠ treeState after path).map fun path =>
        { path, before := treeState before path, after := treeState after path }

def manifestPathExclusionPaths (coverage : WorkspaceSnapshotCoverage) : List JsString :=
  coverage.exclusions.filterMap fun
    | .path p _ => some p
    | _ => none

/-- `mergeRawTreeState`: the manifest speaks only where the tree has nothing, or
where nothing changed. -/
def mergeRawTreeState (state : Option CapturedPathStateV1)
    (coverage : WorkspaceSnapshotCoverage) (path : JsString) : CapturedPathStateV1 :=
  match state with
  | none | some .absent => readCoveragePathState coverage path
  | some state => state

/-- The paths `diff` looks at, in byte order. -/
def diffPaths (before after : StoredSnapshot) : List JsString :=
  ((readRawTreeDelta before after).map WorkspacePathChangeV1.path ++
    manifestPathExclusionPaths before.coverage.toWorkspaceSnapshotCoverage ++
    manifestPathExclusionPaths after.coverage.toWorkspaceSnapshotCoverage).dedup.insertionSort
      fun left right => utf8 left ≤ utf8 right

/-- The change `diff` records at one path, if there is one. -/
def diffAt (before after : StoredSnapshot) (path : JsString) : Option WorkspacePathChangeV1 :=
  let raw := (readRawTreeDelta before after).find? fun change => change.path == path
  let beforeState := mergeRawTreeState (raw.map WorkspacePathChangeV1.before)
    before.coverage.toWorkspaceSnapshotCoverage path
  let afterState := mergeRawTreeState (raw.map WorkspacePathChangeV1.after)
    after.coverage.toWorkspaceSnapshotCoverage path
  if beforeState = afterState then none
  else some { path, before := beforeState, after := afterState }

/-- `diff`: the paths at which two snapshots differ. -/
def diff (before after : StoredSnapshot) : List WorkspacePathChangeV1 :=
  (diffPaths before after).filterMap (diffAt before after)

theorem diffAt_path {before after : StoredSnapshot} {path : JsString}
    {change : WorkspacePathChangeV1} (h : diffAt before after path = some change) :
    change.path = path := by
  simp only [diffAt] at h
  split at h
  · cases h
  · obtain rfl := Option.some.inj h
    rfl

theorem nodup_diff (before after : StoredSnapshot) :
    ((diff before after).map WorkspacePathChangeV1.path).Nodup := by
  have hpaths : (diffPaths before after).Nodup :=
    (List.perm_insertionSort _ _).nodup_iff.mpr (List.nodup_dedup _)
  have hsublist : ((diff before after).map WorkspacePathChangeV1.path).Sublist
      (diffPaths before after) := by
    unfold diff
    induction diffPaths before after with
    | nil => simp
    | cons path rest ih =>
      cases hchange : diffAt before after path with
      | none => simpa [hchange] using ih.cons path
      | some change => simpa [hchange, diffAt_path hchange] using ih
  exact hpaths.sublist hsublist

theorem hasGitOid_readCoveragePathState (coverage : WorkspaceSnapshotCoverage) (path : JsString) :
    (readCoveragePathState coverage path).hasGitOid = true := by
  unfold readCoveragePathState
  split
  · rfl
  · split <;> rfl

theorem hasGitOid_treeState (snapshot : StoredSnapshot) (path : JsString) :
    (treeState snapshot path).hasGitOid = true := by
  unfold treeState
  cases hleaf : snapshot.leaves.get path with
  | none => rfl
  | some leaf => simpa using snapshot.leafOids path leaf hleaf

theorem hasGitOid_mergeRawTreeState (state : Option CapturedPathStateV1)
    (coverage : WorkspaceSnapshotCoverage) (path : JsString)
    (h : ∀ s, state = some s → s.hasGitOid = true) :
    (mergeRawTreeState state coverage path).hasGitOid = true := by
  unfold mergeRawTreeState
  split
  · exact hasGitOid_readCoveragePathState _ _
  · exact hasGitOid_readCoveragePathState _ _
  · rename_i s _
    exact h s rfl

theorem mem_readRawTreeDelta {before after : StoredSnapshot}
    {change : WorkspacePathChangeV1} (h : change ∈ readRawTreeDelta before after) :
    change = { path := change.path
               before := treeState before change.path
               after := treeState after change.path } := by
  unfold readRawTreeDelta at h
  split at h
  · cases h
  · obtain ⟨path, -, rfl⟩ := List.mem_map.mp h
    rfl

theorem hasGitOid_diff {before after : StoredSnapshot} {change : WorkspacePathChangeV1}
    (h : change ∈ diff before after) :
    change.before.hasGitOid = true ∧ change.after.hasGitOid = true := by
  obtain ⟨path, -, hchange⟩ := List.mem_filterMap.mp h
  simp only [diffAt] at hchange
  split at hchange
  · cases hchange
  · obtain rfl := Option.some.inj hchange
    constructor
    all_goals
      refine hasGitOid_mergeRawTreeState _ _ _ fun s hs => ?_
      obtain ⟨raw, hraw, rfl⟩ := Option.map_eq_some_iff.mp hs
      rw [mem_readRawTreeDelta (List.mem_of_find?_eq_some hraw)]
      exact hasGitOid_treeState _ _

theorem isStorablePath_of_mem_exclusionPaths {coverage : StoreCoverage} {path : JsString}
    (h : path ∈ manifestPathExclusionPaths coverage.toWorkspaceSnapshotCoverage) :
    isStorablePath path = true := by
  unfold manifestPathExclusionPaths at h
  obtain ⟨item, hmem, hitem⟩ := List.mem_filterMap.mp h
  have hstorable := coverage.storable item hmem
  cases item with
  | path p reason =>
    obtain rfl := Option.some.inj hitem
    exact hstorable
  | pathBytesBase64 _ _ | workspaceRoot => cases hitem

theorem isStorablePath_diff {before after : StoredSnapshot} {change : WorkspacePathChangeV1}
    (h : change ∈ diff before after) :
    isStorablePath change.path = true := by
  obtain ⟨path, hmem, hchange⟩ := List.mem_filterMap.mp h
  obtain rfl := diffAt_path hchange
  rw [diffPaths, List.mem_insertionSort, List.mem_dedup, List.mem_append, List.mem_append] at hmem
  rcases hmem with (hraw | hbefore) | hafter
  · obtain ⟨raw, hraw, heq⟩ := List.mem_map.mp hraw
    unfold readRawTreeDelta at hraw
    split at hraw
    · cases hraw
    · obtain ⟨path, hpath, rfl⟩ := List.mem_map.mp hraw
      have hkeys := List.mem_dedup.mp (List.mem_filter.mp hpath).1
      rw [← heq]
      rcases List.mem_append.mp hkeys with hkey | hkey
      · obtain ⟨leaf, hleaf⟩ := JsMap.exists_get_of_mem_keys hkey
        exact before.leafPaths path leaf hleaf
      · obtain ⟨leaf, hleaf⟩ := JsMap.exists_get_of_mem_keys hkey
        exact after.leafPaths path leaf hleaf
  · exact isStorablePath_of_mem_exclusionPaths hbefore
  · exact isStorablePath_of_mem_exclusionPaths hafter

end Workspace

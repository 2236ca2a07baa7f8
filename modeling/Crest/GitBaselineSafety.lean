import Mathlib.Data.List.Pairwise
import Crest.GitBaseline

/-!
# When the planned baseline is the full capture

The entries of a scan lie beside one another: a file has nothing below it, and the scan does not go
into what is excluded.  Of a source tree the same holds of its files.

A path is noticed in a list if a path of the list is at or above it, or if one is below it and none
is beside it.  A path is met if it is in the list, or if one is below it and none is beside it.  The
plan is the full capture exactly if three things hold.  Each excluded directory with files of the
commit below it is noticed, or each of the files is below a candidate that is met.  A tracked file
above a candidate is noticed, or has not changed.  An excluded path that is a candidate root is not
met in the commit.
-/

namespace Workspace

open JsString ShadowIndex PathRoots

namespace GitBaseline

section Maps

variable {κ ν α : Type} [DecidableEq κ] {m : JsMap κ ν}

theorem mem_keys_iff {k : κ} : k ∈ m.keys ↔ ∃ v, m.get k = some v := by
  constructor
  · exact JsMap.exists_get_of_mem_keys
  · intro h
    obtain ⟨v, hget⟩ := h
    exact List.mem_map.mpr ⟨(k, v), JsMap.mem_entries_of_get hget, rfl⟩

theorem mem_values_iff {v : ν} : v ∈ m.values ↔ ∃ k, m.get k = some v := by
  constructor
  · intro h
    obtain ⟨⟨k, w⟩, hentry, rfl⟩ := List.mem_map.mp h
    exact ⟨k, JsMap.get_of_mem_entries hentry⟩
  · intro h
    obtain ⟨k, hget⟩ := h
    exact List.mem_map.mpr ⟨(k, v), JsMap.mem_entries_of_get hget, rfl⟩

theorem nodup_values_map (key : ν → κ) (hkey : ∀ k v, m.get k = some v → key v = k) :
    (m.values.map key).Nodup := by
  have heq : m.values.map key = m.keys := by
    show (m.entries.map Prod.snd).map key = m.entries.map Prod.fst
    rw [List.map_map]
    refine List.map_congr_left ?_
    intro entry hentry
    exact hkey entry.1 entry.2 (JsMap.get_of_mem_entries hentry)
  rw [heq]
  exact m.nodup

theorem nodup_of_size (key : α → κ) (value : α → ν) (items : List α)
    (hsize : (items.foldl (fun m a => m.set (key a) (value a)) JsMap.empty).size =
      items.length) :
    (items.map key).Nodup := by
  have hsubset : (items.foldl (fun m a => m.set (key a) (value a)) JsMap.empty).keys ⊆
      items.map key := by
    intro k hk
    obtain ⟨v, hget⟩ := JsMap.exists_get_of_mem_keys hk
    by_contra hnone
    have h := JsMap.get_foldl_setSome_of_none key (fun a => some (value a)) items JsMap.empty k
      (fun a ha heq => absurd (heq ▸ List.mem_map_of_mem ha) hnone)
    rw [JsMap.get_empty] at h
    exact absurd (hget.symm.trans h) (by simp)
  have hperm := (List.subperm_of_subset (JsMap.nodup _) hsubset).perm_of_length_le (by
    rw [List.length_map, ← hsize]
    exact Nat.le_of_eq (List.length_map _).symm)
  exact hperm.nodup_iff.mp (JsMap.nodup _)

theorem get_set_fresh {k : κ} {v : ν} (hfresh : m.get k = none) (x : κ) (w : ν) :
    (m.set k v).get x = some w ↔ m.get x = some w ∨ x = k ∧ w = v := by
  rw [JsMap.get_set]
  by_cases hx : x = k
  · subst hx
    rw [if_pos rfl, hfresh]
    simp [eq_comm]
  · rw [if_neg hx]
    simp [hx]

end Maps

section Scan

/-- Neither entry has a path at or below that of the other. -/
def Apart (first second : WorkspaceScopeEntry) : Prop :=
  ∀ path other, first.path = some path → second.path = some other →
    ¬ AtOrBelow path other ∧ ¬ AtOrBelow other path

/-- What a scan of a workspace yields. -/
structure Scan (scope : WorkspaceScope) : Prop where
  /-- Paths are read from bytes, and none is empty. -/
  named : ∀ entry ∈ scope.entries, ∀ path, entry.path = some path →
    path ≠ [] ∧ hasUnpairedSurrogate path = false
  apart : scope.entries.Pairwise Apart

/-- What a source tree is made of; that no path occurs twice is checked. -/
structure SourceTree (sourceEntries : List GitBaselineTreeEntry) : Prop where
  formed : ∀ entry ∈ sourceEntries, hasUnpairedSurrogate entry.path = false
  prefixFree : ∀ entry ∈ sourceEntries, ∀ other ∈ sourceEntries,
    ¬ IsAncestor entry.path other.path

/-- A file or symbolic link that the scan has found. -/
def Physical (scope : WorkspaceScope) (path : JsString) (entry : WorkspaceScopeEntry) : Prop :=
  entry ∈ scope.entries ∧ entry.path = some path ∧ entry.isExcluded = false

/-- What the scan has excluded. -/
def Excluded (scope : WorkspaceScope) (path : JsString) (entry : WorkspaceScopeEntry) : Prop :=
  entry ∈ scope.entries ∧ entry.path = some path ∧ entry.isExcluded = true

theorem Scan.eq_of_atOrBelow {scope : WorkspaceScope} (hscan : Scan scope)
    {first second : WorkspaceScopeEntry} (hfirst : first ∈ scope.entries)
    (hsecond : second ∈ scope.entries) {path other : JsString}
    (hpath : first.path = some path) (hother : second.path = some other)
    (h : AtOrBelow path other) :
    first = second := by
  have : Std.Symm Apart := ⟨fun a b hab path other hp hq => (hab other path hq hp).symm⟩
  by_contra hne
  exact (hscan.apart.forall hfirst hsecond hne path other hpath hother).1 h

end Scan

section Reading

theorem get_readScope (entries : List WorkspaceScopeEntry)
    (hnamed : ∀ entry ∈ entries, ∀ path, entry.path = some path → path ≠ [])
    (hapart : entries.Pairwise Apart)
    {physical exclusionByPath physical' exclusionByPath' :
      JsMap JsString WorkspaceScopeEntry}
    (hfresh : ∀ entry ∈ entries, ∀ path, entry.path = some path →
      physical.get path = none ∧ exclusionByPath.get path = none)
    (h : readScope entries physical exclusionByPath = some (physical', exclusionByPath'))
    (path : JsString) (found : WorkspaceScopeEntry) :
    (physical'.get path = some found ↔ physical.get path = some found ∨
      found ∈ entries ∧ found.path = some path ∧ found.isExcluded = false) ∧
    (exclusionByPath'.get path = some found ↔ exclusionByPath.get path = some found ∨
      found ∈ entries ∧ found.path = some path ∧ found.isExcluded = true) := by
  induction entries generalizing physical exclusionByPath with
  | nil =>
    obtain ⟨rfl, rfl⟩ := Prod.mk.inj (Option.some.inj h)
    simp
  | cons entry rest ih =>
    have hrest : ∀ other ∈ rest, ∀ path, other.path = some path → path ≠ [] :=
      fun other hother => hnamed other (List.mem_cons_of_mem _ hother)
    obtain ⟨hfirst, hlater⟩ := List.pairwise_cons.mp hapart
    rw [readScope] at h
    cases hpath : entry.path with
    | none =>
      simp only [hpath, Option.getD_none, if_true] at h
      cases hexcluded : entry.isExcluded with
      | false => simp [hexcluded] at h
      | true =>
        rw [hexcluded, if_pos rfl] at h
        obtain ⟨hp, he⟩ := ih hrest hlater
          (fun other hother => hfresh other (List.mem_cons_of_mem _ hother)) h
        rw [hp, he]
        have hnot : ¬ (found = entry ∧ found.path = some path) := by
          intro hfound
          rw [hfound.1, hpath] at hfound
          cases hfound.2
        grind
    | some name =>
      have hname := hnamed entry List.mem_cons_self name hpath
      obtain ⟨hnop, hnoe⟩ := hfresh entry List.mem_cons_self name hpath
      simp only [hpath, Option.getD_some, if_neg hname] at h
      have hother : ∀ other ∈ rest, ∀ path, other.path = some path → path ≠ name := by
        intro other hin path hp heq
        exact (hfirst other hin name path hpath hp).1 (Or.inl heq.symm)
      cases hexcluded : entry.isExcluded with
      | false =>
        rw [hexcluded, if_neg (by simp)] at h
        have hfresh' : ∀ other ∈ rest, ∀ path, other.path = some path →
            (physical.set name entry).get path = none ∧
              exclusionByPath.get path = none := by
          intro other hin path hp
          rw [JsMap.get_set, if_neg (hother other hin path hp)]
          exact hfresh other (List.mem_cons_of_mem _ hin) path hp
        obtain ⟨hp, he⟩ := ih hrest hlater hfresh' h
        rw [hp, he, get_set_fresh hnop]
        grind
      | true =>
        rw [hexcluded, if_pos rfl] at h
        have hfresh' : ∀ other ∈ rest, ∀ path, other.path = some path →
            physical.get path = none ∧
              (exclusionByPath.set name entry).get path = none := by
          intro other hin path hp
          rw [JsMap.get_set, if_neg (hother other hin path hp)]
          exact hfresh other (List.mem_cons_of_mem _ hin) path hp
        obtain ⟨hp, he⟩ := ih hrest hlater hfresh' h
        rw [hp, he, get_set_fresh hnoe]
        grind

theorem get_capturePhysical {source : JsMap JsString GitBaselineTreeEntry}
    {candidates : List JsString} (items : List WorkspaceScopeEntry)
    (hnodup : (items.map fun entry => entry.path.getD []).Nodup)
    {capture capture' : JsMap JsString WorkspaceScopeEntry}
    (hfresh : ∀ entry ∈ items, capture.get (entry.path.getD []) = none)
    (h : capturePhysical source candidates items capture = some capture') (path : JsString)
    (found : WorkspaceScopeEntry) :
    capture'.get path = some found ↔ capture.get path = some found ∨
      found ∈ items ∧ found.path.getD [] = path ∧ differs source candidates found = true := by
  induction items generalizing capture with
  | nil =>
    obtain rfl := Option.some.inj h
    simp
  | cons entry rest ih =>
    rw [List.map_cons, List.nodup_cons] at hnodup
    rw [capturePhysical] at h
    by_cases hsize : entry.size.all (maxSingleFileBytes < ·) = true
    · rw [if_pos hsize] at h
      cases h
    · rw [if_neg hsize] at h
      have hnew := hfresh entry List.mem_cons_self
      cases hdiffers : differs source candidates entry with
      | false =>
        rw [hdiffers, if_neg (by simp)] at h
        rw [ih hnodup.2 (fun other hin => hfresh other (List.mem_cons_of_mem _ hin)) h]
        grind
      | true =>
        rw [hdiffers, if_pos rfl] at h
        have hfresh' : ∀ other ∈ rest,
            (capture.set (entry.path.getD []) entry).get (other.path.getD []) = none := by
          intro other hin
          have hne : other.path.getD [] ≠ entry.path.getD [] := by
            intro heq
            exact hnodup.1 (List.mem_map.mpr ⟨other, hin, heq⟩)
          rw [JsMap.get_set, if_neg hne]
          exact hfresh other (List.mem_cons_of_mem _ hin)
        rw [ih hnodup.2 hfresh' h, get_set_fresh hnew]
        grind

theorem get_captureExclusions {sourcePaths candidates : List JsString}
    {exclusionByPath : JsMap JsString WorkspaceScopeEntry} (path : JsString)
    (found : WorkspaceScopeEntry) :
    (captureExclusions sourcePaths candidates exclusionByPath).get path = some found ↔
      path ∈ normalizePathRoots exclusionByPath.keys ∧
        (pathsOverlapIndex sourcePaths path = true ∨ pathsOverlapIndex candidates path = true) ∧
        exclusionByPath.get path = some found := by
  have hstep : ∀ (roots : List JsString) (capture : JsMap JsString WorkspaceScopeEntry),
      (∀ path found, capture.get path = some found → exclusionByPath.get path = some found) →
      ((roots.foldl (fun capture path =>
          if pathsOverlapIndex sourcePaths path || pathsOverlapIndex candidates path then
            capture.setSome path (exclusionByPath.get path)
          else capture) capture).get path = some found ↔
        capture.get path = some found ∨ path ∈ roots ∧
          (pathsOverlapIndex sourcePaths path || pathsOverlapIndex candidates path) = true ∧
          exclusionByPath.get path = some found) := by
    intro roots
    induction roots with
    | nil => simp
    | cons root roots ih =>
      intro capture hcapture
      rw [List.foldl_cons]
      cases hoverlaps :
          (pathsOverlapIndex sourcePaths root || pathsOverlapIndex candidates root) with
      | false =>
        rw [if_neg (by simp), ih capture hcapture]
        grind
      | true =>
        rw [if_pos rfl, ih _ ?_, JsMap.get_setSome]
        · by_cases heq : path = root
          · subst heq
            rw [if_pos rfl]
            cases hget : exclusionByPath.get path with
            | some entry =>
              rw [Option.some_or]
              grind
            | none =>
              rw [Option.none_or]
              grind
          · rw [if_neg heq]
            grind
        · intro other entry hget
          rw [JsMap.get_setSome] at hget
          by_cases heq : other = root
          · subst heq
            rw [if_pos rfl] at hget
            cases hentry : exclusionByPath.get other with
            | some _ => rwa [hentry] at hget
            | none =>
              rw [hentry, Option.none_or] at hget
              rw [← hentry]
              exact hcapture _ _ hget
          · rw [if_neg heq] at hget
            exact hcapture _ _ hget
  rw [captureExclusions, hstep _ _ (by simp), JsMap.get_empty, Bool.or_eq_true]
  simp

theorem get_foldl_setAbsent {α : Type} (key : α → JsString) (skip : α → Bool)
    (items : List α) {absent : JsMap JsString AbsentEntry} {path : JsString}
    (hvalues : ∀ found, absent.get path = some found → found = ⟨path, utf8 path⟩)
    (found : AbsentEntry) :
    (items.foldl (fun absent a => if skip a then absent else setAbsent absent (key a))
        absent).get path = some found ↔
      absent.get path = some found ∨
        found = ⟨path, utf8 path⟩ ∧ ∃ a ∈ items, skip a = false ∧ key a = path := by
  induction items generalizing absent with
  | nil => simp
  | cons a items ih =>
    rw [List.foldl_cons]
    cases hskip : skip a with
    | true =>
      rw [if_pos rfl, ih hvalues]
      grind
    | false =>
      rw [if_neg (by simp)]
      have hget : ∀ w, (setAbsent absent (key a)).get path = some w ↔
          absent.get path = some w ∨ w = ⟨path, utf8 path⟩ ∧ key a = path := by
        intro w
        rw [setAbsent, JsMap.get_set]
        by_cases heq : path = key a
        · subst heq
          rw [if_pos rfl]
          grind
        · rw [if_neg heq]
          grind
      rw [ih ?_, hget]
      · grind
      · intro w hw
        rcases (hget w).mp hw with h | ⟨h, -⟩
        · exact hvalues w h
        · exact h

theorem get_findAbsent {sourceEntries : List GitBaselineTreeEntry}
    {physical : JsMap JsString WorkspaceScopeEntry}
    {exclusionPaths absentRoots : List JsString} (path : JsString) (found : AbsentEntry) :
    (findAbsent sourceEntries physical exclusionPaths absentRoots).get path = some found ↔
      found = ⟨path, utf8 path⟩ ∧
        (path ∈ absentRoots ∨
          (∃ entry ∈ sourceEntries, entry.path = path) ∧ physical.get path = none ∧
            hasCoveringPath exclusionPaths path = false ∧
            hasCoveringPath absentRoots path = false) := by
  have hroots := @get_foldl_setAbsent JsString id (fun _ => false) absentRoots .empty path
    (by simp)
  have hskip : (fun absent (entry : GitBaselineTreeEntry) =>
        if physical.has entry.path then absent
        else if hasCoveringPath exclusionPaths entry.path then absent
        else if hasCoveringPath absentRoots entry.path then absent
        else setAbsent absent entry.path) =
      fun absent entry =>
        if physical.has entry.path || hasCoveringPath exclusionPaths entry.path ||
            hasCoveringPath absentRoots entry.path then absent
        else setAbsent absent entry.path := by
    funext absent entry
    cases physical.has entry.path <;> cases hasCoveringPath exclusionPaths entry.path <;> rfl
  have hfirst : ∀ w, (absentRoots.foldl setAbsent JsMap.empty).get path = some w ↔
      w = ⟨path, utf8 path⟩ ∧ path ∈ absentRoots := by
    intro w
    have h := hroots w
    simpa using h
  rw [findAbsent, hskip, get_foldl_setAbsent GitBaselineTreeEntry.path
    (fun entry => physical.has entry.path || hasCoveringPath exclusionPaths entry.path ||
      hasCoveringPath absentRoots entry.path) sourceEntries
    (fun w hw => ((hfirst w).mp hw).1) found, hfirst]
  simp only [Bool.or_eq_false_iff, JsMap.has, Option.isSome_eq_false_iff, Option.isNone_iff_eq_none]
  grind

end Reading

section Planned

variable (scope : WorkspaceScope) (sourceEntries : List GitBaselineTreeEntry)
  (candidatePaths : List JsString)

/-- The paths of a source tree. -/
def treePaths : List JsString := sourceEntries.map GitBaselineTreeEntry.path

/-- The paths of the files and symbolic links that the scan has found. -/
def physicalPaths : List JsString :=
  (scope.entries.filter fun entry => !entry.isExcluded).filterMap WorkspaceScopeEntry.path

/-- The entry is captured. -/
def Captures (path : JsString) (entry : WorkspaceScopeEntry) : Prop :=
  Excluded scope path entry ∧
      (Noticed (treePaths sourceEntries) path ∨ Noticed candidatePaths path) ∨
    Physical scope path entry ∧
      (entry.tracked = false ∨
        (∀ sourceEntry ∈ sourceEntries, sourceEntry.path = path →
          sourceEntry.mode ≠ entry.expectedMode) ∨
        Noticed candidatePaths path)

/-- The candidate is removed with all that is below it. -/
def RemovesRoot (root : JsString) : Prop :=
  IsRoot candidatePaths root ∧ ¬ Met (physicalPaths scope) root ∧
    Met (treePaths sourceEntries) root

/-- The path is removed. -/
def Removes (path : JsString) : Prop :=
  RemovesRoot scope sourceEntries candidatePaths path ∨
    path ∈ treePaths sourceEntries ∧ path ∉ physicalPaths scope ∧
      (∀ root entry, Excluded scope root entry → ¬ AtOrBelow root path) ∧
      ∀ root, RemovesRoot scope sourceEntries candidatePaths root → ¬ AtOrBelow root path

/-- What a plan is made of. -/
structure Planned (projection : GitBaselineProjection) : Prop where
  captures : ∀ entry, entry ∈ projection.captureEntries ↔
    ∃ path, Captures scope sourceEntries candidatePaths path entry
  removes : ∀ path, path ∈ projection.absentEntries.map AbsentEntry.path ↔
    Removes scope sourceEntries candidatePaths path
  captureOnce : (projection.captureEntries.map WorkspaceScopeEntry.path).Nodup
  absentOnce : (projection.absentEntries.map AbsentEntry.path).Nodup

variable {scope} {sourceEntries} {candidatePaths}

theorem mem_physicalPaths {path : JsString} :
    path ∈ physicalPaths scope ↔ ∃ entry, Physical scope path entry := by
  simp only [physicalPaths, List.mem_filterMap, List.mem_filter, Physical, Bool.not_eq_true']
  constructor
  · intro h
    obtain ⟨entry, ⟨hin, hexcluded⟩, hpath⟩ := h
    exact ⟨entry, hin, hpath, hexcluded⟩
  · intro h
    obtain ⟨entry, hin, hpath, hexcluded⟩ := h
    exact ⟨entry, ⟨hin, hexcluded⟩, hpath⟩

theorem mem_sortedKeys {ν : Type} {map : JsMap JsString ν} {path : JsString} :
    path ∈ sortedKeys map ↔ ∃ value, map.get path = some value := by
  rw [sortedKeys, List.mem_insertionSort, mem_keys_iff]

theorem sorted_sortedKeys {ν : Type} (map : JsMap JsString ν) : Sorted (sortedKeys map) := by
  have : Std.Total fun left right : JsString => utf8 left ≤ utf8 right :=
    ⟨fun left right => List.le_total _ _⟩
  have : IsTrans JsString fun left right => utf8 left ≤ utf8 right :=
    ⟨fun _ _ _ h h' => List.le_trans h h'⟩
  exact List.pairwise_insertionSort _ _

section

variable (hnodup : (treePaths sourceEntries).Nodup)
include hnodup

theorem get_sourceMap (path : JsString) (found : GitBaselineTreeEntry) :
    (sourceMap sourceEntries).get path = some found ↔
      found ∈ sourceEntries ∧ found.path = path := by
  have h := JsMap.get_foldl_setSome_iff GitBaselineTreeEntry.path some sourceEntries hnodup path
    found
  refine (Iff.of_eq (congrArg (· = some found) rfl)).trans (h.trans ?_)
  grind

theorem mem_sortedKeys_sourceMap (path : JsString) :
    path ∈ sortedKeys (sourceMap sourceEntries) ↔ path ∈ treePaths sourceEntries := by
  simp only [mem_sortedKeys, get_sourceMap hnodup, treePaths, List.mem_map]

theorem differs_iff {candidates : List JsString}
    {path : JsString} {entry : WorkspaceScopeEntry} (hpath : entry.path = some path) :
    differs (sourceMap sourceEntries) candidates entry = true ↔
      entry.tracked = false ∨
        (∀ sourceEntry ∈ sourceEntries, sourceEntry.path = path →
          sourceEntry.mode ≠ entry.expectedMode) ∨
        pathsOverlapIndex candidates path = true := by
  rw [differs, hpath, Option.getD_some, Bool.or_eq_true, Bool.or_eq_true, Bool.not_eq_true',
    or_assoc]
  refine or_congr_right (or_congr_left ?_)
  cases hget : (sourceMap sourceEntries).get path with
  | none =>
    refine iff_of_true rfl ?_
    intro sourceEntry hin hsame
    rw [(get_sourceMap hnodup path sourceEntry).mpr ⟨hin, hsame⟩] at hget
    cases hget
  | some found =>
    obtain ⟨hfound, hsame⟩ := (get_sourceMap hnodup path found).mp hget
    rw [decide_eq_true_eq]
    constructor
    · intro hne sourceEntry hin hpath'
      have hgot := (get_sourceMap hnodup path sourceEntry).mpr ⟨hin, hpath'⟩
      rw [hget] at hgot
      rw [← Option.some.inj hgot]
      exact hne
    · intro h
      exact h found hfound hsame

end

variable {exclusionByPath : JsMap JsString WorkspaceScopeEntry}

theorem mem_exclusionRoots (hscan : Scan scope)
    (hexcluded : ∀ path found, exclusionByPath.get path = some found ↔
      Excluded scope path found)
    (path : JsString) :
    path ∈ normalizePathRoots exclusionByPath.keys ↔ ∃ entry, Excluded scope path entry := by
  have hkeys : ∀ path, path ∈ exclusionByPath.keys ↔ ∃ entry, Excluded scope path entry := by
    intro path
    simp only [mem_keys_iff, hexcluded]
  rw [mem_normalizePathRoots, IsRoot, hkeys]
  refine and_iff_left_of_imp ?_
  intro h other hother hup
  obtain ⟨entry, hentry, hpath, -⟩ := h
  obtain ⟨above, habove, hpath', -⟩ := (hkeys other).mp hother
  have hsame := hscan.eq_of_atOrBelow habove hentry hpath' hpath (Or.inr hup)
  rw [hsame, hpath] at hpath'
  obtain rfl := Option.some.inj hpath'
  exact IsAncestor.irrefl _ hup

variable {physical : JsMap JsString WorkspaceScopeEntry}

section

variable (hscan : Scan scope) (htree : SourceTree sourceEntries)
  (hcandidates : ∀ path ∈ candidatePaths, hasUnpairedSurrogate path = false)
  (hnodup : (treePaths sourceEntries).Nodup)
include hscan htree hcandidates hnodup

variable (hphysical : ∀ path found, physical.get path = some found ↔ Physical scope path found)
include hphysical

theorem get_capture {capture : JsMap JsString WorkspaceScopeEntry}
    (hexcluded : ∀ path found, exclusionByPath.get path = some found ↔
      Excluded scope path found)
    (h : capturePhysical (sourceMap sourceEntries) (normalizePathRoots candidatePaths)
      physical.values (captureExclusions (sortedKeys (sourceMap sourceEntries))
        (normalizePathRoots candidatePaths) exclusionByPath) = some capture)
    (path : JsString) (found : WorkspaceScopeEntry) :
    capture.get path = some found ↔
      Captures scope sourceEntries candidatePaths path found := by
  have hformed : ∀ {path : JsString} {entry : WorkspaceScopeEntry}, entry ∈ scope.entries →
      entry.path = some path → hasUnpairedSurrogate path = false :=
    fun hin hpath => (hscan.named _ hin _ hpath).2
  have hnoticed : ∀ path, hasUnpairedSurrogate path = false →
      (pathsOverlapIndex (normalizePathRoots candidatePaths) path = true ↔
        Noticed candidatePaths path) := by
    intro path hpath
    rw [pathsOverlapIndex_iff (sorted_normalizePathRoots _)
      (fun root hroot => hcandidates root (mem_normalizePathRoots.mp hroot).1) hpath,
      noticed_normalizePathRoots]
  have hsource : ∀ path, hasUnpairedSurrogate path = false →
      (pathsOverlapIndex (sortedKeys (sourceMap sourceEntries)) path = true ↔
        Noticed (treePaths sourceEntries) path) := by
    intro path hpath
    rw [pathsOverlapIndex_iff (sorted_sortedKeys _) ?_ hpath,
      noticed_congr (mem_sortedKeys_sourceMap hnodup)]
    intro other hother
    obtain ⟨entry, hentry, rfl⟩ :=
      List.mem_map.mp ((mem_sortedKeys_sourceMap hnodup other).mp hother)
    exact htree.formed entry hentry
  have hkey : ∀ k v, physical.get k = some v → v.path.getD [] = k := by
    intro k v hget
    rw [((hphysical k v).mp hget).2.1, Option.getD_some]
  have hfirst : ∀ path found, (captureExclusions (sortedKeys (sourceMap sourceEntries))
      (normalizePathRoots candidatePaths) exclusionByPath).get path = some found ↔
      Excluded scope path found ∧
        (Noticed (treePaths sourceEntries) path ∨ Noticed candidatePaths path) := by
    intro path found
    rw [get_captureExclusions, mem_exclusionRoots hscan hexcluded, hexcluded]
    constructor
    · intro h
      obtain ⟨-, hoverlaps, hentry⟩ := h
      have hpath := hformed hentry.1 hentry.2.1
      rw [hsource path hpath, hnoticed path hpath] at hoverlaps
      exact ⟨hentry, hoverlaps⟩
    · intro h
      obtain ⟨hentry, hoverlaps⟩ := h
      have hpath := hformed hentry.1 hentry.2.1
      rw [hsource path hpath, hnoticed path hpath]
      exact ⟨⟨found, hentry⟩, hoverlaps, hentry⟩
  have hfresh : ∀ entry ∈ physical.values,
      (captureExclusions (sortedKeys (sourceMap sourceEntries))
        (normalizePathRoots candidatePaths) exclusionByPath).get (entry.path.getD []) = none := by
    intro entry hentry
    obtain ⟨k, hget⟩ := mem_values_iff.mp hentry
    rw [hkey k entry hget]
    cases hfound : (captureExclusions (sortedKeys (sourceMap sourceEntries))
        (normalizePathRoots candidatePaths) exclusionByPath).get k with
    | none => rfl
    | some other =>
      obtain ⟨⟨hin, hpath, hyes⟩, -⟩ := (hfirst k other).mp hfound
      obtain ⟨hin', hpath', hno⟩ := (hphysical k entry).mp hget
      have hsame := hscan.eq_of_atOrBelow hin hin' hpath hpath' (Or.inl rfl)
      rw [hsame, hno] at hyes
      cases hyes
  rw [get_capturePhysical physical.values (nodup_values_map _ hkey) hfresh h, hfirst, Captures]
  refine or_congr_right ?_
  constructor
  · intro h
    obtain ⟨hin, hpath, hdiffers⟩ := h
    obtain ⟨k, hget⟩ := mem_values_iff.mp hin
    rw [hkey k found hget] at hpath
    subst hpath
    have hentry := (hphysical k found).mp hget
    rw [differs_iff hnodup hentry.2.1, hnoticed k (hformed hentry.1 hentry.2.1)] at hdiffers
    exact ⟨hentry, hdiffers⟩
  · intro h
    obtain ⟨hentry, hdiffers⟩ := h
    have hget := (hphysical path found).mpr hentry
    refine ⟨mem_values_iff.mpr ⟨path, hget⟩, hkey path found hget, ?_⟩
    rw [differs_iff hnodup hentry.2.1, hnoticed path (hformed hentry.1 hentry.2.1)]
    exact hdiffers

theorem mem_absentRootsOf (root : JsString) :
    root ∈ absentRootsOf (sortedKeys (sourceMap sourceEntries)) (sortedKeys physical)
        (normalizePathRoots candidatePaths) ↔
      RemovesRoot scope sourceEntries candidatePaths root := by
  have hphysicalPaths : ∀ path, path ∈ sortedKeys physical ↔ path ∈ physicalPaths scope := by
    intro path
    simp only [mem_sortedKeys, hphysical, mem_physicalPaths]
  have hphysicalFormed : ∀ path ∈ sortedKeys physical, hasUnpairedSurrogate path = false := by
    intro path hin
    obtain ⟨entry, hentry, hpath, -⟩ := mem_physicalPaths.mp ((hphysicalPaths path).mp hin)
    exact (hscan.named entry hentry path hpath).2
  have hsourceFormed : ∀ path ∈ sortedKeys (sourceMap sourceEntries),
      hasUnpairedSurrogate path = false := by
    intro path hin
    obtain ⟨entry, hentry, rfl⟩ := List.mem_map.mp ((mem_sortedKeys_sourceMap hnodup path).mp hin)
    exact htree.formed entry hentry
  rw [absentRootsOf, List.mem_filter, mem_normalizePathRoots, Bool.and_eq_true, Bool.not_eq_true',
    RemovesRoot]
  refine and_congr_right ?_
  intro hroot
  have hformed := hcandidates root hroot.1
  rw [← Bool.not_eq_true, hasPathAtOrBelow_iff (sorted_sortedKeys _) hphysicalFormed hformed,
    hasPathAtOrBelow_iff (sorted_sortedKeys _) hsourceFormed hformed,
    met_congr hphysicalPaths, met_congr (mem_sortedKeys_sourceMap hnodup)]

end

theorem mem_absent (hscan : Scan scope)
    (hphysical : ∀ path found, physical.get path = some found ↔ Physical scope path found)
    (hexcluded : ∀ path found, exclusionByPath.get path = some found ↔
      Excluded scope path found)
    {absentRoots : List JsString}
    (hroots : ∀ root, root ∈ absentRoots ↔
      RemovesRoot scope sourceEntries candidatePaths root)
    {path : JsString} :
    path ∈ ((findAbsent sourceEntries physical (normalizePathRoots exclusionByPath.keys)
        absentRoots).values.insertionSort fun left right =>
          left.pathBytes ≤ right.pathBytes).map AbsentEntry.path ↔
      Removes scope sourceEntries candidatePaths path := by
  have habsent := @get_findAbsent sourceEntries physical
    (normalizePathRoots exclusionByPath.keys) absentRoots
  have hentry : path ∈ ((findAbsent sourceEntries physical
        (normalizePathRoots exclusionByPath.keys) absentRoots).values.insertionSort
          fun left right => left.pathBytes ≤ right.pathBytes).map AbsentEntry.path ↔
      ∃ found, (findAbsent sourceEntries physical (normalizePathRoots exclusionByPath.keys)
        absentRoots).get path = some found := by
    rw [List.mem_map]
    simp only [List.mem_insertionSort, mem_values_iff]
    constructor
    · intro h
      obtain ⟨found, ⟨k, hget⟩, hpath⟩ := h
      have hvalue := ((habsent k found).mp hget).1
      rw [hvalue] at hpath
      exact ⟨found, hpath ▸ hget⟩
    · intro h
      obtain ⟨found, hget⟩ := h
      refine ⟨found, ⟨path, hget⟩, ?_⟩
      rw [((habsent path found).mp hget).1]
  have hnone : physical.get path = none ↔ path ∉ physicalPaths scope := by
    rw [mem_physicalPaths, Option.eq_none_iff_forall_ne_some]
    simp only [ne_eq, hphysical, not_exists]
  have hexclusions : hasCoveringPath (normalizePathRoots exclusionByPath.keys) path = false ↔
      ∀ root entry, Excluded scope root entry → ¬ AtOrBelow root path := by
    rw [← Bool.not_eq_true, hasCoveringPath_iff]
    simp only [mem_exclusionRoots hscan hexcluded]
    grind
  have hremoved : hasCoveringPath absentRoots path = false ↔
      ∀ root, RemovesRoot scope sourceEntries candidatePaths root → ¬ AtOrBelow root path := by
    rw [← Bool.not_eq_true, hasCoveringPath_iff]
    simp only [hroots]
    grind
  rw [hentry]
  simp only [habsent, hroots, hnone, hexclusions, hremoved, Removes, treePaths, List.mem_map]
  simp

/-- **What is planned.** -/
theorem planned (hscan : Scan scope) (htree : SourceTree sourceEntries)
    (hcandidates : ∀ path ∈ candidatePaths, hasUnpairedSurrogate path = false)
    {projection : GitBaselineProjection}
    (h : planGitBaselineProjection scope sourceEntries candidatePaths = some projection) :
    Planned scope sourceEntries candidatePaths projection ∧ (treePaths sourceEntries).Nodup ∧
      ∀ entry ∈ sourceEntries, entry.mode ∈ blobModes := by
  rw [planGitBaselineProjection] at h
  by_cases hsize : (sourceMap sourceEntries).size = sourceEntries.length
  swap
  · rw [if_pos hsize] at h
    cases h
  rw [if_neg (not_not_intro hsize)] at h
  by_cases hmodes : (sourceEntries.any fun entry => decide (entry.mode ∉ blobModes)) = true
  · rw [if_pos hmodes] at h
    cases h
  rw [if_neg hmodes] at h
  have hnodup : (treePaths sourceEntries).Nodup :=
    nodup_of_size GitBaselineTreeEntry.path id sourceEntries hsize
  have hblobs : ∀ entry ∈ sourceEntries, entry.mode ∈ blobModes := by
    intro entry hin
    by_contra hmode
    exact hmodes (List.any_eq_true.mpr ⟨entry, hin, decide_eq_true hmode⟩)
  cases hread : readScope scope.entries .empty .empty with
  | none => simp [hread] at h
  | some maps =>
    obtain ⟨physical, exclusionByPath⟩ := maps
    simp only [hread] at h
    by_cases hcount : physical.size = scope.eligibleEntryCount
    swap
    · rw [if_pos hcount] at h
      cases h
    rw [if_neg (not_not_intro hcount)] at h
    have hmaps := get_readScope scope.entries
      (fun entry hin path hpath => (hscan.named entry hin path hpath).1) hscan.apart
      (by simp) hread
    have hphysical : ∀ path found, physical.get path = some found ↔
        Physical scope path found := by
      intro path found
      simpa [Physical] using (hmaps path found).1
    have hexcluded : ∀ path found, exclusionByPath.get path = some found ↔
        Excluded scope path found := by
      intro path found
      simpa [Excluded] using (hmaps path found).2
    cases hcapture : capturePhysical (sourceMap sourceEntries)
        (normalizePathRoots candidatePaths) physical.values
        (captureExclusions (sortedKeys (sourceMap sourceEntries))
          (normalizePathRoots candidatePaths) exclusionByPath) with
    | none => simp [hcapture] at h
    | some capture =>
      simp only [hcapture, Option.some.injEq] at h
      subst h
      have hcaptures := get_capture hscan htree hcandidates hnodup hphysical hexcluded hcapture
      have hroots := mem_absentRootsOf hscan htree hcandidates hnodup hphysical
      have habsent := @get_findAbsent sourceEntries physical
        (normalizePathRoots exclusionByPath.keys)
        (absentRootsOf (sortedKeys (sourceMap sourceEntries))
          (sortedKeys physical) (normalizePathRoots candidatePaths))
      refine ⟨⟨?_, ?_, ?_, ?_⟩, hnodup, hblobs⟩
      · intro entry
        rw [List.mem_insertionSort, mem_values_iff]
        simp only [hcaptures]
      · intro path
        exact mem_absent hscan hphysical hexcluded hroots
      · refine ((List.perm_insertionSort _ _).map _).nodup_iff.mpr ?_
        have hkeys := nodup_values_map (m := capture) (fun entry => entry.path.getD [])
          (fun k v hget => by
            rcases (hcaptures k v).mp hget with ⟨hentry, -⟩ | ⟨hentry, -⟩ <;>
              rw [hentry.2.1, Option.getD_some])
        refine List.Nodup.of_map (fun path : Option JsString => path.getD []) ?_
        rw [List.map_map]
        exact hkeys
      · refine ((List.perm_insertionSort _ _).map _).nodup_iff.mpr ?_
        refine nodup_values_map _ ?_
        intro k v hget
        rw [((habsent k v).mp hget).1]

end Planned

end GitBaseline

end Workspace

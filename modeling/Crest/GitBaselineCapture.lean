import Crest.GitBaselineSafety

/-!
# The baseline against the full capture

What an update leaves at each path, and when the planned one leaves what capturing every file and
symbolic link of the scan would have written.  With the plan's own words for what is captured and
removed, each path is either physical, in the source tree, or in neither.
-/

namespace Workspace

open JsString ShadowIndex PathRoots

namespace GitBaseline

section Overlay

variable {index : List IndexEntry} {states : List PathState} {path : JsString}

theorem find_unique (entry : IndexEntry) (hin : entry ∈ index)
    (hunique : ∀ other ∈ index, other.path = entry.path → other = entry) :
    find index entry.path = some (entry.mode, entry.oid) := by
  cases hfound : find index entry.path with
  | none => exact absurd rfl (find_eq_none.mp hfound entry hin)
  | some found =>
    have hsame := hunique _ (mem_of_find hfound) rfl
    rw [← hsame]

theorem clears_iff :
    clears states path = true ↔ ∃ input ∈ states, AtOrBelow input.path path ∨
      (toIndexEntry input.path input.state).isSome = true ∧ IsAncestor path input.path := by
  simp only [clears, List.any_eq_true, Bool.or_eq_true, Bool.and_eq_true, beq_iff_eq,
    List.isPrefixOf_iff_prefix, AtOrBelow, IsAncestor]

end Overlay

section Entries

/-- The mode that a captured entry has in an index. -/
def WorkspaceScopeEntry.indexMode (entry : WorkspaceScopeEntry) : IndexMode :=
  if entry.kind = .symlink then .symlink
  else if entry.executable = some true then .executable
  else .file

theorem indexMode_expectedMode (entry : WorkspaceScopeEntry) :
    indexMode entry.expectedMode = some entry.indexMode := by
  rw [WorkspaceScopeEntry.expectedMode, WorkspaceScopeEntry.indexMode]
  split_ifs <;> decide +kernel

example : indexMode (js "100644") = some .file := by decide +kernel

theorem toIndexEntry_capturedState (path oid : JsString) (entry : WorkspaceScopeEntry) :
    toIndexEntry path (entry.capturedState oid) =
      if entry.isExcluded then none else some ⟨path, entry.indexMode, oid⟩ := by
  rw [WorkspaceScopeEntry.capturedState, WorkspaceScopeEntry.isExcluded,
    WorkspaceScopeEntry.indexMode]
  cases hkind : entry.kind with
  | excluded _ | symlink => rfl
  | file =>
    by_cases hexecutable : entry.executable = some true
    all_goals simp [toIndexEntry, hexecutable]

variable {content : JsString → JsString} {entries : List WorkspaceScopeEntry} {path : JsString}

theorem mem_captureEntries {input : PathState} :
    input ∈ captureEntries content entries ↔
      ∃ entry ∈ entries, ∃ path, entry.path = some path ∧
        input = ⟨path, entry.capturedState (content path)⟩ := by
  simp only [captureEntries, List.mem_filterMap, Option.map_eq_some_iff]
  grind

theorem mem_workspaceTree {found : IndexEntry} :
    found ∈ workspaceTree (captureEntries content entries) ↔
      ∃ entry ∈ entries, ∃ path, entry.path = some path ∧ entry.isExcluded = false ∧
        found = ⟨path, entry.indexMode, content path⟩ := by
  simp only [workspaceTree, List.mem_filterMap, mem_captureEntries]
  constructor
  · intro h
    obtain ⟨input, ⟨entry, hentry, path, hpath, rfl⟩, hadds⟩ := h
    rw [toIndexEntry_capturedState] at hadds
    cases hexcluded : entry.isExcluded with
    | true => simp [hexcluded] at hadds
    | false =>
      rw [hexcluded, if_neg (by simp)] at hadds
      exact ⟨entry, hentry, path, hpath, hexcluded, (Option.some.inj hadds).symm⟩
  · intro h
    obtain ⟨entry, hentry, path, hpath, hexcluded, rfl⟩ := h
    refine ⟨_, ⟨entry, hentry, path, hpath, rfl⟩, ?_⟩
    rw [toIndexEntry_capturedState, hexcluded, if_neg (by simp)]

theorem find_captured {entry : WorkspaceScopeEntry} (hentry : entry ∈ entries)
    (hpath : entry.path = some path) (hexcluded : entry.isExcluded = false)
    (hunique : ∀ other ∈ entries, other.path = some path → other = entry) :
    find (workspaceTree (captureEntries content entries)) path =
      some (entry.indexMode, content path) := by
  refine find_unique ⟨path, entry.indexMode, content path⟩
    (mem_workspaceTree.mpr ⟨entry, hentry, path, hpath, hexcluded, rfl⟩) ?_
  intro found hfound hsame
  obtain ⟨other, hother, path', hpath', -, rfl⟩ := mem_workspaceTree.mp hfound
  obtain rfl : path' = path := hsame
  rw [hunique other hother hpath']

theorem find_captured_none
    (hnone : ∀ entry ∈ entries, entry.path = some path → entry.isExcluded = true) :
    find (workspaceTree (captureEntries content entries)) path = none := by
  refine find_eq_none.mpr ?_
  intro found hfound hsame
  obtain ⟨entry, hentry, path', hpath', hexcluded, rfl⟩ := mem_workspaceTree.mp hfound
  obtain rfl : path' = path := hsame
  rw [hnone entry hentry hpath'] at hexcluded
  cases hexcluded

theorem workspaceTree_mutations (projection : GitBaselineProjection) :
    workspaceTree (mutations content projection) =
      workspaceTree (captureEntries content projection.captureEntries) := by
  have hnone : workspaceTree (projection.absentEntries.map fun entry =>
      (⟨entry.path, .absent⟩ : PathState)) = [] := by
    refine List.filterMap_eq_nil_iff.mpr ?_
    intro input hinput
    obtain ⟨entry, -, rfl⟩ := List.mem_map.mp hinput
    rfl
  rw [mutations, workspaceTree, List.filterMap_append]
  change workspaceTree _ ++ workspaceTree _ = workspaceTree _
  rw [hnone, List.append_nil]

theorem clears_mutations {projection : GitBaselineProjection} :
    clears (mutations content projection) path = true ↔
      (∃ entry ∈ projection.captureEntries, ∃ other, entry.path = some other ∧
        (AtOrBelow other path ∨ entry.isExcluded = false ∧ IsAncestor path other)) ∨
      ∃ other ∈ projection.absentEntries.map AbsentEntry.path, AtOrBelow other path := by
  rw [clears_iff]
  constructor
  · intro h
    obtain ⟨input, hinput, hcases⟩ := h
    rcases List.mem_append.mp hinput with hin | hin
    · obtain ⟨entry, hentry, other, hpath, rfl⟩ := mem_captureEntries.mp hin
      refine Or.inl ⟨entry, hentry, other, hpath, ?_⟩
      rw [toIndexEntry_capturedState] at hcases
      cases hexcluded : entry.isExcluded with
      | true | false => simpa [hexcluded] using hcases
    · obtain ⟨absent, habsent, rfl⟩ := List.mem_map.mp hin
      refine Or.inr ⟨absent.path, List.mem_map_of_mem habsent, ?_⟩
      simpa [toIndexEntry] using hcases
  · intro h
    rcases h with ⟨entry, hentry, other, hpath, hcases⟩ | ⟨other, hother, hat⟩
    · refine ⟨_, List.mem_append_left _
        (mem_captureEntries.mpr ⟨entry, hentry, other, hpath, rfl⟩), ?_⟩
      rw [toIndexEntry_capturedState]
      rcases hcases with hat | ⟨hexcluded, hdown⟩
      · exact Or.inl hat
      · exact Or.inr ⟨by simp [hexcluded], hdown⟩
    · obtain ⟨absent, habsent, rfl⟩ := List.mem_map.mp hother
      exact ⟨_, List.mem_append_right _ (List.mem_map_of_mem habsent), Or.inl hat⟩

end Entries

section Source

variable {sourceEntries : List GitBaselineTreeEntry}

theorem find_source (hnodup : (treePaths sourceEntries).Nodup)
    {entry : GitBaselineTreeEntry} (hentry : entry ∈ sourceEntries) {mode : IndexMode}
    (hmode : indexMode entry.mode = some mode) :
    find (sourceIndex sourceEntries) entry.path = some (mode, entry.oid) := by
  refine find_unique ⟨entry.path, mode, entry.oid⟩
    (List.mem_filterMap.mpr ⟨entry, hentry, by rw [hmode]; rfl⟩) ?_
  intro found hfound hsame
  obtain ⟨other, hother, hadds⟩ := List.mem_filterMap.mp hfound
  obtain ⟨mode', hmode', rfl⟩ := Option.map_eq_some_iff.mp hadds
  have heq := List.inj_on_of_nodup_map hnodup hother hentry hsame
  rw [heq] at hmode' ⊢
  rw [Option.some.inj (hmode'.symm.trans hmode)]

theorem find_source_none {path : JsString} (hnone : path ∉ treePaths sourceEntries) :
    find (sourceIndex sourceEntries) path = none := by
  refine find_eq_none.mpr ?_
  intro found hfound hsame
  obtain ⟨entry, hentry, hadds⟩ := List.mem_filterMap.mp hfound
  obtain ⟨mode, -, rfl⟩ := Option.map_eq_some_iff.mp hadds
  exact hnone (List.mem_map.mpr ⟨entry, hentry, hsame⟩)

theorem exists_indexMode {mode : JsString} (h : mode ∈ blobModes) :
    ∃ found, indexMode mode = some found := by
  simp only [blobModes, List.mem_cons, List.not_mem_nil, or_false] at h
  rcases h with rfl | rfl | rfl
  · exact ⟨.file, by decide +kernel⟩
  · exact ⟨.executable, by decide +kernel⟩
  · exact ⟨.symlink, by decide +kernel⟩

end Source

section Equal

variable (scope : WorkspaceScope) (sourceEntries : List GitBaselineTreeEntry)
  (candidatePaths : List JsString) (content : JsString → JsString)

/-- A tracked file that is neither at, above nor below a candidate has the content of its entry in
the source tree. -/
def Unchanged : Prop :=
  ∀ path entry, Physical scope path entry → entry.tracked = true →
    (∀ candidate ∈ candidatePaths, ¬ AtOrBelow candidate path ∧ ¬ IsAncestor path candidate) →
    ∀ sourceEntry ∈ sourceEntries, sourceEntry.path = path → content path = sourceEntry.oid

/-- The plan is the full capture, and no path is listed twice. -/
structure IsFullCapture (projection : GitBaselineProjection) : Prop where
  /-- The update leaves the tree that capturing the whole scope writes. -/
  tree : ∀ path, overlay (sourceIndex sourceEntries) (mutations content projection) path =
    find (workspaceTree (captureEntries content scope.entries)) path
  /-- No path is both captured and removed. -/
  disjoint : ∀ entry ∈ projection.captureEntries, ∀ path, entry.path = some path →
    path ∉ projection.absentEntries.map AbsentEntry.path
  captureOnce : (projection.captureEntries.map WorkspaceScopeEntry.path).Nodup
  absentOnce : (projection.absentEntries.map AbsentEntry.path).Nodup

/-- What has to be seen in the lists of paths. -/
structure Seen : Prop where
  /-- An excluded directory with files of the tree below it is noticed, or each of the files is
  below a candidate root that is met. -/
  exclusions : ∀ path entry, Excluded scope path entry → ∀ sourceEntry ∈ sourceEntries,
    IsAncestor path sourceEntry.path →
      Noticed (treePaths sourceEntries) path ∨ Noticed candidatePaths path ∨
        ∃ root, IsRoot candidatePaths root ∧ AtOrBelow root sourceEntry.path ∧
          Met (treePaths sourceEntries) root
  /-- A tracked file above a candidate, of the mode that the tree has for it, is noticed or has not
  changed. -/
  changes : ∀ path entry, Physical scope path entry → entry.tracked = true →
    ∀ sourceEntry ∈ sourceEntries, sourceEntry.path = path →
      sourceEntry.mode = entry.expectedMode →
      (∃ candidate ∈ candidatePaths, IsAncestor path candidate) →
        Noticed candidatePaths path ∨ content path = sourceEntry.oid
  /-- An excluded path that is a candidate root is not met in the tree. -/
  roots : ∀ path entry, Excluded scope path entry → IsRoot candidatePaths path →
    ¬ Met (treePaths sourceEntries) path

variable {scope} {sourceEntries} {candidatePaths} {content} {projection : GitBaselineProjection}

variable {path : JsString}

theorem not_met_of_excluded (hscan : Scan scope) {root : JsString}
    {entry : WorkspaceScopeEntry} (hexcluded : Excluded scope path entry)
    (hat : AtOrBelow path root) :
    ¬ Met (physicalPaths scope) root := by
  have hnone : ∀ other ∈ physicalPaths scope, ¬ AtOrBelow root other := by
    intro other hother hbelow
    obtain ⟨found, hfound, hpath, hno⟩ := mem_physicalPaths.mp hother
    have hsame := hscan.eq_of_atOrBelow hexcluded.1 hfound hexcluded.2.1 hpath (hat.trans hbelow)
    rw [← hsame, hexcluded.2.2] at hno
    cases hno
  intro h
  rcases h with hin | ⟨⟨other, hother, hbelow⟩, -⟩
  · exact hnone root hin (Or.inl rfl)
  · exact hnone other hother (Or.inr hbelow)

theorem SourceTree.eq_of_atOrBelow (htree : SourceTree sourceEntries) {other : JsString}
    (hpath : path ∈ treePaths sourceEntries) (hother : other ∈ treePaths sourceEntries)
    (h : AtOrBelow path other) :
    path = other := by
  obtain ⟨entry, hentry, rfl⟩ := List.mem_map.mp hpath
  obtain ⟨entry', hentry', rfl⟩ := List.mem_map.mp hother
  rcases h with heq | hup
  · exact heq
  · exact absurd hup (htree.prefixFree entry hentry entry' hentry')

/-- **No path is both captured and removed exactly if no excluded candidate root is met.** -/
theorem disjoint_iff (hscan : Scan scope)
    (hplanned : Planned scope sourceEntries candidatePaths projection) :
    (∀ entry ∈ projection.captureEntries, ∀ path, entry.path = some path →
        path ∉ projection.absentEntries.map AbsentEntry.path) ↔
      ∀ path entry, Excluded scope path entry → IsRoot candidatePaths path →
        ¬ Met (treePaths sourceEntries) path := by
  constructor
  · intro hdisjoint path entry hexcluded hroot hmet
    have hcaptured := (hplanned.captures entry).mpr ⟨path, Or.inl ⟨hexcluded,
      Or.inr (Or.inl ⟨path, hroot.1, Or.inl rfl⟩)⟩⟩
    refine hdisjoint entry hcaptured path hexcluded.2.1 ((hplanned.removes path).mpr ?_)
    exact Or.inl ⟨hroot, not_met_of_excluded hscan hexcluded (Or.inl rfl), hmet⟩
  · intro hroots entry hentry path hpath habsent
    obtain ⟨other, hcaptures⟩ := (hplanned.captures entry).mp hentry
    rcases (hplanned.removes path).mp habsent with ⟨hroot, hphysical, hmet⟩ |
        ⟨-, hphysical, hexclusions, -⟩
    · rcases hcaptures with ⟨⟨hin, hother, hyes⟩, -⟩ | ⟨⟨hin, hother, hno⟩, -⟩
      · exact hroots path entry ⟨hin, hpath, hyes⟩ hroot hmet
      · exact hphysical (Or.inl (mem_physicalPaths.mpr ⟨entry, hin, hpath, hno⟩))
    · rcases hcaptures with ⟨⟨hin, hother, hyes⟩, -⟩ | ⟨⟨hin, hother, hno⟩, -⟩
      · exact hexclusions path entry ⟨hin, hpath, hyes⟩ (Or.inl rfl)
      · exact hphysical (mem_physicalPaths.mpr ⟨entry, hin, hpath, hno⟩)

theorem find_full (hscan : Scan scope) {entry : WorkspaceScopeEntry}
    (h : Physical scope path entry) :
    find (workspaceTree (captureEntries content scope.entries)) path =
      some (entry.indexMode, content path) := by
  refine find_captured h.1 h.2.1 h.2.2 ?_
  intro other hother hpath
  exact hscan.eq_of_atOrBelow hother h.1 hpath h.2.1 (Or.inl rfl)

theorem find_full_none (h : path ∉ physicalPaths scope) :
    find (workspaceTree (captureEntries content scope.entries)) path = none := by
  refine find_captured_none ?_
  intro entry hentry hpath
  cases hexcluded : entry.isExcluded with
  | true => rfl
  | false => exact absurd (mem_physicalPaths.mpr ⟨entry, hentry, hpath, hexcluded⟩) h

theorem Planned.mem_scope (hplanned : Planned scope sourceEntries candidatePaths projection)
    {entry : WorkspaceScopeEntry} (h : entry ∈ projection.captureEntries) :
    entry ∈ scope.entries := by
  obtain ⟨path, hcaptures⟩ := (hplanned.captures entry).mp h
  rcases hcaptures with ⟨hentry, -⟩ | ⟨hentry, -⟩ <;> exact hentry.1

theorem overlay_captured (hscan : Scan scope)
    (hplanned : Planned scope sourceEntries candidatePaths projection)
    {entry : WorkspaceScopeEntry} (h : Physical scope path entry)
    (hcaptured : entry ∈ projection.captureEntries) :
    overlay (sourceIndex sourceEntries) (mutations content projection) path =
      some (entry.indexMode, content path) := by
  rw [overlay, workspaceTree_mutations, find_captured hcaptured h.2.1 h.2.2, Option.some_or]
  intro other hother hpath
  exact hscan.eq_of_atOrBelow (hplanned.mem_scope hother) h.1 hpath h.2.1 (Or.inl rfl)

variable (content) in
/-- **A file that is not captured is the one of the source tree.** -/
theorem overlay_kept (hscan : Scan scope) (htree : SourceTree sourceEntries)
    (hnodup : (treePaths sourceEntries).Nodup)
    (hplanned : Planned scope sourceEntries candidatePaths projection)
    {entry : WorkspaceScopeEntry} (h : Physical scope path entry)
    (hcaptured : entry ∉ projection.captureEntries) :
    entry.tracked = true ∧ ¬ Noticed candidatePaths path ∧
      ∃ sourceEntry ∈ sourceEntries, sourceEntry.path = path ∧
        sourceEntry.mode = entry.expectedMode ∧
        overlay (sourceIndex sourceEntries) (mutations content projection) path =
          some (entry.indexMode, sourceEntry.oid) := by
  have hnot : ¬ Captures scope sourceEntries candidatePaths path entry :=
    fun hcaptures => hcaptured ((hplanned.captures entry).mpr ⟨path, hcaptures⟩)
  have htracked : entry.tracked = true := by
    cases htracked : entry.tracked with
    | true => rfl
    | false => exact absurd (Or.inr ⟨h, Or.inl htracked⟩) hnot
  have hnoticed : ¬ Noticed candidatePaths path :=
    fun hyes => hnot (Or.inr ⟨h, Or.inr (Or.inr hyes)⟩)
  have hsource : ∃ sourceEntry ∈ sourceEntries, sourceEntry.path = path ∧
      sourceEntry.mode = entry.expectedMode := by
    by_contra hnone
    refine hnot (Or.inr ⟨h, Or.inr (Or.inl ?_)⟩)
    intro sourceEntry hin hpath hmode
    exact hnone ⟨sourceEntry, hin, hpath, hmode⟩
  obtain ⟨sourceEntry, hin, hpath, hmode⟩ := hsource
  refine ⟨htracked, hnoticed, sourceEntry, hin, hpath, hmode, ?_⟩
  -- no captured entry is at, above or below the path
  have hother : ∀ other ∈ projection.captureEntries, ∀ name, other.path = some name →
      ¬ AtOrBelow name path ∧ ¬ IsAncestor path name := by
    intro other hother name hname
    have hscope := hplanned.mem_scope hother
    constructor
    · intro hat
      rw [hscan.eq_of_atOrBelow hscope h.1 hname h.2.1 hat] at hother
      exact hcaptured hother
    · intro hdown
      rw [← hscan.eq_of_atOrBelow h.1 hscope h.2.1 hname (Or.inr hdown)] at hother
      exact hcaptured hother
  have hmem : path ∈ treePaths sourceEntries := List.mem_map.mpr ⟨sourceEntry, hin, hpath⟩
  have habsent : ∀ other ∈ projection.absentEntries.map AbsentEntry.path,
      ¬ AtOrBelow other path := by
    intro other hother hat
    rcases (hplanned.removes other).mp hother with ⟨hroot, -⟩ | ⟨hintree, hphysical, -⟩
    · exact hnoticed (Or.inl ⟨other, hroot.1, hat⟩)
    · rw [htree.eq_of_atOrBelow hintree hmem hat] at hphysical
      exact hphysical (mem_physicalPaths.mpr ⟨entry, h⟩)
  have hclears : clears (mutations content projection) path = false := by
    rw [← Bool.not_eq_true, clears_mutations]
    intro hyes
    rcases hyes with ⟨other, hcaptured', name, hname, hat | ⟨-, hdown⟩⟩ | ⟨other, hin', hat⟩
    · exact (hother other hcaptured' name hname).1 hat
    · exact (hother other hcaptured' name hname).2 hdown
    · exact habsent other hin' hat
  rw [overlay, workspaceTree_mutations, find_captured_none, Option.none_or, hclears,
    if_neg (by simp), ← hpath]
  · refine find_source hnodup hin ?_
    rw [hmode]
    exact indexMode_expectedMode entry
  · intro other hother' hname
    exact absurd (Or.inl rfl) (hother other hother' path hname).1

variable (content) in
/-- **Where the update removes a file of the source tree that the scan has not found.** -/
theorem clears_iff_seen (hscan : Scan scope) (htree : SourceTree sourceEntries)
    (hplanned : Planned scope sourceEntries candidatePaths projection)
    {sourceEntry : GitBaselineTreeEntry} (hin : sourceEntry ∈ sourceEntries)
    (hphysical : sourceEntry.path ∉ physicalPaths scope) :
    clears (mutations content projection) sourceEntry.path = true ↔
      ∀ path entry, Excluded scope path entry → IsAncestor path sourceEntry.path →
        Noticed (treePaths sourceEntries) path ∨ Noticed candidatePaths path ∨
          ∃ root, IsRoot candidatePaths root ∧ AtOrBelow root sourceEntry.path ∧
            Met (treePaths sourceEntries) root := by
  have hmem : sourceEntry.path ∈ treePaths sourceEntries := List.mem_map_of_mem hin
  rw [clears_mutations]
  constructor
  · intro hclears path entry hexcluded hup
    rcases hclears with ⟨other, hother, name, hname, hcases⟩ | ⟨other, hother, hat⟩
    · -- what is captured there is the exclusion itself
      obtain ⟨name', hcaptures⟩ := (hplanned.captures other).mp hother
      have hscope := hplanned.mem_scope hother
      have hsame : other = entry := by
        rcases hcases with hat | ⟨-, hdown⟩
        · rcases atOrBelow_total hat (Or.inr hup) with hle | hle
          · exact hscan.eq_of_atOrBelow hscope hexcluded.1 hname hexcluded.2.1 hle
          · exact (hscan.eq_of_atOrBelow hexcluded.1 hscope hexcluded.2.1 hname hle).symm
        · exact (hscan.eq_of_atOrBelow hexcluded.1 hscope hexcluded.2.1 hname
            (Or.inr (hup.trans hdown))).symm
      rw [hsame] at hcaptures
      rcases hcaptures with ⟨⟨-, hpath', -⟩, hnoticed⟩ | ⟨⟨-, -, hno⟩, -⟩
      · rw [hexcluded.2.1] at hpath'
        rw [Option.some.inj hpath']
        exact hnoticed.imp_right Or.inl
      · rw [hexcluded.2.2] at hno
        cases hno
    · rcases (hplanned.removes other).mp hother with ⟨hroot, -, hmet⟩ | ⟨hintree, -, hnone, -⟩
      · exact Or.inr (Or.inr ⟨other, hroot, hat, hmet⟩)
      · rw [htree.eq_of_atOrBelow hintree hmem hat] at hnone
        exact absurd (Or.inr hup) (hnone path entry hexcluded)
  · intro hseen
    by_cases hexcluded : ∃ path entry, Excluded scope path entry ∧
        AtOrBelow path sourceEntry.path
    · obtain ⟨path, entry, hexcluded, hat⟩ := hexcluded
      have hcapture : Noticed (treePaths sourceEntries) path ∨ Noticed candidatePaths path →
          ∃ other ∈ projection.captureEntries, ∃ name, other.path = some name ∧
            (AtOrBelow name sourceEntry.path ∨
              other.isExcluded = false ∧ IsAncestor sourceEntry.path name) := by
        intro hnoticed
        exact ⟨entry, (hplanned.captures entry).mpr ⟨path, Or.inl ⟨hexcluded, hnoticed⟩⟩, path,
          hexcluded.2.1, Or.inl hat⟩
      by_cases hnoticed : Noticed (treePaths sourceEntries) path ∨ Noticed candidatePaths path
      · exact Or.inl (hcapture hnoticed)
      · rcases hat with rfl | hup
        · exact absurd (Or.inl (Or.inl ⟨_, hmem, Or.inl rfl⟩)) hnoticed
        · rcases hseen path entry hexcluded hup with h | h | ⟨root, hroot, hbelow, hmet⟩
          · exact Or.inl (hcapture (Or.inl h))
          · exact Or.inl (hcapture (Or.inr h))
          · rcases atOrBelow_total hbelow (Or.inr hup) with hle | hle
            · exact absurd (Or.inr (Or.inl ⟨root, hroot.1, hle⟩)) hnoticed
            · refine Or.inr ⟨root, (hplanned.removes root).mpr (Or.inl ⟨hroot, ?_, hmet⟩), hbelow⟩
              exact not_met_of_excluded hscan hexcluded hle
    · by_cases hroot : ∃ root, RemovesRoot scope sourceEntries candidatePaths root ∧
          AtOrBelow root sourceEntry.path
      · obtain ⟨root, hremoves, hat⟩ := hroot
        exact Or.inr ⟨root, (hplanned.removes root).mpr (Or.inl hremoves), hat⟩
      · refine Or.inr ⟨sourceEntry.path, (hplanned.removes _).mpr (Or.inr ⟨hmem, hphysical, ?_, ?_⟩),
          Or.inl rfl⟩
        · intro path entry hyes hat
          exact hexcluded ⟨path, entry, hyes, hat⟩
        · intro root hyes hat
          exact hroot ⟨root, hyes, hat⟩

/-- **The planned baseline is the full capture exactly if what it has to see is seen.** -/
theorem isFullCapture_iff_seen
    (hscan : Scan scope) (htree : SourceTree sourceEntries)
    (hcandidates : ∀ path ∈ candidatePaths, hasUnpairedSurrogate path = false)
    (hunchanged : Unchanged scope sourceEntries candidatePaths content)
    (h : planGitBaselineProjection scope sourceEntries candidatePaths = some projection) :
    IsFullCapture scope sourceEntries content projection ↔
      Seen scope sourceEntries candidatePaths content := by
  obtain ⟨hplanned, hnodup, hmodes⟩ := planned hscan htree hcandidates h
  have hadded : ∀ {path : JsString}, path ∉ physicalPaths scope →
      find (workspaceTree (mutations content projection)) path = none := by
    intro path hphysical
    rw [workspaceTree_mutations]
    refine find_captured_none ?_
    intro entry hentry hpath
    cases hexcluded : entry.isExcluded with
    | true => rfl
    | false =>
      exact absurd (mem_physicalPaths.mpr
        ⟨entry, hplanned.mem_scope hentry, hpath, hexcluded⟩) hphysical
  constructor
  · intro hfull
    refine ⟨?_, ?_, (disjoint_iff hscan hplanned).mp hfull.disjoint⟩
    · intro path entry hexcluded sourceEntry hin hup
      have hphysical : sourceEntry.path ∉ physicalPaths scope := by
        intro hyes
        exact not_met_of_excluded hscan hexcluded (Or.inr hup) (Or.inl hyes)
      have hequal := hfull.tree sourceEntry.path
      rw [find_full_none hphysical, overlay, hadded hphysical, Option.none_or] at hequal
      refine (clears_iff_seen content hscan htree hplanned hin hphysical).mp ?_ path entry hexcluded hup
      cases hclears : clears (mutations content projection) sourceEntry.path with
      | true => rfl
      | false =>
        obtain ⟨mode, hmode⟩ := exists_indexMode (hmodes sourceEntry hin)
        rw [hclears, if_neg (by simp), find_source hnodup hin hmode] at hequal
        cases hequal
    · intro path entry hphysical htracked sourceEntry hin hpath hmode hbelow
      by_cases hnoticed : Noticed candidatePaths path
      · exact Or.inl hnoticed
      · refine Or.inr ?_
        have hcaptured : entry ∉ projection.captureEntries := by
          intro hyes
          obtain ⟨name, hcaptures⟩ := (hplanned.captures entry).mp hyes
          rcases hcaptures with ⟨⟨-, -, hexcluded⟩, -⟩ | ⟨⟨-, hname, -⟩, hcases⟩
          · rw [hphysical.2.2] at hexcluded
            cases hexcluded
          · obtain rfl := Option.some.inj (hname.symm.trans hphysical.2.1)
            rcases hcases with hno | hno | hyes
            · rw [htracked] at hno
              cases hno
            · exact hno sourceEntry hin hpath hmode
            · exact hnoticed hyes
        obtain ⟨-, -, other, hother, hpath', -, hkept⟩ :=
          overlay_kept content hscan htree hnodup hplanned hphysical hcaptured
        have hsame := List.inj_on_of_nodup_map hnodup hother hin (hpath'.trans hpath.symm)
        have hequal := hfull.tree path
        rw [hkept, find_full hscan hphysical, hsame] at hequal
        exact (Prod.mk.inj (Option.some.inj hequal)).2.symm
  · intro hseen
    refine ⟨?_, (disjoint_iff hscan hplanned).mpr hseen.roots, hplanned.captureOnce,
      hplanned.absentOnce⟩
    intro path
    by_cases hphysical : path ∈ physicalPaths scope
    · obtain ⟨entry, hentry⟩ := mem_physicalPaths.mp hphysical
      rw [find_full hscan hentry]
      by_cases hcaptured : entry ∈ projection.captureEntries
      · exact overlay_captured hscan hplanned hentry hcaptured
      · obtain ⟨htracked, hnoticed, sourceEntry, hin, hpath, hmode, hkept⟩ :=
          overlay_kept content hscan htree hnodup hplanned hentry hcaptured
        have hcontent : content path = sourceEntry.oid := by
          by_cases hbelow : ∃ candidate ∈ candidatePaths, IsAncestor path candidate
          · exact (hseen.changes path entry hentry htracked sourceEntry hin hpath hmode
              hbelow).resolve_left hnoticed
          · refine hunchanged path entry hentry htracked ?_ sourceEntry hin hpath
            intro candidate hcandidate
            exact ⟨fun hat => hnoticed (Or.inl ⟨candidate, hcandidate, hat⟩),
              fun hdown => hbelow ⟨candidate, hcandidate, hdown⟩⟩
        rw [hkept, hcontent]
    · rw [find_full_none hphysical, overlay, hadded hphysical, Option.none_or]
      by_cases hin : path ∈ treePaths sourceEntries
      · obtain ⟨sourceEntry, hsource, rfl⟩ := List.mem_map.mp hin
        have hclears := (clears_iff_seen content hscan htree hplanned hsource
          hphysical).mpr fun path entry hexcluded hup =>
            hseen.exclusions path entry hexcluded sourceEntry hsource hup
        rw [hclears, if_pos rfl]
      · rw [find_source_none hin]
        exact ite_self _

/-- A directory that is excluded, with a file of the commit below it. -/
theorem isFullCapture_excluded_directory :
    IsFullCapture ⟨[⟨[97], some (js "a"), .excluded .nestedRepository, false, none, none⟩], 0⟩
      [⟨js "a/c", js "100644", zeroOid⟩] (fun _ => zeroOid)
      ⟨[⟨[97], some (js "a"), .excluded .nestedRepository, false, none, none⟩], []⟩ := by
  have hplan : planGitBaselineProjection
      ⟨[⟨[97], some (js "a"), .excluded .nestedRepository, false, none, none⟩], 0⟩
      [⟨js "a/c", js "100644", zeroOid⟩] [] =
        some ⟨[⟨[97], some (js "a"), .excluded .nestedRepository, false, none, none⟩], []⟩ := by
    decide +kernel
  refine (isFullCapture_iff_seen ⟨?_, by simp⟩ ⟨?_, ?_⟩ (by simp) ?_ hplan).mpr ⟨?_, ?_, ?_⟩
  · intro entry hentry path hpath
    obtain rfl := List.mem_singleton.mp hentry
    obtain rfl := Option.some.inj hpath
    exact ⟨by decide, by decide +kernel⟩
  · intro entry hentry
    obtain rfl := List.mem_singleton.mp hentry
    decide +kernel
  · intro entry hentry other hother
    obtain rfl := List.mem_singleton.mp hentry
    obtain rfl := List.mem_singleton.mp hother
    exact IsAncestor.irrefl _
  · intro path entry hphysical
    obtain ⟨hentry, -, hno⟩ := hphysical
    obtain rfl := List.mem_singleton.mp hentry
    cases hno
  · intro path entry hexcluded sourceEntry hsource hup
    obtain rfl := List.mem_singleton.mp hsource
    refine Or.inl (Or.inr ⟨⟨_, List.mem_cons_self, hup⟩, ?_⟩)
    intro other hother hbeside
    obtain rfl := List.mem_singleton.mp hother
    exact absurd (hbeside.utf8_lt.2 _ hup) (List.lt_irrefl _)
  · intro path entry hphysical
    obtain ⟨hentry, -, hno⟩ := hphysical
    obtain rfl := List.mem_singleton.mp hentry
    cases hno
  · intro path entry hexcluded hroot
    cases hroot.1

/-- **A file of the commit survives below a directory that is excluded**: the path of another file
comes between the directory and it. -/
theorem excluded_file_survives :
    ¬ ∀ (scope : WorkspaceScope) (sourceEntries : List GitBaselineTreeEntry)
      (candidatePaths : List JsString) (content : JsString → JsString)
      (projection : GitBaselineProjection),
      Scan scope → SourceTree sourceEntries →
      (∀ path ∈ candidatePaths, hasUnpairedSurrogate path = false) →
      Unchanged scope sourceEntries candidatePaths content →
      planGitBaselineProjection scope sourceEntries candidatePaths = some projection →
      IsFullCapture scope sourceEntries content projection := by
  intro hall
  have hfull := hall
    ⟨[⟨[97], some (js "a"), .excluded .nestedRepository, false, none, none⟩,
      ⟨[97, 45, 98], some (js "a-b"), .file, true, some false, some 1⟩], 1⟩
    [⟨js "a-b", js "100644", zeroOid⟩, ⟨js "a/c", js "100644", zeroOid⟩] []
    (fun _ => zeroOid) ⟨[], []⟩ ⟨?_, ?_⟩ ⟨?_, ?_⟩ (by simp) ?_ (by decide +kernel)
  · have htree := hfull.tree (js "a/c")
    revert htree
    decide +kernel
  · have hnamed : ([⟨[97], some (js "a"), .excluded .nestedRepository, false, none, none⟩,
        ⟨[97, 45, 98], some (js "a-b"), .file, true, some false, some 1⟩] :
        List WorkspaceScopeEntry).all (fun entry => entry.path.all fun path =>
          decide (path ≠ []) && !hasUnpairedSurrogate path) = true := by
      decide +kernel
    intro entry hentry path hpath
    have hone := List.all_eq_true.mp hnamed entry hentry
    rw [hpath] at hone
    simpa using hone
  · refine List.pairwise_pair.mpr ?_
    intro path other hpath hother
    obtain rfl := Option.some.inj hpath
    obtain rfl := Option.some.inj hother
    simp only [AtOrBelow, IsAncestor, ← List.isPrefixOf_iff_prefix]
    decide +kernel
  · have hformed : ([⟨js "a-b", js "100644", zeroOid⟩, ⟨js "a/c", js "100644", zeroOid⟩] :
        List GitBaselineTreeEntry).all (fun entry => !hasUnpairedSurrogate entry.path) = true := by
      decide +kernel
    intro entry hentry
    simpa using List.all_eq_true.mp hformed entry hentry
  · have hfree : ([⟨js "a-b", js "100644", zeroOid⟩, ⟨js "a/c", js "100644", zeroOid⟩] :
        List GitBaselineTreeEntry).all (fun entry =>
          ([⟨js "a-b", js "100644", zeroOid⟩, ⟨js "a/c", js "100644", zeroOid⟩] :
            List GitBaselineTreeEntry).all fun other =>
              !(entry.path ++ [0x2F]).isPrefixOf other.path) = true := by
      decide +kernel
    intro entry hentry other hother habove
    have hone := List.all_eq_true.mp (List.all_eq_true.mp hfree entry hentry) other hother
    rw [Bool.not_eq_true', ← Bool.not_eq_true, List.isPrefixOf_iff_prefix] at hone
    exact hone habove
  · intro path entry hphysical htracked hapart sourceEntry hsource hpath
    have hoids : ([⟨js "a-b", js "100644", zeroOid⟩, ⟨js "a/c", js "100644", zeroOid⟩] :
        List GitBaselineTreeEntry).all (fun entry => decide (zeroOid = entry.oid)) = true := by
      decide +kernel
    simpa using List.all_eq_true.mp hoids sourceEntry hsource

end Equal

end GitBaseline

end Workspace

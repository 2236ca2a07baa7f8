import Crest.ShadowIndexUpdate

/-!
# The right tree

The removals of an update are the entries at and under the named paths, and the directories of
those that are added.  Every one of them goes before an addition comes, and no addition is at a
directory of another; so the index stays that of a tree.
-/

namespace Workspace

open JsString

namespace ShadowIndex

section Removals

theorem parseEntries_ok {index : List IndexEntry} (seen : List JsString) (h : Entries index)
    (hseen : ∀ entry ∈ index, entry.path ∉ seen) :
    parseEntries seen index = .ok index := by
  induction index generalizing seen with
  | nil => rfl
  | cons entry rest ih =>
    obtain ⟨hnew, hnodup⟩ := List.nodup_cons.mp h.nodup
    have hrest : Entries rest :=
      ⟨fun other hother => h.relative other (List.mem_cons_of_mem _ hother),
        fun other hother => h.formed other (List.mem_cons_of_mem _ hother),
        fun other hother => h.oid other (List.mem_cons_of_mem _ hother), hnodup⟩
    have hparse := ih (entry.path :: seen) hrest (by
      intro other hother hin
      rcases List.mem_cons.mp hin with hsame | hin
      · exact hnew (List.mem_map.mpr ⟨other, hother, hsame⟩)
      · exact hseen other (List.mem_cons_of_mem _ hother) hin)
    rw [parseEntries, h.oid entry List.mem_cons_self, h.relative entry List.mem_cons_self,
      if_neg (by simp), if_neg (by simp), if_neg (hseen entry List.mem_cons_self), hparse]
    rfl

theorem mem_collectPathspecs {path : JsString} {paths : List JsString} :
    path ∈ collectPathspecs paths ↔ path ∈ paths := by
  rw [collectPathspecs, List.mem_insertionSort, List.mem_eraseDups]

theorem Entries.filter {index : List IndexEntry} (h : Entries index) (keep : IndexEntry → Bool) :
    Entries (index.filter keep) where
  relative entry hentry := h.relative entry (List.mem_of_mem_filter hentry)
  formed entry hentry := h.formed entry (List.mem_of_mem_filter hentry)
  oid entry hentry := h.oid entry (List.mem_of_mem_filter hentry)
  nodup := h.nodup.sublist (List.filter_sublist.map _)

theorem readCandidateEntries_ok {index : List IndexEntry} (h : Entries index)
    (paths : List JsString) :
    ∃ existing, readCandidateEntries index paths = .ok existing ∧
      ∀ entry, entry ∈ existing ↔ entry ∈ index ∧ ∃ path ∈ paths,
        utf8 entry.path = utf8 path ∨ (utf8 path ++ [0x2F]) <+: utf8 entry.path := by
  have hparse := parseEntries_ok [] (h.filter fun entry =>
    ((collectPathspecs paths).map utf8).any fun spec =>
      utf8 entry.path == spec || (spec ++ [0x2F]).isPrefixOf (utf8 entry.path))
    fun entry hentry => List.not_mem_nil
  refine ⟨_, by rw [readCandidateEntries, lsFiles, hparse, Except.map], ?_⟩
  intro entry
  rw [sortEntries, List.mem_insertionSort, List.mem_filter]
  refine and_congr_right fun hentry => ?_
  simp only [List.any_map, List.any_eq_true, Function.comp_apply, Bool.or_eq_true, beq_iff_eq,
    List.isPrefixOf_iff_prefix, mem_collectPathspecs]

variable {states : List PathState} {index existing : List IndexEntry}

/-- The path is under a named one. -/
def Covered (states : List PathState) (path : JsString) : Prop :=
  ∃ directory, Mutated states directory ∧ IsAncestor directory path

/-- The path is a directory of one that is added. -/
def Replaced (states : List PathState) (path : JsString) : Prop :=
  ∃ below, Added states below ∧ IsAncestor path below

theorem Added.mutated {path : JsString} (h : Added states path) :
    Mutated states path := by
  obtain ⟨input, hinput, hpath, -⟩ := h
  exact ⟨input, hinput, hpath⟩

/-- **What is removed**: the directories of what is added, and the entries at or under the named
paths. -/
theorem mem_collectRemovals (path : JsString) :
    path ∈ collectRemovals existing (states.map mutationOf) ↔
      Replaced states path ∨
        ∃ entry ∈ existing, entry.path = path ∧ (Mutated states path ∨ Covered states path) := by
  rw [collectRemovals, mem_collectPathspecs, List.flatMap_map, List.mem_flatMap]
  constructor
  · intro h
    obtain ⟨input, hinput, hmem⟩ := h
    rcases List.mem_append.mp hmem with hmem | hmem
    · split at hmem
      · rename_i hadds
        exact Or.inl ⟨input.path, ⟨input, hinput, rfl, hadds⟩, (mem_ancestors _ _).mp hmem⟩
      · cases hmem
    · obtain ⟨entry, hentry, hmem⟩ := List.mem_flatMap.mp hmem
      rw [removalsOf] at hmem
      split at hmem
      · rename_i hcond
        obtain rfl : path = entry.path := by simpa using hmem
        refine Or.inr ⟨entry, hentry, rfl, ?_⟩
        rw [Bool.or_eq_true, decide_eq_true_eq, List.isPrefixOf_iff_prefix] at hcond
        rcases hcond with hsame | hbelow
        · exact Or.inl ⟨input, hinput, hsame.symm⟩
        · exact Or.inr ⟨input.path, ⟨input, hinput, rfl⟩, hbelow⟩
      · split at hmem
        · rename_i hcond
          obtain rfl : path = entry.path := by simpa using hmem
          rw [Bool.and_eq_true, List.isPrefixOf_iff_prefix] at hcond
          exact Or.inl ⟨input.path, ⟨input, hinput, rfl, hcond.1⟩, hcond.2⟩
        · cases hmem
  · intro h
    rcases h with ⟨below, ⟨input, hinput, rfl, hadds⟩, habove⟩ | ⟨entry, hentry, rfl, hnamed⟩
    · refine ⟨input, hinput, List.mem_append_left _ ?_⟩
      rw [if_pos (show (mutationOf input).addition.isSome = true from hadds)]
      exact (mem_ancestors _ _).mpr habove
    · have hfound : ∃ input ∈ states,
          entry.path = input.path ∨ IsAncestor input.path entry.path := by
        rcases hnamed with ⟨input, hinput, hpath⟩ | ⟨directory, ⟨input, hinput, rfl⟩, hbelow⟩
        · exact ⟨input, hinput, Or.inl hpath.symm⟩
        · exact ⟨input, hinput, Or.inr hbelow⟩
      obtain ⟨input, hinput, hcond⟩ := hfound
      refine ⟨input, hinput, List.mem_append_right _ (List.mem_flatMap.mpr ⟨entry, hentry, ?_⟩)⟩
      rw [removalsOf, if_pos]
      · exact List.mem_singleton_self _
      · rw [Bool.or_eq_true, decide_eq_true_eq, List.isPrefixOf_iff_prefix]
        exact hcond

theorem formed_of_mem_removals (hentries : Entries index)
    (hexisting : ∀ entry ∈ existing, entry ∈ index)
    (hformed : ∀ path, Added states path → hasUnpairedSurrogate path = false)
    {path : JsString} (h : path ∈ collectRemovals existing (states.map mutationOf)) :
    hasUnpairedSurrogate path = false := by
  rcases (mem_collectRemovals path).mp h with ⟨below, hadded, habove⟩ | ⟨entry, hentry, rfl, -⟩
  · exact habove.formed (hformed below hadded)
  · exact hentries.formed entry (hexisting entry hentry)

end Removals

section Update

variable {states : List PathState} {index existing : List IndexEntry}

theorem mem_sortEntries {entry : IndexEntry} {entries : List IndexEntry} :
    entry ∈ sortEntries entries ↔ entry ∈ entries := by
  rw [sortEntries, List.mem_insertionSort]

theorem Accepted.nodup_additions (h : Accepted states) :
    ((additions (states.map mutationOf)).map IndexEntry.path).Nodup := by
  have hsub : ((additions (states.map mutationOf)).map IndexEntry.path).Sublist
      (states.map PathState.path) := by
    clear h
    induction states with
    | nil => exact List.Sublist.refl _
    | cons input rest ih =>
      rw [additions, List.map_cons, List.filterMap_cons]
      cases hentry : toIndexEntry input.path input.state with
      | none =>
        have hnone : (mutationOf input).addition = none := hentry
        rw [hnone]
        exact ih.cons _
      | some entry =>
        have hsome : (mutationOf input).addition = some entry := hentry
        rw [hsome, List.map_cons, List.map_cons, toIndexEntry_path hentry]
        exact ih.cons_cons _
  exact h.nodup.sublist hsub

theorem find_updates_added (haccepted : Accepted states)
    (hformed : ∀ path, Added states path → hasUnpairedSurrogate path = false)
    {entry : IndexEntry} (hentry : entry ∈ additions (states.map mutationOf)) :
    find (updateIndex index (updates existing (states.map mutationOf))) entry.path =
      some (entry.mode, entry.oid) := by
  have hread : ∀ other ∈ additions (states.map mutationOf), gitPath other.path = other.path := by
    intro other hother
    exact gitPath_formed (hformed _ (mem_additions_path.mp (List.mem_map_of_mem hother)))
  have hnodup : ((sortEntries (additions (states.map mutationOf))).map IndexEntry.path).Nodup :=
    ((List.perm_insertionSort _ _).map _).nodup_iff.mpr haccepted.nodup_additions
  obtain ⟨before, rest, hsplit⟩ := List.append_of_mem (mem_sortEntries.mpr hentry)
  rw [hsplit, List.map_append, List.map_cons] at hnodup
  have hlast : ∀ other ∈ rest, other.path ≠ entry.path := by
    intro other hother hsame
    have hcons := (List.nodup_append.mp hnodup).2.1
    refine (List.nodup_cons.mp hcons).1 ?_
    rw [← hsame]
    exact List.mem_map_of_mem hother
  have hlines : updates existing (states.map mutationOf) =
      ((collectRemovals existing (states.map mutationOf)).map removeLine ++ before.map addLine) ++
        addLine entry :: rest.map addLine := by
    rw [updates, hsplit, List.map_append, List.map_cons, List.append_assoc]
  rw [hlines]
  refine find_updateIndex_last index (hread entry hentry) ?_
  intro line hline
  obtain ⟨other, hother, rfl⟩ := List.mem_map.mp hline
  have hin : other ∈ additions (states.map mutationOf) := by
    rw [← mem_sortEntries, hsplit]
    exact List.mem_append_right _ (List.mem_cons_of_mem _ hother)
  show gitPath other.path ≠ entry.path
  rw [hread other hin]
  exact hlast other hother

theorem find_updates_other
    (hformed : ∀ path, Added states path → hasUnpairedSurrogate path = false)
    {path : JsString} (hadded : ¬ Added states path) :
    find (updateIndex index (updates existing (states.map mutationOf))) path =
      find (updateIndex index
        ((collectRemovals existing (states.map mutationOf)).map removeLine)) path := by
  rw [updates, updateIndex, List.foldl_append]
  refine find_updateIndex_other _ ?_
  intro line hline
  obtain ⟨entry, hentry, rfl⟩ := List.mem_map.mp hline
  have hin := mem_additions_path.mp (List.mem_map_of_mem (mem_sortEntries.mp hentry))
  show gitPath entry.path ≠ path
  rw [gitPath_formed (hformed _ hin)]
  intro hsame
  exact hadded (hsame ▸ hin)

theorem find_removals (index : List IndexEntry) (removals : List JsString) (path : JsString) :
    find (updateIndex index (removals.map removeLine)) path =
      if path ∈ removals.map gitPath then none else find index path := by
  induction removals generalizing index with
  | nil => rfl
  | cons removal rest ih =>
    rw [List.map_cons, updateIndex, List.foldl_cons]
    refine (ih _).trans ?_
    rw [find_applyLine, List.map_cons]
    by_cases hrest : path ∈ rest.map gitPath
    · rw [if_pos hrest, if_pos (List.mem_cons_of_mem _ hrest)]
    · by_cases hsame : gitPath removal = path
      · rw [if_neg hrest, if_pos (List.mem_cons.mpr (Or.inl hsame.symm))]
        exact if_pos hsame
      · have hnot : path ∉ gitPath removal :: rest.map gitPath := by
          intro hin
          rcases List.mem_cons.mp hin with heq | hin
          · exact hsame heq.symm
          · exact hrest hin
        rw [if_neg hrest, if_neg hnot]
        exact if_neg hsame

theorem find_updates_not_added (hentries : Entries index)
    (hexisting : ∀ entry ∈ existing, entry ∈ index)
    (hformed : ∀ path, Added states path → hasUnpairedSurrogate path = false)
    {path : JsString} (hadded : ¬ Added states path) :
    find (updateIndex index (updates existing (states.map mutationOf))) path =
      if path ∈ collectRemovals existing (states.map mutationOf) then none
      else find index path := by
  have hread : (collectRemovals existing (states.map mutationOf)).map gitPath =
      collectRemovals existing (states.map mutationOf) := by
    refine (List.map_congr_left ?_).trans (List.map_id _)
    intro removal hremoval
    exact gitPath_formed (formed_of_mem_removals hentries hexisting hformed hremoval)
  rw [find_updates_other hformed hadded, find_removals, hread]

theorem apply_ok {shadow : ShadowWorkspaceIndex} (isBlob : JsString → Bool)
    (hloaded : shadow.loaded = true) (hentries : Entries shadow.index)
    (haccepted : Accepted states)
    (hblobs : ∀ entry ∈ additions (states.map mutationOf), isBlob entry.oid = true) :
    ∃ existing,
      (∀ entry, entry ∈ existing ↔ entry ∈ shadow.index ∧ ∃ input ∈ states,
        utf8 entry.path = utf8 input.path ∨
          (utf8 input.path ++ [0x2F]) <+: utf8 entry.path) ∧
      shadow.apply isBlob states =
        .ok ⟨true, updateIndex shadow.index (updates existing (states.map mutationOf))⟩ := by
  obtain ⟨loaded, index⟩ := shadow
  cases hloaded
  obtain ⟨existing, hread, hmem⟩ := readCandidateEntries_ok hentries
    ((states.map mutationOf).map ValidatedMutation.path)
  refine ⟨existing, ?_, ?_⟩
  · intro entry
    rw [hmem entry]
    simp [mutationOf]
  · have hvalid := (validateMutations_iff states _).mpr ⟨haccepted, rfl⟩
    have hany : ((additions (states.map mutationOf)).map IndexEntry.oid).any (!isBlob ·) =
        false := by
      rw [List.any_eq_false]
      intro oid hoid
      obtain ⟨entry, hentry, rfl⟩ := List.mem_map.mp hoid
      simp [hblobs entry hentry]
    rw [ShadowWorkspaceIndex.apply]
    simp only [Bool.not_true, Bool.false_eq_true, if_false, hvalid, hany, hread]
    split
    · rename_i hempty
      rw [List.length_eq_zero_iff] at hempty
      rw [hempty]
      rfl
    · split
      · rename_i hnone
        rw [List.length_eq_zero_iff] at hnone
        rw [hnone]
        rfl
      · rfl

end Update

section Safety

variable {states : List PathState} {index : List IndexEntry}

/-- The index after an update, path by path. -/
structure Follows (index : List IndexEntry) (states : List PathState)
    (after : List IndexEntry) : Prop where
  /-- A path that is to be a file or a symbolic link is one. -/
  added : ∀ input ∈ states, ∀ entry, toIndexEntry input.path input.state = some entry →
    find after input.path = some (entry.mode, entry.oid)
  /-- A path that is to be absent, or is excluded, has no entry. -/
  removed : ∀ input ∈ states, toIndexEntry input.path input.state = none →
    find after input.path = none
  /-- A path that is not named, under one that is, has no entry. -/
  covered : ∀ path, ¬ Mutated states path → Covered states path → find after path = none
  /-- A directory of a path that is added has no entry. -/
  replaced : ∀ path, Replaced states path → find after path = none
  /-- Any other path has the entry it had. -/
  kept : ∀ path, ¬ Mutated states path → ¬ Covered states path → ¬ Replaced states path →
    find after path = find index path

theorem Mutated.cases {path : JsString} (h : Mutated states path) :
    Added states path ∨
      ∃ input ∈ states, input.path = path ∧ toIndexEntry input.path input.state = none := by
  obtain ⟨input, hinput, hpath⟩ := h
  cases hentry : toIndexEntry input.path input.state with
  | none => exact Or.inr ⟨input, hinput, hpath, hentry⟩
  | some entry => exact Or.inl ⟨input, hinput, hpath, by rw [hentry]; rfl⟩

theorem Follows.find_eq {states' : List PathState} {after after' : List IndexEntry}
    (h : Follows index states after) (h' : Follows index states' after')
    (hsame : ∀ input, input ∈ states' ↔ input ∈ states) (path : JsString) :
    find after' path = find after path := by
  have hmutated : Mutated states' = Mutated states := by
    funext other
    simp only [Mutated, hsame]
  have hadded : Added states' = Added states := by
    funext other
    simp only [Added, hsame]
  have hcovered : Covered states' = Covered states := by
    funext other
    simp only [Covered, hmutated]
  have hreplaced : Replaced states' = Replaced states := by
    funext other
    simp only [Replaced, hadded]
  by_cases hm : Mutated states path
  · obtain ⟨input, hinput, rfl⟩ := hm
    cases hentry : toIndexEntry input.path input.state with
    | none =>
      rw [h.removed input hinput hentry, h'.removed input ((hsame input).mpr hinput) hentry]
    | some entry =>
      rw [h.added input hinput entry hentry,
        h'.added input ((hsame input).mpr hinput) entry hentry]
  · by_cases hc : Covered states path
    · rw [h.covered path hm hc,
        h'.covered path (by rw [hmutated]; exact hm) (by rw [hcovered]; exact hc)]
    · by_cases hr : Replaced states path
      · rw [h.replaced path hr, h'.replaced path (by rw [hreplaced]; exact hr)]
      · rw [h.kept path hm hc hr, h'.kept path (by rw [hmutated]; exact hm)
          (by rw [hcovered]; exact hc) (by rw [hreplaced]; exact hr)]

/-- **The index stays that of a tree.** -/
theorem Follows.tree {after : List IndexEntry} (h : Follows index states after)
    (htree : Tree index) (hafter : Entries after) :
    Tree after where
  toEntries := hafter
  prefixFree := by
    intro entry hentry other hother habove
    have hfirst := hafter.find_eq hentry
    have hsecond := hafter.find_eq hother
    -- the lower one stands for itself, or nothing above it has been named
    by_cases hm : Mutated states other.path
    · rcases hm.cases with hadded | ⟨input, hinput, hpath, hnone⟩
      · rw [h.replaced entry.path ⟨other.path, hadded, habove⟩] at hfirst
        cases hfirst
      · rw [← hpath, h.removed input hinput hnone] at hsecond
        cases hsecond
    · by_cases hc : Covered states other.path
      · rw [h.covered other.path hm hc] at hsecond
        cases hsecond
      · have hr : ¬ Replaced states other.path := by
          intro hreplaced
          rw [h.replaced other.path hreplaced] at hsecond
          cases hsecond
        have hr' : ¬ Replaced states entry.path := by
          intro hreplaced
          rw [h.replaced entry.path hreplaced] at hfirst
          cases hfirst
        have hm' : ¬ Mutated states entry.path := fun hmutated => hc ⟨entry.path, hmutated, habove⟩
        have hc' : ¬ Covered states entry.path := by
          intro hcovered
          obtain ⟨directory, hdirectory, hup⟩ := hcovered
          exact hc ⟨directory, hdirectory, hup.trans habove⟩
        rw [h.kept other.path hm hc hr] at hsecond
        rw [h.kept entry.path hm' hc' hr'] at hfirst
        exact htree.prefixFree _ (mem_of_find hfirst) _ (mem_of_find hsecond) habove

section

variable (hentries : Entries index) (haccepted : Accepted states)
  (hformed : ∀ path, Added states path → hasUnpairedSurrogate path = false)
include hentries haccepted hformed

theorem follows_updates {existing : List IndexEntry}
    (hexisting : ∀ entry, entry ∈ existing ↔ entry ∈ index ∧ ∃ input ∈ states,
      utf8 entry.path = utf8 input.path ∨ (utf8 input.path ++ [0x2F]) <+: utf8 entry.path) :
    Follows index states
      (updateIndex index (updates existing (states.map mutationOf))) := by
  have hmem : ∀ entry ∈ existing, entry ∈ index := fun entry hentry => ((hexisting entry).mp hentry).1
  have hgone : ∀ path, ¬ Added states path →
      Mutated states path ∨ Covered states path ∨ Replaced states path →
      find (updateIndex index (updates existing (states.map mutationOf))) path = none := by
    intro path hadded hwhy
    rw [find_updates_not_added hentries hmem hformed hadded]
    split
    · rfl
    · rename_i hkept
      rw [find_eq_none]
      intro entry hentry hpath
      refine hkept ((mem_collectRemovals path).mpr ?_)
      have hnamed : ∀ input ∈ states, (entry.path = input.path ∨ IsAncestor input.path entry.path) →
          entry ∈ existing := by
        intro input hinput hcase
        refine (hexisting entry).mpr ⟨hentry, input, hinput, ?_⟩
        rcases hcase with hsame | hbelow
        · exact Or.inl (by rw [hsame])
        · exact Or.inr hbelow.utf8
      rcases hwhy with hm | hc | hr
      · obtain ⟨input, hinput, hsame⟩ := hm
        exact Or.inr ⟨entry, hnamed input hinput (Or.inl (hpath.trans hsame.symm)), hpath,
          Or.inl ⟨input, hinput, hsame⟩⟩
      · obtain ⟨directory, ⟨input, hinput, rfl⟩, hbelow⟩ := hc
        exact Or.inr ⟨entry, hnamed input hinput (Or.inr (hpath ▸ hbelow)), hpath,
          Or.inr ⟨input.path, ⟨input, hinput, rfl⟩, hbelow⟩⟩
      · exact Or.inl hr
  have hfree : ∀ path, Replaced states path → ¬ Added states path := by
    intro path hreplaced hadded
    obtain ⟨below, hbelow, habove⟩ := hreplaced
    exact haccepted.free path below hadded hbelow habove
  refine ⟨?_, ?_, ?_, ?_, ?_⟩
  · intro input hinput entry hentry
    have hfound : find (updateIndex index (updates existing (states.map mutationOf)))
        entry.path = some (entry.mode, entry.oid) :=
      find_updates_added haccepted hformed (mem_additions.mpr ⟨input, hinput, hentry⟩)
    rwa [toIndexEntry_path hentry] at hfound
  · intro input hinput hnone
    refine hgone input.path ?_ (Or.inl ⟨input, hinput, rfl⟩)
    intro hadded
    obtain ⟨other, hother, hpath, hsome⟩ := hadded
    obtain rfl := List.inj_on_of_nodup_map haccepted.nodup hother hinput hpath
    rw [hnone] at hsome
    cases hsome
  · intro path hm hc
    exact hgone path (fun hadded => hm hadded.mutated) (Or.inr (Or.inl hc))
  · intro path hr
    exact hgone path (hfree path hr) (Or.inr (Or.inr hr))
  · intro path hm hc hr
    rw [find_updates_not_added hentries hmem hformed fun hadded => hm hadded.mutated, if_neg]
    intro hremoved
    rcases (mem_collectRemovals path).mp hremoved with hreplaced | ⟨entry, hentry, hpath, hnamed⟩
    · exact hr hreplaced
    · rcases hnamed with hmutated | hcovered
      · exact hm hmutated
      · exact hc hcovered

theorem entries_updates {existing : List IndexEntry} :
    Entries (updateIndex index (updates existing (states.map mutationOf))) := by
  refine hentries.after_lines ?_
  intro line hline hmode
  rcases List.mem_append.mp hline with hremove | hadd
  · obtain ⟨path, hpath, rfl⟩ := List.mem_map.mp hremove
    cases hmode
  · obtain ⟨entry, hentry, rfl⟩ := List.mem_map.mp hadd
    obtain ⟨input, hinput, hentry⟩ := mem_additions.mp (mem_sortEntries.mp hentry)
    have hpath := toIndexEntry_path hentry
    have hadded : Added states input.path := ⟨input, hinput, rfl, by rw [hentry]; rfl⟩
    refine ⟨?_, ?_⟩
    · show validateWorkspaceRelativePath (gitPath entry.path) = true
      rw [hpath, gitPath_formed (hformed _ hadded)]
      exact haccepted.relative input hinput
    · have hvalid := haccepted.valid input hinput
      show MutationLog.validateSha1 entry.oid = true
      cases hstate : input.state <;> rw [hstate] at hvalid hentry <;>
        simp only [toIndexEntry, validateState, Option.some.injEq, reduceCtorEq] at hvalid hentry
      all_goals
        subst hentry
        simpa using hvalid

end

/-- What an update has to be: each path is as it should be, the index is that of a tree, and the
same states in another order lead to the same. -/
structure Right (shadow : ShadowWorkspaceIndex) (isBlob : JsString → Bool)
    (states : List PathState) (after : ShadowWorkspaceIndex) : Prop where
  follows : Follows shadow.index states after.index
  tree : Tree after.index
  unordered : ∀ states', states'.Perm states →
    ∃ after', shadow.apply isBlob states' = .ok after' ∧
      ∀ path, find after'.index path = find after.index path

end Safety

end ShadowIndex

end Workspace

import Crest.MutationLog

/-!
# What is in the way of a session

The log is followed through the commits between the head and the commit to go back to.  There is
one way to do so or none: a commit has one parent.  Where the parents do not lead there, because
the log ends or goes in a circle, the code throws; it goes on only while it meets commits it has
not met, so it stops.
-/

namespace Workspace

open JsString

namespace MutationLog

section Chain

variable {log : Repository} {after : JsString}

/-- The commits from one back to another, which is left out. -/
inductive Between (log : Repository) (after : JsString) : JsString → List JsString → Prop
  | here : Between log after after []
  | step {cursor parent : JsString} {rest : List JsString} {entry : ValidatedWorkspaceMutation}
      (hne : cursor ≠ after)
      (hread : log.read cursor = .ok entry)
      (hparent : entry.parent = some parent)
      (hrest : Between log after parent rest) :
      Between log after cursor (cursor :: rest)

variable {cursor : JsString} {commits : List JsString}

variable (h : Between log after cursor commits)
include h

theorem Between.unique {commits' : List JsString} (h' : Between log after cursor commits') :
    commits = commits' := by
  induction h generalizing commits' with
  | here =>
    cases h' with
    | here => rfl
    | step hne => exact absurd rfl hne
  | step hne hread hparent hrest ih =>
    cases h' with
    | here => exact absurd rfl hne
    | step hne' hread' hparent' hrest' =>
      rw [hread] at hread'
      cases hread'
      rw [hparent] at hparent'
      cases hparent'
      rw [ih hrest']

theorem Between.read {commit : JsString} (hmem : commit ∈ commits) :
    ∃ entry, log.read commit = .ok entry := by
  induction h with
  | here => cases hmem
  | @step cursor parent rest entry hne hread hparent hrest ih =>
    rcases List.mem_cons.mp hmem with rfl | hmem
    · exact ⟨entry, hread⟩
    · exact ih hmem

theorem Between.from {commit : JsString} (hmem : commit ∈ commits) :
    ∃ rest, Between log after commit rest ∧ rest.length ≤ commits.length := by
  induction h with
  | here => cases hmem
  | step hne hread hparent hrest ih =>
    rcases List.mem_cons.mp hmem with rfl | hmem
    · exact ⟨_, .step hne hread hparent hrest, Nat.le_refl _⟩
    · obtain ⟨rest, hfrom, hle⟩ := ih hmem
      exact ⟨rest, hfrom, Nat.le_succ_of_le hle⟩

theorem Between.nodup :
    commits.Nodup := by
  induction h with
  | here => exact List.nodup_nil
  | @step cursor parent rest entry hne hread hparent hrest ih =>
    refine List.nodup_cons.mpr ⟨?_, ih⟩
    intro hmem
    obtain ⟨again, hagain, hle⟩ := hrest.from hmem
    have hsame := (Between.step hne hread hparent hrest).unique hagain
    have hlonger := congrArg List.length hsame
    rw [List.length_cons] at hlonger
    omega

end Chain

section Overlaps

variable {log : Repository} {input : ForeignOverlapInput}

/-- The commit belongs to the session. -/
def Owned (log : Repository) (ownerSessionId commit : JsString) : Prop :=
  ∃ entry, log.read commit = .ok entry ∧ entry.metadata.kind ≠ .external ∧
    entry.metadata.sessionid = some ownerSessionId

/-- The commit has changed the path. -/
def Changes (log : Repository) (commit path : JsString) : Prop :=
  ∃ paths, log.changedPaths commit = .ok paths ∧ path ∈ paths

/-- The commit is of Crest, and does not say of which session. -/
def Ownerless (log : Repository) (commit : JsString) : Prop :=
  ∃ entry, log.read commit = .ok entry ∧ entry.metadata.kind ≠ .external ∧
    entry.metadata.sessionid = none

/-- What is in the way among these commits. -/
structure InTheWay (log : Repository) (input : ForeignOverlapInput) (commits : List JsString)
    (overlap : ForeignOverlap) : Prop where
  commit : overlap.commit ∈ commits
  foreign : overlap.commit ∉ input.includedCommits
  requested : overlap.path ∈ input.paths
  changed : Changes log overlap.commit overlap.path
  session : ∃ entry, log.read overlap.commit = .ok entry ∧
    overlap.sessionId = overlapSession entry.metadata

variable {metadata : WorkspaceMutationMetadata}

theorem foreignPaths_ok {paths changed : List JsString} {cursor : JsString}
    {found : List ForeignOverlap} (h : foreignPaths paths cursor metadata changed = .ok found) :
    found = (changed.filter (· ∈ paths)).map
        (fun path => ⟨cursor, path, overlapSession metadata⟩) ∧
      (metadata.kind ≠ .external → metadata.sessionid = none → ∀ path ∈ changed, path ∉ paths) := by
  induction changed generalizing found with
  | nil =>
    cases h
    exact ⟨rfl, fun _ _ _ hmem => absurd hmem List.not_mem_nil⟩
  | cons path rest ih =>
    unfold foreignPaths at h
    by_cases hpath : path ∈ paths
    · rw [if_neg (not_not.mpr hpath)] at h
      by_cases hownerless : metadata.kind ≠ .external ∧ metadata.sessionid = none
      · rw [if_pos hownerless] at h
        cases h
      · rw [if_neg hownerless] at h
        cases hrest : foreignPaths paths cursor metadata rest with
        | error e =>
          rw [hrest] at h
          cases h
        | ok found' =>
          rw [hrest] at h
          cases h
          obtain ⟨hfound, -⟩ := ih hrest
          refine ⟨?_, fun hkind hnone => absurd ⟨hkind, hnone⟩ hownerless⟩
          rw [List.filter_cons_of_pos (by simpa using hpath), List.map_cons, hfound]
    · rw [if_pos hpath] at h
      obtain ⟨hfound, hfree⟩ := ih h
      refine ⟨?_, ?_⟩
      · rw [List.filter_cons_of_neg (by simpa using hpath), hfound]
      · intro hkind hnone other hmem
        rcases List.mem_cons.mp hmem with rfl | hmem
        · exact hpath
        · exact hfree hkind hnone other hmem

theorem foreignPaths_total {paths changed : List JsString} {cursor : JsString}
    (h : metadata.kind ≠ .external → metadata.sessionid = none → ∀ path ∈ changed, path ∉ paths) :
    ∃ found, foreignPaths paths cursor metadata changed = .ok found := by
  induction changed with
  | nil => exact ⟨[], rfl⟩
  | cons path rest ih =>
    obtain ⟨found, hfound⟩ := ih fun hkind hnone other hmem =>
      h hkind hnone other (List.mem_cons_of_mem _ hmem)
    unfold foreignPaths
    by_cases hpath : path ∈ paths
    · have howned : ¬ (metadata.kind ≠ .external ∧ metadata.sessionid = none) :=
        fun hboth => h hboth.1 hboth.2 path List.mem_cons_self hpath
      rw [if_neg (not_not.mpr hpath), if_neg howned, hfound]
      exact ⟨_, rfl⟩
    · rw [if_pos hpath]
      exact ⟨found, hfound⟩

end Overlaps

section Walk

variable {log : Repository} {input : ForeignOverlapInput}

variable {cursor : JsString}

theorem visit_eq_ok {parent : Option JsString} {found : List ForeignOverlap} :
    visit log input cursor = .ok (parent, found) ↔
      ∃ entry changed, log.read cursor = .ok entry ∧ log.changedPaths cursor = .ok changed ∧
        inspect input cursor entry.metadata changed = .ok found ∧ entry.parent = parent := by
  unfold visit
  cases hentry : log.read cursor with
  | error e => simp
  | ok entry =>
    cases hchanged : log.changedPaths cursor with
    | error e => simp
    | ok changed =>
      cases hfound : inspect input cursor entry.metadata changed with
      | error e => simp [hfound, Except.map]
      | ok found' =>
        simp only [hfound, Except.map, Except.ok.injEq, Prod.mk.injEq]
        constructor
        · rintro ⟨rfl, rfl⟩
          exact ⟨entry, changed, rfl, rfl, hfound, rfl⟩
        · rintro ⟨entry', changed', rfl, rfl, hsame, rfl⟩
          rw [hfound] at hsame
          cases hsame
          exact ⟨rfl, rfl⟩

/-- What a commit adds to the overlaps. -/
def foundAt (log : Repository) (input : ForeignOverlapInput) (commit : JsString) :
    List ForeignOverlap :=
  match visit log input commit with
  | .ok (_, found) => found
  | .error _ => []

variable {overlaps : List ForeignOverlap} {remaining visited : List JsString}

theorem walk_ok {fuel : Nat} {remaining' : List JsString} {overlaps' : List ForeignOverlap}
    (h : walk log input fuel cursor visited remaining overlaps =
      some (.ok (remaining', overlaps'))) :
    ∃ commits, Between log input.afterCommit cursor commits ∧
      (∀ commit ∈ commits, ∃ seen, visit log input commit = .ok seen) ∧
      remaining' = remaining.filter (· ∉ commits) ∧
      overlaps' = overlaps ++ commits.flatMap (foundAt log input) := by
  induction fuel generalizing cursor visited remaining overlaps with
  | zero => cases h
  | succ fuel ih =>
    unfold walk at h
    split_ifs at h with hafter hvisited
    · cases h
      subst hafter
      exact ⟨[], .here, fun _ hmem => absurd hmem List.not_mem_nil, by simp, by simp⟩
    · cases h
    · cases hvisit : visit log input cursor with
      | error e =>
        rw [hvisit] at h
        cases h
      | ok seen =>
        obtain ⟨parent, found⟩ := seen
        rw [hvisit] at h
        cases parent with
        | none => cases h
        | some parent =>
          obtain ⟨commits, hbetween, hread, hremaining, hoverlaps⟩ := ih h
          obtain ⟨entry, changed, hentry, -, -, hparent⟩ := visit_eq_ok.mp hvisit
          refine ⟨cursor :: commits, .step hafter hentry hparent hbetween, ?_, ?_, ?_⟩
          · intro commit hmem
            rcases List.mem_cons.mp hmem with rfl | hmem
            · exact ⟨_, hvisit⟩
            · exact hread commit hmem
          · rw [hremaining, List.filter_filter]
            refine List.filter_congr fun commit _ => ?_
            simp only [List.mem_cons, not_or, ne_eq, Bool.decide_and, Bool.and_comm]
          · have hhere : foundAt log input cursor = found := by
              rw [foundAt, hvisit]
            rw [hoverlaps, List.flatMap_cons, hhere, List.append_assoc]

theorem unmet_lt {commits : List JsString} {commit : JsString} (hmem : commit ∈ commits)
    (hnew : commit ∉ visited) :
    (commits.filter (· ∉ commit :: visited)).length <
      (commits.filter (· ∉ visited)).length := by
  have hsplit : commits.filter (· ∉ commit :: visited) =
      (commits.filter (· ∉ visited)).filter (· ≠ commit) := by
    rw [List.filter_filter]
    refine List.filter_congr fun other _ => ?_
    simp only [List.mem_cons, not_or, ne_eq, Bool.decide_and]
  rw [hsplit]
  refine List.length_filter_lt_length_iff_exists.mpr ⟨commit, ?_, by simp⟩
  exact List.mem_filter.mpr ⟨hmem, by simpa using hnew⟩

/-- **The loop stops**, after as many commits as there are. -/
theorem walk_total {fuel : Nat} (hfuel : (log.commits.filter (· ∉ visited)).length < fuel) :
    ∃ result, walk log input fuel cursor visited remaining overlaps = some result := by
  induction fuel generalizing cursor visited remaining overlaps with
  | zero => omega
  | succ fuel ih =>
    unfold walk
    split_ifs with hafter hvisited
    · exact ⟨_, rfl⟩
    · exact ⟨_, rfl⟩
    · cases hvisit : visit log input cursor with
      | error e => exact ⟨_, rfl⟩
      | ok seen =>
        obtain ⟨parent, found⟩ := seen
        cases parent with
        | none => exact ⟨_, rfl⟩
        | some parent =>
          obtain ⟨entry, changed, hentry, -⟩ := visit_eq_ok.mp hvisit
          have hfewer := unmet_lt (log.mem_commits cursor entry hentry) hvisited
          exact ih (by omega)

theorem walk_complete {fuel : Nat} {commits : List JsString}
    (h : Between log input.afterCommit cursor commits)
    (hread : ∀ commit ∈ commits, ∃ seen, visit log input commit = .ok seen)
    (hnew : ∀ commit ∈ commits, commit ∉ visited)
    {result : Except JsString (List JsString × List ForeignOverlap)}
    (hresult : walk log input fuel cursor visited remaining overlaps = some result) :
    ∃ seen, result = .ok seen := by
  induction h generalizing fuel visited remaining overlaps with
  | here =>
    cases fuel with
    | zero => cases hresult
    | succ fuel =>
      rw [walk, if_pos rfl] at hresult
      cases hresult
      exact ⟨_, rfl⟩
  | @step cursor parent rest entry hne hentry hparent hrest ih =>
    cases fuel with
    | zero => cases hresult
    | succ fuel =>
      obtain ⟨⟨parent', found⟩, hvisit⟩ := hread cursor List.mem_cons_self
      obtain ⟨entry', changed, hentry', -, -, hparent'⟩ := visit_eq_ok.mp hvisit
      rw [hentry] at hentry'
      cases hentry'
      rw [hparent] at hparent'
      subst hparent'
      rw [walk, if_neg hne, if_neg (hnew cursor List.mem_cons_self), hvisit] at hresult
      refine ih (fun commit hmem => hread commit (List.mem_cons_of_mem _ hmem)) ?_ hresult
      intro commit hmem hvisited
      have hnodup := (Between.step hne hentry hparent hrest).nodup
      rcases List.mem_cons.mp hvisited with rfl | hvisited
      · exact (List.nodup_cons.mp hnodup).1 hmem
      · exact hnew commit (List.mem_cons_of_mem _ hmem) hvisited

end Walk

section Exactness

variable {log : Repository} {input : ForeignOverlapInput}

theorem scanPaths_nodup {current bytes : List UInt8} {seen paths : List JsString}
    (h : scanPaths current seen bytes = .ok paths) (hseen : seen.Nodup) :
    paths.Nodup := by
  induction bytes generalizing current seen with
  | nil =>
    cases h
    exact hseen
  | cons byte rest ih =>
    unfold scanPaths at h
    split_ifs at h
    · exact ih h hseen
    · cases hdecoded : decodeUtf8 current "workspace-relative path" with
      | error e =>
        rw [hdecoded] at h
        cases h
      | ok path =>
        rw [hdecoded] at h
        simp only at h
        split_ifs at h with hinvalid hduplicate
        refine ih h (List.nodup_append.mpr ⟨hseen, List.nodup_singleton path, ?_⟩)
        intro other hother another hanother heq
        rw [List.mem_singleton.mp hanother] at heq
        exact hduplicate (heq ▸ hother)

/-- **No path is among the changed ones twice.** -/
theorem changedPaths_nodup {commit : JsString} {changed : List JsString}
    (h : log.changedPaths commit = .ok changed) :
    changed.Nodup := by
  unfold Repository.changedPaths at h
  split_ifs at h
  cases houtput : log.diffTree commit with
  | error e =>
    rw [houtput] at h
    cases h
  | ok output =>
    rw [houtput] at h
    simp only [decodePaths] at h
    split_ifs at h
    · cases h
      exact List.nodup_nil
    · cases hscan : scanPaths [] [] output with
      | error e =>
        rw [hscan] at h
        cases h
      | ok paths =>
        rw [hscan] at h
        cases h
        exact (List.perm_insertionSort _ _).nodup_iff.mpr
          (scanPaths_nodup hscan List.nodup_nil)

/-- A commit that the loop has passed. -/
structure Passed (log : Repository) (input : ForeignOverlapInput) (commit : JsString) : Prop where
  own : commit ∈ input.includedCommits → Owned log input.ownerSessionId commit
  foreign : commit ∉ input.includedCommits → Ownerless log commit →
    ∀ path ∈ input.paths, ¬ Changes log commit path

theorem passed_of_visit {commit : JsString} {parent : Option JsString}
    {found : List ForeignOverlap} (h : visit log input commit = .ok (parent, found)) :
    Passed log input commit ∧
      (∀ overlap, overlap ∈ found ↔ InTheWay log input [commit] overlap) ∧
      (found.map fun overlap => (overlap.commit, overlap.path)).Nodup := by
  obtain ⟨entry, changed, hentry, hchanged, hfound, -⟩ := visit_eq_ok.mp h
  unfold inspect at hfound
  by_cases hown : commit ∈ input.includedCommits
  · rw [if_pos hown] at hfound
    split_ifs at hfound with hother
    cases hfound
    obtain ⟨hkind, hsession⟩ := not_or.mp hother
    refine ⟨⟨fun _ => ⟨entry, hentry, hkind, not_not.mp hsession⟩,
      fun hforeign => absurd hown hforeign⟩, ?_, List.nodup_nil⟩
    intro overlap
    refine ⟨fun hmem => absurd hmem List.not_mem_nil, ?_⟩
    intro hway
    have hsame := List.mem_singleton.mp hway.commit
    exact absurd (hsame ▸ hown) hway.foreign
  · rw [if_neg hown] at hfound
    obtain ⟨rfl, hfree⟩ := foreignPaths_ok hfound
    refine ⟨⟨fun hmem => absurd hmem hown, ?_⟩, ?_, ?_⟩
    · rintro - ⟨entry', hentry', hkind, hnone⟩ path hpath ⟨changed', hchanged', hmem⟩
      rw [hentry] at hentry'
      cases hentry'
      rw [hchanged] at hchanged'
      cases hchanged'
      exact hfree hkind hnone path hmem hpath
    · intro overlap
      rw [List.mem_map]
      constructor
      · rintro ⟨path, hpath, rfl⟩
        obtain ⟨hmem, hrequested⟩ := List.mem_filter.mp hpath
        exact ⟨List.mem_singleton_self commit, hown, by simpa using hrequested,
          ⟨changed, hchanged, hmem⟩, entry, hentry, rfl⟩
      · rintro ⟨hcommit, -, hrequested, ⟨changed', hchanged', hmem⟩, entry', hentry', hsession⟩
        have hsame := List.mem_singleton.mp hcommit
        rw [hsame] at hchanged' hentry'
        rw [hchanged] at hchanged'
        cases hchanged'
        rw [hentry] at hentry'
        cases hentry'
        refine ⟨overlap.path, List.mem_filter.mpr ⟨hmem, by simpa using hrequested⟩, ?_⟩
        rw [← hsession, ← hsame]
    · rw [List.map_map]
      have hnodup := (changedPaths_nodup hchanged).filter (fun path => decide (path ∈ input.paths))
      exact hnodup.map fun a b hab => (Prod.mk.inj hab).2

theorem visit_of_passed {commit : JsString} {entry : ValidatedWorkspaceMutation}
    {changed : List JsString} (hentry : log.read commit = .ok entry)
    (hchanged : log.changedPaths commit = .ok changed) (h : Passed log input commit) :
    ∃ seen, visit log input commit = .ok seen := by
  have hfound : ∃ found, inspect input commit entry.metadata changed = .ok found := by
    unfold inspect
    by_cases hown : commit ∈ input.includedCommits
    · obtain ⟨entry', hentry', hkind, hsession⟩ := h.own hown
      rw [hentry] at hentry'
      cases hentry'
      have hmine : ¬ (entry.metadata.kind = .external ∨
          entry.metadata.sessionid ≠ some input.ownerSessionId) :=
        not_or.mpr ⟨hkind, not_not.mpr hsession⟩
      rw [if_pos hown, if_neg hmine]
      exact ⟨[], rfl⟩
    · rw [if_neg hown]
      refine foreignPaths_total fun hkind hnone path hmem hpath => ?_
      exact h.foreign hown ⟨entry, hentry, hkind, hnone⟩ path hpath ⟨changed, hchanged, hmem⟩
  obtain ⟨found, hfound⟩ := hfound
  exact ⟨(entry.parent, found), visit_eq_ok.mpr ⟨entry, changed, hentry, hchanged, hfound, rfl⟩⟩

/-- The commit that the loop starts at. -/
def StartsAt (log : Repository) (input : ForeignOverlapInput) (head : JsString) : Prop :=
  input.head = some head ∨ (input.head = none ∧ log.head = .ok (some head))

/-- The ids and paths are well formed, the commit to go back to is one of the log, and the head
stays. -/
structure Sound (log : Repository) (input : ForeignOverlapInput) (head : JsString) : Prop where
  afterCommit : validateSha1 input.afterCommit = true
  inputHead : input.head.all validateSha1 = true
  owner : input.ownerSessionId ≠ []
  paths : input.paths.all validateWorkspaceRelativePath = true
  included : input.includedCommits.all validateSha1 = true
  known : ∃ entry, log.read input.afterCommit = .ok entry
  stays : input.head = none → log.headAfter = .ok (some head)

variable {head : JsString}

theorem prepareWalk_ok {start : JsString} (hstart : StartsAt log input head)
    (h : prepareWalk log input = .ok start) :
    start = head := by
  unfold prepareWalk at h
  cases hfind : input.paths.find? fun path => !validateWorkspaceRelativePath path with
  | some path =>
    rw [hfind] at h
    split_ifs at h
  | none =>
    rw [hfind] at h
    simp only at h
    split_ifs at h
    cases hread : log.read input.afterCommit with
    | error e =>
      rw [hread] at h
      cases h
    | ok entry =>
      rw [hread] at h
      rcases hstart with hgiven | ⟨hnone, hhead⟩
      · rw [hgiven] at h
        cases h
        rfl
      · rw [hnone] at h
        simp only [Repository.currentHead, hhead] at h
        cases h
        rfl

theorem Sound.prepareWalk (h : Sound log input head) (hstart : StartsAt log input head) :
    prepareWalk log input = .ok head := by
  have hpaths : input.paths.find? (fun path => !validateWorkspaceRelativePath path) = none := by
    rw [List.find?_eq_none]
    intro path hmem
    simp [List.all_eq_true.mp h.paths path hmem]
  obtain ⟨entry, hentry⟩ := h.known
  unfold MutationLog.prepareWalk
  rw [if_neg (by simp [h.afterCommit]), if_neg (by simp [h.inputHead]), if_neg h.owner, hpaths]
  simp only
  rw [if_neg (by simp [h.included]), hentry]
  rcases hstart with hgiven | ⟨hnone, hhead⟩
  · rw [hgiven]
  · rw [hnone]
    simp only [Repository.currentHead, hhead]

variable {overlaps : List ForeignOverlap}

theorem finishWalk_ok {remaining : List JsString} {found : List ForeignOverlap}
    (h : finishWalk log input head remaining found = .ok overlaps) :
    remaining = [] ∧ overlaps = found := by
  unfold finishWalk at h
  cases hafter : log.headAfter with
  | error e =>
    rw [hafter] at h
    split_ifs at h with houtside
    cases h
    exact ⟨not_not.mp houtside, rfl⟩
  | ok headAfter =>
    rw [hafter] at h
    simp only at h
    split_ifs at h with houtside
    all_goals
      cases h
      exact ⟨not_not.mp houtside, rfl⟩

/-- **What is found where the code does not throw.** -/
theorem findForeignOverlap_ok {fuel : Nat} (hstart : StartsAt log input head)
    (h : findForeignOverlap log input fuel = some (.ok overlaps)) :
    ∃ commits, Between log input.afterCommit head commits ∧
      (∀ commit ∈ input.includedCommits, commit ∈ commits) ∧
      (∀ commit ∈ commits, Passed log input commit) ∧
      (∀ overlap, overlap ∈ overlaps ↔ InTheWay log input commits overlap) ∧
      (overlaps.map fun overlap => (overlap.commit, overlap.path)).Nodup := by
  unfold findForeignOverlap at h
  cases hprepared : prepareWalk log input with
  | error e =>
    rw [hprepared] at h
    cases h
  | ok start =>
    have hhead := prepareWalk_ok hstart hprepared
    subst hhead
    rw [hprepared] at h
    obtain ⟨result, hwalk, hresult⟩ := Option.map_eq_some_iff.mp h
    cases result with
    | error e => cases hresult
    | ok seen =>
      obtain ⟨remaining, found⟩ := seen
      obtain ⟨commits, hbetween, hread, hremaining, hfound⟩ := walk_ok hwalk
      rw [List.nil_append] at hfound
      obtain ⟨hnone, hsame⟩ := finishWalk_ok hresult
      subst hsame
      have hpassed : ∀ commit ∈ commits, Passed log input commit := by
        intro commit hmem
        obtain ⟨⟨parent, found⟩, hvisit⟩ := hread commit hmem
        exact (passed_of_visit hvisit).1
      refine ⟨commits, hbetween, ?_, hpassed, ?_, ?_⟩
      · intro commit hmem
        by_contra hmissing
        have hleft : commit ∈ remaining := by
          rw [hremaining]
          exact List.mem_filter.mpr ⟨hmem, by simpa using hmissing⟩
        rw [hnone] at hleft
        cases hleft
      · intro overlap
        rw [hfound, List.mem_flatMap]
        constructor
        · rintro ⟨commit, hmem, hoverlap⟩
          obtain ⟨⟨parent, found⟩, hvisit⟩ := hread commit hmem
          rw [foundAt, hvisit] at hoverlap
          have hway := ((passed_of_visit hvisit).2.1 overlap).mp hoverlap
          have hcommit := List.mem_singleton.mp hway.commit
          exact { hway with commit := hcommit ▸ hmem }
        · intro hway
          obtain ⟨⟨parent, found⟩, hvisit⟩ := hread overlap.commit hway.commit
          refine ⟨overlap.commit, hway.commit, ?_⟩
          rw [foundAt, hvisit]
          exact ((passed_of_visit hvisit).2.1 overlap).mpr
            { hway with commit := List.mem_singleton_self _ }
      · rw [hfound, List.map_flatMap, List.nodup_flatMap]
        refine ⟨?_, ?_⟩
        · intro commit hmem
          obtain ⟨⟨parent, found⟩, hvisit⟩ := hread commit hmem
          rw [foundAt, hvisit]
          exact (passed_of_visit hvisit).2.2
        · refine hbetween.nodup.imp_of_mem ?_
          intro commit other hmem hother hne
          show List.Disjoint (List.map _ _) (List.map _ _)
          rw [List.disjoint_left]
          intro key hkey hkey'
          obtain ⟨⟨parent, found⟩, hvisit⟩ := hread commit hmem
          obtain ⟨⟨parent', found'⟩, hvisit'⟩ := hread other hother
          rw [foundAt, hvisit] at hkey
          rw [foundAt, hvisit'] at hkey'
          obtain ⟨overlap, hoverlap, rfl⟩ := List.mem_map.mp hkey
          obtain ⟨overlap', hoverlap', hsame⟩ := List.mem_map.mp hkey'
          have hcommit := List.mem_singleton.mp
            (((passed_of_visit hvisit).2.1 overlap).mp hoverlap).commit
          have hcommit' := List.mem_singleton.mp
            (((passed_of_visit hvisit').2.1 overlap').mp hoverlap').commit
          exact hne (hcommit.symm.trans ((Prod.mk.inj hsame).1.symm.trans hcommit'))

/-- What is returned or thrown: the code throws if the parents do not lead to the commit to go
back to, if an included commit is not on the way or not the session's, or if a requested path was
changed by a commit of Crest that names no session.  Otherwise it returns what is in the way. -/
def IsExact (log : Repository) (input : ForeignOverlapInput)
    (result : Except JsString (List ForeignOverlap)) : Prop :=
  ∀ head, StartsAt log input head →
    ((∀ commits, ¬ Between log input.afterCommit head commits) → ∃ e, result = .error e) ∧
    ∀ commits, Between log input.afterCommit head commits →
      ((∃ commit ∈ input.includedCommits,
          commit ∉ commits ∨ ¬ Owned log input.ownerSessionId commit) →
        ∃ e, result = .error e) ∧
      ((∃ commit ∈ commits, commit ∉ input.includedCommits ∧ Ownerless log commit ∧
          ∃ path ∈ input.paths, Changes log commit path) →
        ∃ e, result = .error e) ∧
      (Sound log input head →
        (∀ commit ∈ commits, ∃ changed, log.changedPaths commit = .ok changed) →
        (∀ commit ∈ input.includedCommits,
          commit ∈ commits ∧ Owned log input.ownerSessionId commit) →
        (∀ commit ∈ commits, commit ∉ input.includedCommits → Ownerless log commit →
          ∀ path ∈ input.paths, ¬ Changes log commit path) →
        ∃ overlaps, result = .ok overlaps ∧
          (∀ overlap, overlap ∈ overlaps ↔ InTheWay log input commits overlap) ∧
          (overlaps.map fun overlap => (overlap.commit, overlap.path)).Nodup ∧
          ∀ overlap ∈ overlaps, ∃ entry, log.read overlap.commit = .ok entry ∧
            (overlap.sessionId.isSome = true ↔ entry.metadata.kind ≠ .external))

/-- **The overlaps are found exactly.** -/
theorem findForeignOverlap_exact (log : Repository) (input : ForeignOverlapInput) {fuel : Nat}
    (hfuel : log.commits.length < fuel) :
    ∃ result, findForeignOverlap log input fuel = some result ∧ IsExact log input result := by
  have hstops : ∃ result, findForeignOverlap log input fuel = some result := by
    unfold findForeignOverlap
    cases prepareWalk log input with
    | error e => exact ⟨_, rfl⟩
    | ok head =>
      have hless : (log.commits.filter (· ∉ ([] : List JsString))).length < fuel :=
        Nat.lt_of_le_of_lt (List.length_filter_le _ _) hfuel
      have hwalk : ∃ result, walk log input fuel head [] input.includedCommits [] =
          some result := walk_total hless
      obtain ⟨result, hresult⟩ := hwalk
      simp only [hresult]
      exact ⟨_, rfl⟩
  obtain ⟨result, hresult⟩ := hstops
  refine ⟨result, hresult, ?_⟩
  intro head hstart
  have hthrows : (∀ overlaps, result ≠ .ok overlaps) → ∃ e, result = .error e := by
    intro hnone
    cases result with
    | error e => exact ⟨e, rfl⟩
    | ok overlaps => exact absurd rfl (hnone overlaps)
  have hfound : ∀ overlaps, result = .ok overlaps → _ := fun overlaps heq =>
    findForeignOverlap_ok hstart (heq ▸ hresult)
  refine ⟨?_, ?_⟩
  · intro hnowhere
    refine hthrows fun overlaps heq => ?_
    obtain ⟨commits, hbetween, -⟩ := hfound overlaps heq
    exact hnowhere commits hbetween
  · intro commits hbetween
    refine ⟨?_, ?_, ?_⟩
    · rintro ⟨commit, hmem, hbad⟩
      refine hthrows fun overlaps heq => ?_
      obtain ⟨commits', hbetween', hinside, hpassed, -⟩ := hfound overlaps heq
      rw [hbetween.unique hbetween'] at hbad
      rcases hbad with houtside | hforeign
      · exact houtside (hinside commit hmem)
      · exact hforeign ((hpassed commit (hinside commit hmem)).own hmem)
    · rintro ⟨commit, hmem, hforeign, hownerless, path, hpath, hchanges⟩
      refine hthrows fun overlaps heq => ?_
      obtain ⟨commits', hbetween', -, hpassed, -⟩ := hfound overlaps heq
      rw [hbetween.unique hbetween'] at hmem
      exact (hpassed commit hmem).foreign hforeign hownerless path hpath hchanges
    · intro hsound hreadable hown hforeign
      have hpassed : ∀ commit ∈ commits, Passed log input commit := fun commit hmem =>
        ⟨fun hincluded => (hown commit hincluded).2, hforeign commit hmem⟩
      have hok : ∃ overlaps, result = .ok overlaps := by
        have hread : ∀ commit ∈ commits, ∃ seen, visit log input commit = .ok seen := by
          intro commit hmem
          obtain ⟨entry, hentry⟩ := hbetween.read hmem
          obtain ⟨changed, hchanged⟩ := hreadable commit hmem
          exact visit_of_passed hentry hchanged (hpassed commit hmem)
        have hunfolded := hresult
        unfold findForeignOverlap at hunfolded
        rw [hsound.prepareWalk hstart] at hunfolded
        obtain ⟨walked, hwalk, hmapped⟩ := Option.map_eq_some_iff.mp hunfolded
        obtain ⟨⟨remaining, found⟩, rfl⟩ := walk_complete hbetween hread
          (fun _ _ hvisited => absurd hvisited List.not_mem_nil) hwalk
        obtain ⟨commits', hbetween', -, hremaining, -⟩ := walk_ok hwalk
        have hnone : remaining = [] := by
          rw [hremaining, ← hbetween.unique hbetween', List.filter_eq_nil_iff]
          intro commit hmem
          simp [(hown commit hmem).1]
        refine ⟨found, hmapped.symm.trans ?_⟩
        show finishWalk log input head remaining found = .ok found
        rw [finishWalk, if_neg (not_not.mpr hnone)]
        by_cases hgiven : input.head.isSome = true
        · rw [if_pos hgiven]
        · rw [if_neg hgiven, hsound.stays (by simpa using hgiven)]
          exact if_neg (not_not.mpr rfl)
      obtain ⟨overlaps, heq⟩ := hok
      obtain ⟨commits', hbetween', -, -, hexact, honce⟩ := hfound overlaps heq
      rw [← hbetween.unique hbetween'] at hexact
      refine ⟨overlaps, heq, hexact, honce, ?_⟩
      intro overlap hmem
      have hway := (hexact overlap).mp hmem
      obtain ⟨entry, hentry, hsession⟩ := hway.session
      refine ⟨entry, hentry, ?_⟩
      rw [hsession, overlapSession]
      split_ifs with hkind
      · simp [hkind]
      · refine ⟨fun _ => hkind, fun _ => ?_⟩
        cases hsessionid : entry.metadata.sessionid with
        | some sessionid => rfl
        | none =>
          exact absurd hway.changed (hforeign overlap.commit hway.commit hway.foreign
            ⟨entry, hentry, hkind, hsessionid⟩ overlap.path hway.requested)

/-- A log with these commits and what was changed by them. -/
def listed (entries : List (JsString × ValidatedWorkspaceMutation × List UInt8))
    (head : JsString) : Repository where
  commits := entries.map Prod.fst
  read commit :=
    match entries.find? fun entry => entry.1 = commit with
    | some entry => .ok entry.2.1
    | none => .error (js "missing")
  diffTree commit :=
    match entries.find? fun entry => entry.1 = commit with
    | some entry => .ok entry.2.2
    | none => .error (js "missing")
  head := .ok (some head)
  headAfter := .ok (some head)
  mem_commits := by
    intro commit mutation h
    cases hfind : entries.find? fun entry => entry.1 = commit with
    | none =>
      rw [hfind] at h
      cases h
    | some entry =>
      have hcommit : entry.1 = commit := by simpa using List.find?_some hfind
      exact List.mem_map.mpr ⟨entry, List.mem_of_find?_eq_some hfind, hcommit⟩

/-- The id of a commit. -/
def commitId (u : UInt16) : JsString := List.replicate 40 u

/-- A commit of a session between two others: one before it, and one of another session that
changes the same path. -/
def threeCommits : Repository :=
  listed
    [(commitId 0x61, ⟨none, .external, none⟩, []),
      (commitId 0x62, ⟨some (commitId 0x61), .agentTurn, some (js "s")⟩, utf8 (js "p") ++ [0]),
      (commitId 0x63, ⟨some (commitId 0x62), .agentTurn, some (js "t")⟩, utf8 (js "p") ++ [0])]
    (commitId 0x63)

/-- The session takes back its own commit. -/
def takeBack : ForeignOverlapInput :=
  { afterCommit := commitId 0x61
    paths := [js "p"]
    includedCommits := [commitId 0x62]
    ownerSessionId := js "s" }

theorem threeCommits_exact :
    ∃ result, findForeignOverlap threeCommits takeBack 4 = some result ∧
      IsExact threeCommits takeBack result :=
  findForeignOverlap_exact threeCommits takeBack (by decide)

example : findForeignOverlap threeCommits takeBack 4 =
    some (.ok [⟨commitId 0x63, js "p", some (js "t")⟩]) := by
  decide +kernel

/-- Two commits, each the parent of the other. -/
def circle : Repository :=
  listed
    [(commitId 0x61, ⟨some (commitId 0x62), .external, none⟩, []),
      (commitId 0x62, ⟨some (commitId 0x61), .external, none⟩, [])]
    (commitId 0x62)

/-- A rewind that names no session, after another commit. -/
def namelessRewind : Repository :=
  listed
    [(commitId 0x61, ⟨none, .external, none⟩, []),
      (commitId 0x62, ⟨some (commitId 0x61), .rewind, none⟩, utf8 (js "p") ++ [0])]
    (commitId 0x62)

/-- **A circle through the commit to go back to is no error, and a change of a requested path by
a commit that is not external and names no session is one.** -/
theorem findForeignOverlap_differs :
    findForeignOverlap circle { takeBack with includedCommits := [] } 3 = some (.ok []) ∧
      findForeignOverlap namelessRewind { takeBack with includedCommits := [] } 3 =
        some (.error (js "Overlapping Crest mutation is missing its owner Session")) := by
  decide +kernel

end Exactness

end MutationLog

end Workspace

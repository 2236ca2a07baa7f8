import Crest.ApplyWorkerSteps

/-!
# What the reconciler does with leftovers

One lemma for each thing the reconciler looks at, then one for each kind of
leftover: a prepared artifact beside the leaf is removed, a displaced source
goes back to the leaf, an installed target gives way to the displaced source,
and a quarantine without its entry is refused.
-/

namespace FilesystemApply

open Workspace Interruption Program

variable {env : Environment}
variable {source target : RestorableState}

/-- A name is free or shows, under its only name, one of the two states. -/
def Known (env : Environment) (source target : RestorableState) (d : Directory) (name : Name) :
    Prop :=
  ∀ e, d.entry name = some e →
    d.nlink e.inode = 1 ∧ (env.shown e.node = some source ∨ env.shown e.node = some target)

/-- At most one prepared name is taken, and both are known. -/
structure KnownArtifacts (env : Environment) (source target : RestorableState) (d : Directory) :
    Prop where
  file : Known env source target d .preparedFile
  symlink : Known env source target d .preparedSymlink
  one : d.preparedFile = none ∨ d.preparedSymlink = none

/-- The quarantine holds an entry in a state, under its only name. -/
structure Holding (env : Environment) (d : Directory) (e : Entry) (s : RestorableState) :
    Prop where
  quarantine : ∃ inode, d.quarantine = some ⟨inode, .directory []⟩
  quarantined : d.quarantined = some e
  sole : d.nlink e.inode = 1
  shown : env.shown e.node = some s

/-- What the reconciler notes about a known prepared name. -/
def artifactOf (env : Environment) (source target : RestorableState) (d : Directory)
    (name : Name) : Option PreparedArtifact :=
  (d.entry name).map fun e =>
    ⟨name, ⟨e.inode, e.node, 1⟩, decide (env.shown e.node = some source),
      decide (env.shown e.node = some target)⟩

variable {d : Directory} {name : Name} {α : Type} {e : Entry} {s : RestorableState}

attribute [local simp] Environment.shownAt

theorem matchesArtifactExpected_entry (he : d.entry name = some e) (hn : d.nlink e.inode = 1)
    (hs : env.shown e.node = some s) (expected : RestorableState) :
    matchesArtifactExpected env d (some ⟨e.inode, e.node, 1⟩) name expected =
      decide (s = expected) := by
  have h := matchesArtifactExpected_eq
    (show env.shownAt d name = some s by simp [he, hs]) expected
  rwa [show d.lstat name = some ⟨e.inode, e.node, 1⟩ by simp [Directory.lstat, he, hn]] at h

theorem run_inspectPrepared (h : Known env source target d name) (initial : Option Stat)
    (q : Option PreparedArtifact → Worker α) :
    run Call.exec (inspectPrepared env initial source target name >>= q) d =
      run Call.exec (q (artifactOf env source target d name)) d := by
  unfold inspectPrepared artifactOf
  cases he : d.entry name with
  | none => simp [Directory.lstat, he]
  | some e =>
    obtain ⟨inode, node⟩ := e
    obtain ⟨hn, hshown⟩ := h _ he
    simp only at hn hshown
    obtain ⟨s, hs⟩ : ∃ s, env.shown node = some s := by
      rcases hshown with h | h <;> exact ⟨_, h⟩
    have hmatch := matchesArtifactExpected_entry he hn hs
    have hor : (decide (s = source) || decide (s = target)) = true := by
      rw [hs] at hshown
      simpa using hshown
    cases node with
    | file _ _ | symlink _ =>
      simp [Directory.lstat, he, hn, hmatch, hor, hs]
    | directory | special => cases hs

theorem run_inspectPrepared_unknown (he : d.entry name = some e) (hn : d.nlink e.inode = 1)
    (hs : env.shown e.node = some s) (hsource : s ≠ source) (htarget : s ≠ target)
    (initial : Option Stat) (q : Option PreparedArtifact → Worker α) :
    run Call.exec (inspectPrepared env initial source target name >>= q) d =
      (.error (js "workspace prepared artifact is unknown"), d) := by
  unfold inspectPrepared
  obtain ⟨inode, node⟩ := e
  simp only at hn hs
  have hmatch := matchesArtifactExpected_entry he hn hs
  cases node with
  | file _ _ | symlink _ => simp [Directory.lstat, he, hn, hmatch, hsource, htarget]
  | directory | special => cases hs

theorem run_inspectPrepared_cases (d : Directory) (initial : Option Stat) (name : Name)
    (q : Option PreparedArtifact → Worker α) :
    (∃ message, run Call.exec (inspectPrepared env initial source target name >>= q) d =
        (.error message, d)) ∨
      ∃ found, run Call.exec (inspectPrepared env initial source target name >>= q) d =
        run Call.exec (q found) d := by
  unfold inspectPrepared
  simp only [read_bind, run_read]
  cases d.lstat name with
  | none => exact .inr ⟨none, rfl⟩
  | some state =>
    simp only [require]
    split_ifs
    · exact .inr ⟨_, rfl⟩
    all_goals exact .inl ⟨_, rfl⟩

theorem validateReconciledLeaf_ok (hs : env.shownAt d .leaf = some s) (hsole : Sole d .leaf)
    (prepared : List PreparedArtifact) :
    validateReconciledLeaf (d.lstat .leaf) prepared = .ok () := by
  rcases shownAt_cases hs with ⟨he, -⟩ | ⟨inode, _, _, he, -⟩ | ⟨_, _, he, -⟩
  · simp [validateReconciledLeaf, Directory.lstat, he]
  · have hn : d.nlink inode = 1 := hsole _ he
    simp [validateReconciledLeaf, Directory.lstat, he, hn]
  · simp [validateReconciledLeaf, Directory.lstat, he]

theorem exec_unlink (he : d.entry name = some e) (hs : env.shown e.node = some s) :
    Call.exec (.unlink name) d = .ok (d.set name none) := by
  obtain ⟨inode, node⟩ := e
  cases node with
  | file | symlink => simp [Call.exec, he]
  | directory | special => cases hs

attribute [local simp] Directory.entry Directory.lstat

theorem run_inspectQuarantine_none (hq : d.quarantine = none)
    (q : Option QuarantineArtifact → Worker α) :
    run Call.exec (inspectQuarantine env source target >>= q) d = run Call.exec (q none) d := by
  unfold inspectQuarantine
  simp [hq]

variable {inode : Nat}

theorem run_inspectQuarantine_known (h : Holding env d e s) (hknown : s = source ∨ s = target)
    (q : Option QuarantineArtifact → Worker α) :
    run Call.exec (inspectQuarantine env source target >>= q) d =
      run Call.exec (q (some ⟨decide (s = source), decide (s = target)⟩)) d := by
  obtain ⟨⟨inode, hq⟩, hqd, hn, hs⟩ := h
  have hshown : env.shownAt d .quarantined = some s := by
    simp [hqd, hs]
  have hsole : Sole d .quarantined := sole_of_nlink hqd hn
  have hor : (decide (s = source) || decide (s = target)) = true := by simpa using hknown
  have hstat : d.lstat .quarantine = some ⟨inode, .directory [], d.nlink inode⟩ := by
    simp [hq]
  have hread : d.readdirQuarantine [] = [js "entry"] := by
    simp [Directory.readdirQuarantine, hqd]
  unfold inspectQuarantine
  simp only [read_bind, run_read, hstat, hread, beq_self_eq_true, require_true, done_bind,
    validateLeaf_ok hshown hsole, check_ok, matchesExpectedLive_eq hshown hsole, hor, pure_eq]

theorem run_inspectQuarantine_empty (hq : d.quarantine = some ⟨inode, .directory []⟩)
    (hqd : d.quarantined = none) (q : Option QuarantineArtifact → Worker α) :
    run Call.exec (inspectQuarantine env source target >>= q) d =
      (.error (js "workspace quarantine artifact contains unknown entries"), d) := by
  unfold inspectQuarantine
  simp [hq, Directory.readdirQuarantine, hqd]

/-- The artifacts noted under the two prepared names. -/
def artifactsOf (env : Environment) (source target : RestorableState) (d : Directory) :
    List PreparedArtifact :=
  (artifactOf env source target d .preparedFile).toList ++
    (artifactOf env source target d .preparedSymlink).toList

theorem run_reconcileArtifacts {live : RestorableState}
    {quarantine : Option QuarantineArtifact} (hlive : env.shownAt d .leaf = some live)
    (hsole : Sole d .leaf) (hknown : KnownArtifacts env source target d)
    (hquarantine : ∀ q : Option QuarantineArtifact → Worker Unit,
      run Call.exec (inspectQuarantine env source target >>= q) d =
        run Call.exec (q quarantine) d) :
    run Call.exec (reconcileArtifacts env source target live) d =
      run Call.exec
        (settleArtifacts source target (d.lstat .leaf) (decide (live = source))
          (decide (live = target)) (artifactsOf env source target d) quarantine) d := by
  have hlength : ((artifactOf env source target d .preparedFile).toList ++
      (artifactOf env source target d .preparedSymlink).toList).length ≤ 1 := by
    have hle (o : Option PreparedArtifact) : o.toList.length ≤ 1 := by cases o <;> simp
    rcases hknown.one with h | h <;> simp [artifactOf, h, hle]
  unfold reconcileArtifacts
  simp only [lstatOptional, read_bind, done_bind, run_read]
  rw [run_inspectPrepared hknown.file, run_inspectPrepared hknown.symlink]
  simp only [hlength, decide_true, require_true, done_bind]
  rw [hquarantine]
  simp only [validateReconciledLeaf_ok hlive hsole, check_ok, done_bind, get_bind, run_read,
    matchesArtifactExpected_eq hlive, decide_true, require_true, artifactsOf]

theorem run_reconcileArtifacts_empty (hq : d.quarantine = some ⟨inode, .directory []⟩)
    (hqd : d.quarantined = none) (live : RestorableState) :
    ∃ message, run Call.exec (reconcileArtifacts env source target live) d =
      (.error message, d) := by
  unfold reconcileArtifacts
  simp only [lstatOptional, read_bind, done_bind, run_read]
  rcases run_inspectPrepared_cases d (d.lstat .leaf) .preparedFile _ with
    ⟨message, h⟩ | ⟨file, h⟩
  · exact ⟨message, h⟩
  rw [h]
  rcases run_inspectPrepared_cases d (d.lstat .leaf) .preparedSymlink _ with
    ⟨message, h⟩ | ⟨symlink, h⟩
  · exact ⟨message, h⟩
  rw [h]
  simp only [require]
  split_ifs
  · rw [done_bind, run_inspectQuarantine_empty hq hqd]
    exact ⟨_, rfl⟩
  · exact ⟨_, rfl⟩

/-- The directory without prepared artifacts. -/
def unprepared (d : Directory) : Directory :=
  { d with
    preparedFile := none
    preparedSymlink := none }

theorem run_removePrepared {d' : Directory} (hartifacts : KnownArtifacts env source target d)
    (hfile' : d'.preparedFile = d.preparedFile)
    (hsymlink' : d'.preparedSymlink = d.preparedSymlink) :
    run Call.exec (removePrepared (artifactsOf env source target d)) d' =
      (.ok (), unprepared d') := by
  have hknown {name : Name} {e : Entry} (h : Known env source target d name)
      (he : d.entry name = some e) : ∃ s, env.shown e.node = some s := by
    rcases (h e he).2 with h | h <;> exact ⟨_, h⟩
  obtain ⟨leaf, preparedFile, preparedSymlink, quarantine, quarantined, nextInode⟩ := d'
  simp only at hfile' hsymlink'
  subst hfile' hsymlink'
  rcases hartifacts.one with hf | hsl
  · cases hsl : d.preparedSymlink with
    | none =>
      simp [artifactsOf, artifactOf, hf, hsl, removePrepared, unprepared]
    | some e =>
      obtain ⟨s, hs⟩ := hknown hartifacts.symlink hsl
      simp only [artifactsOf, artifactOf, Directory.entry, hf, hsl, removePrepared,
        lstatOptional, Option.map_none, Option.map_some, Option.toList_none,
        Option.toList_some, List.nil_append, read_bind, done_bind, run_read, Directory.lstat,
        Option.isSome_some, if_true, perform_bind]
      rw [run_call Call.exec (exec_unlink rfl hs)]
      rfl
  · cases hf : d.preparedFile with
    | none =>
      simp [artifactsOf, artifactOf, hf, hsl, removePrepared, unprepared]
    | some e =>
      obtain ⟨s, hs⟩ := hknown hartifacts.file hf
      simp only [artifactsOf, artifactOf, Directory.entry, hf, hsl, removePrepared,
        lstatOptional, Option.map_none, Option.map_some, Option.toList_none,
        Option.toList_some, List.append_nil, read_bind, done_bind, run_read, Directory.lstat,
        Option.isSome_some, if_true, perform_bind]
      rw [run_call Call.exec (exec_unlink rfl hs)]
      rfl

theorem reconcile_beside {live : RestorableState} (hlive : env.shownAt d .leaf = some live)
    (hsole : Sole d .leaf) (hstate : live = source ∨ live = target)
    (hknown : KnownArtifacts env source target d) (hq : d.quarantine = none) :
    run Call.exec (reconcileArtifacts env source target live) d = (.ok (), unprepared d) := by
  rw [run_reconcileArtifacts hlive hsole hknown (run_inspectQuarantine_none hq)]
  have hremove := run_removePrepared hknown rfl rfl
  unfold settleArtifacts
  by_cases hempty : artifactsOf env source target d = []
  · rw [hempty] at hremove ⊢
    simpa [removePrepared] using hremove
  · have hor : (!decide (live = source) && !decide (live = target)) = false := by
      rcases hstate with rfl | rfl <;> simp
    simp only [Option.isNone_none, Bool.true_and, List.isEmpty_iff, hempty, if_false, hor,
      Bool.false_eq_true, pure_eq]
    exact hremove

/-- The directory with the entry in its quarantine back at the leaf. -/
def restored (d : Directory) (e : Entry) : Directory :=
  { d with
    leaf := some e
    quarantine := none
    quarantined := none }

theorem run_restore (hleaf : d.leaf = none) (hq : d.quarantine = some ⟨inode, .directory []⟩)
    (hqd : d.quarantined = some e) (hs : env.shown e.node = some s) (q : Worker α) :
    run Call.exec (.call (.rename .quarantined .leaf) (.call .rmdir q)) d =
      run Call.exec q (restored d e) := by
  have hrename : Call.exec (.rename .quarantined .leaf) d =
      .ok { d with
        leaf := some e
        quarantined := none } := by
    obtain ⟨inode', node⟩ := e
    cases node with
    | file | symlink =>
      simp [Call.exec, hqd, hleaf, Directory.vacant, Directory.set, bind, Except.bind, pure, Except.pure]
    | directory | special => cases hs
  have hrmdir : Call.exec .rmdir { d with
        leaf := some e
        quarantined := none } = .ok (restored d e) := by
    simp [Call.exec, hq, Directory.readdirQuarantine, Directory.set, restored]
  rw [run_call Call.exec hrename, run_call Call.exec hrmdir]

theorem reconcile_displaced (hleaf : d.leaf = none) (h : Holding env d e source)
    (hknown : KnownArtifacts env source target d) :
    run Call.exec (reconcileArtifacts env source target .absent) d =
      (.ok (), unprepared (restored d e)) := by
  have hlive : env.shownAt d .leaf = some .absent := by
    simp [hleaf]
  have hsole : Sole d .leaf := by
    intro e' he'
    simp [hleaf] at he'
  rw [run_reconcileArtifacts hlive hsole hknown (run_inspectQuarantine_known h (.inl rfl))]
  have hstat : d.lstat .leaf = none := by simp [hleaf]
  unfold settleArtifacts restoreDesired
  simp only [hstat, Option.isNone_some, Bool.false_and, Bool.false_eq_true, if_false,
    decide_true, if_true, Option.isSome_none, Bool.and_false, Bool.not_false, require_true,
    done_bind, Bool.true_or, perform_bind, call_bind]
  obtain ⟨⟨inode, hq⟩, hqd, -, hs⟩ := h
  rw [run_restore hleaf hq hqd hs]
  exact run_removePrepared hknown rfl rfl

theorem reconcile_installed {e' : Entry} (hleaf : d.leaf = some e')
    (hlive : env.shown e'.node = some target) (hn' : d.nlink e'.inode = 1)
    (h : Holding env d e source) (hne : source ≠ target)
    (hknown : KnownArtifacts env source target d) :
    run Call.exec (reconcileArtifacts env source target target) d =
      (.ok (), unprepared (restored d e)) := by
  have hshown : env.shownAt d .leaf = some target := by
    simp [hleaf, hlive]
  rw [run_reconcileArtifacts hshown (sole_of_nlink hleaf hn') hknown
    (run_inspectQuarantine_known h (.inl rfl))]
  have hunlink : Call.exec (.unlink .leaf) d = .ok { d with leaf := none } :=
    exec_unlink hleaf hlive
  have hstat : d.lstat .leaf = some ⟨e'.inode, e'.node, 1⟩ := by
    simp [hleaf, hn']
  unfold settleArtifacts restoreDesired
  simp only [hstat, Option.isNone_some, Bool.false_and, Bool.false_eq_true, if_false,
    decide_true, if_true, Option.isSome_some, decide_false, hne.symm, Bool.not_false, Bool.and_self,
    Bool.not_true, Bool.or_true, require_true, done_bind, perform_bind, call_bind]
  obtain ⟨⟨inode, hq⟩, hqd, -, hs⟩ := h
  rw [run_call Call.exec hunlink, run_restore (d := { d with leaf := none }) rfl hq hqd hs]
  exact run_removePrepared hknown rfl rfl

theorem reconcile_duplicate {e' : Entry} (hleaf : d.leaf = some e')
    (hlive : env.shown e'.node = some source) (hn' : d.nlink e'.inode = 1)
    (h : Holding env d e source) (hknown : KnownArtifacts env source target d) :
    run Call.exec (reconcileArtifacts env source target source) d =
      (.error (js "workspace quarantine duplicates the desired live path"), d) := by
  have hshown : env.shownAt d .leaf = some source := by
    simp [hleaf, hlive]
  rw [run_reconcileArtifacts hshown (sole_of_nlink hleaf hn') hknown
    (run_inspectQuarantine_known h (.inl rfl))]
  unfold settleArtifacts restoreDesired
  simp [hleaf, hn']

theorem reconcile_unknown (hfile : d.preparedFile = some e) (hn : d.nlink e.inode = 1)
    (hs : env.shown e.node = some s) (hsource : s ≠ source) (htarget : s ≠ target)
    (live : RestorableState) :
    run Call.exec (reconcileArtifacts env source target live) d =
      (.error (js "workspace prepared artifact is unknown"), d) := by
  unfold reconcileArtifacts
  simp only [lstatOptional, read_bind, done_bind, run_read]
  have he : d.entry .preparedFile = some e := hfile
  exact run_inspectPrepared_unknown he hn hs hsource htarget _ _

end FilesystemApply

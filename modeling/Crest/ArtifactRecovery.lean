import Crest.ArtifactReconcile

/-!
# Recovery of an interrupted apply

The worker is killed after some of its calls, and recovery resolves the
pending restore while the mutation head is still the source commit.  Whether
that brings the path back depends on the last call the worker made:
`Covered` says how, and `interrupted_apply_recovers_iff` that it says it
exactly.

Three kinds of leftover are not covered.  A quarantine directory without its
entry is refused, although two calls leave one behind.  A prepared file that
is still being written is refused unless its present contents happen to be one
of the two states.  Between the hard link that installs a file and the removal
of its prepared name the leaf has two names, so the inspector blocks it and
the reconciler, which knows this case, is never asked.
-/

namespace FilesystemApply

open Workspace Interruption Program

variable (env : Environment)

/-- The outcome of a recovery that does not throw. -/
inductive RecoveryDecision
  | notCommitted
  | needsUser
  deriving DecidableEq, Repr

/-- `reconcileInterruptedArtifacts` for one path: skipped when the inspector
cannot say what the path is. -/
def reconcileInterruptedArtifacts (source planned : RestorableState) : Worker Unit := do
  let d ← get
  match capturedFromLive (env.inspectLivePath d) with
  | none => done ()
  | some captured =>
    match captured.restorable with
    | none => done ()
    | some live => reconcileArtifacts env source planned live

/-- `classifyPaths` for one path. -/
def classifyPath (source planned : RestorableState) : Worker RecoveryClassification :=
  read fun d => done (classifyWorkspaceRecoveryPath (capturedFromLive (env.inspectLivePath d))
    source.captured planned.captured)

/-- `resolvePendingUnderLease` while the head is the source commit, for a
record of one affected path. -/
def resolvePendingUnderLease (source planned : RestorableState) : Worker RecoveryDecision := do
  reconcileInterruptedArtifacts env source planned
  let classification ← classifyPath env source planned
  if classification = .unknown then return .needsUser
  if classification = .target then applyCapturedPath env planned source
  let verified ← classifyPath env source planned
  require (verified = .before)
    (js "Workspace restore verification no longer matches its commit facts")
  return .notCommitted

/-- A recovery that worked: it answers `not-committed`, the path is in its
source state and no artifact is left. -/
structure Recovered (source : RestorableState)
    (outcome : Except JsString RecoveryDecision × Directory) : Prop where
  decision : outcome.1 = .ok .notCommitted
  shown : capturedFromLive (env.inspectLivePath outcome.2) = some source.captured
  noPreparedFile : outcome.2.preparedFile = none
  noPreparedSymlink : outcome.2.preparedSymlink = none
  noQuarantine : outcome.2.quarantine = none

/-- The bytes written to the prepared file so far. -/
def writtenBytes (made : List Call) : Bytes :=
  made.flatMap fun
    | .write _ bytes => bytes
    | _ => []

/-- The kill points recovery copes with, by the calls made so far. -/
def Covered (source target : RestorableState) (made : List Call) : Prop :=
  match made.getLast? with
  | some (.create _) | some (.write _ _) =>
    .file (env.gitBlobOid (writtenBytes made)) false = source ∨
      .file (env.gitBlobOid (writtenBytes made)) false = target
  | some .mkdir | some (.link _ _) | some (.unlink .quarantined) => False
  | some (.symlink _ .leaf) | some (.unlink .preparedFile) | some (.unlink .preparedSymlink) =>
    source ≠ target
  | _ => True

instance (source target : RestorableState) (made : List Call) :
    Decidable (Covered env source target made) := by
  unfold Covered
  split <;> infer_instance

/-- An environment with the objects `old` and `new`, written in one piece. -/
def sampleEnvironment : Environment where
  gitBlobOid blob :=
    if blob = [111, 108, 100] then js "489ce0f857e7634a0eb9f328265a3e91fad49f61"
    else if blob = [110, 101, 119] then js "3e5126c4e761fd09582fc517918a1601b218dff0"
    else js "e69de29bb2d1d6434b8b29ae775ad8c2e48c5391"
  readBlob oid :=
    if oid = js "489ce0f857e7634a0eb9f328265a3e91fad49f61" then [111, 108, 100]
    else if oid = js "3e5126c4e761fd09582fc517918a1601b218dff0" then [110, 101, 119]
    else []
  writeFileChunks blob := [blob]
  flatten_writeFileChunks blob := by simp

/-- A plain file with the contents `old`. -/
def oldFile : RestorableState :=
  .file (js "489ce0f857e7634a0eb9f328265a3e91fad49f61") false

/-- A plain file with the contents `new`. -/
def newFile : RestorableState :=
  .file (js "3e5126c4e761fd09582fc517918a1601b218dff0") false

/-- A directory with the file `old` and nothing else. -/
def oldDirectory : Directory where
  leaf := some ⟨1, .file [111, 108, 100] false⟩
  preparedFile := none
  preparedSymlink := none
  quarantine := none
  quarantined := none
  nextInode := 2

theorem oldDirectory_holds : sampleEnvironment.Holds oldDirectory oldFile where
  shown := by decide
  noPreparedFile := rfl
  noPreparedSymlink := rfl
  noQuarantine := rfl
  noQuarantined := rfl
  fresh := by simp [oldDirectory]

/-- Not every kill point is recovered: after the hard link that installs `new`
over `old`, recovery asks the user. -/
theorem interrupted_apply_frozen :
    ¬ ∀ (env : Environment) (source target : RestorableState) (d : Directory) (n : Nat),
      env.Restorable source → env.Restorable target → env.Holds d source →
      Recovered env source
        (run Call.exec (resolvePendingUnderLease env source target)
          (interrupt Call.exec (applyCapturedPath env source target) n d).2) := by
  intro h
  have hfrozen := (h sampleEnvironment oldFile newFile oldDirectory 6 (by rfl) (by rfl)
    oldDirectory_holds).decision
  have hneedsUser : (run Call.exec (resolvePendingUnderLease sampleEnvironment oldFile newFile)
      (interrupt Call.exec (applyCapturedPath sampleEnvironment oldFile newFile) 6
        oldDirectory).2).1 = .ok .needsUser := by rfl
  rw [hneedsUser] at hfrozen
  cases hfrozen

variable {env}
variable {source target : RestorableState}

variable {d : Directory}

/-- Recovery brings the source state back from `d`. -/
abbrev Recovers (env : Environment) (source target : RestorableState) (d : Directory) : Prop :=
  Recovered env source (run Call.exec (resolvePendingUnderLease env source target) d)

theorem recovered_of_reconciled {d' : Directory} {live : RestorableState}
    (hsource : env.Restorable source)
    (hreconcile : run Call.exec (reconcileInterruptedArtifacts env source target) d =
      (.ok (), d'))
    (hd' : env.Holds d' live) (hlive : live = source ∨ live = target) :
    Recovers env source target d := by
  have hclassify {d : Directory} {live : RestorableState} (h : env.Holds d live) :
      classifyWorkspaceRecoveryPath (capturedFromLive (env.inspectLivePath d)) source.captured
        target.captured =
      if live = source then .before else if live = target then .target else .unknown := by
    rw [h.inspect, classify_captured]
  have hdone {d : Directory} (h : env.Holds d source) :
      Recovered env source (.ok .notCommitted, d) :=
    ⟨rfl, h.inspect, h.noPreparedFile, h.noPreparedSymlink, h.noQuarantine⟩
  rw [Recovers, resolvePendingUnderLease, run_bind_ok Call.exec hreconcile]
  simp only [classifyPath, read_bind, done_bind, run_read, hclassify hd']
  by_cases hsame : live = source
  · subst hsame
    simp only [if_true, reduceCtorEq, if_false, run_read, hclassify hd', decide_true,
      require_true, done_bind, pure_eq, run_done]
    exact hdone hd'
  · obtain rfl : live = target := hlive.resolve_left hsame
    obtain ⟨d'', hsteps, hd''⟩ := applyCapturedPath_steps hd' hsource
    simp only [if_neg hsame, if_true, reduceCtorEq, if_false]
    rw [run_bind_ok Call.exec hsteps.run_eq]
    simp only [run_read, hclassify hd'', if_true, decide_true, require_true, done_bind,
      pure_eq, run_done]
    exact hdone hd''

theorem not_recovered_of_error {d' : Directory} {message : JsString}
    (hreconcile : run Call.exec (reconcileInterruptedArtifacts env source target) d =
      (.error message, d')) :
    ¬ Recovers env source target d := by
  intro h
  have hdecision := h.decision
  unfold resolvePendingUnderLease at hdecision
  rw [run_bind, hreconcile] at hdecision
  cases hdecision

theorem run_reconcileInterruptedArtifacts {live : RestorableState}
    (hlive : env.shownAt d .leaf = some live) (hsole : Sole d .leaf) :
    run Call.exec (reconcileInterruptedArtifacts env source target) d =
      run Call.exec (reconcileArtifacts env source target live) d := by
  unfold reconcileInterruptedArtifacts
  simp [inspect_shown hlive hsole]

variable {inode : Nat}

theorem not_recovered_of_empty (live : RestorableState)
    (hlive : env.shownAt d .leaf = some live) (hsole : Sole d .leaf)
    (hq : d.quarantine = some ⟨inode, .directory []⟩) (hqd : d.quarantined = none) :
    ¬ Recovers env source target d := by
  obtain ⟨message, h⟩ := run_reconcileArtifacts_empty hq hqd live
  rw [← run_reconcileInterruptedArtifacts hlive hsole] at h
  exact not_recovered_of_error h

theorem not_recovered_of_linked {content : Bytes} {executable : Bool}
    (hleaf : d.leaf = some ⟨inode, .file content executable⟩) (hn : d.nlink inode ≠ 1) :
    ¬ Recovers env source target d := by
  intro h
  have hdecision := h.decision
  have hlive : capturedFromLive (env.inspectLivePath d) = none := inspect_linked hleaf hn
  simp only [resolvePendingUnderLease, reconcileInterruptedArtifacts, get_bind, read_bind,
    run_read, hlive, done_bind, classifyPath, classifyWorkspaceRecoveryPath, if_true, pure_eq,
    run_done, Except.ok.injEq, reduceCtorEq] at hdecision

theorem recovered_of_beside {live : RestorableState} (hsource : env.Restorable source)
    (hlive : env.shownAt d .leaf = some live)
    (hfresh : ∀ e, d.leaf = some e → e.inode < d.nextInode) (hsole : Sole d .leaf)
    (hstate : live = source ∨ live = target) (hknown : KnownArtifacts env source target d)
    (hq : d.quarantine = none) (hqd : d.quarantined = none) :
    Recovers env source target d := by
  have h := reconcile_beside hlive hsole hstate hknown hq
  rw [← run_reconcileInterruptedArtifacts hlive hsole] at h
  exact recovered_of_reconciled hsource h ⟨hlive, rfl, rfl, hq, hqd, hfresh⟩ hstate

variable {e : Entry}

attribute [local simp] Directory.nlink prepared settled preparing displaced Directory.entry

section

variable (hsource : env.Restorable source)
include hsource

theorem recovered_of_displaced (hleaf : d.leaf = none)
    (hheld : Holding env d e source) (hfresh : e.inode < d.nextInode)
    (hknown : KnownArtifacts env source target d) :
    Recovers env source target d := by
  have h := reconcile_displaced hleaf hheld hknown
  have hlive : env.shownAt d .leaf = some .absent := by
    simp [Environment.shownAt, hleaf]
  have hsole : Sole d .leaf := by
    intro e' he'
    simp [hleaf] at he'
  rw [← run_reconcileInterruptedArtifacts hlive hsole] at h
  exact recovered_of_reconciled hsource h ⟨hheld.shown, rfl, rfl, rfl, rfl, by
    simpa [unprepared, restored] using hfresh⟩ (.inl rfl)

theorem recovered_of_installed_iff {e' : Entry}
    (hleaf : d.leaf = some e') (hlive : env.shown e'.node = some target)
    (hn' : d.nlink e'.inode = 1) (hheld : Holding env d e source)
    (hfresh : e.inode < d.nextInode) (hknown : KnownArtifacts env source target d) :
    Recovers env source target d ↔
      source ≠ target := by
  have hshown : env.shownAt d .leaf = some target := by
    simp [Environment.shownAt, hleaf, hlive]
  constructor
  · rintro h rfl
    have hdup := reconcile_duplicate hleaf hlive hn' hheld hknown
    rw [← run_reconcileInterruptedArtifacts hshown (sole_of_nlink hleaf hn')] at hdup
    exact not_recovered_of_error hdup h
  · intro hne
    have h := reconcile_installed hleaf hlive hn' hheld hne hknown
    rw [← run_reconcileInterruptedArtifacts hshown (sole_of_nlink hleaf hn')] at h
    exact recovered_of_reconciled hsource h ⟨hheld.shown, rfl, rfl, rfl, rfl, by
      simpa [unprepared, restored] using hfresh⟩ (.inl rfl)

theorem recovered_of_preparing_iff {s : RestorableState}
    (hlive : env.shownAt d .leaf = some source)
    (hfresh : ∀ e, d.leaf = some e → e.inode < d.nextInode) (hsole : Sole d .leaf)
    (hfile : d.preparedFile = some e) (hn : d.nlink e.inode = 1)
    (hs : env.shown e.node = some s) (hsymlink : d.preparedSymlink = none)
    (hq : d.quarantine = none) (hqd : d.quarantined = none) :
    Recovers env source target d ↔
      s = source ∨ s = target := by
  constructor
  · intro h
    by_contra hunknown
    obtain ⟨hne, hne'⟩ := not_or.mp hunknown
    have herror := reconcile_unknown hfile hn hs hne hne' source
    rw [← run_reconcileInterruptedArtifacts hlive hsole] at herror
    exact not_recovered_of_error herror h
  · intro hknown
    refine recovered_of_beside hsource hlive hfresh hsole (.inl rfl)
      ⟨?_, ?_, .inr hsymlink⟩ hq hqd
    · intro e' he'
      obtain rfl : e = e' := by simpa [hfile] using he'
      exact ⟨hn, by rw [hs]; simpa using hknown⟩
    · intro e' he'
      simp [hsymlink] at he'

end

theorem known_of_free {name : Name} (h : d.entry name = none) :
    Known env source target d name := by
  intro e he
  rw [h] at he
  cases he

theorem known_of_none (hfile : d.preparedFile = none) (hsymlink : d.preparedSymlink = none) :
    KnownArtifacts env source target d :=
  ⟨known_of_free hfile, known_of_free hsymlink, .inl hfile⟩

theorem recovered_of_holds {live : RestorableState} (hsource : env.Restorable source)
    (hd : env.Holds d live) (hstate : live = source ∨ live = target) :
    Recovers env source target d :=
  recovered_of_beside hsource hd.shown hd.fresh hd.sole hstate
    (known_of_none hd.noPreparedFile hd.noPreparedSymlink) hd.noQuarantine hd.noQuarantined

variable {leaf : Option Entry}

theorem prepared_sole {next : Nat} (hfresh : ∀ e, leaf = some e → e.inode < next) :
    Sole (prepared env leaf next target) .leaf := by
  intro e he
  have hleaf : leaf = some e := by
    rw [← prepared_leaf env leaf next target]
    exact he
  rw [prepared_nlink env (hfresh e hleaf), hleaf]
  simp

theorem killed_preparing {next : Nat} (hsource : env.Restorable source)
    (hshown : env.shownLeaf leaf = some source)
    (hfresh : ∀ e, leaf = some e → e.inode < next) (content : Bytes) (executable : Bool) :
    Recovers env source target (preparing leaf next content executable) ↔
      .file (env.gitBlobOid content) executable = source ∨
        .file (env.gitBlobOid content) executable = target := by
  have hlive : env.shownAt (preparing leaf next content executable) .leaf = some source := by
    cases leaf <;> exact hshown
  have hfresh' (e : Entry) (he : leaf = some e) : e.inode < next + 1 :=
    Nat.lt_succ_of_lt (hfresh e he)
  have hsole : Sole (preparing leaf next content executable) .leaf := by
    intro e he
    have hleaf : leaf = some e := he
    have hne : next ≠ e.inode := (Nat.ne_of_lt (hfresh e hleaf)).symm
    simp [hleaf, hne]
  have hn : (preparing leaf next content executable).nlink next = 1 := by
    simp [Directory.refers_of_fresh hfresh]
  exact recovered_of_preparing_iff hsource hlive hfresh' hsole rfl hn rfl rfl rfl rfl

theorem known_prepared (source : RestorableState) (leaf : Option Entry) (next : Nat)
    (htarget : env.Restorable target)
    (hfile : d.preparedFile = (prepared env leaf next target).preparedFile)
    (hsymlink : d.preparedSymlink = (prepared env leaf next target).preparedSymlink)
    (hn : target ≠ .absent → d.nlink next = 1) :
    KnownArtifacts env source target d := by
  cases target with
  | absent => exact known_of_none hfile hsymlink
  | file oid executable =>
    refine ⟨?_, known_of_free hsymlink, .inr hsymlink⟩
    intro e he
    obtain rfl : ⟨next, .file (env.readBlob oid) executable⟩ = e := by
      simpa [hfile] using he
    exact ⟨hn (by simp), .inr (shown_nodeOf htarget rfl)⟩
  | symlink oid =>
    refine ⟨known_of_free hfile, ?_, .inl hfile⟩
    intro e he
    obtain rfl : ⟨next, .symlink (env.readBlob oid)⟩ = e := by
      simpa [hsymlink] using he
    exact ⟨hn (by simp), .inr (shown_nodeOf htarget rfl)⟩

theorem prepared_nlink_next {next : Nat} (hfresh : ∀ e, leaf = some e → e.inode < next)
    (hpresent : target ≠ .absent) :
    (prepared env leaf next target).nlink next = 1 := by
  cases target with
  | absent => exact absurd rfl hpresent
  | file | symlink =>
    simp [Directory.refers_of_fresh hfresh]

theorem recovered_prepared {next : Nat} (hsource : env.Restorable source)
    (htarget : env.Restorable target) (hshown : env.shownLeaf leaf = some source)
    (hfresh : ∀ e, leaf = some e → e.inode < next) :
    Recovers env source target (prepared env leaf next target) := by
  have hknown := known_prepared source leaf next htarget rfl rfl (prepared_nlink_next hfresh)
  refine recovered_of_beside hsource ?_ ?_ (prepared_sole hfresh) (.inl rfl) hknown
    (prepared_quarantine env leaf next target).1 (prepared_quarantine env leaf next target).2
  · simp only [Environment.shownAt, Directory.entry, prepared_leaf]
    exact hshown
  · intro e he
    rw [prepared_leaf] at he
    exact Nat.lt_of_lt_of_le (hfresh e he) (prepared_nextInode env leaf next target)

/-- While the prepared file is being written, the kill point is covered if its
contents are those of a state. -/
theorem covered_writing (source target : RestorableState) (chunks : List Bytes) :
    Covered env source target
        (.create .preparedFile :: chunks.map (.write .preparedFile)) ↔
      .file (env.gitBlobOid chunks.flatten) false = source ∨
        .file (env.gitBlobOid chunks.flatten) false = target := by
  have hbytes : writtenBytes (.create .preparedFile :: chunks.map (.write .preparedFile)) =
      chunks.flatten := by
    simp [writtenBytes, List.flatMap_map, List.flatMap_id']
  have hlast : ∃ call, (Call.create .preparedFile :: chunks.map (.write .preparedFile)).getLast? =
      some call ∧ (call = .create .preparedFile ∨ ∃ bytes, call = .write .preparedFile bytes) := by
    rcases List.eq_nil_or_concat chunks with rfl | ⟨init, last, rfl⟩
    · exact ⟨_, rfl, .inl rfl⟩
    · refine ⟨.write .preparedFile last, ?_, .inr ⟨last, rfl⟩⟩
      rw [List.concat_eq_append, List.map_append, ← List.cons_append]
      exact List.getLast?_concat
  obtain ⟨call, hcall, hkind⟩ := hlast
  unfold Covered
  rw [hcall, hbytes]
  rcases hkind with rfl | ⟨bytes, rfl⟩ <;> rfl

variable {mid : Directory} {made : List Call}

section

variable (hsource : env.Restorable source) (htarget : env.Restorable target)
  (hshown : env.shownLeaf leaf = some source)
include hsource htarget hshown

theorem killed_in_prepare {next : Nat} {rest : List Call}
    (hfresh : ∀ e, leaf = some e → e.inode < next)
    (hmade : prepareCalls env target = made ++ rest)
    (hmid : Leads Call.exec (settled leaf next) made mid) :
    Recovers env source target mid ↔
      Covered env source target made := by
  have hrest : env.Holds (settled leaf next) source := holds_settled hshown hfresh
  have hstart : Recovers env source target (settled leaf next) :=
    recovered_of_holds hsource hrest (.inl rfl)
  have hprepared := recovered_prepared hsource htarget hshown hfresh
  cases target with
  | absent =>
    obtain ⟨rfl, rfl⟩ := hmid.nil_cases hmade
    simpa [Covered] using hstart
  | symlink oid =>
    rcases hmid.cons_cases hmade rfl with ⟨rfl, rfl⟩ | ⟨made', rfl, hcs, hmid'⟩
    · simpa [Covered] using hstart
    obtain ⟨rfl, hend⟩ := hmid'.nil_cases hcs
    obtain rfl : mid = prepared env leaf next (.symlink oid) := hend
    simpa [Covered] using hprepared
  | file oid executable =>
    rcases hmid.cons_cases hmade rfl with ⟨rfl, rfl⟩ | ⟨made', rfl, hcs, hmid'⟩
    · simpa [Covered] using hstart
    change Leads Call.exec (preparing leaf next [] false) made' mid at hmid'
    -- after `chunks` have been written
    have hwriting (chunks : List Bytes)
        (hmid : Leads Call.exec (preparing leaf next [] false)
          (chunks.map (.write .preparedFile)) mid) :
        Recovers env source (.file oid executable) mid ↔
          Covered env source (.file oid executable)
            (.create .preparedFile :: chunks.map (.write .preparedFile)) := by
      obtain rfl := (leads_writes hfresh false chunks []).unique hmid
      rw [covered_writing]
      exact killed_preparing hsource hshown hfresh _ _
    have hall := leads_writes hfresh false (env.writeFileChunks (env.readBlob oid)) []
    rw [env.flatten_writeFileChunks, List.nil_append] at hall
    rcases hmid'.append_cases hcs hall with ⟨rest', hwrites⟩ | ⟨made'', rfl, hcs', hmid''⟩
    · obtain ⟨chunks, chunks', -, rfl, -⟩ := List.map_eq_append_iff.mp hwrites
      exact hwriting chunks hmid'
    rcases hmid''.cons_cases hcs' (exec_chmod hfresh _ executable) with
      ⟨rfl, rfl⟩ | ⟨made', rfl, hcs, hmid'⟩
    · rw [List.append_nil]
      exact hwriting _ hall
    · obtain ⟨rfl, hend⟩ := hmid'.nil_cases hcs
      obtain rfl : mid = prepared env leaf next (.file oid executable) := hend
      have hcovered : Covered env source (.file oid executable)
          (.create .preparedFile ::
            ((env.writeFileChunks (env.readBlob oid)).map (.write .preparedFile) ++
              [.chmod .preparedFile executable])) := by
        unfold Covered
        rw [← List.cons_append, List.getLast?_concat]
        trivial
      simpa [hcovered] using hprepared

theorem covered_prepared {next : Nat} (hfresh : ∀ e, leaf = some e → e.inode < next) :
    Covered env source target (prepareCalls env target) :=
  (killed_in_prepare hsource htarget hshown hfresh (List.append_nil _).symm
    (prepare_steps hfresh target).leads).mp (recovered_prepared hsource htarget hshown hfresh)

end

/-- The directory with a prepared symlink repeated under the leaf. -/
def installedLink (env : Environment) (d : Directory) (oid : JsString) : Directory :=
  { d with
    leaf := some ⟨d.nextInode, .symlink (env.readBlob oid)⟩
    nextInode := d.nextInode + 1 }

theorem killed_in_install {next : Nat} {rest : List Call} (hsource : env.Restorable .absent)
    (htarget : env.Restorable target) (hmade : installCalls env target = made ++ rest)
    (hmid : Leads Call.exec (prepared env none next target) made mid) :
    Recovers env .absent target mid ↔
      Covered env .absent target (prepareCalls env target ++ made) := by
  have hfresh : ∀ e, (none : Option Entry) = some e → e.inode < next := by simp
  have hprepared := recovered_prepared hsource htarget rfl hfresh
  have hcovered := covered_prepared hsource htarget rfl hfresh
  cases target with
  | absent =>
    obtain ⟨rfl, rfl⟩ := hmid.nil_cases hmade
    simpa [hcovered] using hprepared
  | file oid executable =>
    rcases hmid.pair_cases hmade rfl rfl with ⟨rfl, rfl⟩ | ⟨rfl, rfl⟩ | ⟨rfl, rfl⟩
    · simpa [hcovered] using hprepared
    · refine iff_of_false (not_recovered_of_linked rfl ?_) ?_
      · simp [Directory.set]
      · simp [Covered]
    · refine iff_of_true (recovered_of_holds hsource ?_ (.inr rfl)) ?_
      · exact holds_node htarget rfl (Nat.lt_succ_self next)
      · simp [Covered]
  | symlink oid =>
    rcases hmid.pair_cases hmade rfl rfl with ⟨rfl, rfl⟩ | ⟨rfl, rfl⟩ | ⟨rfl, rfl⟩
    · simpa [hcovered] using hprepared
    · let d := installedLink env (prepared env none next (.symlink oid)) oid
      have hn : d.nlink next = 1 := by
        simp [d, installedLink]
      have hn' : d.nlink (next + 1) = 1 := by
        simp [d, installedLink]
      have hknown := known_prepared (d := d) .absent none next htarget rfl rfl fun _ => hn
      have hfresh' : ∀ e, d.leaf = some e → e.inode < d.nextInode := by
        simp [d, installedLink]
      have hrecovered : Recovers env .absent (.symlink oid) d :=
        recovered_of_beside hsource (shown_nodeOf htarget rfl) hfresh' (sole_of_nlink rfl hn')
          (.inr rfl) hknown rfl rfl
      refine iff_of_true hrecovered ?_
      simp [Covered]
    · refine iff_of_true (recovered_of_holds hsource ?_ (.inr rfl)) ?_
      · exact holds_node htarget rfl (Nat.lt_succ_self (next + 1))
      · simp [Covered]

theorem leads_displace (target : RestorableState) (next : Nat)
    (hshown : env.shown e.node = some source) :
    Leads Call.exec (prepared env (some e) next target) [.mkdir, .rename .leaf .quarantined]
      (displaced (prepared env (some e) next target) e) := by
  obtain ⟨inode, node⟩ := e
  cases node with
  | file | symlink => cases target <;> exact ⟨_, rfl, _, rfl, rfl⟩
  | directory | special => cases hshown

variable (env) in
theorem leads_install (e : Entry) (next : Nat) (target : RestorableState) :
    Leads Call.exec (displaced (prepared env (some e) next target) e) (installCalls env target)
      (installed env (displaced (prepared env (some e) next target) e) target) := by
  cases target with
  | absent => rfl
  | file | symlink => exact ⟨_, rfl, _, rfl, rfl⟩

section

variable (hsource : env.Restorable source) (htarget : env.Restorable target)
  (hshown : env.shown e.node = some source)
include hsource htarget hshown

theorem killed_in_displace {next : Nat} {rest : List Call} (hfresh : e.inode < next)
    (hmade : [Call.mkdir, .rename .leaf .quarantined] = made ++ rest)
    (hmid : Leads Call.exec (prepared env (some e) next target) made mid) :
    Recovers env source target mid ↔
      Covered env source target (prepareCalls env target ++ made) := by
  have hfresh' : ∀ e', (some e : Option Entry) = some e' → e'.inode < next := by
    simpa using hfresh
  have hleaf : env.shownLeaf (some e) = some source := hshown
  have hprepared := recovered_prepared hsource htarget hleaf hfresh'
  have hcovered := covered_prepared hsource htarget hleaf hfresh'
  have hne : next ≠ e.inode := (Nat.ne_of_lt hfresh).symm
  have hne' : next + 1 ≠ e.inode := by omega
  have hinode : (prepared env (some e) next target).nextInode ≠ e.inode :=
    (Nat.ne_of_lt (Nat.lt_of_lt_of_le hfresh (prepared_nextInode env _ next target))).symm
  have hmkdir : Call.exec .mkdir (prepared env (some e) next target) =
      .ok { prepared env (some e) next target with
        quarantine := some ⟨(prepared env (some e) next target).nextInode, .directory []⟩
        nextInode := (prepared env (some e) next target).nextInode + 1 } := by
    cases target <;> rfl
  have hrename : Call.exec (.rename .leaf .quarantined)
      { prepared env (some e) next target with
        quarantine := some ⟨(prepared env (some e) next target).nextInode, .directory []⟩
        nextInode := (prepared env (some e) next target).nextInode + 1 } =
      .ok (displaced (prepared env (some e) next target) e) := by
    obtain ⟨inode, node⟩ := e
    cases node with
    | file | symlink => cases target <;> rfl
    | directory | special => cases hshown
  rcases hmid.pair_cases hmade hmkdir hrename with ⟨rfl, rfl⟩ | ⟨rfl, rfl⟩ | ⟨rfl, rfl⟩
  · simpa [hcovered] using hprepared
  · refine iff_of_false (not_recovered_of_empty source ?_ ?_ rfl ?_) ?_
    · simp only [Environment.shownAt, Directory.entry, prepared_leaf]
      exact hshown
    · refine sole_of_nlink (prepared_leaf env (some e) next target) ?_
      cases target <;>
        simp [hne, hne']
    · exact (prepared_quarantine env (some e) next target).2
    · simp [Covered]
  · have hn : (displaced (prepared env (some e) next target) e).nlink e.inode = 1 := by
      cases target <;>
        simp [hne, hne']
    have hn' : target ≠ .absent →
        (displaced (prepared env (some e) next target) e).nlink next = 1 := by
      intro hpresent
      cases target with
      | absent => exact absurd rfl hpresent
      | file | symlink =>
        simp [hne.symm]
    have hknown := known_prepared source (some e) next htarget
      (show (displaced (prepared env (some e) next target) e).preparedFile = _ from rfl) rfl hn'
    have hlt : e.inode < (displaced (prepared env (some e) next target) e).nextInode :=
      Nat.lt_succ_of_lt (Nat.lt_of_lt_of_le hfresh (prepared_nextInode env _ next target))
    refine iff_of_true
      (recovered_of_displaced hsource rfl ⟨⟨_, rfl⟩, rfl, hn, hshown⟩ hlt hknown) ?_
    simp [Covered]

theorem killed_in_retire {next : Nat} {made' rest : List Call} (hfresh : e.inode < next)
    (hstart : Recovers env source target
        (installed env (displaced (prepared env (some e) next target) e) target) ↔
      Covered env source target made)
    (hmade : [Call.unlink .quarantined, .rmdir] = made' ++ rest)
    (hmid : Leads Call.exec
      (installed env (displaced (prepared env (some e) next target) e) target) made' mid) :
    Recovers env source target mid ↔
      Covered env source target (made ++ made') := by
  obtain ⟨hqd, ⟨inode, hq⟩, -⟩ := installed_displaced env hfresh target
  have hheld := holds_retired htarget e next
  have hunlink := exec_unlink
    (show (installed env (displaced (prepared env (some e) next target) e) target).entry
      .quarantined = some e from hqd) hshown
  have hrmdir : Call.exec .rmdir
      ((installed env (displaced (prepared env (some e) next target) e) target).set
        .quarantined none) =
      .ok (retired (installed env (displaced (prepared env (some e) next target) e) target)) := by
    cases target <;> rfl
  rcases hmid.pair_cases hmade hunlink hrmdir with ⟨rfl, rfl⟩ | ⟨rfl, rfl⟩ | ⟨rfl, rfl⟩
  · simpa using hstart
  · refine iff_of_false (not_recovered_of_empty target hheld.shown ?_ hq rfl) ?_
    · intro e' he'
      cases target with
      | absent => cases he'
      | file | symlink =>
        cases he'
        simp [installed, Directory.set]
    · simp [Covered]
  · refine iff_of_true (recovered_of_holds hsource hheld (.inr rfl)) ?_
    simp [Covered]

theorem killed_in_reinstall {next : Nat} {made' rest : List Call} (hfresh : e.inode < next)
    (hstart : Recovers env source target (displaced (prepared env (some e) next target) e) ↔
      Covered env source target made)
    (hmade : installCalls env target = made' ++ rest)
    (hmid : Leads Call.exec (displaced (prepared env (some e) next target) e) made' mid) :
    Recovers env source target mid ↔
      Covered env source target (made ++ made') := by
  have hne : next ≠ e.inode := (Nat.ne_of_lt hfresh).symm
  have hne' : next + 1 ≠ e.inode := by omega
  have hne'' : next + 1 + 1 ≠ e.inode := by omega
  have hlt : e.inode < next + 1 + 1 := by omega
  cases target with
  | absent =>
    obtain ⟨rfl, rfl⟩ := hmid.nil_cases hmade
    simpa using hstart
  | file oid executable =>
    rcases hmid.pair_cases hmade rfl rfl with ⟨rfl, rfl⟩ | ⟨rfl, rfl⟩ | ⟨rfl, rfl⟩
    · simpa using hstart
    · refine iff_of_false (not_recovered_of_linked rfl ?_) ?_
      · simp [Directory.set, hne.symm]
      · simp [Covered]
    · let d := installed env (displaced (prepared env (some e) next (.file oid executable)) e)
        (.file oid executable)
      have hleaf : d.nlink next = 1 := by
        simp [d, installed, hne.symm]
      have hentry : d.nlink e.inode = 1 := by
        simp [d, installed, hne, hne']
      have h : Recovers env source (.file oid executable) d ↔ source ≠ .file oid executable :=
        recovered_of_installed_iff hsource rfl (shown_nodeOf htarget rfl) hleaf
          ⟨⟨_, rfl⟩, rfl, hentry, hshown⟩ hlt (known_of_none rfl rfl)
      refine h.trans ?_
      simp [Covered]
  | symlink oid =>
    -- the leaf repeats the prepared symlink, before and after its removal
    let d := installedLink env (displaced (prepared env (some e) next (.symlink oid)) e) oid
    let d' := installed env (displaced (prepared env (some e) next (.symlink oid)) e)
      (.symlink oid)
    have hskip : next + 1 + 1 ≠ next := by omega
    have hnext : d.nlink next = 1 := by
      simp [d, installedLink, hne.symm, hskip]
    have hleaf : d.nlink (next + 1 + 1) = 1 := by
      simp [d, installedLink, hne''.symm, hskip.symm]
    have hentry : d.nlink e.inode = 1 := by
      simp [d, installedLink, hne, hne', hne'']
    have hleaf' : d'.nlink (next + 1 + 1) = 1 := by
      simp [d', installed, hne''.symm]
    have hentry' : d'.nlink e.inode = 1 := by
      simp [d', installed, hne', hne'']
    have hknown := known_prepared (d := d) source (some e) next htarget rfl rfl fun _ => hnext
    have h : Recovers env source (.symlink oid) d ↔ source ≠ .symlink oid :=
      recovered_of_installed_iff hsource rfl (shown_nodeOf htarget rfl) hleaf
        ⟨⟨_, rfl⟩, rfl, hentry, hshown⟩ (Nat.lt_succ_of_lt hlt) hknown
    have h' : Recovers env source (.symlink oid) d' ↔ source ≠ .symlink oid :=
      recovered_of_installed_iff hsource rfl (shown_nodeOf htarget rfl) hleaf'
        ⟨⟨_, rfl⟩, rfl, hentry', hshown⟩ (Nat.lt_succ_of_lt hlt) (known_of_none rfl rfl)
    rcases hmid.pair_cases hmade rfl rfl with ⟨rfl, rfl⟩ | ⟨rfl, rfl⟩ | ⟨rfl, rfl⟩
    · simpa using hstart
    · refine h.trans ?_
      simp [Covered]
    · refine h'.trans ?_
      simp [Covered]

end

/-- **Recovery of an interrupted apply.**  Kill an apply of the target over a
path that holds the source after any number of its calls; recovery then brings
the source state back, with no artifact left, exactly when the kill point is
covered. -/
theorem interrupted_apply_recovers_iff (env : Environment) (source target : RestorableState)
    (hsource : env.Restorable source) (htarget : env.Restorable target) (d : Directory)
    (hd : env.Holds d source) (n : Nat) :
    Recovered env source
        (run Call.exec (resolvePendingUnderLease env source target)
          (interrupt Call.exec (applyCapturedPath env source target) n d).2) ↔
      Covered env source target
        (interrupt Call.exec (applyCapturedPath env source target) n d).1 := by
  obtain ⟨d', hsteps, -⟩ := applyCapturedPath_steps hd htarget
  obtain ⟨made, rest, mid, hmade, hmid, heq⟩ := hsteps.interrupt_eq n
  rw [heq]
  rcases hd.leaf_cases with ⟨hrest, rfl⟩ | ⟨e, hrest, hlt, hshown, hpresent⟩
  · rw [hrest] at hmid
    have hfresh : ∀ e, (none : Option Entry) = some e → e.inode < d.nextInode := by simp
    rw [applyCalls, if_pos rfl] at hmade
    rcases hmid.append_cases hmade (prepare_steps hfresh target).leads with
      ⟨rest', hprepare⟩ | ⟨made', rfl, hinstall, hmid'⟩
    · exact killed_in_prepare hsource htarget rfl hfresh hprepare hmid
    · exact killed_in_install hsource htarget hinstall hmid'
  · rw [hrest] at hmid
    have hfresh : ∀ e', (some e : Option Entry) = some e' → e'.inode < d.nextInode := by
      simpa using hlt
    have hleaf : env.shownLeaf (some e) = some source := hshown
    rw [applyCalls, if_neg hpresent] at hmade
    rcases hmid.append_cases hmade (prepare_steps hfresh target).leads with
      ⟨rest', hprepare⟩ | ⟨made', rfl, hdisplace, hmid'⟩
    · exact killed_in_prepare hsource htarget hleaf hfresh hprepare hmid
    have hdisplaced := leads_displace target d.nextInode hshown
    have hinstalled := leads_install env e d.nextInode target
    have hcovered := killed_in_displace hsource htarget hshown hlt (List.append_nil _).symm
      hdisplaced
    have hcovered' := killed_in_reinstall hsource htarget hshown hlt hcovered
      (List.append_nil _).symm hinstalled
    rcases hmid'.append_cases hdisplace hdisplaced with
      ⟨rest', hprefix⟩ | ⟨made₁, rfl, hinstall, hmid₁⟩
    · exact killed_in_displace hsource htarget hshown hlt hprefix hmid'
    rcases hmid₁.append_cases hinstall hinstalled with
      ⟨rest', hprefix⟩ | ⟨made₂, rfl, hretire, hmid₂⟩
    · rw [← List.append_assoc]
      exact killed_in_reinstall hsource htarget hshown hlt hcovered hprefix hmid₁
    · rw [← List.append_assoc, ← List.append_assoc]
      exact killed_in_retire hsource htarget hshown hlt hcovered' hretire hmid₂

/-- Replacing `old` by `new`: recovered when killed after the leaf is
displaced, not when killed after its quarantine is made. -/
theorem interrupted_apply_recovers_iff_old_new :
    Recovered sampleEnvironment oldFile
        (run Call.exec (resolvePendingUnderLease sampleEnvironment oldFile newFile)
          (interrupt Call.exec (applyCapturedPath sampleEnvironment oldFile newFile) 5
            oldDirectory).2) ∧
      ¬ Recovered sampleEnvironment oldFile
        (run Call.exec (resolvePendingUnderLease sampleEnvironment oldFile newFile)
          (interrupt Call.exec (applyCapturedPath sampleEnvironment oldFile newFile) 4
            oldDirectory).2) := by
  have h := interrupted_apply_recovers_iff sampleEnvironment oldFile newFile (by rfl) (by rfl)
    oldDirectory oldDirectory_holds
  exact ⟨(h 5).mpr (by decide), fun hrecovered => absurd ((h 4).mp hrecovered) (by decide)⟩

end FilesystemApply

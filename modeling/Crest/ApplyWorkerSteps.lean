import Crest.ApplyWorker

/-!
# What the apply worker does undisturbed

From a directory without artifacts whose leaf is in the expected state, every
check of the worker passes and every call succeeds: the apply makes exactly
the calls of `applyCalls` and ends in a directory without artifacts whose leaf
shows the target.
-/

namespace FilesystemApply

open Workspace Interruption Program

variable {env : Environment}

variable {d : Directory} {name : Name} {s : RestorableState}

section Matching

attribute [local simp] matchesExpectedLive verifyExpectedLive matchesArtifactExpected
  Directory.lstat Except.isOk Except.toBool

theorem matchesExpectedLive_eq (hs : env.shownAt d name = some s) (hsole : Sole d name)
    (expected : RestorableState) :
    matchesExpectedLive env d (d.lstat name) name expected = decide (s = expected) := by
  rcases shownAt_cases hs with ⟨he, rfl⟩ | ⟨inode, content, mode, he, rfl⟩ | ⟨inode, target, he, rfl⟩
  · cases expected <;> simp [he]
  · have hn : d.nlink inode = 1 := hsole _ he
    cases expected with
    | file oid executable =>
      by_cases ho : env.gitBlobOid content = oid <;> by_cases hm : mode = executable <;>
        simp [he, hn, ho, hm]
    | absent | symlink => simp [he]
  · cases expected with
    | symlink oid => by_cases ho : env.gitBlobOid target = oid <;> simp [he, ho]
    | absent | file => simp [he]

theorem matchesArtifactExpected_eq (hs : env.shownAt d name = some s)
    (expected : RestorableState) :
    matchesArtifactExpected env d (d.lstat name) name expected = decide (s = expected) := by
  rcases shownAt_cases hs with ⟨he, rfl⟩ | ⟨inode, content, mode, he, rfl⟩ | ⟨inode, target, he, rfl⟩
  · cases expected <;> simp [he]
  · cases expected with
    | file oid executable =>
      rw [Bool.eq_iff_iff]
      simp [he]
    | absent | symlink => simp [he]
  · cases expected with
    | symlink oid => by_cases ho : env.gitBlobOid target = oid <;> simp [he, ho]
    | absent | file => simp [he]

end Matching

theorem verifyExpectedLive_ok (hs : env.shownAt d name = some s) (hsole : Sole d name) :
    verifyExpectedLive env d (d.lstat name) name s = .ok () := by
  have h := matchesExpectedLive_eq hs hsole s
  unfold matchesExpectedLive at h
  cases hv : verifyExpectedLive env d (d.lstat name) name s with
  | ok u => rfl
  | error e => simp [hv, Except.isOk, Except.toBool] at h

theorem validateLeaf_ok (hs : env.shownAt d name = some s) (hsole : Sole d name) :
    validateLeaf (d.lstat name) = .ok () := by
  rcases shownAt_cases hs with ⟨he, -⟩ | ⟨inode, _, _, he, -⟩ | ⟨_, _, he, -⟩
  · simp [validateLeaf, Directory.lstat, he]
  · have hn : d.nlink inode = 1 := hsole _ he
    simp [validateLeaf, Directory.lstat, he, hn]
  · simp [validateLeaf, Directory.lstat, he]

/-- The directory of a path at rest: its leaf and the next unused inode. -/
def settled (leaf : Option Entry) (next : Nat) : Directory where
  leaf := leaf
  preparedFile := none
  preparedSymlink := none
  quarantine := none
  quarantined := none
  nextInode := next

theorem Environment.Holds.eq_settled (h : env.Holds d s) :
    d = settled d.leaf d.nextInode := by
  obtain ⟨-, hpf, hps, hq, hqd, -⟩ := h
  obtain ⟨leaf, preparedFile, preparedSymlink, quarantine, quarantined, nextInode⟩ := d
  simp only at hpf hps hq hqd
  subst hpf hps hq hqd
  rfl

/-- The state a leaf shows. -/
def Environment.shownLeaf (env : Environment) : Option Entry → Option RestorableState
  | none => some .absent
  | some e => env.shown e.node

variable {leaf : Option Entry}

theorem holds_settled {next : Nat} (hs : env.shownLeaf leaf = some s)
    (hfresh : ∀ e, leaf = some e → e.inode < next) :
    env.Holds (settled leaf next) s where
  shown := by cases leaf <;> exact hs
  noPreparedFile := rfl
  noPreparedSymlink := rfl
  noQuarantine := rfl
  noQuarantined := rfl
  fresh := hfresh

variable {e : Entry}

theorem displace_steps (hleaf : d.leaf = some e) (hq : d.quarantine = none)
    (hqd : d.quarantined = none) (hs : env.shown e.node = some s)
    (hsole : d.nlink e.inode = 1) (hfresh : e.inode ≠ d.nextInode) :
    Steps Call.exec (displace env (d.lstat .leaf) s) d
      [.mkdir, .rename .leaf .quarantined]
      (done (d.lstat .leaf))
      { d with
        leaf := none
        quarantine := some ⟨d.nextInode, .directory []⟩
        quarantined := some e
        nextInode := d.nextInode + 1 } := by
  obtain ⟨leaf, pf, ps, q, qd, next⟩ := d
  simp only at hleaf hq hqd hfresh
  subst hleaf hq hqd
  obtain ⟨inode, node⟩ := e
  simp only [Directory.nlink, Directory.refers, if_true] at hsole
  -- the displaced entry keeps its inode, its contents and its only name
  have hrename :
      Call.exec (.rename .leaf .quarantined)
        ⟨some ⟨inode, node⟩, pf, ps, some ⟨next, .directory []⟩, none, next + 1⟩ =
      .ok ⟨none, pf, ps, some ⟨next, .directory []⟩, some ⟨inode, node⟩, next + 1⟩ := by
    cases node with
    | file | symlink => rfl
    | directory | special => cases hs
  have hlinks : Directory.nlink
      ⟨none, pf, ps, some ⟨next, .directory []⟩, some ⟨inode, node⟩, next + 1⟩ inode = 1 := by
    simp only [Directory.nlink, Directory.refers, if_true, if_neg (Ne.symm hfresh)]
    omega
  have hmatches := matchesExpectedLive_eq
    (show env.shownAt ⟨none, pf, ps, some ⟨next, .directory []⟩, some ⟨inode, node⟩, next + 1⟩
      .quarantined = some s from hs)
    (sole_of_nlink rfl hlinks) s
  unfold displace
  simp only [perform_bind, lstatOptional, read_bind, done_bind]
  refine .call rfl (.call hrename (.read (.read ?_)))
  rw [hmatches]
  have hstat : Directory.lstat
      ⟨none, pf, ps, some ⟨next, .directory []⟩, some ⟨inode, node⟩, next + 1⟩ .quarantined =
      Directory.lstat ⟨some ⟨inode, node⟩, pf, ps, none, none, next⟩ .leaf := by
    simp only [Directory.lstat, Directory.entry, Option.map_some, hlinks]
    simp only [Directory.nlink, Directory.refers, if_true, hsole]
  simp only [hstat, decide_true, Bool.and_self, if_true]
  exact .refl _ _

variable {inode : Nat}

attribute [local simp] Directory.entry settled Call.exec Directory.set

theorem retire_steps {stat : Option Stat} (hqd : d.quarantined = some e)
    (hq : d.quarantine = some ⟨inode, .directory []⟩) (hs : env.shown e.node = some s)
    (hsole : d.nlink e.inode = 1) (hstat : stat = some ⟨e.inode, e.node, 1⟩) :
    Steps Call.exec (retire env stat s) d
      [.unlink .quarantined, .rmdir]
      (done ())
      { d with
        quarantine := none
        quarantined := none } := by
  have hlstat : d.lstat .quarantined = stat := by
    rw [hstat]
    simp [Directory.lstat, hqd, hsole]
  have hverify := verifyExpectedLive_ok
    (show env.shownAt d .quarantined = some s by
      simpa [Environment.shownAt, hqd] using hs)
    (sole_of_nlink hqd hsole)
  have hunlink : Call.exec (.unlink .quarantined) d = .ok { d with quarantined := none } := by
    obtain ⟨inode, node⟩ := e
    cases node with
    | file | symlink => simp [hqd]
    | directory | special => cases hs
  have hrmdir : Call.exec .rmdir { d with quarantined := none } =
      .ok { d with quarantine := none, quarantined := none } := by
    simp [hq, Directory.readdirQuarantine]
  unfold retire
  simp only [lstatOptional, read_bind, done_bind, verifyLive]
  refine .read ?_
  rw [hlstat]
  rw [hlstat] at hverify
  rw [hstat] at hverify ⊢
  simp only [Option.isSome_some, beq_self_eq_true, Bool.and_self, require_true, done_bind]
  refine .read ?_
  rw [hverify]
  exact .call hunlink (.call hrmdir (.refl _ _))

/-- The calls that prepare a target. -/
def prepareCalls (env : Environment) : RestorableState → List Call
  | .absent => []
  | .file oid executable =>
    .create .preparedFile ::
      ((env.writeFileChunks (env.readBlob oid)).map (.write .preparedFile) ++
        [.chmod .preparedFile executable])
  | .symlink oid => [.symlink (env.readBlob oid) .preparedSymlink]

/-- The directory while a file is being written. -/
def preparing (leaf : Option Entry) (inode : Nat) (content : Bytes) (executable : Bool) :
    Directory :=
  { settled leaf (inode + 1) with preparedFile := some ⟨inode, .file content executable⟩ }

/-- The directory with the target prepared. -/
def prepared (env : Environment) (leaf : Option Entry) (next : Nat) :
    RestorableState → Directory
  | .absent => settled leaf next
  | .file oid executable => preparing leaf next (env.readBlob oid) executable
  | .symlink oid =>
    { settled leaf (next + 1) with
      preparedSymlink := some ⟨next, .symlink (env.readBlob oid)⟩ }

theorem leads_writes {next : Nat} (hfresh : ∀ e, leaf = some e → e.inode < next)
    (executable : Bool) (chunks : List Bytes) (content : Bytes) :
    Leads Call.exec (preparing leaf next content executable)
      (chunks.map (.write .preparedFile))
      (preparing leaf next (content ++ chunks.flatten) executable) := by
  induction chunks generalizing content with
  | nil => simp [Leads]
  | cons chunk chunks ih =>
    refine ⟨preparing leaf next (content ++ chunk) executable, ?_, ?_⟩
    · cases leaf with
      | none => simp [preparing, Directory.setNode]
      | some e =>
        have hne : e.inode ≠ next := Nat.ne_of_lt (hfresh e rfl)
        simp [preparing, Directory.setNode, hne]
    · simpa using ih (content ++ chunk)

/-- The prepared artifact of a target and its identity. -/
def temporaryOf (env : Environment) (next : Nat) : RestorableState → Option Temporary
  | .absent => none
  | .file oid executable =>
    some ⟨.preparedFile, some ⟨next, .file (env.readBlob oid) executable, 1⟩⟩
  | .symlink oid => some ⟨.preparedSymlink, some ⟨next, .symlink (env.readBlob oid), 1⟩⟩

theorem exec_chmod {next : Nat} (hfresh : ∀ e, leaf = some e → e.inode < next)
    (blob : Bytes) (executable : Bool) :
    Call.exec (.chmod .preparedFile executable) (preparing leaf next blob false) =
      .ok (preparing leaf next blob executable) := by
  cases leaf with
  | none => simp [preparing, Directory.setNode]
  | some e =>
    have hne : e.inode ≠ next := Nat.ne_of_lt (hfresh e rfl)
    simp [preparing, Directory.setNode, hne]

theorem prepareFile_steps {next : Nat} (hfresh : ∀ e, leaf = some e → e.inode < next)
    (blob : Bytes) (executable : Bool) :
    Steps Call.exec (prepareFile env blob executable) (settled leaf next)
      (.create .preparedFile ::
        ((env.writeFileChunks blob).map (.write .preparedFile) ++
          [.chmod .preparedFile executable]))
      (done ⟨.preparedFile, some ⟨next, .file blob executable, 1⟩⟩)
      (preparing leaf next blob executable) := by
  have hwrites := leads_writes hfresh false (env.writeFileChunks blob) []
  rw [env.flatten_writeFileChunks, List.nil_append] at hwrites
  have hstat : (preparing leaf next blob executable).lstat .preparedFile =
      some ⟨next, .file blob executable, 1⟩ := by
    simp [preparing, Directory.lstat, Directory.nlink, Directory.refers_of_fresh hfresh]
  unfold prepareFile
  simp only [perform_bind, lstatOptional, read_bind, done_bind, pure_eq]
  refine .call rfl ((steps_performAll hwrites).bind (.call (exec_chmod hfresh blob executable) (.read ?_)))
  rw [hstat]
  exact .refl _ _

theorem prepareSymlink_steps {next : Nat} (hfresh : ∀ e, leaf = some e → e.inode < next)
    (oid : JsString) :
    Steps Call.exec (prepareSymlink (env.readBlob oid)) (settled leaf next)
      [.symlink (env.readBlob oid) .preparedSymlink]
      (done ⟨.preparedSymlink, some ⟨next, .symlink (env.readBlob oid), 1⟩⟩)
      (prepared env leaf next (.symlink oid)) := by
  have hstat : (prepared env leaf next (.symlink oid)).lstat .preparedSymlink =
      some ⟨next, .symlink (env.readBlob oid), 1⟩ := by
    simp [prepared, Directory.lstat, Directory.nlink, Directory.refers_of_fresh hfresh]
  unfold prepareSymlink
  simp only [perform_bind, lstatOptional, read_bind, done_bind, pure_eq]
  refine .call rfl (.read ?_)
  rw [← hstat]
  exact .refl _ _

theorem prepare_steps {next : Nat} (hfresh : ∀ e, leaf = some e → e.inode < next)
    (target : RestorableState) :
    Steps Call.exec (prepare env target (env.blobOf target)) (settled leaf next)
      (prepareCalls env target) (done (temporaryOf env next target))
      (prepared env leaf next target) := by
  cases target with
  | absent => exact .refl _ _
  | file oid executable => exact (prepareFile_steps hfresh (env.readBlob oid) executable).then _
  | symlink oid => exact (prepareSymlink_steps hfresh oid).then _

/-- The calls that install a prepared target. -/
def installCalls (env : Environment) : RestorableState → List Call
  | .absent => []
  | .file _ _ => [.link .preparedFile .leaf, .unlink .preparedFile]
  | .symlink oid => [.symlink (env.readBlob oid) .leaf, .unlink .preparedSymlink]

variable (env) in
theorem install_steps_file {blob : Bytes} {executable : Bool} (hleaf : d.leaf = none)
    (hprepared : d.preparedFile = some ⟨inode, .file blob executable⟩)
    (hsole : d.nlink inode = 1) :
    Steps Call.exec
      (install env (.file (env.gitBlobOid blob) executable)
        ⟨.preparedFile, some ⟨inode, .file blob executable, 1⟩⟩) d
      [.link .preparedFile .leaf, .unlink .preparedFile]
      (done ())
      { d with
        leaf := some ⟨inode, .file blob executable⟩
        preparedFile := none } := by
  have hlstat : d.lstat .preparedFile = some ⟨inode, .file blob executable, 1⟩ := by
    simp [Directory.lstat, hprepared, hsole]
  have hverify := verifyExpectedLive_ok
    (show env.shownAt d .preparedFile = some (.file (env.gitBlobOid blob) executable) by
      simp [Environment.shownAt, hprepared, Environment.shown])
    (sole_of_nlink hprepared hsole)
  have hlink : Call.exec (.link .preparedFile .leaf) d =
      .ok { d with leaf := some ⟨inode, .file blob executable⟩ } := by
    simp [hprepared, hleaf, Directory.vacant, bind, Except.bind, pure, Except.pure]
  have hunlink :
      Call.exec (.unlink .preparedFile) { d with leaf := some ⟨inode, .file blob executable⟩ } =
      .ok { d with
        leaf := some ⟨inode, .file blob executable⟩
        preparedFile := none } := by
    simp [hprepared]
  rw [hlstat] at hverify
  unfold install
  simp only [lstatOptional, read_bind, done_bind, verifyLive]
  refine .read ?_
  rw [hlstat]
  simp only [Option.isSome_some, beq_self_eq_true, Bool.and_self, require_true, done_bind]
  refine .read ?_
  rw [hverify]
  exact .call hlink (.call hunlink (.refl _ _))

variable (env) in
theorem install_steps_symlink {target : Bytes} (hleaf : d.leaf = none)
    (hprepared : d.preparedSymlink = some ⟨inode, .symlink target⟩) (hsole : d.nlink inode = 1) :
    Steps Call.exec
      (install env (.symlink (env.gitBlobOid target))
        ⟨.preparedSymlink, some ⟨inode, .symlink target, 1⟩⟩) d
      [.symlink target .leaf, .unlink .preparedSymlink]
      (done ())
      { d with
        leaf := some ⟨d.nextInode, .symlink target⟩
        preparedSymlink := none
        nextInode := d.nextInode + 1 } := by
  have hlstat : d.lstat .preparedSymlink = some ⟨inode, .symlink target, 1⟩ := by
    simp [Directory.lstat, hprepared, hsole]
  have hverify := verifyExpectedLive_ok
    (show env.shownAt d .preparedSymlink = some (.symlink (env.gitBlobOid target)) by
      simp [Environment.shownAt, hprepared, Environment.shown])
    (sole_of_nlink hprepared hsole)
  have hsymlink : Call.exec (.symlink target .leaf) d =
      .ok { d with
        leaf := some ⟨d.nextInode, .symlink target⟩
        nextInode := d.nextInode + 1 } := by
    simp [Directory.vacant, hleaf, Directory.add, bind, Except.bind, pure, Except.pure]
  have hunlink :
      Call.exec (.unlink .preparedSymlink) { d with
        leaf := some ⟨d.nextInode, .symlink target⟩
        nextInode := d.nextInode + 1 } =
      .ok { d with
        leaf := some ⟨d.nextInode, .symlink target⟩
        preparedSymlink := none
        nextInode := d.nextInode + 1 } := by
    simp [hprepared]
  rw [hlstat] at hverify
  unfold install
  simp only [lstatOptional, read_bind, done_bind, verifyLive]
  refine .read ?_
  rw [hlstat]
  simp only [Option.isSome_some, beq_self_eq_true, Bool.and_self, require_true, done_bind]
  refine .read ?_
  rw [hverify]
  exact .call hsymlink (.call hunlink (.refl _ _))

/-- The directory with its leaf in the quarantine. -/
def displaced (d : Directory) (e : Entry) : Directory :=
  { d with
    leaf := none
    quarantine := some ⟨d.nextInode, .directory []⟩
    quarantined := some e
    nextInode := d.nextInode + 1 }

/-- The directory with its prepared target installed. -/
def installed (env : Environment) (d : Directory) : RestorableState → Directory
  | .absent => d
  | .file _ _ =>
    { d with
      leaf := d.preparedFile
      preparedFile := none }
  | .symlink oid =>
    { d with
      leaf := some ⟨d.nextInode, .symlink (env.readBlob oid)⟩
      preparedSymlink := none
      nextInode := d.nextInode + 1 }

/-- The directory with its quarantine removed. -/
def retired (d : Directory) : Directory :=
  { d with
    quarantine := none
    quarantined := none }

/-- The calls of an apply of `target` over `source`. -/
def applyCalls (env : Environment) (source target : RestorableState) : List Call :=
  if source = .absent then prepareCalls env target ++ installCalls env target
  else
    prepareCalls env target ++ ([.mkdir, .rename .leaf .quarantined] ++
      (installCalls env target ++ [.unlink .quarantined, .rmdir]))

theorem gitBlobOid_of_restorable {oid : JsString} (h : env.Restorable s)
    (hs : (∃ executable, s = .file oid executable) ∨ s = .symlink oid) :
    env.gitBlobOid (env.readBlob oid) = oid := by
  by_contra ho
  rcases hs with ⟨executable, rfl⟩ | rfl
  all_goals
    simp only [Environment.Restorable, Environment.validateBlob, Environment.blobOf, ne_eq, ho,
      not_false_eq_true, if_true] at h
    split_ifs at h

variable {target : RestorableState}

theorem install_steps {temporary : Temporary} (htarget : env.Restorable target)
    (htemporary : temporaryOf env inode target = some temporary) (hleaf : d.leaf = none)
    (hprepared : d.lstat temporary.name = temporary.identity) :
    Steps Call.exec (install env target temporary) d (installCalls env target) (done ())
      (installed env d target) := by
  cases target with
  | absent => cases htemporary
  | file oid executable =>
    have ho := gitBlobOid_of_restorable htarget (.inl ⟨executable, rfl⟩)
    simp only [temporaryOf, Option.some.injEq] at htemporary
    subst htemporary
    cases hd : d.preparedFile with
    | none => simp [Directory.lstat, hd] at hprepared
    | some e =>
      obtain ⟨inode', node⟩ := e
      simp only [Directory.lstat, Directory.entry, hd, Option.map_some, Option.some.injEq,
        Stat.mk.injEq] at hprepared
      obtain ⟨rfl, rfl, hsole⟩ := hprepared
      have h := install_steps_file env hleaf hd hsole
      rw [ho] at h
      simpa [installCalls, installed, hd] using h
  | symlink oid =>
    have ho := gitBlobOid_of_restorable htarget (.inr rfl)
    simp only [temporaryOf, Option.some.injEq] at htemporary
    subst htemporary
    cases hd : d.preparedSymlink with
    | none => simp [Directory.lstat, hd] at hprepared
    | some e =>
      obtain ⟨inode', node⟩ := e
      simp only [Directory.lstat, Directory.entry, hd, Option.map_some, Option.some.injEq,
        Stat.mk.injEq] at hprepared
      obtain ⟨rfl, rfl, hsole⟩ := hprepared
      have h := install_steps_symlink env hleaf hd hsole
      rw [ho] at h
      simpa [installCalls, installed] using h

theorem applyMain_steps_absent {next : Nat} (htarget : env.Restorable target) :
    Steps Call.exec (applyMain env target .absent (env.blobOf target)) (settled none next)
      (applyCalls env .absent target) (done ())
      (installed env (prepared env none next target) target) := by
  have hfresh : ∀ e, (none : Option Entry) = some e → e.inode < next := by simp
  unfold applyMain
  simp only [lstatOptional, read_bind, done_bind, verifyLive]
  refine .read ?_
  have hstat : (settled none next).lstat .leaf = none := rfl
  rw [hstat]
  simp only [validateLeaf, check_ok, done_bind]
  refine .read ?_
  simp only [verifyExpectedLive, Option.isSome_none, Bool.false_eq_true, if_false, check_ok,
    done_bind, and_true]
  by_cases habsent : target = .absent
  · subst habsent
    exact .refl _ _
  · rw [if_neg habsent]
    simp only [applyCalls, if_true]
    refine (prepare_steps hfresh target).bind ?_
    cases target with
    | absent => exact absurd rfl habsent
    | file oid executable =>
      refine (install_steps htarget rfl rfl ?_).then _
      simp [prepared, preparing, Directory.lstat, Directory.nlink]
    | symlink oid =>
      refine (install_steps htarget rfl rfl ?_).then _
      simp [prepared, Directory.lstat, Directory.nlink]

variable (env) in
theorem prepared_leaf (leaf : Option Entry) (next : Nat) (target : RestorableState) :
    (prepared env leaf next target).leaf = leaf := by
  cases target <;> rfl

variable (env) in
theorem prepared_quarantine (leaf : Option Entry) (next : Nat) (target : RestorableState) :
    (prepared env leaf next target).quarantine = none ∧
      (prepared env leaf next target).quarantined = none := by
  cases target <;> exact ⟨rfl, rfl⟩

variable (env) in
theorem prepared_nextInode (leaf : Option Entry) (next : Nat) (target : RestorableState) :
    next ≤ (prepared env leaf next target).nextInode := by
  cases target with
  | absent => exact Nat.le_refl _
  | file | symlink => exact Nat.le_succ _

variable (env) in
theorem prepared_nlink {next : Nat} (hne : inode < next) (target : RestorableState) :
    (prepared env leaf next target).nlink inode = Directory.refers inode leaf := by
  have hne' : next ≠ inode := (Nat.ne_of_lt hne).symm
  cases target <;> simp [prepared, preparing, Directory.nlink, hne']

theorem displaced_lstat {next : Nat} {temporary : Temporary} (hfresh : e.inode < next)
    (htemporary : temporaryOf env next target = some temporary) :
    (displaced (prepared env (some e) next target) e).lstat temporary.name =
      temporary.identity := by
  have hne : e.inode ≠ next := Nat.ne_of_lt hfresh
  cases target with
  | absent => cases htemporary
  | file | symlink =>
    simp only [temporaryOf, Option.some.injEq] at htemporary
    subst htemporary
    simp [displaced, prepared, preparing, Directory.lstat, Directory.nlink, hne]

variable (env) in
theorem installed_displaced {next : Nat} (hfresh : e.inode < next) (target : RestorableState) :
    let d := installed env (displaced (prepared env (some e) next target) e) target
    d.quarantined = some e ∧
      (∃ inode, d.quarantine = some ⟨inode, .directory []⟩) ∧ d.nlink e.inode = 1 := by
  have hne : next ≠ e.inode := (Nat.ne_of_lt hfresh).symm
  have hne' : next + 1 ≠ e.inode := by omega
  have hne'' : next + 1 + 1 ≠ e.inode := by omega
  cases target with
  | absent | file | symlink =>
    refine ⟨rfl, ⟨_, rfl⟩, ?_⟩
    simp [installed, displaced, prepared, preparing, Directory.nlink, hne, hne', hne'']

theorem applyMain_steps_present {next : Nat} {source : RestorableState}
    (hfresh : e.inode < next) (hsource : env.shown e.node = some source)
    (htarget : env.Restorable target) :
    Steps Call.exec (applyMain env target source (env.blobOf target)) (settled (some e) next)
      (prepareCalls env target ++ ([.mkdir, .rename .leaf .quarantined] ++
        (installCalls env target ++ [.unlink .quarantined, .rmdir])))
      (done ())
      (retired (installed env (displaced (prepared env (some e) next target) e) target)) := by
  have hfresh' : ∀ e', (some e : Option Entry) = some e' → e'.inode < next := by
    simpa using hfresh
  have hlinks : (settled (some e) next).nlink e.inode = 1 := by
    simp [Directory.nlink]
  have hstat : (settled (some e) next).lstat .leaf = some ⟨e.inode, e.node, 1⟩ := by
    simp only [Directory.lstat, Directory.entry, settled, Option.map_some] at hlinks ⊢
    rw [hlinks]
  have hshown : env.shownAt (settled (some e) next) .leaf = some source := hsource
  have hvalid := validateLeaf_ok hshown (sole_of_nlink rfl hlinks)
  have hverify := verifyExpectedLive_ok hshown (sole_of_nlink rfl hlinks)
  rw [hstat] at hvalid hverify
  -- the leaf's identity is the same beside the prepared artifact
  have hstat' : (prepared env (some e) next target).lstat .leaf = some ⟨e.inode, e.node, 1⟩ := by
    simp only [Directory.lstat, Directory.entry, prepared_leaf env, Option.map_some,
      prepared_nlink env hfresh, Directory.refers_some, if_true]
  have hdisplace := displace_steps (prepared_leaf env (some e) next target)
    (prepared_quarantine env (some e) next target).1 (prepared_quarantine env (some e) next target).2
    hsource (by rw [prepared_nlink env hfresh]; simp)
    (Nat.ne_of_lt (Nat.lt_of_lt_of_le hfresh (prepared_nextInode env (some e) next target)))
  rw [hstat'] at hdisplace
  obtain ⟨hqd, ⟨inode, hq⟩, hsole⟩ := installed_displaced env hfresh target
  have hretire := retire_steps hqd hq hsource hsole rfl
  unfold applyMain
  simp only [lstatOptional, read_bind, done_bind, verifyLive]
  refine .read ?_
  rw [hstat, hvalid, check_ok, done_bind]
  refine .read ?_
  rw [hverify, check_ok, done_bind, if_neg (by simp)]
  refine (prepare_steps hfresh' target).bind ?_
  simp only [Option.isSome_some, if_true]
  refine hdisplace.bind ?_
  cases target with
  | absent =>
    refine .read ?_
    exact hretire
  | file _ _ | symlink _ =>
    exact (install_steps htarget rfl rfl (displaced_lstat hfresh rfl)).bind hretire

section

variable (htarget : env.Restorable target)
include htarget

theorem shown_nodeOf {node : Node} (hnode : env.nodeOf target = some node) :
    env.shown node = some target := by
  cases target with
  | absent => cases hnode
  | file oid executable =>
    obtain rfl : Node.file (env.readBlob oid) executable = node := by
      simpa [Environment.nodeOf] using hnode
    simp [Environment.shown, gitBlobOid_of_restorable htarget (.inl ⟨executable, rfl⟩)]
  | symlink oid =>
    obtain rfl : Node.symlink (env.readBlob oid) = node := by
      simpa [Environment.nodeOf] using hnode
    simp [Environment.shown, gitBlobOid_of_restorable htarget (.inr rfl)]

theorem holds_node {node : Node} {next : Nat}
    (hnode : env.nodeOf target = some node) (hlt : inode < next) :
    env.Holds (settled (some ⟨inode, node⟩) next) target :=
  holds_settled (shown_nodeOf htarget hnode) (by simpa using hlt)

theorem holds_installed (next : Nat) :
    env.Holds (installed env (prepared env none next target) target) target := by
  cases target with
  | absent => exact holds_settled rfl (by simp)
  | file oid executable => exact holds_node htarget rfl (Nat.lt_succ_self next)
  | symlink oid => exact holds_node htarget rfl (Nat.lt_succ_self (next + 1))

theorem holds_retired (e : Entry) (next : Nat) :
    env.Holds
      (retired (installed env (displaced (prepared env (some e) next target) e) target)) target := by
  cases target with
  | absent => exact show env.Holds (settled none (next + 1)) _ from holds_settled rfl (by simp)
  | file oid executable =>
    exact holds_node htarget rfl (Nat.lt_succ_of_lt (Nat.lt_succ_self next))
  | symlink oid => exact holds_node htarget rfl (Nat.lt_succ_self (next + 1 + 1))

end

theorem Environment.Holds.leaf_cases (h : env.Holds d s) :
    (d = settled none d.nextInode ∧ s = .absent) ∨
      ∃ e, d = settled (some e) d.nextInode ∧ e.inode < d.nextInode ∧
        env.shown e.node = some s ∧ s ≠ .absent := by
  have hd := h.eq_settled
  have hs := h.shown
  have hfresh := h.fresh
  cases hleaf : d.leaf with
  | none =>
    simp only [Environment.shownAt, Directory.entry, hleaf, Option.some.injEq] at hs
    exact .inl ⟨by rw [hleaf] at hd; exact hd, hs.symm⟩
  | some e =>
    simp only [Environment.shownAt, Directory.entry, hleaf] at hs
    refine .inr ⟨e, by rw [hleaf] at hd; exact hd, hfresh e hleaf, hs, ?_⟩
    rintro rfl
    obtain ⟨inode, node⟩ := e
    cases node <;> cases hs

/-- **The apply sequence.**  Undisturbed, an apply over a path that holds the
source makes exactly the calls of `applyCalls` and leaves a path that holds
the target. -/
theorem applyCapturedPath_steps {source : RestorableState} (hd : env.Holds d source)
    (htarget : env.Restorable target) :
    ∃ d', Steps Call.exec (applyCapturedPath env source target) d (applyCalls env source target)
      (done ()) d' ∧ env.Holds d' target := by
  have hmain : ∃ d', Steps Call.exec (applyMain env target source (env.blobOf target)) d
      (applyCalls env source target) (done ()) d' ∧ env.Holds d' target := by
    rcases hd.leaf_cases with ⟨heq, rfl⟩ | ⟨e, heq, hlt, hshown, hpresent⟩
    · rw [heq]
      exact ⟨_, applyMain_steps_absent htarget, holds_installed htarget _⟩
    · rw [heq, applyCalls, if_neg hpresent]
      exact ⟨_, applyMain_steps_present hlt hshown htarget, holds_retired htarget e _⟩
  obtain ⟨d', hsteps, hd'⟩ := hmain
  have hpreflight : assertPreflightAllowed (env.inspectLivePath d) source = .ok () := by
    have hmatch := (liveMatchesCaptured_iff _ _).mpr hd.inspect
    have hlive := hd.inspect
    unfold assertPreflightAllowed
    split
    · rename_i heq
      simp [heq, capturedFromLive] at hlive
    · rename_i heq
      simp [heq, capturedFromLive] at hlive
    · rename_i heq
      simp [heq, capturedFromLive] at hlive
    · rw [if_pos hmatch]
  have hfinal := (liveMatchesCaptured_iff _ _).mpr hd'.inspect
  refine ⟨d', ?_, hd'⟩
  unfold applyCapturedPath
  simp only [get_bind]
  refine .read ?_
  rw [hpreflight, check_ok, done_bind, htarget, check_ok, done_bind]
  have hverify : Steps Call.exec (verifyCapturedPath env target) d' [] (done ()) d' := by
    refine .read ?_
    rw [hfinal, require_true]
    exact .refl _ _
  rw [← List.append_nil (applyCalls env source target)]
  exact hsteps.bind hverify

end FilesystemApply

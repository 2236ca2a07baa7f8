import Crest.ApplyDirectory

/-!
# The apply worker

The worker replaces one path in three movements: it prepares the target under
an artifact name, displaces the present entry into a quarantine directory, and
installs the target under the path's own name; then it retires the quarantine.
Every movement re-checks what it is about to rely on.

`reconcileArtifacts` is the other main loop of the same worker: it looks at
what an interrupted apply left behind and brings the path to its desired
state.

Synchronising files and directories to disk changes nothing these programs
can see and is left out, and so is the clean-up after a failed step: nothing
fails while no one else writes.
-/

namespace FilesystemApply

open Workspace Interruption Program

/-- A program of the apply worker. -/
abbrev Worker := Program Directory Call JsString

def lstatOptional (name : Name) : Worker (Option Stat) :=
  read fun d => done (d.lstat name)

/-- The leaf may be free, a symlink, or a file without other names. -/
def validateLeaf : Option Stat → Except JsString Unit
  | none => .ok ()
  | some ⟨_, .symlink _, _⟩ => .ok ()
  | some ⟨_, .file _ _, nlink⟩ =>
    if nlink = 1 then .ok () else .error (js "hard-linked workspace file is unsafe to replace")
  | some ⟨_, .directory _, _⟩ => .error (js "workspace path has a file-directory collision")
  | some ⟨_, .special, _⟩ => .error (js "workspace path has an unsafe live kind")

variable (env : Environment)

/-- `verifyExpectedLive`: the entry seen earlier is still there and is what is
expected. -/
def verifyExpectedLive (d : Directory) (stat : Option Stat) (name : Name) :
    RestorableState → Except JsString Unit
  | .absent =>
    if stat.isSome then .error (js "workspace leaf changed after preflight") else .ok ()
  | .symlink oid =>
    match stat with
    | none => .error (js "workspace leaf disappeared after preflight")
    | some ⟨_, .symlink target, _⟩ =>
      if d.lstat name ≠ stat ∨ env.gitBlobOid target ≠ oid then
        .error (js "workspace symlink changed after preflight")
      else .ok ()
    | some _ => .error (js "workspace leaf kind changed after preflight")
  | .file oid executable =>
    match stat with
    | none => .error (js "workspace leaf disappeared after preflight")
    | some ⟨_, .file content mode, nlink⟩ =>
      if nlink ≠ 1 then .error (js "workspace file kind changed after preflight")
      else if d.lstat name ≠ stat ∨ env.gitBlobOid content ≠ oid ∨ mode ≠ executable then
        .error (js "workspace file changed after preflight")
      else .ok ()
    | some _ => .error (js "workspace file kind changed after preflight")

/-- The check as a step of a program. -/
def verifyLive (stat : Option Stat) (name : Name) (expected : RestorableState) : Worker Unit :=
  read fun d => check (verifyExpectedLive env d stat name expected)

def matchesExpectedLive (d : Directory) (stat : Option Stat) (name : Name)
    (expected : RestorableState) : Bool :=
  (verifyExpectedLive env d stat name expected).isOk

/-- `matchesArtifactExpected`: as above, but a file may have other names. -/
def matchesArtifactExpected (d : Directory) (stat : Option Stat) (name : Name)
    (expected : RestorableState) : Bool :=
  match expected, stat with
  | .file oid executable, some ⟨_, .file content mode, _⟩ =>
    d.lstat name == stat && env.gitBlobOid content == oid && mode == executable
  | _, _ => matchesExpectedLive env d stat name expected

/-- The prepared artifact: its name and its identity when it was made. -/
structure Temporary where
  name : Name
  identity : Option Stat

/-- `prepareFile`: made exclusively with mode 0600, written, then given its
mode. -/
def prepareFile (blob : Bytes) (executable : Bool) : Worker Temporary := do
  perform (.create .preparedFile)
  performAll ((env.writeFileChunks blob).map (.write .preparedFile))
  perform (.chmod .preparedFile executable)
  let state ← lstatOptional .preparedFile
  return ⟨.preparedFile, state⟩

def prepareSymlink (blob : Bytes) : Worker Temporary := do
  perform (.symlink blob .preparedSymlink)
  let state ← lstatOptional .preparedSymlink
  return ⟨.preparedSymlink, state⟩

/-- The prepared artifact of a target, if it has one. -/
def prepare (target : RestorableState) (blob : Bytes) : Worker (Option Temporary) :=
  match target with
  | .absent => done none
  | .file _ executable => do
      let temporary ← prepareFile env blob executable
      return some temporary
  | .symlink _ => do
      let temporary ← prepareSymlink blob
      return some temporary

/-- The call that gives the leaf the contents found under another name: a hard
link of a file, a second symlink with the same target. -/
def reinstall (name : Name) : Option Stat → Call
  | some ⟨_, .symlink target, _⟩ => .symlink target .leaf
  | _ => .link name .leaf

/-- `restoreQuarantine`: put the displaced entry back unless the leaf was
taken. -/
def restoreQuarantine (expectedIdentity : Option Stat) : Worker Bool := do
  let current ← lstatOptional .quarantined
  if current = none ∨ current ≠ expectedIdentity then return false
  let leaf ← lstatOptional .leaf
  if leaf.isSome then return false
  perform (reinstall .quarantined current)
  perform (.unlink .quarantined)
  perform .rmdir
  return true

/-- Move the leaf into the quarantine, and back if it is not what was seen. -/
def displace (initial : Option Stat) (expectedLive : RestorableState) :
    Worker (Option Stat) := do
  perform .mkdir
  perform (.rename .leaf .quarantined)
  let displaced ← lstatOptional .quarantined
  let quarantineMatches ← read fun d =>
    done (decide (displaced = initial) &&
      matchesExpectedLive env d displaced .quarantined expectedLive)
  if quarantineMatches then return displaced
  let _ ← restoreQuarantine displaced
  fail (js "workspace leaf changed during CAS quarantine")

/-- Delete the displaced entry and the quarantine directory. -/
def retire (quarantineIdentity : Option Stat) (expectedLive : RestorableState) :
    Worker Unit := do
  let current ← lstatOptional .quarantined
  require (current.isSome && current == quarantineIdentity)
    (js "workspace quarantine identity changed")
  verifyLive env current .quarantined expectedLive
  perform (.unlink .quarantined)
  perform .rmdir

/-- Give the leaf the prepared target and drop the prepared artifact. -/
def install (target : RestorableState) (temporary : Temporary) : Worker Unit := do
  let prepared ← lstatOptional temporary.name
  require (prepared.isSome && prepared == temporary.identity)
    (js "workspace temporary identity changed")
  verifyLive env prepared temporary.name target
  perform (reinstall temporary.name prepared)
  perform (.unlink temporary.name)

/-- The apply sequence of `main`. -/
def applyMain (target expectedLive : RestorableState) (blob : Bytes) : Worker Unit := do
  let initial ← lstatOptional .leaf
  check (validateLeaf initial)
  verifyLive env initial .leaf expectedLive
  if target = .absent ∧ initial = none then return ()
  let temporary ← prepare env target blob
  let quarantineIdentity ← if initial.isSome then displace env initial expectedLive else done none
  match temporary with
  | none => do
      let unexpected ← lstatOptional .leaf
      require (!unexpected.isSome) (js "workspace leaf was recreated during deletion")
  | some temporary => install env target temporary
  if initial.isSome then retire env quarantineIdentity expectedLive

/-- A prepared artifact found by the reconciler. -/
structure PreparedArtifact where
  name : Name
  state : Stat
  desiredMatch : Bool
  alternateMatch : Bool

/-- Look at one prepared name. -/
def inspectPrepared (initial : Option Stat) (desired alternate : RestorableState) (name : Name) :
    Worker (Option PreparedArtifact) := read fun d =>
  match d.lstat name with
  | none => done none
  | some state => do
      require (match state.node with | .file _ _ => true | .symlink _ => true | _ => false)
        (js "workspace prepared artifact has an unsafe kind")
      require
        (match state.node with
          | .file _ _ =>
            state.nlink == 1 ||
              (state.nlink == 2 &&
                match initial with
                | some ⟨inode, .file _ _, _⟩ => inode == state.inode
                | _ => false)
          | _ => true)
        (js "workspace prepared artifact has unsafe hard links")
      let desiredMatch := matchesArtifactExpected env d (some state) name desired
      let alternateMatch := matchesArtifactExpected env d (some state) name alternate
      require (desiredMatch || alternateMatch) (js "workspace prepared artifact is unknown")
      return some ⟨name, state, desiredMatch, alternateMatch⟩

/-- The displaced entry found by the reconciler. -/
structure QuarantineArtifact where
  desiredMatch : Bool
  alternateMatch : Bool

/-- Look at the quarantine: it must hold exactly one known entry. -/
def inspectQuarantine (desired alternate : RestorableState) :
    Worker (Option QuarantineArtifact) := read fun d =>
  match d.lstat .quarantine with
  | none => done none
  | some ⟨_, .directory others, _⟩ => do
      require (d.readdirQuarantine others == [js "entry"])
        (js "workspace quarantine artifact contains unknown entries")
      let state := d.lstat .quarantined
      check (validateLeaf state)
      let desiredMatch := matchesExpectedLive env d state .quarantined desired
      let alternateMatch := matchesExpectedLive env d state .quarantined alternate
      require (desiredMatch || alternateMatch) (js "workspace quarantine artifact is unknown")
      return some ⟨desiredMatch, alternateMatch⟩
  | some _ => fail (js "workspace quarantine artifact is unsafe")

/-- The reconciler's own demands on the leaf. -/
def validateReconciledLeaf (initial : Option Stat) (prepared : List PreparedArtifact) :
    Except JsString Unit :=
  match initial with
  | some ⟨_, .directory _, _⟩ | some ⟨_, .special, _⟩ =>
    .error (js "workspace live path has an unsafe kind during artifact reconciliation")
  | some ⟨inode, .file _ _, nlink⟩ =>
    let linkedPrepared := prepared.any fun item =>
      (match item.state.node with | .file _ _ => true | _ => false) &&
        item.state.inode == inode
    if nlink ≠ 1 ∧ (nlink ≠ 2 ∨ !linkedPrepared) then
      .error (js "hard-linked workspace file is unsafe to reconcile")
    else .ok ()
  | _ => .ok ()

/-- Install the prepared artifact that shows the desired state. -/
def installPrepared (item : PreparedArtifact) : Worker Unit := do
  perform (reinstall item.name (some item.state))
  perform (.unlink item.name)

/-- The quarantine shows the desired state: it goes back to the leaf. -/
def restoreDesired (initial : Option Stat) (initialDesired initialAlternate : Bool) :
    Worker Unit := do
  require (!(initialDesired && initial.isSome))
    (js "workspace quarantine duplicates the desired live path")
  if initialAlternate && initial.isSome then perform (.unlink .leaf)
  else
    require (!(!initialDesired && initial.isSome))
      (js "workspace live path conflicts with quarantine recovery")
  if !initial.isSome || initialAlternate then
    perform (.rename .quarantined .leaf)
    perform .rmdir

/-- The quarantine shows the other state: the leaf gets the desired one and
the quarantine goes. -/
def discardAlternate (desired : RestorableState) (initial : Option Stat) (initialDesired : Bool)
    (prepared : List PreparedArtifact) : Worker Unit := do
  if !initial.isSome || !initialDesired then
    if desired = .absent then
      require (!initial.isSome) (js "workspace live path conflicts with absent recovery")
    else
      match initial, prepared.find? (·.desiredMatch) with
      | none, some item => installPrepared item
      | _, _ => fail (js "workspace rollback artifact is incomplete")
  perform (.unlink .quarantined)
  perform .rmdir

/-- Without a quarantine, a leaf that shows neither state is free and gets the
prepared artifact, or is wanted absent. -/
def completeUnknown (desired alternate : RestorableState) (initial : Option Stat)
    (prepared : List PreparedArtifact) : Worker Unit :=
  match initial, prepared.find? (·.desiredMatch) with
  | none, some item =>
    if desired ≠ .absent ∧ alternate = .absent then installPrepared item
    else require (desired = .absent)
      (js "workspace live path is unknown during artifact reconciliation")
  | none, none => require (desired = .absent)
      (js "workspace live path is unknown during artifact reconciliation")
  | some _, _ => fail (js "workspace live path is unknown during artifact reconciliation")

/-- Remove the prepared artifacts that are still there. -/
def removePrepared : List PreparedArtifact → Worker Unit
  | [] => done ()
  | item :: rest => do
      let remaining ← lstatOptional item.name
      if remaining.isSome then perform (.unlink item.name)
      removePrepared rest

/-- The second half of `reconcileArtifacts`: act on what was found. -/
def settleArtifacts (desired alternate : RestorableState) (initial : Option Stat)
    (initialDesired initialAlternate : Bool) (prepared : List PreparedArtifact)
    (quarantine : Option QuarantineArtifact) : Worker Unit := do
  if quarantine.isNone && prepared.isEmpty then return ()
  match quarantine with
  | some quarantine =>
    if quarantine.desiredMatch then restoreDesired initial initialDesired initialAlternate
    else discardAlternate desired initial initialDesired prepared
  | none =>
    if !initialDesired && !initialAlternate then
      completeUnknown desired alternate initial prepared
  removePrepared prepared

/-- `reconcileArtifacts`: bring the path to `desired` from what an apply of
`alternate` left. -/
def reconcileArtifacts (desired alternate live : RestorableState) : Worker Unit := do
  let initial ← lstatOptional .leaf
  let preparedFile ← inspectPrepared env initial desired alternate .preparedFile
  let preparedSymlink ← inspectPrepared env initial desired alternate .preparedSymlink
  let prepared := preparedFile.toList ++ preparedSymlink.toList
  require (prepared.length ≤ 1) (js "multiple workspace prepared artifacts are ambiguous")
  let quarantine ← inspectQuarantine env desired alternate
  check (validateReconciledLeaf initial prepared)
  let d ← get
  require (matchesArtifactExpected env d initial .leaf live)
    (js "workspace live path changed before artifact reconciliation")
  settleArtifacts desired alternate initial
    (matchesArtifactExpected env d initial .leaf desired)
    (matchesArtifactExpected env d initial .leaf alternate) prepared quarantine

/-- `assertPreflightAllowed`: the live path is inspectable and is the expected
one. -/
def assertPreflightAllowed (live : LiveCapturedPathState) (expectedCurrent : RestorableState) :
    Except JsString Unit :=
  match live with
  | .blocked reason => .error (js "Workspace path is blocked: " ++ reason)
  | .unsafeKind kind => .error (js "Workspace path has unsafe live kind: " ++ kind)
  | .directory _ => .error (js "Workspace path has a file-directory collision")
  | _ =>
    if liveMatchesCaptured live expectedCurrent.captured then .ok ()
    else .error (js "Workspace path changed from its caller-confirmed current state")

def verifyCapturedPath (expected : RestorableState) : Worker Unit := read fun d =>
  require (liveMatchesCaptured (env.inspectLivePath d) expected.captured)
    (js "Workspace path verification failed")

/-- `applyCapturedPath`: preflight, worker, verification. -/
def applyCapturedPath (expectedCurrent target : RestorableState) : Worker Unit := do
  let d ← get
  check (assertPreflightAllowed (env.inspectLivePath d) expectedCurrent)
  let blob := env.blobOf target
  check (env.validateBlob target blob)
  applyMain env target expectedCurrent blob
  verifyCapturedPath env target

end FilesystemApply

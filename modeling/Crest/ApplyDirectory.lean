import Mathlib.Algebra.Group.Nat.Defs
import Crest.CapturedPath
import Crest.Interruption

/-!
# The directory an apply worker changes

The worker replaces one path by system calls in the directory that holds it.
Besides the path's own name it uses three artifact names: a prepared file, a
prepared symlink, and a quarantine directory that holds at most the displaced
entry.  `Directory` is what these names refer to; `Call.exec` is what each
system call does to them, with the error it reports otherwise.

A hard link is a second name for one inode, so link counts are counted, not
stored.
-/

namespace FilesystemApply

open Workspace Interruption

/-- File contents and symlink targets. -/
abbrev Bytes := List UInt8

/-- What a name can refer to.  A directory carries the names in it other than
the quarantine's `entry`. -/
inductive Node
  | file (content : Bytes) (executable : Bool)
  | symlink (target : Bytes)
  | directory (others : List JsString)
  | special
  deriving DecidableEq, Repr

/-- A directory entry. -/
structure Entry where
  inode : Nat
  node : Node
  deriving DecidableEq, Repr

/-- The names the worker uses: the path's leaf, the three artifacts, and the
quarantine's `entry`. -/
inductive Name
  | leaf
  | preparedFile
  | preparedSymlink
  | quarantine
  | quarantined
  deriving DecidableEq, Repr

/-- The names' entries, and the next unused inode. -/
structure Directory where
  leaf : Option Entry
  preparedFile : Option Entry
  preparedSymlink : Option Entry
  quarantine : Option Entry
  quarantined : Option Entry
  nextInode : Nat
  deriving DecidableEq, Repr

/-- What `lstat` reports. -/
structure Stat where
  inode : Nat
  node : Node
  nlink : Nat
  deriving DecidableEq, Repr

namespace Directory

/-- The entry of a name. -/
def entry (d : Directory) : Name → Option Entry
  | .leaf => d.leaf
  | .preparedFile => d.preparedFile
  | .preparedSymlink => d.preparedSymlink
  | .quarantine => d.quarantine
  | .quarantined => d.quarantined

/-- The directory with one name's entry replaced. -/
def set (d : Directory) (name : Name) (e : Option Entry) : Directory :=
  match name with
  | .leaf => { d with leaf := e }
  | .preparedFile => { d with preparedFile := e }
  | .preparedSymlink => { d with preparedSymlink := e }
  | .quarantine => { d with quarantine := e }
  | .quarantined => { d with quarantined := e }

/-- Whether an entry is a name of the inode. -/
def refers (inode : Nat) : Option Entry → Nat
  | some e => if e.inode = inode then 1 else 0
  | none => 0

@[simp] theorem refers_none (inode : Nat) : refers inode none = 0 := rfl

@[simp] theorem refers_some (inode : Nat) (e : Entry) :
    refers inode (some e) = if e.inode = inode then 1 else 0 := rfl

theorem refers_of_fresh {o : Option Entry} {next : Nat}
    (h : ∀ e, o = some e → e.inode < next) :
    refers next o = 0 := by
  cases o with
  | none => rfl
  | some e => simp [Nat.ne_of_lt (h e rfl)]

/-- The number of names of an inode. -/
def nlink (d : Directory) (inode : Nat) : Nat :=
  refers inode d.leaf + refers inode d.preparedFile + refers inode d.preparedSymlink +
    refers inode d.quarantine + refers inode d.quarantined

/-- `lstat`, with `none` for a missing name. -/
def lstat (d : Directory) (name : Name) : Option Stat :=
  (d.entry name).map fun e => ⟨e.inode, e.node, d.nlink e.inode⟩

/-- Whether a new entry can be made under a name: the name is free and the
directory it is in exists. -/
def vacant (d : Directory) (name : Name) : Except JsString Unit :=
  match d.entry name, name, d.quarantine with
  | some _, _, _ => .error (js "EEXIST")
  | none, .quarantined, some ⟨_, .directory _⟩ => .ok ()
  | none, .quarantined, some _ => .error (js "ENOTDIR")
  | none, .quarantined, none => .error (js "ENOENT")
  | none, _, _ => .ok ()

/-- A new inode under a name. -/
def add (d : Directory) (name : Name) (node : Node) : Directory :=
  { d.set name (some ⟨d.nextInode, node⟩) with nextInode := d.nextInode + 1 }

/-- Change the contents of an inode under each of its names. -/
def setNode (d : Directory) (inode : Nat) (node : Node) : Directory :=
  let update (e : Option Entry) : Option Entry :=
    e.map fun e => if e.inode = inode then { e with node := node } else e
  { d with
    leaf := update d.leaf
    preparedFile := update d.preparedFile
    preparedSymlink := update d.preparedSymlink
    quarantine := update d.quarantine
    quarantined := update d.quarantined }

/-- The names in the quarantine directory. -/
def readdirQuarantine (d : Directory) (others : List JsString) : List JsString :=
  if d.quarantined.isSome then js "entry" :: others else others

end Directory

/-- A system call of the worker.  `write` and `chmod` go through the handle of
the file opened under the name; `mkdir` and `rmdir` are of the quarantine. -/
inductive Call
  | create (name : Name)
  | write (name : Name) (bytes : Bytes)
  | chmod (name : Name) (executable : Bool)
  | symlink (target : Bytes) (name : Name)
  | mkdir
  | rename (source dest : Name)
  | link (existing name : Name)
  | unlink (name : Name)
  | rmdir
  deriving DecidableEq, Repr

/-- The effect of a system call, or its error. -/
def Call.exec : Call → Directory → Except JsString Directory
  | .create name, d => do
      d.vacant name
      return d.add name (.file [] false)
  | .write name bytes, d =>
    match d.entry name with
    | some ⟨inode, .file content executable⟩ =>
      .ok (d.setNode inode (.file (content ++ bytes) executable))
    | _ => .error (js "EBADF")
  | .chmod name executable, d =>
    match d.entry name with
    | some ⟨inode, .file content _⟩ => .ok (d.setNode inode (.file content executable))
    | _ => .error (js "EBADF")
  | .symlink target name, d => do
      d.vacant name
      return d.add name (.symlink target)
  | .mkdir, d => do
      d.vacant .quarantine
      return d.add .quarantine (.directory [])
  | .rename source dest, d =>
    match d.entry source, d.entry dest with
    | none, _ => .error (js "ENOENT")
    | some ⟨_, .directory _⟩, _ => .error (js "EINVAL")
    | some _, some ⟨_, .directory _⟩ => .error (js "EISDIR")
    | some e, some e' =>
      if e.inode = e'.inode then .ok d else .ok ((d.set dest (some e)).set source none)
    | some e, none => do
        d.vacant dest
        return (d.set dest (some e)).set source none
  | .link existing name, d =>
    match d.entry existing with
    | none => .error (js "ENOENT")
    | some ⟨_, .directory _⟩ => .error (js "EPERM")
    | some e => do
        d.vacant name
        return d.set name (some e)
  | .unlink name, d =>
    match d.entry name with
    | none => .error (js "ENOENT")
    | some ⟨_, .directory _⟩ => .error (js "EISDIR")
    | some _ => .ok (d.set name none)
  | .rmdir, d =>
    match d.quarantine with
    | none => .error (js "ENOENT")
    | some ⟨_, .directory others⟩ =>
      if d.readdirQuarantine others = [] then .ok (d.set .quarantine none)
      else .error (js "ENOTEMPTY")
    | some _ => .error (js "ENOTDIR")

/-- What the worker takes from elsewhere: the Git object hash, the snapshot
store's objects, and the pieces in which a buffer reaches the disk. -/
structure Environment where
  gitBlobOid : Bytes → JsString
  readBlob : JsString → Bytes
  writeFileChunks : Bytes → List Bytes
  flatten_writeFileChunks : ∀ blob, (writeFileChunks blob).flatten = blob

/-- The largest blob the worker accepts: 64 MiB. -/
def maxSingleFileBytes : Nat := 64 * 1024 ^ 2

variable (env : Environment)

/-- The restorable state a node shows, if it is a file or a symlink. -/
def Environment.shown : Node → Option RestorableState
  | .file content executable => some (.file (env.gitBlobOid content) executable)
  | .symlink target => some (.symlink (env.gitBlobOid target))
  | _ => none

/-- The restorable state a name shows; a free name shows `absent`. -/
def Environment.shownAt (d : Directory) (name : Name) : Option RestorableState :=
  match d.entry name with
  | none => some .absent
  | some e => env.shown e.node

/-- The inspector's answer for the leaf.  A hard-linked file makes it throw,
and the caller turns the error into a blocked path. -/
def Environment.inspectLivePath (d : Directory) : LiveCapturedPathState :=
  match d.lstat .leaf with
  | none => .absent
  | some ⟨_, .symlink target, _⟩ => .symlink (env.gitBlobOid target)
  | some ⟨_, .special, _⟩ => .unsafeKind (js "unknown")
  | some ⟨_, .directory others, _⟩ => .directory others.isEmpty
  | some ⟨_, .file content executable, nlink⟩ =>
    if nlink = 1 then .file (env.gitBlobOid content) executable
    else .blocked (js "path changed or became unreadable during inspection: hard-linked file is unsafe to restore")

/-- The node `readBlob` and the recorded mode make of a restorable state. -/
def Environment.nodeOf : RestorableState → Option Node
  | .absent => none
  | .file oid executable => some (.file (env.readBlob oid) executable)
  | .symlink oid => some (.symlink (env.readBlob oid))

/-- `validateBlob`: the stored object has the right hash and size, and a
symlink target no NUL. -/
def Environment.validateBlob (target : RestorableState) (blob : Bytes) : Except JsString Unit :=
  match target with
  | .absent => .ok ()
  | .file oid _ =>
    if blob.length > maxSingleFileBytes then
      .error (js "Workspace object exceeds the single-file apply limit")
    else if env.gitBlobOid blob ≠ oid then
      .error (js "Workspace object " ++ oid ++ js " failed integrity verification")
    else .ok ()
  | .symlink oid =>
    if blob.length > maxSingleFileBytes then
      .error (js "Workspace object exceeds the single-file apply limit")
    else if env.gitBlobOid blob ≠ oid then
      .error (js "Workspace object " ++ oid ++ js " failed integrity verification")
    else if (0 : UInt8) ∈ blob then
      .error (js "Workspace symlink target contains a NUL byte")
    else .ok ()

/-- The bytes read for a target; nothing is read for an absent one. -/
def Environment.blobOf : RestorableState → Bytes
  | .absent => []
  | .file oid _ => env.readBlob oid
  | .symlink oid => env.readBlob oid

/-- A state whose stored object passes the code's validation. -/
def Environment.Restorable (s : RestorableState) : Prop :=
  env.validateBlob s (env.blobOf s) = .ok ()

/-- A name is the only name of its inode. -/
def Sole (d : Directory) (name : Name) : Prop :=
  ∀ e, d.entry name = some e → d.nlink e.inode = 1

variable {d : Directory}

theorem sole_of_nlink {name : Name} {e : Entry} (he : d.entry name = some e)
    (h : d.nlink e.inode = 1) :
    Sole d name := by
  intro e' he'
  obtain rfl : e = e' := by simpa [he] using he'
  exact h

variable {env}

variable {s : RestorableState}

theorem shownAt_cases {name : Name} (hs : env.shownAt d name = some s) :
    d.entry name = none ∧ s = .absent ∨
      (∃ inode content executable, d.entry name = some ⟨inode, .file content executable⟩ ∧
        s = .file (env.gitBlobOid content) executable) ∨
      ∃ inode target, d.entry name = some ⟨inode, .symlink target⟩ ∧
        s = .symlink (env.gitBlobOid target) := by
  unfold Environment.shownAt at hs
  split at hs
  next he => exact .inl ⟨he, (Option.some.inj hs).symm⟩
  next e he =>
    obtain ⟨inode, node⟩ := e
    cases node with
    | file => exact .inr (.inl ⟨_, _, _, he, (Option.some.inj hs).symm⟩)
    | symlink => exact .inr (.inr ⟨_, _, he, (Option.some.inj hs).symm⟩)
    | directory | special => cases hs

theorem inspect_shown (hs : env.shownAt d .leaf = some s) (hsole : Sole d .leaf) :
    capturedFromLive (env.inspectLivePath d) = some s.captured := by
  rcases shownAt_cases hs with ⟨he, rfl⟩ | ⟨_, _, _, he, rfl⟩ | ⟨_, _, he, rfl⟩
  · simp [Environment.inspectLivePath, Directory.lstat, he, capturedFromLive,
      RestorableState.captured]
  all_goals
    have hn := hsole _ he
    simp only at hn
    simp [Environment.inspectLivePath, Directory.lstat, he, hn, capturedFromLive,
      RestorableState.captured]

theorem inspect_linked {inode : Nat} {content : Bytes} {executable : Bool}
    (he : d.leaf = some ⟨inode, .file content executable⟩) (hn : d.nlink inode ≠ 1) :
    capturedFromLive (env.inspectLivePath d) = none := by
  simp [Environment.inspectLivePath, Directory.lstat, Directory.entry, he, hn, capturedFromLive]

/-- A directory with no artifact in it whose leaf shows a state and is older
than the next inode. -/
structure Environment.Holds (env : Environment) (d : Directory) (s : RestorableState) :
    Prop where
  shown : env.shownAt d .leaf = some s
  noPreparedFile : d.preparedFile = none
  noPreparedSymlink : d.preparedSymlink = none
  noQuarantine : d.quarantine = none
  noQuarantined : d.quarantined = none
  fresh : ∀ e, d.leaf = some e → e.inode < d.nextInode

theorem Environment.Holds.sole (h : env.Holds d s) :
    Sole d .leaf := by
  intro e he
  have hleaf : d.leaf = some e := he
  simp [Directory.nlink, hleaf, h.noPreparedFile, h.noPreparedSymlink, h.noQuarantine,
    h.noQuarantined]

theorem Environment.Holds.inspect (h : env.Holds d s) :
    capturedFromLive (env.inspectLivePath d) = some s.captured :=
  inspect_shown h.shown h.sole

end FilesystemApply

import Crest.PendingBoundary
import Crest.SessionState

/-!
# Who owns a snapshot

A snapshot is kept as long as something may lead back to it: a checkpoint or a marker
in a session, the record of a turn under way, a restore that was not completed, or the
head of the workspace.  `scanOwners` collects what all of these name and gives up when
one of them cannot be read.  `Owns` says the same without an order of collection.
-/

namespace Workspace

open JsString Session

/-- A session file: what was appended to it, and whether it can be opened and read. -/
structure SessionSource where
  entries : List SessionTreeEntry
  /-- Whether the file can be opened and its entries can be read. -/
  readable : Bool := true
  deriving DecidableEq, Repr

/-- The directory of all sessions, as a process finds it. -/
inductive SessionsRoot
  /-- It does not exist. -/
  | missing
  /-- It exists, but asking for it fails. -/
  | inaccessible (sessions : List SessionSource)
  /-- Something below it cannot be listed, or is not a plain file or directory. -/
  | unlistable (sessions : List SessionSource)
  /-- Everything below it can be listed. -/
  | listed (sessions : List SessionSource)
  deriving DecidableEq, Repr

/-- The sessions that exist. -/
def SessionsRoot.sessions : SessionsRoot → List SessionSource
  | .missing => []
  | .inaccessible sessions | .unlistable sessions | .listed sessions => sessions

/-- `ScannedPendingWorkspaceRestore`, or a failure to look for it. -/
inductive ScannedRestore
  | failed
  | none
  | corrupt
  | valid (record : PendingWorkspaceRestoreV2)
  deriving DecidableEq, Repr

/-- Everything the owners of snapshots are read from. -/
structure OwnerSources where
  sessionsRoot : SessionsRoot
  /-- The records of turns under way, if they can be listed and decoded. -/
  pending : Option (List PendingWorkspaceBoundaryV1)
  activeRestore : ScannedRestore
  /-- The head of the workspace, if its ref can be read. -/
  head : Option (Option JsString)
  /-- The snapshot of a commit, if it can be read. -/
  readCommitSnapshot : JsString → Option WorkspaceSnapshotRefV1

structure SnapshotOwners where
  snapshots : JsMap JsString WorkspaceSnapshotRefV1
  refs : List JsString
  pending : List PendingWorkspaceBoundaryV1
  deriving DecidableEq

/-- Whether a snapshot belongs to the workspace of the store. -/
def isOfStore (store : StoreIdentity) (snapshot : WorkspaceSnapshotRefV1) : Bool :=
  snapshot.workspaceIdentity = store.workspaceIdentity &&
    snapshot.workspaceIncarnation = store.workspaceIncarnation

/-- `addOwned`; there is no result when two different snapshots have one commit. -/
def addOwned (store : StoreIdentity) (owned : JsMap JsString WorkspaceSnapshotRefV1)
    (snapshot : WorkspaceSnapshotRefV1) : Option (JsMap JsString WorkspaceSnapshotRefV1) :=
  if !isOfStore store snapshot then some owned
  else
    match owned.get snapshot.id with
    | some existing => if existing = snapshot then some (owned.set snapshot.id snapshot) else none
    | none => some (owned.set snapshot.id snapshot)

/-- The snapshots of a checkpoint. -/
def checkpointSnapshots : WorkspaceCheckpointV1 → List WorkspaceSnapshotRefV1
  | .available checkpoint => [checkpoint.before, checkpoint.after]
  | .unavailable _ => []

/-- The snapshots of a linked operation. -/
def linkedSnapshots (operation : WorkspaceLinkedOperationV1) : List WorkspaceSnapshotRefV1 :=
  [operation.sourceSnapshot, operation.currentSnapshot]

/-- The snapshots of a marker. -/
def stateSnapshots (state : WorkspaceStateV1) : List WorkspaceSnapshotRefV1 :=
  [state.sourceSnapshot, state.currentSnapshot] ++
    match state.kind with
    | .redo _ linkedOperation | .turnRedo _ _ linkedOperation => linkedSnapshots linkedOperation
    | .rewind _ _ _ _ | .turnUndo _ => []

/-- The snapshots an entry names; there is no result when a checkpoint or a marker
cannot be decoded. -/
def entrySnapshots (entry : SessionTreeEntry) : Option (List WorkspaceSnapshotRefV1) :=
  if entry.customType = some checkpointCustomType then
    (decodeWorkspaceCheckpointEntry entry).map checkpointSnapshots
  else if entry.customType = some stateCustomType then
    (decodeWorkspaceStateEntry entry).map stateSnapshots
  else some []

def collectSessionOwners (store : StoreIdentity)
    (owned : JsMap JsString WorkspaceSnapshotRefV1) (entries : List SessionTreeEntry) :
    Option (JsMap JsString WorkspaceSnapshotRefV1) :=
  entries.foldlM (fun owned entry => do
    let snapshots ← entrySnapshots entry
    snapshots.foldlM (addOwned store) owned) owned

/-- `scanAllMetadata`: a directory that cannot be reached counts as one that does not
exist. -/
def scanAllMetadata : SessionsRoot → Option (List SessionSource)
  | .missing | .inaccessible _ => some []
  | .unlistable _ => none
  | .listed sessions => some sessions

/-- A session is opened and its entries are looked through. -/
def collectSession (store : StoreIdentity) (owned : JsMap JsString WorkspaceSnapshotRefV1)
    (session : SessionSource) : Option (JsMap JsString WorkspaceSnapshotRefV1) :=
  if session.readable then collectSessionOwners store owned session.entries else none

/-- `assertOwnerIdentity`. -/
def isOwnerIdentity (store : StoreIdentity) (workspaceIdentity workspaceIncarnation : JsString) :
    Bool :=
  workspaceIdentity = store.workspaceIdentity &&
    workspaceIncarnation = store.workspaceIncarnation

/-- The snapshots of a turn under way. -/
def pendingSnapshots (record : PendingWorkspaceBoundaryV1) : List WorkspaceSnapshotRefV1 :=
  record.before :: record.after.toList

/-- `linkedOperation` of a target. -/
def RestoreTargetV1.linkedOperation : RestoreTargetV1 → Option WorkspaceLinkedOperationV1
  | .redo _ linkedOperation | .turnRedo _ _ linkedOperation => some linkedOperation
  | .rewind _ | .turnUndo _ => none

/-- The snapshots of a restore that was not completed. -/
def restoreSnapshots (readCommitSnapshot : JsString → Option WorkspaceSnapshotRefV1)
    (record : PendingWorkspaceRestoreV2) : Option (List WorkspaceSnapshotRefV1) := do
  let source ← readCommitSnapshot record.sourceCommit
  let planned ← readCommitSnapshot record.plannedCommit
  some ([source, planned] ++ (record.target.linkedOperation.map linkedSnapshots).getD [])

variable (digest : Digest)

/-- The record of one turn under way. -/
def collectPending (store : StoreIdentity)
    (collected : JsMap JsString WorkspaceSnapshotRefV1 × List JsString)
    (record : PendingWorkspaceBoundaryV1) :
    Option (JsMap JsString WorkspaceSnapshotRefV1 × List JsString) :=
  if isOwnerIdentity store record.workspaceIdentity record.workspaceIncarnation then do
    let owned ← (pendingSnapshots record).foldlM (addOwned store) collected.1
    let ref ← pendingRefName digest record
    some (owned, collected.2 ++ [ref])
  else none

/-- The restore that was not completed. -/
def collectRestore (store : StoreIdentity) (sources : OwnerSources)
    (owned : JsMap JsString WorkspaceSnapshotRefV1) :
    Option (JsMap JsString WorkspaceSnapshotRefV1) :=
  match sources.activeRestore with
  | .failed | .corrupt => none
  | .none => some owned
  | .valid record =>
    if isOwnerIdentity store record.workspaceIdentity record.workspaceIncarnation then do
      let snapshots ← restoreSnapshots sources.readCommitSnapshot record
      snapshots.foldlM (addOwned store) owned
    else none

/-- The head of the workspace. -/
def collectHead (store : StoreIdentity) (sources : OwnerSources)
    (owned : JsMap JsString WorkspaceSnapshotRefV1) :
    Option (JsMap JsString WorkspaceSnapshotRefV1) := do
  match ← sources.head with
  | none => some owned
  | some commit =>
    let snapshot ← sources.readCommitSnapshot commit
    addOwned store owned snapshot

def scanOwners (store : StoreIdentity) (sources : OwnerSources) : Option SnapshotOwners := do
  let sessions ← scanAllMetadata sources.sessionsRoot
  let owned ← sessions.foldlM (collectSession store) JsMap.empty
  let pending ← sources.pending
  let (owned, refs) ← pending.foldlM (collectPending digest store) (owned, [])
  let owned ← collectRestore store sources owned
  let snapshots ← collectHead store sources owned
  some { snapshots, refs, pending }

/-- The names that are not to be deleted. -/
def SnapshotOwners.liveRefNames (owners : SnapshotOwners) : List JsString :=
  owners.refs ++ owners.snapshots.keys.map ownerRefName

/-- A snapshot is named by one of the sources. -/
inductive NamesSnapshot (sources : OwnerSources) : WorkspaceSnapshotRefV1 → Prop
  /-- A session entry names it. -/
  | entry {session : SessionSource} {entry : SessionTreeEntry}
      {snapshots : List WorkspaceSnapshotRefV1} {snapshot : WorkspaceSnapshotRefV1}
      (hsession : session ∈ sources.sessionsRoot.sessions)
      (hentry : entry ∈ session.entries)
      (hsnapshots : entrySnapshots entry = some snapshots)
      (hsnapshot : snapshot ∈ snapshots) : NamesSnapshot sources snapshot
  /-- The record of a turn under way names it. -/
  | pending {records : List PendingWorkspaceBoundaryV1} {record : PendingWorkspaceBoundaryV1}
      {snapshot : WorkspaceSnapshotRefV1}
      (hrecords : sources.pending = some records)
      (hrecord : record ∈ records)
      (hsnapshot : snapshot ∈ pendingSnapshots record) : NamesSnapshot sources snapshot
  /-- A restore that was not completed names it. -/
  | restore {record : PendingWorkspaceRestoreV2} {snapshots : List WorkspaceSnapshotRefV1}
      {snapshot : WorkspaceSnapshotRefV1}
      (hrecord : sources.activeRestore = .valid record)
      (hsnapshots : restoreSnapshots sources.readCommitSnapshot record = some snapshots)
      (hsnapshot : snapshot ∈ snapshots) : NamesSnapshot sources snapshot
  /-- It is the snapshot of the head. -/
  | head {commit : JsString} {snapshot : WorkspaceSnapshotRefV1}
      (hhead : sources.head = some (some commit))
      (hsnapshot : sources.readCommitSnapshot commit = some snapshot) :
      NamesSnapshot sources snapshot

/-- A ref is owned: it is one of the two refs of a snapshot of this workspace that is
named, or the ref of a turn under way. -/
def Owns (store : StoreIdentity) (sources : OwnerSources) (name : JsString) : Prop :=
  (∃ snapshot, NamesSnapshot sources snapshot ∧ isOfStore store snapshot = true ∧
    (name = ownerRefName snapshot.id ∨ name = snapshotObjectRefName snapshot.id)) ∨
  ∃ records, sources.pending = some records ∧
    ∃ record ∈ records, pendingRefName digest record = some name

/-- One of the sources cannot be listed, read or decoded. -/
inductive SourceFails (sources : OwnerSources) : Prop
  /-- The directory of the sessions cannot be reached. -/
  | inaccessible {sessions : List SessionSource}
      (h : sources.sessionsRoot = .inaccessible sessions)
  /-- Something below the directory of the sessions cannot be listed. -/
  | unlistable {sessions : List SessionSource}
      (h : sources.sessionsRoot = .unlistable sessions)
  /-- A session cannot be opened or read. -/
  | session {session : SessionSource}
      (hsession : session ∈ sources.sessionsRoot.sessions)
      (hreadable : session.readable = false)
  /-- A checkpoint or a marker cannot be decoded. -/
  | entry {session : SessionSource} {entry : SessionTreeEntry}
      (hsession : session ∈ sources.sessionsRoot.sessions)
      (hentry : entry ∈ session.entries)
      (hsnapshots : entrySnapshots entry = none)
  /-- The records of turns under way cannot be listed or decoded. -/
  | pending (h : sources.pending = none)
  /-- The restore that was not completed cannot be read or decoded. -/
  | restore (h : sources.activeRestore = .failed ∨ sources.activeRestore = .corrupt)
  /-- The head cannot be read. -/
  | head (h : sources.head = none)
  /-- The snapshot of the head cannot be read. -/
  | headSnapshot {commit : JsString}
      (h : sources.head = some (some commit))
      (hsnapshot : sources.readCommitSnapshot commit = none)
  /-- A snapshot of the restore that was not completed cannot be read. -/
  | restoreSnapshot {record : PendingWorkspaceRestoreV2}
      (h : sources.activeRestore = .valid record)
      (hsnapshots : restoreSnapshots sources.readCommitSnapshot record = none)

section Growing

variable {σ α : Type*} (le : σ → σ → Prop) (f : σ → α → Option σ)

theorem foldlM_grows (hrefl : ∀ s, le s s) (htrans : ∀ s t u, le s t → le t u → le s u)
    (hstep : ∀ s a t, f s a = some t → le s t) (l : List α) {s t : σ}
    (h : l.foldlM f s = some t) :
    le s t := by
  induction l generalizing s with
  | nil =>
    obtain rfl : s = t := by simpa using h
    exact hrefl s
  | cons a l ih =>
    rw [List.foldlM_cons] at h
    obtain ⟨u, hu, hrest⟩ := Option.bind_eq_some_iff.mp h
    exact htrans s u t (hstep s a u hu) (ih hrest)

theorem foldlM_mem (hrefl : ∀ s, le s s) (htrans : ∀ s t u, le s t → le t u → le s u)
    (hstep : ∀ s a t, f s a = some t → le s t) (P : σ → Prop)
    (hkeep : ∀ s t, le s t → P s → P t) {l : List α} {a : α} (ha : a ∈ l)
    (hgives : ∀ s t, f s a = some t → P t) {s t : σ} (h : l.foldlM f s = some t) :
    P t := by
  induction l generalizing s with
  | nil => cases ha
  | cons b l ih =>
    rw [List.foldlM_cons] at h
    obtain ⟨u, hu, hrest⟩ := Option.bind_eq_some_iff.mp h
    cases ha with
    | head => exact hkeep u t (foldlM_grows le f hrefl htrans hstep l hrest) (hgives s u hu)
    | tail _ hmem => exact ih hmem hrest

end Growing

/-- A map of owned snapshots has every commit the other has. -/
def Extends (owned owned' : JsMap JsString WorkspaceSnapshotRefV1) : Prop :=
  ∀ id, owned.has id = true → owned'.has id = true

theorem Extends.refl (owned : JsMap JsString WorkspaceSnapshotRefV1) : Extends owned owned :=
  fun _ h => h

theorem Extends.trans (m m' m'' : JsMap JsString WorkspaceSnapshotRefV1) (h : Extends m m')
    (h' : Extends m' m'') :
    Extends m m'' :=
  fun id hid => h' id (h id hid)

variable (store : StoreIdentity)

/-- Whether a snapshot is among the owned ones, if it is of this workspace. -/
def Collected (snapshot : WorkspaceSnapshotRefV1)
    (owned : JsMap JsString WorkspaceSnapshotRefV1) : Prop :=
  isOfStore store snapshot = true → owned.has snapshot.id = true

theorem Collected.extend {snapshot : WorkspaceSnapshotRefV1}
    (m m' : JsMap JsString WorkspaceSnapshotRefV1) (hle : Extends m m')
    (h : Collected store snapshot m) :
    Collected store snapshot m' :=
  fun hof => hle snapshot.id (h hof)

theorem addOwned_spec (owned : JsMap JsString WorkspaceSnapshotRefV1)
    (snapshot : WorkspaceSnapshotRefV1) (owned' : JsMap JsString WorkspaceSnapshotRefV1)
    (h : addOwned store owned snapshot = some owned') :
    Extends owned owned' ∧ Collected store snapshot owned' := by
  have hset : Extends owned (owned.set snapshot.id snapshot) ∧
      Collected store snapshot (owned.set snapshot.id snapshot) := by
    constructor
    · intro id hid
      simp only [JsMap.has, JsMap.get_set] at hid ⊢
      split
      · rfl
      · exact hid
    · intro _
      simp [JsMap.has, JsMap.get_set]
  unfold addOwned at h
  split at h
  case isTrue hother =>
    obtain rfl := Option.some.inj h
    refine ⟨Extends.refl owned, ?_⟩
    intro hof
    simp [hof] at hother
  case isFalse _ =>
    split at h
    · split at h
      · obtain rfl := Option.some.inj h
        exact hset
      · cases h
    · obtain rfl := Option.some.inj h
      exact hset

variable {owned' : JsMap JsString WorkspaceSnapshotRefV1}

theorem addAllOwned_spec (snapshots : List WorkspaceSnapshotRefV1)
    {owned : JsMap JsString WorkspaceSnapshotRefV1}
    (h : snapshots.foldlM (addOwned store) owned = some owned') :
    Extends owned owned' ∧ ∀ snapshot ∈ snapshots, Collected store snapshot owned' := by
  refine ⟨?_, ?_⟩
  · exact foldlM_grows Extends (addOwned store) Extends.refl Extends.trans
      (fun m a m' hm => (addOwned_spec store m a m' hm).1) snapshots h
  · intro snapshot hmem
    exact foldlM_mem Extends (addOwned store) Extends.refl Extends.trans
      (fun m a m' hm => (addOwned_spec store m a m' hm).1) (Collected store snapshot)
      (Collected.extend store) hmem (fun m m' hm => (addOwned_spec store m snapshot m' hm).2) h

theorem collectEntry_spec (owned : JsMap JsString WorkspaceSnapshotRefV1)
    (entry : SessionTreeEntry) (owned' : JsMap JsString WorkspaceSnapshotRefV1)
    (h : (do
      let snapshots ← entrySnapshots entry
      snapshots.foldlM (addOwned store) owned) = some owned') :
    Extends owned owned' ∧
      ∀ snapshots, entrySnapshots entry = some snapshots →
        ∀ snapshot ∈ snapshots, Collected store snapshot owned' := by
  obtain ⟨found, hfound, hadd⟩ := Option.bind_eq_some_iff.mp h
  obtain ⟨hextends, hcollected⟩ := addAllOwned_spec store found hadd
  refine ⟨hextends, ?_⟩
  intro snapshots hsnapshots
  obtain rfl := Option.some.inj (hfound.symm.trans hsnapshots)
  exact hcollected

theorem collectSession_spec (owned : JsMap JsString WorkspaceSnapshotRefV1)
    (session : SessionSource) (owned' : JsMap JsString WorkspaceSnapshotRefV1)
    (h : collectSession store owned session = some owned') :
    session.readable = true ∧ Extends owned owned' ∧
      ∀ entry ∈ session.entries, ∀ snapshots, entrySnapshots entry = some snapshots →
        ∀ snapshot ∈ snapshots, Collected store snapshot owned' := by
  unfold collectSession at h
  split at h
  case isFalse _ => cases h
  case isTrue hreadable =>
    refine ⟨hreadable, ?_, ?_⟩
    · exact foldlM_grows Extends _ Extends.refl Extends.trans
        (fun m a m' hm => (collectEntry_spec store m a m' hm).1) session.entries h
    · intro entry hentry snapshots hsnapshots snapshot hmem
      exact foldlM_mem Extends _ Extends.refl Extends.trans
        (fun m a m' hm => (collectEntry_spec store m a m' hm).1) (Collected store snapshot)
        (Collected.extend store) hentry
        (fun m m' hm => (collectEntry_spec store m entry m' hm).2 snapshots hsnapshots snapshot hmem)
        h

theorem collectPending_spec (collected : JsMap JsString WorkspaceSnapshotRefV1 × List JsString)
    (record : PendingWorkspaceBoundaryV1)
    (collected' : JsMap JsString WorkspaceSnapshotRefV1 × List JsString)
    (h : collectPending digest store collected record = some collected') :
    (Extends collected.1 collected'.1 ∧ collected.2 ⊆ collected'.2) ∧
      (∀ snapshot ∈ pendingSnapshots record, Collected store snapshot collected'.1) ∧
      ∀ name, pendingRefName digest record = some name → name ∈ collected'.2 := by
  unfold collectPending at h
  split at h
  case isFalse _ => cases h
  case isTrue _ =>
    obtain ⟨owned, hadd, hrest⟩ := Option.bind_eq_some_iff.mp h
    obtain ⟨ref, href, hpair⟩ := Option.bind_eq_some_iff.mp hrest
    obtain rfl := Option.some.inj hpair
    obtain ⟨hextends, hcollected⟩ := addAllOwned_spec store _ hadd
    refine ⟨⟨hextends, List.subset_append_left _ _⟩, hcollected, ?_⟩
    intro name hname
    obtain rfl := Option.some.inj (href.symm.trans hname)
    simp

theorem collectRestore_spec (sources : OwnerSources)
    {owned : JsMap JsString WorkspaceSnapshotRefV1}
    (h : collectRestore store sources owned = some owned') :
    (sources.activeRestore ≠ .failed ∧ sources.activeRestore ≠ .corrupt) ∧
      Extends owned owned' ∧
      ∀ record, sources.activeRestore = .valid record →
        ∀ snapshots, restoreSnapshots sources.readCommitSnapshot record = some snapshots →
          ∀ snapshot ∈ snapshots, Collected store snapshot owned' := by
  unfold collectRestore at h
  cases hrestore : sources.activeRestore with
  | failed | corrupt => simp [hrestore] at h
  | none =>
    obtain rfl : owned = owned' := by simpa [hrestore] using h
    exact ⟨⟨by simp, by simp⟩, Extends.refl owned, by simp⟩
  | valid record =>
    simp only [hrestore] at h
    split at h
    case isFalse _ => cases h
    case isTrue _ =>
      obtain ⟨found, hfound, hadd⟩ := Option.bind_eq_some_iff.mp h
      obtain ⟨hextends, hcollected⟩ := addAllOwned_spec store found hadd
      refine ⟨⟨by simp, by simp⟩, hextends, ?_⟩
      intro record' hrecord snapshots hsnapshots
      cases hrecord
      obtain rfl := Option.some.inj (hfound.symm.trans hsnapshots)
      exact hcollected

theorem collectHead_spec (sources : OwnerSources) {owned : JsMap JsString WorkspaceSnapshotRefV1}
    (h : collectHead store sources owned = some owned') :
    sources.head ≠ none ∧ Extends owned owned' ∧
      ∀ commit, sources.head = some (some commit) →
        ∀ snapshot, sources.readCommitSnapshot commit = some snapshot →
          Collected store snapshot owned' := by
  unfold collectHead at h
  cases hhead : sources.head with
  | none => simp [hhead] at h
  | some head =>
    cases head with
    | none =>
      obtain rfl : owned = owned' := by simpa [hhead] using h
      exact ⟨by simp, Extends.refl owned, by simp⟩
    | some commit =>
      simp only [hhead, Option.bind_eq_bind, Option.bind_some] at h
      obtain ⟨found, hfound, hadd⟩ := Option.bind_eq_some_iff.mp h
      obtain ⟨hextends, hcollected⟩ := addOwned_spec store owned found owned' hadd
      refine ⟨by simp, hextends, ?_⟩
      intro commit' hcommit snapshot hsnapshot
      cases hcommit
      obtain rfl := Option.some.inj (hfound.symm.trans hsnapshot)
      exact hcollected

variable {sources : OwnerSources} {owners : SnapshotOwners}

theorem scanOwners_eq_some (h : scanOwners digest store sources = some owners) :
    ∃ sessions owned records collected restored,
      scanAllMetadata sources.sessionsRoot = some sessions ∧
      sessions.foldlM (collectSession store) JsMap.empty = some owned ∧
      sources.pending = some records ∧
      records.foldlM (collectPending digest store) (owned, []) = some collected ∧
      collectRestore store sources collected.1 = some restored ∧
      collectHead store sources restored = some owners.snapshots ∧
      owners.refs = collected.2 := by
  obtain ⟨sessions, hsessions, h⟩ := Option.bind_eq_some_iff.mp h
  obtain ⟨owned, howned, h⟩ := Option.bind_eq_some_iff.mp h
  obtain ⟨records, hrecords, h⟩ := Option.bind_eq_some_iff.mp h
  obtain ⟨collected, hcollected, h⟩ := Option.bind_eq_some_iff.mp h
  obtain ⟨restored, hrestored, h⟩ := Option.bind_eq_some_iff.mp h
  obtain ⟨snapshots, hsnapshots, h⟩ := Option.bind_eq_some_iff.mp h
  obtain rfl := Option.some.inj h
  exact ⟨sessions, owned, records, collected, restored, hsessions, howned, hrecords, hcollected,
    hrestored, hsnapshots, rfl⟩

theorem sessions_of_scanAllMetadata {root : SessionsRoot} {sessions : List SessionSource}
    (h : scanAllMetadata root = some sessions) (hroot : ∀ all, root ≠ .inaccessible all) :
    root.sessions = sessions := by
  cases root with
  | missing | listed _ => simpa [scanAllMetadata, SessionsRoot.sessions] using h
  | inaccessible all => exact absurd rfl (hroot all)
  | unlistable all => simp [scanAllMetadata] at h

/-- **Every named snapshot is collected**, unless the directory of the sessions could
not be reached. -/
theorem collected_of_names (h : scanOwners digest store sources = some owners)
    (hroot : ∀ sessions, sources.sessionsRoot ≠ .inaccessible sessions)
    {snapshot : WorkspaceSnapshotRefV1} (hnames : NamesSnapshot sources snapshot) :
    Collected store snapshot owners.snapshots := by
  obtain ⟨sessions, owned, records, collected, restored, hsessions, howned, hrecords,
    hcollected, hrestored, hhead, -⟩ := scanOwners_eq_some digest store h
  obtain ⟨-, hheadExtends, hheadSnapshot⟩ := collectHead_spec store sources hhead
  obtain ⟨-, hrestoreExtends, hrestoreSnapshot⟩ := collectRestore_spec store sources hrestored
  have hpendingGrows := foldlM_grows
    (fun c c' : JsMap JsString WorkspaceSnapshotRefV1 × List JsString => Extends c.1 c'.1)
    (collectPending digest store) (fun c => Extends.refl c.1)
    (fun c c' c'' => Extends.trans c.1 c'.1 c''.1)
    (fun c record c' hc => (collectPending_spec digest store c record c' hc).1.1) records
    hcollected
  have hlast : ∀ m, Extends m restored → Collected store snapshot m →
      Collected store snapshot owners.snapshots := by
    intro m hm hc
    exact Collected.extend store restored owners.snapshots hheadExtends
      (Collected.extend store m restored hm hc)
  cases hnames with
  | entry hsession hentry hsnapshots hsnapshot =>
    rw [sessions_of_scanAllMetadata hsessions hroot] at hsession
    have hfound := foldlM_mem Extends (collectSession store) Extends.refl Extends.trans
      (fun m a m' hm => (collectSession_spec store m a m' hm).2.1) (Collected store snapshot)
      (Collected.extend store) hsession
      (fun m m' hm => (collectSession_spec store m _ m' hm).2.2 _ hentry _ hsnapshots snapshot
        hsnapshot) howned
    exact hlast owned (hpendingGrows.trans _ _ _ hrestoreExtends) hfound
  | pending hfoundRecords hrecord hsnapshot =>
    obtain rfl := Option.some.inj (hrecords.symm.trans hfoundRecords)
    have hfound := foldlM_mem
      (fun c c' : JsMap JsString WorkspaceSnapshotRefV1 × List JsString => Extends c.1 c'.1)
      (collectPending digest store) (fun c => Extends.refl c.1)
      (fun c c' c'' => Extends.trans c.1 c'.1 c''.1)
      (fun c record c' hc => (collectPending_spec digest store c record c' hc).1.1)
      (fun c => Collected store snapshot c.1)
      (fun c c' hle hc => Collected.extend store c.1 c'.1 hle hc) hrecord
      (fun c c' hc => (collectPending_spec digest store c _ c' hc).2.1 snapshot hsnapshot)
      hcollected
    exact hlast collected.1 hrestoreExtends hfound
  | restore hrecord hsnapshots hsnapshot =>
    exact hlast restored (Extends.refl restored)
      (hrestoreSnapshot _ hrecord _ hsnapshots snapshot hsnapshot)
  | head hcommit hsnapshot => exact hheadSnapshot _ hcommit snapshot hsnapshot

variable {record : PendingWorkspaceBoundaryV1}

theorem pendingRef_live (h : scanOwners digest store sources = some owners)
    {records : List PendingWorkspaceBoundaryV1} (hrecords : sources.pending = some records)
    (hrecord : record ∈ records) {name : JsString}
    (hname : pendingRefName digest record = some name) :
    name ∈ owners.liveRefNames := by
  obtain ⟨sessions, owned, records', collected, restored, -, -, hrecords', hcollected, -, -,
    hrefs⟩ := scanOwners_eq_some digest store h
  obtain rfl := Option.some.inj (hrecords.symm.trans hrecords')
  have hfound := foldlM_mem
    (fun c c' : JsMap JsString WorkspaceSnapshotRefV1 × List JsString => c.2 ⊆ c'.2)
    (collectPending digest store) (fun c => List.Subset.refl c.2)
    (fun c c' c'' => List.Subset.trans)
    (fun c record c' hc => (collectPending_spec digest store c record c' hc).1.2)
    (fun c => name ∈ c.2) (fun c c' hle hc => hle hc) hrecord
    (fun c c' hc => (collectPending_spec digest store c record c' hc).2.2 name hname) hcollected
  rw [SnapshotOwners.liveRefNames, hrefs]
  exact List.mem_append_left _ hfound

theorem crestRef_ne_objectRef (rest id : JsString) :
    js "refs/crest/" ++ rest ≠ snapshotObjectRefName id := by
  intro h
  have hleft : (js "refs/crest/" ++ rest).take 11 = js "refs/crest/" :=
    List.take_left' (by decide)
  have hright : (snapshotObjectRefName id).take 11 = js "refs/crest-" := by
    rw [snapshotObjectRefName, List.take_append_of_le_length (by decide)]
    decide
  rw [h, hright] at hleft
  exact absurd hleft (by decide)

theorem ownerRef_ne_objectRef (id id' : JsString) :
    ownerRefName id ≠ snapshotObjectRefName id' := by
  have hsplit : ownerRefName id = js "refs/crest/" ++ (js "snapshots/" ++ id) := by
    rw [ownerRefName, ← List.append_assoc]
    congr 1
  rw [hsplit]
  exact crestRef_ne_objectRef _ _

theorem pendingRef_ne_objectRef {name : JsString}
    (h : pendingRefName digest record = some name) (id : JsString) :
    name ≠ snapshotObjectRefName id := by
  unfold pendingRefName at h
  split at h
  · obtain rfl := Option.some.inj h
    have hsplit : js "refs/crest/pending/" = js "refs/crest/" ++ js "pending/" := by decide
    rw [hsplit, List.append_assoc, List.append_assoc, List.append_assoc]
    exact crestRef_ne_objectRef _ _
  · cases h

section Live

variable {digest store} {sources : OwnerSources} {owners : SnapshotOwners}

variable (h : scanOwners digest store sources = some owners)
  (hroot : ∀ sessions, sources.sessionsRoot ≠ .inaccessible sessions)
include h hroot

theorem ownerRef_live
    {snapshot : WorkspaceSnapshotRefV1} (hnames : NamesSnapshot sources snapshot)
    (hof : isOfStore store snapshot = true) :
    ownerRefName snapshot.id ∈ owners.liveRefNames := by
  have hhas := collected_of_names digest store h hroot hnames hof
  obtain ⟨found, hfound⟩ := Option.isSome_iff_exists.mp hhas
  apply List.mem_append_right
  apply List.mem_map_of_mem
  exact List.mem_map_of_mem (JsMap.mem_entries_of_get hfound)

/-- **Every owned ref is live.** -/
theorem live_of_owns {name : JsString} (hobject : ∀ id, name ≠ snapshotObjectRefName id)
    (howns : Owns digest store sources name) :
    name ∈ owners.liveRefNames := by
  rcases howns with ⟨snapshot, hnames, hof, hname⟩ | ⟨records, hrecords, record, hrecord, hname⟩
  · obtain rfl := hname.resolve_right (hobject snapshot.id)
    exact ownerRef_live h hroot hnames hof
  · exact pendingRef_live digest store h hrecords hrecord hname

theorem ownerRef_live_of_owns {id : JsString}
    (howns : Owns digest store sources (snapshotObjectRefName id)) :
    ownerRefName id ∈ owners.liveRefNames := by
  rcases howns with ⟨snapshot, hnames, hof, hname⟩ | ⟨records, hrecords, record, hrecord, hname⟩
  · rcases hname with hname | hname
    · exact absurd hname.symm (ownerRef_ne_objectRef _ _)
    · obtain rfl : id = snapshot.id := List.append_cancel_left hname
      exact ownerRef_live h hroot hnames hof
  · exact absurd rfl (pendingRef_ne_objectRef digest hname id)

end Live

theorem foldlM_step {σ α : Type*} {f : σ → α → Option σ} {l : List α} {a : α} (ha : a ∈ l)
    {s t : σ} (h : l.foldlM f s = some t) :
    ∃ u v, f u a = some v := by
  induction l generalizing s with
  | nil => cases ha
  | cons b l ih =>
    rw [List.foldlM_cons] at h
    obtain ⟨u, hu, hrest⟩ := Option.bind_eq_some_iff.mp h
    cases ha with
    | head => exact ⟨s, u, hu⟩
    | tail _ hmem => exact ih hmem hrest

/-- **A scan that succeeded read every source**, unless the directory of the sessions
could not be reached. -/
theorem not_sourceFails_of_scanOwners (h : scanOwners digest store sources = some owners)
    (hroot : ∀ sessions, sources.sessionsRoot ≠ .inaccessible sessions) :
    ¬ SourceFails sources := by
  obtain ⟨sessions, owned, records, collected, restored, hsessions, howned, hrecords,
    hcollected, hrestored, hhead, -⟩ := scanOwners_eq_some digest store h
  have hlisted := sessions_of_scanAllMetadata hsessions hroot
  intro hfails
  cases hfails with
  | inaccessible hsource => exact hroot _ hsource
  | unlistable hsource => simp [hsource, scanAllMetadata] at hsessions
  | session hsession hreadable =>
    obtain ⟨m, m', hstep⟩ := foldlM_step (hlisted ▸ hsession) howned
    have hread := (collectSession_spec store m _ m' hstep).1
    simp [hreadable] at hread
  | entry hsession hentry hsnapshots =>
    obtain ⟨m, m', hstep⟩ := foldlM_step (hlisted ▸ hsession) howned
    unfold collectSession at hstep
    split at hstep
    case isFalse _ => cases hstep
    case isTrue _ =>
      obtain ⟨n, n', hentryStep⟩ := foldlM_step hentry hstep
      simp [hsnapshots] at hentryStep
  | pending hnone => simp [hnone] at hrecords
  | restore hbad =>
    obtain ⟨⟨hfailed, hcorrupt⟩, -⟩ := collectRestore_spec store sources hrestored
    exact hbad.elim hfailed hcorrupt
  | head hnone => exact (collectHead_spec store sources hhead).1 hnone
  | headSnapshot hcommit hsnapshot => simp [collectHead, hcommit, hsnapshot] at hhead
  | restoreSnapshot hrecord hsnapshots =>
    simp [collectRestore, hrecord, hsnapshots] at hrestored

end Workspace

import Crest.PendingBoundarySteps

/-!
# What recovery finds

When the invariant holds, the scan of the pending boundaries throws exactly when there is a
temporary file in the directory.  Otherwise it returns the record of every boundary that has
a file, and the owners of snapshots can be collected with these records whenever they can be
collected without.
-/

namespace PendingBoundaryStore

open Workspace

variable {store : Store}

section Scan

/-- The directory has no temporary file. -/
def NoTemporary (disk : Disk) : Prop := ∀ hex, disk.files.get (temporaryName hex) = none

variable {disk : Disk}

theorem mapM_scanName {names : List JsString}
    (h : ∀ name ∈ names, ∃ t record, name = fileName t ∧ Found store disk t record) :
    ∃ records, names.mapM (scanName store disk) = some records ∧
      records.map (fun record => fileName record.boundaryToken) = names ∧
      ∀ record ∈ records, Found store disk record.boundaryToken record := by
  induction names with
  | nil => exact ⟨[], rfl, rfl, by simp⟩
  | cons name names ih =>
    obtain ⟨t, record, rfl, hfound⟩ := h name List.mem_cons_self
    obtain ⟨records, hrecords, hnames, hall⟩ :=
      ih fun name hname => h name (List.mem_cons_of_mem _ hname)
    have htoken := hfound.token
    refine ⟨record :: records, ?_, ?_, ?_⟩
    · rw [List.mapM_cons, scanName_of_found hfound, hrecords]
      rfl
    · rw [List.map_cons, hnames, htoken]
    · intro other hother
      rcases List.mem_cons.mp hother with rfl | hother
      · exact htoken ▸ hfound
      · exact hall other hother

variable {records : List PendingWorkspaceBoundaryV1}

theorem scanName_of_mapM {names : List JsString}
    (h : names.mapM (scanName store disk) = some records) {name : JsString}
    (hname : name ∈ names) :
    ∃ record, scanName store disk name = some record := by
  induction names generalizing records with
  | nil => cases hname
  | cons first names ih =>
    rw [List.mapM_cons] at h
    obtain ⟨record, hrecord, hrest⟩ := Option.bind_eq_some_iff.mp h
    obtain ⟨rest, hscanned, -⟩ := Option.bind_eq_some_iff.mp hrest
    rcases List.mem_cons.mp hname with rfl | hlater
    · exact ⟨record, hrecord⟩
    · exact ih hscanned hlater

theorem mem_sortedNames {disk : Disk} {name : JsString} :
    name ∈ sortedNames disk ↔ ∃ file, disk.files.get name = some file := by
  rw [sortedNames, List.mem_insertionSort]
  constructor
  · exact JsMap.exists_get_of_mem_keys
  · intro hfile
    obtain ⟨file, hfile⟩ := hfile
    exact List.mem_map.mpr ⟨(name, file), JsMap.mem_entries_of_get hfile, rfl⟩

/-- **A temporary file makes the scan throw.** -/
theorem scan_of_temporary {hex : JsString} {file : PendingFile}
    (h : disk.files.get (temporaryName hex) = some file) :
    scanPendingBoundaryRecords store disk = none := by
  cases hscan : scanPendingBoundaryRecords store disk with
  | none => rfl
  | some records =>
    obtain ⟨record, hrecord⟩ := scanName_of_mapM hscan (mem_sortedNames.mpr ⟨file, h⟩)
    rw [scanName, isRecordName_temporaryName] at hrecord
    cases hrecord

theorem found_of_mem {s : System} (h : Invariant store s) (hclean : NoTemporary s.disk)
    {name : JsString} (hname : name ∈ sortedNames s.disk) :
    ∃ t record, name = fileName t ∧ Found store s.disk t record := by
  obtain ⟨file, hfile⟩ := mem_sortedNames.mp hname
  rcases h.names name file hfile with ⟨t, rfl⟩ | ⟨hex, rfl⟩
  · rcases (h.boundary t).readable with hnone | ⟨record, hfound⟩
    · rw [NoFile, hfile] at hnone
      cases hnone
    · exact ⟨t, record, rfl, hfound⟩
  · rw [hclean hex] at hfile
    cases hfile

/-- **Without a temporary file the scan succeeds**: it returns what is found for the
boundaries, and each boundary once. -/
theorem scan_of_noTemporary {s : System} (h : Invariant store s)
    (hclean : NoTemporary s.disk) :
    ∃ records, scanPendingBoundaryRecords store s.disk = some records ∧
      (records.map (·.boundaryToken)).Nodup ∧
      (∀ record ∈ records, Found store s.disk record.boundaryToken record) ∧
      ∀ t file, s.disk.files.get (fileName t) = some file →
        ∃ record ∈ records, record.boundaryToken = t := by
  obtain ⟨records, hscan, hnames, hall⟩ := mapM_scanName fun name => found_of_mem h hclean
  refine ⟨records, hscan, ?_, hall, ?_⟩
  · have hnodup : (sortedNames s.disk).Nodup :=
      (List.perm_insertionSort _ _).nodup_iff.mpr s.disk.files.nodup
    rw [← hnames] at hnodup
    refine List.Nodup.of_map fileName ?_
    simpa [List.map_map, Function.comp_def] using hnodup
  · intro t file hfile
    have hmem : fileName t ∈ sortedNames s.disk := mem_sortedNames.mpr ⟨file, hfile⟩
    rw [← hnames] at hmem
    obtain ⟨record, hrecord, hname⟩ := List.mem_map.mp hmem
    exact ⟨record, hrecord, fileName_inj.mp hname⟩

theorem filter_token (hnodup : (records.map (·.boundaryToken)).Nodup)
    {record : PendingWorkspaceBoundaryV1} (hmem : record ∈ records) :
    records.filter (fun other => other.boundaryToken = record.boundaryToken) = [record] := by
  obtain ⟨front, back, rfl⟩ := List.append_of_mem hmem
  rw [List.map_append, List.map_cons, List.nodup_middle, List.nodup_cons, ← List.map_append]
    at hnodup
  have hother : ∀ other ∈ front ++ back, other.boundaryToken ≠ record.boundaryToken :=
    fun other hmem hsame => hnodup.1 (List.mem_map.mpr ⟨other, hmem, hsame⟩)
  have hfront : front.filter (fun other => other.boundaryToken = record.boundaryToken) = [] := by
    rw [List.filter_eq_nil_iff]
    intro other hmem
    simpa using hother other (List.mem_append_left _ hmem)
  have hback : back.filter (fun other => other.boundaryToken = record.boundaryToken) = [] := by
    rw [List.filter_eq_nil_iff]
    intro other hmem
    simpa using hother other (List.mem_append_right _ hmem)
  rw [List.filter_append, hfront, List.filter_cons_of_pos (by simp), hback, List.nil_append]

end Scan

section Owners

variable (readSnapshot : JsString → Option WorkspaceSnapshotRefV1) (identity : StoreIdentity)

/-- A snapshot of the workspace is the one its commit stands for. -/
def Genuine (snapshot : WorkspaceSnapshotRefV1) : Prop :=
  isOfStore identity snapshot = true → readSnapshot snapshot.id = some snapshot

/-- Every owned snapshot is the one its commit stands for. -/
def OwnsGenuine (owned : JsMap JsString WorkspaceSnapshotRefV1) : Prop :=
  ∀ id snapshot, owned.get id = some snapshot → readSnapshot id = some snapshot

variable {readSnapshot identity}

theorem foldlM_keeps {σ α : Type*} {f : σ → α → Option σ} (P : σ → Prop) {l : List α}
    (hstep : ∀ s a t, a ∈ l → P s → f s a = some t → P t) {s t : σ} (hs : P s)
    (h : l.foldlM f s = some t) :
    P t := by
  induction l generalizing s with
  | nil =>
    obtain rfl : s = t := by simpa using h
    exact hs
  | cons a l ih =>
    rw [List.foldlM_cons] at h
    obtain ⟨u, hu, hrest⟩ := Option.bind_eq_some_iff.mp h
    exact ih (fun s b t hb => hstep s b t (List.mem_cons_of_mem _ hb))
      (hstep s a u List.mem_cons_self hs hu) hrest

/-- A fold succeeds when each of its steps succeeds and keeps what makes it succeed. -/
theorem foldlM_succeeds {σ α : Type*} {f : σ → α → Option σ} (P : σ → Prop) {l : List α}
    (hstep : ∀ s a, a ∈ l → P s → ∃ t, f s a = some t ∧ P t) {s : σ} (hs : P s) :
    ∃ t, l.foldlM f s = some t ∧ P t := by
  induction l generalizing s with
  | nil => exact ⟨s, rfl, hs⟩
  | cons a l ih =>
    obtain ⟨u, hu, hkeep⟩ := hstep s a List.mem_cons_self hs
    obtain ⟨t, ht, hlast⟩ := ih (fun s b hb => hstep s b (List.mem_cons_of_mem _ hb)) hkeep
    refine ⟨t, ?_, hlast⟩
    rw [List.foldlM_cons, hu]
    exact ht

theorem addOwned_succeeds {owned : JsMap JsString WorkspaceSnapshotRefV1}
    {snapshot : WorkspaceSnapshotRefV1} (howned : OwnsGenuine readSnapshot owned)
    (hsnapshot : Genuine readSnapshot identity snapshot) :
    ∃ owned', addOwned identity owned snapshot = some owned' ∧
      OwnsGenuine readSnapshot owned' := by
  have hset : isOfStore identity snapshot = true →
      OwnsGenuine readSnapshot (owned.set snapshot.id snapshot) := by
    intro hof id found hfound
    rw [JsMap.get_set] at hfound
    split at hfound
    case isTrue hid =>
      obtain rfl := Option.some.inj hfound
      rw [hid]
      exact hsnapshot hof
    case isFalse _ => exact howned id found hfound
  unfold addOwned
  cases hof : isOfStore identity snapshot with
  | false => exact ⟨owned, by simp, howned⟩
  | true =>
    refine ⟨owned.set snapshot.id snapshot, ?_, hset hof⟩
    cases hexisting : owned.get snapshot.id with
    | none => simp
    | some existing =>
      have hsame : existing = snapshot := by
        have hread := howned _ _ hexisting
        rw [hsnapshot hof] at hread
        exact (Option.some.inj hread).symm
      simp [hsame]

theorem addAllOwned_succeeds {owned : JsMap JsString WorkspaceSnapshotRefV1}
    {snapshots : List WorkspaceSnapshotRefV1} (howned : OwnsGenuine readSnapshot owned)
    (hsnapshots : ∀ snapshot ∈ snapshots, Genuine readSnapshot identity snapshot) :
    ∃ owned', snapshots.foldlM (addOwned identity) owned = some owned' ∧
      OwnsGenuine readSnapshot owned' :=
  foldlM_succeeds (OwnsGenuine readSnapshot)
    (fun _ snapshot hmem hs => addOwned_succeeds hs (hsnapshots snapshot hmem)) howned

theorem ownsGenuine_of_sessions {sessions : List SessionSource}
    {owned : JsMap JsString WorkspaceSnapshotRefV1}
    (hnames : ∀ session ∈ sessions, ∀ entry ∈ session.entries, ∀ snapshots,
      entrySnapshots entry = some snapshots →
      ∀ snapshot ∈ snapshots, Genuine readSnapshot identity snapshot)
    (h : sessions.foldlM (collectSession identity) JsMap.empty = some owned) :
    OwnsGenuine readSnapshot owned := by
  refine foldlM_keeps (OwnsGenuine readSnapshot) (l := sessions) ?_ ?_ h
  · intro before session after hsession hbefore hstep
    unfold collectSession at hstep
    split at hstep
    case isFalse _ => cases hstep
    case isTrue _ =>
      refine foldlM_keeps (OwnsGenuine readSnapshot) (l := session.entries) ?_ hbefore hstep
      intro m entry m' hentry hm hadd
      obtain ⟨snapshots, hsnapshots, hadd⟩ := Option.bind_eq_some_iff.mp hadd
      obtain ⟨owned', howned', hgenuine⟩ :=
        addAllOwned_succeeds hm (hnames session hsession entry hentry snapshots hsnapshots)
      obtain rfl := Option.some.inj (howned'.symm.trans hadd)
      exact hgenuine
  · intro id snapshot hsnapshot
    cases hsnapshot

/-- What else the owners are collected from can be read, and names snapshots by their
commits. -/
structure OthersReadable (store : Store) (sources : OwnerSources) : Prop where
  /-- Without pending boundaries the collection succeeds. -/
  succeeds : (scanOwners store.digest store.identity { sources with pending := some [] }).isSome
  /-- The snapshots it names are those of their commits. -/
  genuine : ∀ snapshot, NamesSnapshot { sources with pending := some [] } snapshot →
    Genuine store.readSnapshot store.identity snapshot

/-- **With records that were anchored, the owners can be collected.** -/
theorem scanOwners_of_anchored {store : Store} {sources : OwnerSources}
    (hothers : OthersReadable store sources) {records : List PendingWorkspaceBoundaryV1}
    (hrecords : ∀ record ∈ records, ∃ name, Anchored store record name) :
    (scanOwners store.digest store.identity { sources with pending := some records }).isSome := by
  obtain ⟨owners, howners⟩ := Option.isSome_iff_exists.mp hothers.succeeds
  obtain ⟨sessions, owned, _, collected, restored, hsessions, howned, hnone, hcollected,
    hrestored, hhead, -⟩ := scanOwners_eq_some store.digest store.identity howners
  have hgenuine := hothers.genuine
  -- the sessions
  have hscanned : ∀ session ∈ sessions, session ∈ sources.sessionsRoot.sessions := by
    intro session hsession
    cases hroot : sources.sessionsRoot <;>
      simp_all [scanAllMetadata, SessionsRoot.sessions]
  have hownsSessions : OwnsGenuine store.readSnapshot owned :=
    ownsGenuine_of_sessions
      (fun session hsession entry hentry snapshots hsnapshots snapshot hmem =>
        hgenuine snapshot (.entry (hscanned session hsession) hentry hsnapshots hmem)) howned
  -- the pending boundaries
  obtain ⟨pending, hpending, hownsPending⟩ := foldlM_succeeds
    (fun collected => OwnsGenuine store.readSnapshot collected.1)
    (f := collectPending store.digest store.identity) (l := records)
    (fun collected record hmem hcollected => by
      obtain ⟨name, hanchored⟩ := hrecords record hmem
      have hsnapshots : ∀ snapshot ∈ pendingSnapshots record,
          Genuine store.readSnapshot store.identity snapshot :=
        fun snapshot hsnapshot _ => hanchored.readSnapshot hsnapshot
      obtain ⟨owned', howned', hkeep⟩ := addAllOwned_succeeds hcollected hsnapshots
      refine ⟨(owned', collected.2 ++ [name]), ?_, hkeep⟩
      have hidentity := hanchored.identity
      rw [System.assertIdentity] at hidentity
      simp [collectPending, hidentity, howned', hanchored.refName])
    (s := (owned, ([] : List JsString))) hownsSessions
  -- the restore that was not completed
  obtain ⟨restored', hrestored', hownsRestored⟩ : ∃ restored',
      collectRestore store.identity sources pending.1 = some restored' ∧
        OwnsGenuine store.readSnapshot restored' := by
    unfold collectRestore at hrestored ⊢
    cases hrestore : sources.activeRestore with
    | failed | corrupt => simp [hrestore] at hrestored
    | none => exact ⟨pending.1, rfl, hownsPending⟩
    | valid record =>
      simp only [hrestore] at hrestored ⊢
      split at hrestored
      case isFalse _ => cases hrestored
      case isTrue hidentity =>
        obtain ⟨snapshots, hsnapshots, -⟩ := Option.bind_eq_some_iff.mp hrestored
        obtain ⟨owned', howned', hkeep⟩ := addAllOwned_succeeds hownsPending
          fun snapshot hmem => hgenuine snapshot (.restore hrestore hsnapshots hmem)
        refine ⟨owned', ?_, hkeep⟩
        rw [if_pos hidentity, Option.bind_eq_bind, Option.bind_eq_some_iff]
        exact ⟨snapshots, hsnapshots, howned'⟩
  -- the head of the workspace
  obtain ⟨snapshots, hsnapshots⟩ : ∃ snapshots,
      collectHead store.identity sources restored' = some snapshots := by
    unfold collectHead at hhead ⊢
    cases hcommit : sources.head with
    | none => simp [hcommit] at hhead
    | some head =>
      cases head with
      | none => exact ⟨restored', rfl⟩
      | some commit =>
        simp only [hcommit, Option.bind_eq_bind, Option.bind_some] at hhead ⊢
        obtain ⟨snapshot, hsnapshot, -⟩ := Option.bind_eq_some_iff.mp hhead
        obtain ⟨owned', howned', -⟩ := addOwned_succeeds hownsRestored
          (hgenuine snapshot (.head hcommit hsnapshot))
        exact ⟨owned', Option.bind_eq_some_iff.mpr ⟨snapshot, hsnapshot, howned'⟩⟩
  unfold scanOwners
  have hrestored'' : collectRestore store.identity { sources with pending := some records }
      pending.1 = some restored' := hrestored'
  have hsnapshots' : collectHead store.identity { sources with pending := some records }
      restored' = some snapshots := hsnapshots
  simp only [hsessions, howned, hpending, hrestored'', hsnapshots', Option.bind_eq_bind,
    Option.bind_some, Option.isSome_some]

end Owners

end PendingBoundaryStore

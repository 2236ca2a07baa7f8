import Crest.PendingBoundaryStore

/-!
# The invariant of the pending boundaries

Every name of the pending directory is that of a boundary or a temporary one.  A boundary has
no file, or its file holds a record that passed `anchorPending`, and the ref of the record is
gone or holds a record at least as advanced.  So the file of a boundary can always be read.
A step of an operation touches what belongs to its own boundary, and temporary files.
-/

namespace PendingBoundaryStore

open Workspace

section Names

theorem fileName_inj {t t' : JsString} : fileName t = fileName t' ↔ t = t' := by
  simp [fileName]

theorem temporaryName_ne_fileName (hex t : JsString) : temporaryName hex ≠ fileName t := by
  intro h
  have hlast := congrArg List.getLast? h
  rw [temporaryName, fileName, List.getLast?_append_of_ne_nil _ (by decide),
    List.getLast?_append_of_ne_nil _ (by decide)] at hlast
  exact absurd hlast (by decide)

theorem isRecordName_fileName {t : JsString} (h : matchesTokenPattern t = true) :
    isRecordName (fileName t) = true := by
  have hextension : (js ".json").length = 5 := by decide
  have hlength : (fileName t).length - 5 = t.length := by
    rw [fileName, List.length_append, hextension, Nat.add_sub_cancel]
  have hsuffix : (js ".json").isSuffixOf (fileName t) = true :=
    List.isSuffixOf_iff_suffix.mpr (List.suffix_append t _)
  rw [isRecordName, hlength, hsuffix, fileName, List.take_left, h]
  rfl

theorem isRecordName_temporaryName (hex : JsString) :
    isRecordName (temporaryName hex) = false := by
  have hsuffix : (js ".json").isSuffixOf (temporaryName hex) = false := by
    by_contra h
    rw [Bool.not_eq_false] at h
    obtain ⟨front, hfront⟩ := List.isSuffixOf_iff_suffix.mp h
    exact temporaryName_ne_fileName hex front hfront.symm
  rw [isRecordName, hsuffix, Bool.false_and]

theorem slash_not_mem {t : JsString} (h : matchesTokenPattern t = true) : 0x2F ∉ t := by
  cases t with
  | nil => simp
  | cons u rest =>
    simp only [matchesTokenPattern, Bool.and_eq_true, List.all_eq_true] at h
    intro hmem
    rcases List.mem_cons.mp hmem with rfl | hrest
    · exact absurd h.1.1 (by decide)
    · exact absurd (h.2 _ hrest) (by decide)

theorem eq_of_append_slash {a b t t' : JsString} (ht : 0x2F ∉ t) (ht' : 0x2F ∉ t')
    (h : a ++ 0x2F :: t = b ++ 0x2F :: t') :
    t = t' := by
  rcases List.append_eq_append_iff.mp h with ⟨c, hc, hrest⟩ | ⟨c, hc, hrest⟩
  · cases c with
    | nil => simpa using hrest
    | cons u c =>
      exfalso
      obtain ⟨-, rfl⟩ := List.cons.inj hrest
      simp at ht
  · cases c with
    | nil => simpa using hrest.symm
    | cons u c =>
      exfalso
      obtain ⟨-, rfl⟩ := List.cons.inj hrest
      simp at ht'

theorem token_of_pendingRefName {digest : Digest} {r r' : PendingWorkspaceBoundaryV1}
    {name : JsString} (h : pendingRefName digest r = some name)
    (h' : pendingRefName digest r' = some name) :
    r.boundaryToken = r'.boundaryToken := by
  unfold pendingRefName at h h'
  split at h
  case isFalse _ => cases h
  case isTrue hr =>
    split at h'
    case isFalse _ => cases h'
    case isTrue hr' =>
      rw [isRefToken, Bool.and_eq_true] at hr hr'
      have hname := (Option.some.inj h).trans (Option.some.inj h').symm
      exact eq_of_append_slash (slash_not_mem hr.1) (slash_not_mem hr'.1)
        (by simpa [js, utf16Units] using hname)

theorem pendingRefName_of_successor {digest : Digest} {r r' : PendingWorkspaceBoundaryV1}
    (h : CheckpointManager.isPendingSuccessor r r' = true) :
    pendingRefName digest r' = pendingRefName digest r := by
  have hbase := (CheckpointManager.isPendingSuccessor_iff.mp h).1
  have htoken : r.boundaryToken = r'.boundaryToken := congrArg (·.boundaryToken) hbase
  have hsession : r.sessionId = r'.sessionId := congrArg (·.sessionId) hbase
  rw [pendingRefName, pendingRefName, htoken, hsession]

end Names

variable (store : Store)

/-- A record that passes the checks of `anchorPending`, which stores it under a name. -/
structure Anchored (record : PendingWorkspaceBoundaryV1) (name : JsString) : Prop where
  /-- It is of the workspace of the store. -/
  identity : System.assertIdentity store record = true
  /-- The name of its ref. -/
  anchor : System.anchorName store record = some name

namespace Anchored

variable {store} {record : PendingWorkspaceBoundaryV1} {name : JsString}

variable (h : Anchored store record name)
include h

theorem validate : validatePendingRecord record = true := by
  have hanchor := h.anchor
  unfold System.anchorName at hanchor
  split at hanchor
  case isTrue hchecks => exact (Bool.and_eq_true_iff.mp hchecks).1
  case isFalse _ => cases hanchor

theorem refName :
    pendingRefName store.digest record = some name := by
  have hanchor := h.anchor
  unfold System.anchorName at hanchor
  split at hanchor
  case isTrue hchecks => exact Option.eq_some_of_filter_eq_some hanchor
  case isFalse _ => cases hanchor

theorem readSnapshot {snapshot : WorkspaceSnapshotRefV1}
    (hmem : snapshot ∈ pendingSnapshots record) :
    store.readSnapshot snapshot.id = some snapshot := by
  have hanchor := h.anchor
  unfold System.anchorName at hanchor
  split at hanchor
  case isTrue hchecks =>
    have hall := List.all_eq_true.mp (Bool.and_eq_true_iff.mp hchecks).2 snapshot hmem
    rw [System.verifySnapshot, Bool.and_eq_true, decide_eq_true_eq] at hall
    exact hall.2
  case isFalse _ => cases hanchor

theorem decode :
    decodePendingWorkspaceBoundaryV1 (encodeDurableJson record) = some record :=
  decode_of_validate h.validate

theorem token :
    matchesTokenPattern record.boundaryToken = true :=
  token_of_validate h.validate

end Anchored

/-- The file of its boundary holds the record. -/
def Filed (disk : Disk) (record : PendingWorkspaceBoundaryV1) : Prop :=
  disk.files.get (fileName record.boundaryToken) = some (.whole (encodeDurableJson record))

/-- The boundary has no file. -/
def NoFile (disk : Disk) (t : JsString) : Prop := disk.files.get (fileName t) = none

/-- The record that is found for a boundary: the one of its ref, if there is one, else the
one of its file. -/
inductive Found (disk : Disk) (t : JsString) : PendingWorkspaceBoundaryV1 → Prop
  /-- There is no ref. -/
  | file {record : PendingWorkspaceBoundaryV1} {name : JsString}
      (htoken : record.boundaryToken = t)
      (hanchored : Anchored store record name)
      (hfile : Filed disk record)
      (href : disk.refs.get name = none) : Found disk t record
  /-- There is one. -/
  | ref {filed record : PendingWorkspaceBoundaryV1} {name : JsString}
      (htoken : filed.boundaryToken = t)
      (hfiled : Anchored store filed name)
      (hanchored : Anchored store record name)
      (hfile : Filed disk filed)
      (href : disk.refs.get name = some (encodeDurableJson record))
      (hsuccessor : CheckpointManager.isPendingSuccessor filed record = true) :
      Found disk t record

/-- A boundary has no file, or a record is found for it. -/
def Readable (disk : Disk) (t : JsString) : Prop :=
  NoFile disk t ∨ ∃ record, Found store disk t record

/-- The ref of a boundary holds the record, and the boundary has no file, or a record before
that one is in it. -/
inductive Ahead (disk : Disk) (t : JsString) (record : PendingWorkspaceBoundaryV1) : Prop
  /-- There is no file yet. -/
  | opening {name : JsString}
      (htoken : record.boundaryToken = t)
      (hanchored : Anchored store record name)
      (href : disk.refs.get name = some (encodeDurableJson record))
      (hfile : NoFile disk t) : Ahead disk t record
  /-- There is one. -/
  | following {filed : PendingWorkspaceBoundaryV1} {name : JsString}
      (htoken : filed.boundaryToken = t)
      (hfiled : Anchored store filed name)
      (hanchored : Anchored store record name)
      (hfile : Filed disk filed)
      (href : disk.refs.get name = some (encodeDurableJson record))
      (hsuccessor : CheckpointManager.isPendingSuccessor filed record = true) :
      Ahead disk t record

section Reading

variable {store} {disk : Disk} {t : JsString} {record : PendingWorkspaceBoundaryV1}

theorem token_of_successor {r r' : PendingWorkspaceBoundaryV1}
    (h : CheckpointManager.isPendingSuccessor r r' = true) :
    r'.boundaryToken = r.boundaryToken :=
  (congrArg (·.boundaryToken) (CheckpointManager.isPendingSuccessor_iff.mp h).1).symm

section

variable (h : Found store disk t record)
include h

theorem Found.token : record.boundaryToken = t := by
  cases h with
  | file htoken _ _ _ => exact htoken
  | ref htoken _ _ _ _ hsuccessor => rw [token_of_successor hsuccessor, htoken]

theorem Found.anchored : ∃ name, Anchored store record name := by
  cases h with
  | file _ hanchored _ _ | ref _ _ hanchored _ _ _ => exact ⟨_, hanchored⟩

theorem Found.filed :
    ∃ filed name, filed.boundaryToken = t ∧ Anchored store filed name ∧ Filed disk filed ∧
      CheckpointManager.isPendingSuccessor filed record = true := by
  cases h with
  | file htoken hanchored hfile _ =>
    exact ⟨record, _, htoken, hanchored, hfile, CheckpointManager.isPendingSuccessor_refl _⟩
  | ref htoken hfiled _ hfile _ hsuccessor => exact ⟨_, _, htoken, hfiled, hfile, hsuccessor⟩

end

theorem readFile_of_filed {name : JsString} (h : Anchored store record name)
    (hfile : Filed disk record) :
    readFile disk (fileName record.boundaryToken) = some record := by
  rw [Filed] at hfile
  rw [readFile, hfile]
  exact h.decode

section

variable (h : Found store disk t record)
include h

theorem resolve_of_found :
    ∃ filed, filed.boundaryToken = t ∧ readFile disk (fileName t) = some filed ∧
      matchesTokenPattern t = true ∧ resolvePendingRefRecord store disk filed = some record := by
  cases h with
  | file htoken hanchored hfile href =>
    refine ⟨record, htoken, htoken ▸ readFile_of_filed hanchored hfile,
      htoken ▸ hanchored.token, ?_⟩
    rw [resolvePendingRefRecord, hanchored.refName]
    simp [href]
  | @ref filed _ name htoken hfiled hanchored hfile href hsuccessor =>
    refine ⟨filed, htoken, htoken ▸ readFile_of_filed hfiled hfile,
      htoken ▸ hfiled.token, ?_⟩
    rw [resolvePendingRefRecord, hfiled.refName]
    simp [href, hanchored.decode, hanchored.refName, hsuccessor]

/-- **The scan accepts the file of a boundary for which a record is found.** -/
theorem scanName_of_found :
    scanName store disk (fileName t) = some record := by
  obtain ⟨filed, htoken, hread, hpattern, hresolve⟩ := resolve_of_found h
  rw [scanName, isRecordName_fileName hpattern, hread]
  simp [htoken, hresolve]

theorem read_of_found :
    read store disk t = some record := by
  obtain ⟨filed, -, hread, hpattern, hresolve⟩ := resolve_of_found h
  rw [read, hpattern, hread]
  simp [hresolve]

end

theorem found_of_read (hreadable : Readable store disk t) (h : read store disk t = some record) :
    Found store disk t record := by
  rcases hreadable with hnone | ⟨found, hfound⟩
  · rw [NoFile] at hnone
    rw [read] at h
    simp [readFile, hnone] at h
  · obtain rfl := Option.some.inj ((read_of_found hfound).symm.trans h)
    exact hfound

theorem Ahead.readable (h : Ahead store disk t record) : Readable store disk t := by
  cases h with
  | opening _ _ _ hfile => exact Or.inl hfile
  | following htoken hfiled hanchored hfile href hsuccessor =>
    exact Or.inr ⟨record, .ref htoken hfiled hanchored hfile href hsuccessor⟩

theorem Ahead.token (h : Ahead store disk t record) : record.boundaryToken = t := by
  cases h with
  | opening htoken _ _ _ => exact htoken
  | following htoken _ _ _ _ hsuccessor => rw [token_of_successor hsuccessor, htoken]

end Reading

section Invariant

/-- What an operation has reached before a stage. -/
def StageOk (s : System) (t : JsString) : Stage → Prop
  | .starting operation => operation.boundaryToken = t
  | .anchoring true record =>
    record.boundaryToken = t ∧ System.assertIdentity store record = true ∧ NoFile s.disk t
  | .anchoring false record =>
    System.assertIdentity store record = true ∧
      ∃ current, Found store s.disk t current ∧
        CheckpointManager.isPendingSuccessor current record = true
  | .creating true record => Ahead store s.disk t record ∧ NoFile s.disk t
  | .creating false record => Ahead store s.disk t record
  | .writing record temporary | .syncing record temporary | .moving record temporary =>
    Ahead store s.disk t record ∧ ∃ hex, temporary = temporaryName hex
  | .syncingDirectory record =>
    record.boundaryToken = t ∧ Filed s.disk record ∧ ∃ name, Anchored store record name
  | .undoing record => record.boundaryToken = t ∧ NoFile s.disk t
  | .removingRef record => Found store s.disk t record
  | .removingFile record => record.boundaryToken = t ∧ s.completed.get t = none
  | .syncingRemoval _ => True

/-- The file of a boundary has what the last transition that completed wrote, or more. -/
def CompletedOk (s : System) (t : JsString) : Prop :=
  ∀ record, s.completed.get t = some record →
    ∃ filed name, filed.boundaryToken = t ∧ Anchored store filed name ∧ Filed s.disk filed ∧
      CheckpointManager.isPendingSuccessor record filed = true

/-- What holds of a boundary. -/
structure Boundary (s : System) (t : JsString) : Prop where
  readable : Readable store s.disk t
  /-- Its operation has reached its stage. -/
  stage : ∀ stage, s.running.get t = some stage → StageOk store s t stage
  /-- Its file has what completed transitions wrote. -/
  completed : CompletedOk store s t

/-- The names of the directory. -/
def NamesOk (disk : Disk) : Prop :=
  ∀ name file, disk.files.get name = some file →
    (∃ t, name = fileName t) ∨ ∃ hex, name = temporaryName hex

/-- **The invariant.** -/
structure Invariant (s : System) : Prop where
  /-- Of every boundary. -/
  boundary : ∀ t, Boundary store s t
  names : NamesOk s.disk

/-- Two disks have the same file and the same refs for a boundary. -/
structure SameFor (disk disk' : Disk) (t : JsString) : Prop where
  /-- The file. -/
  file : disk'.files.get (fileName t) = disk.files.get (fileName t)
  /-- The refs. -/
  ref : ∀ (record : PendingWorkspaceBoundaryV1) (name : JsString),
    record.boundaryToken = t → pendingRefName store.digest record = some name →
    disk'.refs.get name = disk.refs.get name

section Frame

variable {store} {disk disk' : Disk} {t : JsString} {record : PendingWorkspaceBoundaryV1}

theorem SameFor.refl : SameFor store disk disk t := ⟨rfl, fun _ _ _ _ => rfl⟩

section

variable (h : SameFor store disk disk' t)
include h

theorem SameFor.noFile (hfile : NoFile disk t) :
    NoFile disk' t := by
  rw [NoFile, h.file]
  exact hfile

theorem SameFor.filed (htoken : record.boundaryToken = t) (hfile : Filed disk record) :
    Filed disk' record := by
  subst htoken
  rw [Filed, h.file]
  exact hfile

theorem SameFor.found (hfound : Found store disk t record) :
    Found store disk' t record := by
  cases hfound with
  | file htoken hanchored hfile href =>
    refine .file htoken hanchored (h.filed htoken hfile) ?_
    rw [h.ref _ _ htoken hanchored.refName, href]
  | ref htoken hfiled hanchored hfile href hsuccessor =>
    refine .ref htoken hfiled hanchored (h.filed htoken hfile) ?_ hsuccessor
    rw [h.ref _ _ htoken hfiled.refName, href]

theorem SameFor.readable (hreadable : Readable store disk t) :
    Readable store disk' t := by
  rcases hreadable with hfile | ⟨found, hfound⟩
  · exact Or.inl (h.noFile hfile)
  · exact Or.inr ⟨found, h.found hfound⟩

theorem SameFor.ahead (hahead : Ahead store disk t record) :
    Ahead store disk' t record := by
  cases hahead with
  | opening htoken hanchored href hfile =>
    refine .opening htoken hanchored ?_ (h.noFile hfile)
    rw [h.ref _ _ htoken hanchored.refName, href]
  | following htoken hfiled hanchored hfile href hsuccessor =>
    refine .following htoken hfiled hanchored (h.filed htoken hfile) ?_ hsuccessor
    rw [h.ref _ _ htoken hfiled.refName, href]

end

theorem SameFor.stageOk {s s' : System} (h : SameFor store s.disk s'.disk t)
    (hcompleted : s'.completed.get t = s.completed.get t) {stage : Stage}
    (hstage : StageOk store s t stage) :
    StageOk store s' t stage := by
  cases stage with
  | starting _ => exact hstage
  | anchoring opening record =>
    cases opening with
    | true => exact ⟨hstage.1, hstage.2.1, h.noFile hstage.2.2⟩
    | false =>
      obtain ⟨hidentity, current, hfound, hsuccessor⟩ := hstage
      exact ⟨hidentity, current, h.found hfound, hsuccessor⟩
  | creating opening record =>
    cases opening with
    | true => exact ⟨h.ahead hstage.1, h.noFile hstage.2⟩
    | false => exact h.ahead hstage
  | writing _ _ | syncing _ _ | moving _ _ => exact ⟨h.ahead hstage.1, hstage.2⟩
  | syncingDirectory _ => exact ⟨hstage.1, h.filed hstage.1 hstage.2.1, hstage.2.2⟩
  | undoing _ => exact ⟨hstage.1, h.noFile hstage.2⟩
  | removingRef _ => exact h.found hstage
  | removingFile _ => exact ⟨hstage.1, hcompleted.trans hstage.2⟩
  | syncingRemoval _ => trivial

/-- Nothing of a boundary has changed. -/
structure Untouched (s s' : System) (t : JsString) : Prop where
  disk : SameFor store s.disk s'.disk t
  running : s'.running.get t = s.running.get t
  completed : s'.completed.get t = s.completed.get t

theorem Boundary.untouched {s s' : System} (h : Boundary store s t)
    (hsame : @Untouched store s s' t) :
    Boundary store s' t := by
  refine ⟨hsame.disk.readable h.readable, ?_, ?_⟩
  · intro stage hstage
    rw [hsame.running] at hstage
    exact hsame.disk.stageOk hsame.completed (h.stage stage hstage)
  · intro record hrecord
    rw [hsame.completed] at hrecord
    obtain ⟨filed, name, htoken, hanchored, hfile, hsuccessor⟩ := h.completed record hrecord
    exact ⟨filed, name, htoken, hanchored, hsame.disk.filed htoken hfile, hsuccessor⟩

end Frame

end Invariant

end PendingBoundaryStore

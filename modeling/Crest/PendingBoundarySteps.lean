import Crest.PendingBoundaryInvariant

/-!
# Steps keep the pending boundaries readable

A step of an operation is looked at twice: what it does to its own boundary, stage by stage,
and that it leaves every other boundary alone.  A crash only ends the operation, so nothing
that can happen breaks the invariant.
-/

namespace PendingBoundaryStore

open Workspace

variable {store : Store} {s : System} {t : JsString}

section Changes

theorem sameFor_putTemporary (hex : JsString) (file : PendingFile) :
    SameFor store s.disk (s.putFile (temporaryName hex) file).disk t := by
  refine ⟨?_, fun _ _ _ _ => rfl⟩
  simp only [System.putFile, JsMap.get_set, (temporaryName_ne_fileName hex t).symm, if_false]

theorem sameFor_removeTemporary (hex : JsString) :
    SameFor store s.disk (s.removeFile (temporaryName hex)).disk t := by
  refine ⟨?_, fun _ _ _ _ => rfl⟩
  simp only [System.removeFile, JsMap.get_delete, (temporaryName_ne_fileName hex t).symm,
    if_false]

theorem sameFor_putFile {t' : JsString} (hne : t ≠ t') (file : PendingFile) :
    SameFor store s.disk (s.putFile (fileName t') file).disk t := by
  refine ⟨?_, fun _ _ _ _ => rfl⟩
  simp only [System.putFile, JsMap.get_set, fileName_inj, hne, if_false]

theorem sameFor_removeFile {t' : JsString} (hne : t ≠ t') :
    SameFor store s.disk (s.removeFile (fileName t')).disk t := by
  refine ⟨?_, fun _ _ _ _ => rfl⟩
  simp only [System.removeFile, JsMap.get_delete, fileName_inj, hne, if_false]

variable {record : PendingWorkspaceBoundaryV1}

theorem sameFor_putRef {name : JsString} (hne : t ≠ record.boundaryToken)
    (hname : pendingRefName store.digest record = some name) (descriptor : Json) :
    SameFor store s.disk (s.putRef name descriptor).disk t := by
  refine ⟨rfl, fun other otherName htoken hother => ?_⟩
  have hnames : otherName ≠ name := by
    intro h
    subst h
    exact hne (htoken.symm.trans (token_of_pendingRefName hother hname))
  simp only [System.putRef, JsMap.get_set, hnames, if_false]

theorem sameFor_deleteRef (hne : t ≠ record.boundaryToken) :
    SameFor store s.disk (s.deleteRef store record).disk t := by
  unfold System.deleteRef
  cases hname : pendingRefName store.digest record with
  | none => exact .refl
  | some name =>
    refine ⟨rfl, fun other otherName htoken hother => ?_⟩
    have hnames : otherName ≠ name := by
      intro h
      subst h
      exact hne (htoken.symm.trans (token_of_pendingRefName hother hname))
    simp only [JsMap.get_delete, hnames, if_false]

theorem SameFor.trans {disk disk' disk'' : Disk} (h : SameFor store disk disk' t)
    (h' : SameFor store disk' disk'' t) :
    SameFor store disk disk'' t :=
  ⟨h'.file.trans h.file, fun record name htoken hname =>
    (h'.ref record name htoken hname).trans (h.ref record name htoken hname)⟩

@[simp] theorem deleteRef_running (record : PendingWorkspaceBoundaryV1) :
    (s.deleteRef store record).running = s.running := by
  unfold System.deleteRef
  split <;> rfl

@[simp] theorem deleteRef_completed (record : PendingWorkspaceBoundaryV1) :
    (s.deleteRef store record).completed = s.completed := by
  unfold System.deleteRef
  split <;> rfl

@[simp] theorem deleteRef_files (record : PendingWorkspaceBoundaryV1) :
    (s.deleteRef store record).disk.files = s.disk.files := by
  unfold System.deleteRef
  split <;> rfl

end Changes

section Own

theorem Boundary.finish (h : Boundary store s t) : Boundary store (s.finish t) t := by
  refine ⟨h.readable, ?_, h.completed⟩
  intro stage hstage
  simp [System.finish] at hstage

variable {stage : Stage}

theorem boundary_goOn (hreadable : Readable store s.disk t)
    (hcompleted : CompletedOk store s t) (hstage : StageOk store s t stage) :
    Boundary store (s.goOn t stage) t := by
  refine ⟨hreadable, ?_, hcompleted⟩
  intro stage' hstage'
  simp only [System.goOn, JsMap.get_set, if_true, Option.some.injEq] at hstage'
  subst hstage'
  exact SameFor.stageOk .refl rfl hstage

theorem Boundary.goOn (h : Boundary store s t) (hstage : StageOk store s t stage) :
    Boundary store (s.goOn t stage) t :=
  boundary_goOn h.readable h.completed hstage

variable {record : PendingWorkspaceBoundaryV1}

theorem Boundary.persist (h : Boundary store s t) {current : PendingWorkspaceBoundaryV1}
    (hfound : Found store s.disk t current)
    (hsuccessor : CheckpointManager.isPendingSuccessor current record = true) :
    Boundary store (s.persist store t record) t := by
  unfold System.persist
  split
  case isTrue hchecks =>
    exact h.goOn ⟨(Bool.and_eq_true_iff.mp hchecks).2, current, hfound, hsuccessor⟩
  case isFalse _ => exact h.finish

theorem successor_bind (hid : record.userEntryId = none) (hafter : record.after = none)
    (userEntryId : JsString) :
    CheckpointManager.isPendingSuccessor record
      { record with userEntryId := some userEntryId } = true := by
  rw [CheckpointManager.isPendingSuccessor_iff]
  refine ⟨rfl, fun id h => ?_, fun ref h => ?_⟩
  · rw [hid] at h
    cases h
  · rw [hafter] at h
    cases h

theorem successor_recordAfter (hafter : record.after = none) (after : WorkspaceSnapshotRefV1) :
    CheckpointManager.isPendingSuccessor record { record with after := some after } = true := by
  rw [CheckpointManager.isPendingSuccessor_iff]
  refine ⟨rfl, fun id h => h, fun ref h => ?_⟩
  rw [hafter] at h
  cases h

theorem Boundary.unless (h : Boundary store s t) {refused : Bool} {next : System}
    (hnext : refused = false → Boundary store next t) :
    Boundary store (if refused = true then s.finish t else next) t := by
  cases refused with
  | true => exact h.finish
  | false => exact hnext rfl

theorem Boundary.reading (h : Boundary store s t) {next : PendingWorkspaceBoundaryV1 → System}
    (hnext : ∀ record, Found store s.disk t record → Boundary store (next record) t) :
    Boundary store
      (match read store s.disk t with
        | none => s.finish t
        | some record => next record) t := by
  cases hread : read store s.disk t with
  | none => exact h.finish
  | some record => exact hnext record (found_of_read h.readable hread)

theorem Boundary.start (h : Boundary store s t) {operation : Operation}
    (htoken : operation.boundaryToken = t) :
    Boundary store (s.start store operation) t := by
  subst htoken
  cases operation with
  | begin record =>
    unfold System.start
    by_cases hchecks : (validatePendingRecord record && System.assertIdentity store record &&
        (s.disk.files.get (fileName record.boundaryToken)).isNone) = true
    · simp only [Operation.boundaryToken, hchecks, if_true]
      simp only [Bool.and_eq_true, Option.isNone_iff_eq_none] at hchecks
      exact h.goOn ⟨rfl, hchecks.1.2, hchecks.2⟩
    · simp only [Operation.boundaryToken, hchecks]
      exact h.finish
  | bind boundaryToken userEntryId =>
    refine h.reading fun record hfound => h.unless fun hunbound => ?_
    simp only [Bool.or_eq_false_iff, Option.isSome_eq_false_iff,
      Option.isNone_iff_eq_none] at hunbound
    exact h.persist hfound (successor_bind hunbound.1.1 hunbound.1.2 userEntryId)
  | recordAfter boundaryToken after =>
    refine h.reading fun record hfound => h.unless fun hunbound => ?_
    simp only [Bool.or_eq_false_iff, Option.isSome_eq_false_iff,
      Option.isNone_iff_eq_none] at hunbound
    exact h.persist hfound (successor_recordAfter hunbound.2 after)
  | complete _ | retireUnavailable _ | retireUnbound _ _ | retireRecoveredUnbound _ _ =>
    exact h.reading fun record hfound => h.unless fun _ => h.goOn hfound

theorem filed_unique {disk : Disk} {r r' : PendingWorkspaceBoundaryV1}
    {name name' : JsString} (hr : Anchored store r name) (hr' : Anchored store r' name')
    (htoken : r.boundaryToken = r'.boundaryToken) (hfile : Filed disk r)
    (hfile' : Filed disk r') :
    r = r' := by
  rw [Filed] at hfile hfile'
  rw [htoken, hfile'] at hfile
  have hvalue : encodeDurableJson r' = encodeDurableJson r := by simpa using hfile
  have hdecode := hr.decode
  rw [← hvalue, hr'.decode] at hdecode
  exact (Option.some.inj hdecode).symm

theorem completed_of_noFile (h : CompletedOk store s t) (hfile : NoFile s.disk t) :
    s.completed.get t = none := by
  cases hrecord : s.completed.get t with
  | none => rfl
  | some record =>
    obtain ⟨filed, _, htoken, _, hfiled, _⟩ := h record hrecord
    rw [Filed, htoken, hfile] at hfiled
    cases hfiled

theorem completedOk_of_none (h : s.completed.get t = none) : CompletedOk store s t := by
  intro record hrecord
  rw [h] at hrecord
  cases hrecord

variable {opening : Bool}

theorem ahead_of_anchor {name : JsString} (hstage : StageOk store s t (.anchoring opening record))
    (hanchor : System.anchorName store record = some name) :
    Anchored store record name ∧
      Ahead store (s.putRef name (encodeDurableJson record)).disk t record := by
  cases opening with
  | true =>
    obtain ⟨htoken, hidentity, hfile⟩ := hstage
    exact ⟨⟨hidentity, hanchor⟩, .opening htoken ⟨hidentity, hanchor⟩
      (by simp [System.putRef]) hfile⟩
  | false =>
    obtain ⟨hidentity, current, hfound, hsuccessor⟩ := hstage
    obtain ⟨filed, filedName, htoken, hfiled, hfile, hbefore⟩ := hfound.filed
    have hanchored : Anchored store record name := ⟨hidentity, hanchor⟩
    have hafter := CheckpointManager.isPendingSuccessor_trans hbefore hsuccessor
    -- both refs have one name, because one record succeeds the other
    have hname : filedName = name := by
      have hsame : pendingRefName store.digest record = pendingRefName store.digest filed :=
        pendingRefName_of_successor hafter
      rw [hanchored.refName, hfiled.refName] at hsame
      exact (Option.some.inj hsame).symm
    subst hname
    exact ⟨hanchored, .following htoken hfiled hanchored hfile
      (by simp [System.putRef]) hafter⟩

section

variable (h : Boundary store s t)
include h

theorem Boundary.anchor
    (hstage : StageOk store s t (.anchoring opening record)) (random : JsString) :
    Boundary store (s.advance store t random (.anchoring opening record)) t := by
  simp only [System.advance]
  split
  case h_1 _ => exact h.finish
  case h_2 name hanchor =>
    obtain ⟨-, hahead⟩ := ahead_of_anchor hstage hanchor
    refine boundary_goOn hahead.readable h.completed ?_
    cases opening with
    | true => exact ⟨hahead, hstage.2.2⟩
    | false => exact hahead

theorem Boundary.create
    (hstage : StageOk store s t (.creating opening record)) (random : JsString) :
    Boundary store (s.advance store t random (.creating opening record)) t := by
  have hahead : Ahead store s.disk t record := by
    cases opening with
    | true => exact hstage.1
    | false => exact hstage
  simp only [System.advance]
  split
  case isTrue _ =>
    cases opening with
    | true => exact h.goOn ⟨hahead.token, hstage.2⟩
    | false => exact h.finish
  case isFalse _ =>
    have hsame : SameFor store s.disk (s.putFile (temporaryName random) .damaged).disk t :=
      sameFor_putTemporary random .damaged
    have hboundary : Boundary store (s.putFile (temporaryName random) .damaged) t :=
      h.untouched ⟨hsame, rfl, rfl⟩
    exact hboundary.goOn ⟨hsame.ahead hahead, random, rfl⟩

theorem Boundary.write {temporary : JsString}
    (hstage : StageOk store s t (.writing record temporary)) (random : JsString) :
    Boundary store (s.advance store t random (.writing record temporary)) t := by
  obtain ⟨hahead, hex, rfl⟩ := hstage
  let file : PendingFile := .whole (encodeDurableJson record)
  have hsame : SameFor store s.disk (s.putFile (temporaryName hex) file).disk t :=
    sameFor_putTemporary hex file
  have hboundary : Boundary store (s.putFile (temporaryName hex) file) t :=
    h.untouched ⟨hsame, rfl, rfl⟩
  exact hboundary.goOn ⟨hsame.ahead hahead, hex, rfl⟩

theorem Boundary.rename {temporary : JsString}
    (hstage : StageOk store s t (.moving record temporary)) (random : JsString) :
    Boundary store (s.advance store t random (.moving record temporary)) t := by
  obtain ⟨hahead, hex, rfl⟩ := hstage
  have htoken := hahead.token
  let s' := (s.removeFile (temporaryName hex)).putFile (fileName record.boundaryToken)
    (.whole (encodeDurableJson record))
  have hfile : Filed s'.disk record := by simp [Filed, s', System.putFile]
  obtain ⟨name, hanchored, href⟩ : ∃ name, Anchored store record name ∧
      s.disk.refs.get name = some (encodeDurableJson record) := by
    cases hahead with
    | opening _ hanchored href _ | following _ _ hanchored _ href _ => exact ⟨_, hanchored, href⟩
  have hfound : Found store s'.disk t record :=
    .ref htoken hanchored hanchored hfile href (CheckpointManager.isPendingSuccessor_refl record)
  -- what was completed is in the file that the new one replaces
  have hcompleted : CompletedOk store s' t := by
    intro done hdone
    refine ⟨record, name, htoken, hanchored, hfile, ?_⟩
    obtain ⟨filed, filedName, hfiledToken, hfiled, hdisk, hdoneSuccessor⟩ := h.completed done hdone
    cases hahead with
    | opening _ _ _ hnone =>
      rw [Filed, hfiledToken, hnone] at hdisk
      cases hdisk
    | following hotherToken hother _ hotherFile _ hsuccessor =>
      obtain rfl := filed_unique hfiled hother (hfiledToken.trans hotherToken.symm) hdisk
        hotherFile
      exact CheckpointManager.isPendingSuccessor_trans hdoneSuccessor hsuccessor
  exact boundary_goOn (Or.inr ⟨record, hfound⟩) hcompleted ⟨htoken, hfile, name, hanchored⟩

example : temporaryName [] ≠ fileName [] := by decide +kernel

theorem Boundary.complete
    (hstage : StageOk store s t (.syncingDirectory record)) (random : JsString) :
    Boundary store (s.advance store t random (.syncingDirectory record)) t := by
  obtain ⟨htoken, hfile, name, hanchored⟩ := hstage
  refine ⟨h.readable, ?_, ?_⟩
  · intro stage hstage
    simp [System.advance, System.finish] at hstage
  · intro done hdone
    simp only [System.advance, System.finish, JsMap.get_set, if_true, Option.some.injEq] at hdone
    subst hdone
    exact ⟨record, name, htoken, hanchored, hfile,
      CheckpointManager.isPendingSuccessor_refl record⟩

theorem Boundary.undo (hstage : StageOk store s t (.undoing record)) (random : JsString) :
    Boundary store (s.advance store t random (.undoing record)) t := by
  have hnone : NoFile (s.deleteRef store record).disk t := by
    rw [NoFile, deleteRef_files]
    exact hstage.2
  refine ⟨Or.inl hnone, ?_, completedOk_of_none ?_⟩
  · intro stage hrunning
    simp [System.advance, System.finish] at hrunning
  · simpa [System.advance, System.finish] using completed_of_noFile h.completed hstage.2

end

theorem found_of_deleteRef (h : Found store s.disk t record) :
    ∃ filed, Found store (s.deleteRef store record).disk t filed := by
  obtain ⟨filed, name, htoken, hfiled, hfile, hsuccessor⟩ := h.filed
  refine ⟨filed, .file htoken hfiled ?_ ?_⟩
  · rw [Filed, deleteRef_files]
    exact hfile
  · have hname : pendingRefName store.digest record = some name := by
      rw [pendingRefName_of_successor hsuccessor, hfiled.refName]
    simp [System.deleteRef, hname]

theorem Boundary.removeRef (hstage : StageOk store s t (.removingRef record))
    (random : JsString) :
    Boundary store (s.advance store t random (.removingRef record)) t := by
  let s' : System := { s with completed := s.completed.delete t }
  obtain ⟨filed, hfiled⟩ := found_of_deleteRef (s := s') hstage
  have hnone : (s'.deleteRef store record).completed.get t = none := by simp [s']
  have htoken : record.boundaryToken = t := Found.token hstage
  exact boundary_goOn (Or.inr ⟨filed, hfiled⟩) (completedOk_of_none hnone) ⟨htoken, hnone⟩

theorem Boundary.removeFile (hstage : StageOk store s t (.removingFile record))
    (random : JsString) :
    Boundary store (s.advance store t random (.removingFile record)) t := by
  obtain ⟨htoken, hcompleted⟩ := hstage
  have hnone : NoFile (s.removeFile (fileName record.boundaryToken)).disk t := by
    simp [NoFile, System.removeFile, htoken]
  exact boundary_goOn (Or.inl hnone) (completedOk_of_none hcompleted) trivial

/-- **A step of an operation keeps its boundary in order.** -/
theorem Boundary.advance (h : Boundary store s t) (hrunning : s.running.get t = some stage)
    (random : JsString) :
    Boundary store (s.advance store t random stage) t := by
  have hstage := h.stage stage hrunning
  cases stage with
  | starting operation => exact h.start hstage
  | anchoring _ _ => exact h.anchor hstage random
  | creating _ _ => exact h.create hstage random
  | writing _ _ => exact h.write hstage random
  | syncing _ _ => exact h.goOn hstage
  | moving _ _ => exact h.rename hstage random
  | syncingDirectory _ => exact h.complete hstage random
  | undoing _ => exact h.undo hstage random
  | removingRef _ => exact Boundary.removeRef hstage random
  | removingFile _ => exact Boundary.removeFile hstage random
  | syncingRemoval _ => exact h.finish

end Own

section Others

variable {t' : JsString}

theorem untouched_goOn {s' : System} (stage : Stage) (hne : t' ≠ t)
    (h : @Untouched store s s' t') :
    @Untouched store s (s'.goOn t stage) t' :=
  ⟨h.disk, by simpa [System.goOn, hne] using h.running, h.completed⟩

theorem untouched_finish {s' : System} (hne : t' ≠ t) (h : @Untouched store s s' t') :
    @Untouched store s (s'.finish t) t' :=
  ⟨h.disk, by simpa [System.finish, hne] using h.running, h.completed⟩

theorem untouched_refl : @Untouched store s s t' := ⟨.refl, rfl, rfl⟩

/-- An operation has ended or goes on, without a temporary file. -/
def Continues (s : System) (t : JsString) (next : System) : Prop :=
  next = s.finish t ∨ ∃ stage : Stage, stage.temporary = none ∧ next = s.goOn t stage

theorem continues_goOn {stage : Stage} (h : stage.temporary = none) :
    Continues s t (s.goOn t stage) :=
  Or.inr ⟨stage, h, rfl⟩

theorem Continues.unless {next : System} (h : Continues s t next) (refused : Bool) :
    Continues s t (if refused = true then s.finish t else next) := by
  cases refused with
  | true => exact Or.inl rfl
  | false => exact h

theorem continues_persist (record : PendingWorkspaceBoundaryV1) :
    Continues s t (s.persist store t record) := by
  unfold System.persist
  split
  case isTrue _ => exact continues_goOn rfl
  case isFalse _ => exact Or.inl rfl

theorem continues_reading {next : PendingWorkspaceBoundaryV1 → System}
    (h : ∀ record, Continues s t (next record)) :
    Continues s t
      (match read store s.disk t with
        | none => s.finish t
        | some record => next record) := by
  cases read store s.disk t with
  | none => exact Or.inl rfl
  | some record => exact h record

theorem continues_start (operation : Operation) :
    Continues s operation.boundaryToken (s.start store operation) := by
  cases operation with
  | begin record =>
    unfold System.start
    by_cases hchecks : (validatePendingRecord record && System.assertIdentity store record &&
        (s.disk.files.get (fileName record.boundaryToken)).isNone) = true
    · simp only [Operation.boundaryToken, hchecks, if_true]
      exact continues_goOn rfl
    · simp only [Operation.boundaryToken, hchecks]
      exact Or.inl rfl
  | bind _ _ | recordAfter _ _ =>
    exact continues_reading fun record => (continues_persist _).unless _
  | complete _ | retireUnavailable _ | retireUnbound _ _ | retireRecoveredUnbound _ _ =>
    exact continues_reading fun record => (continues_goOn rfl).unless _

/-- **A step of an operation leaves the other boundaries alone.** -/
theorem untouched_advance {stage : Stage} (hstage : StageOk store s t stage)
    (random : JsString) (hne : t' ≠ t) :
    @Untouched store s (s.advance store t random stage) t' := by
  have hrefl : @Untouched store s s t' := untouched_refl
  cases stage with
  | starting operation =>
    obtain rfl : operation.boundaryToken = t := hstage
    simp only [System.advance]
    rcases continues_start operation with h | ⟨stage, -, h⟩
    · rw [h]
      exact untouched_finish hne hrefl
    · rw [h]
      exact untouched_goOn stage hne hrefl
  | anchoring opening record =>
    simp only [System.advance]
    split
    case h_1 _ => exact untouched_finish hne hrefl
    case h_2 name hanchor =>
      obtain ⟨hanchored, hahead⟩ := ahead_of_anchor hstage hanchor
      exact untouched_goOn _ hne
        ⟨sameFor_putRef (hahead.token ▸ hne) hanchored.refName _, rfl, rfl⟩
  | creating opening record =>
    simp only [System.advance]
    split
    case isTrue _ =>
      cases opening with
      | true => exact untouched_goOn _ hne hrefl
      | false => exact untouched_finish hne hrefl
    case isFalse _ => exact untouched_goOn _ hne ⟨sameFor_putTemporary random _, rfl, rfl⟩
  | writing record temporary =>
    obtain ⟨-, hex, rfl⟩ := hstage
    exact untouched_goOn _ hne ⟨sameFor_putTemporary hex _, rfl, rfl⟩
  | syncing _ _ => exact untouched_goOn _ hne hrefl
  | moving record temporary =>
    obtain ⟨hahead, hex, rfl⟩ := hstage
    exact untouched_goOn _ hne
      ⟨(sameFor_removeTemporary hex).trans (sameFor_putFile (hahead.token ▸ hne) _), rfl, rfl⟩
  | syncingDirectory record =>
    exact untouched_finish hne ⟨.refl, rfl, by simp [hne]⟩
  | undoing record =>
    exact untouched_finish hne
      ⟨sameFor_deleteRef (hstage.1 ▸ hne), by rw [deleteRef_running],
        by rw [deleteRef_completed]⟩
  | removingRef record =>
    have htoken : record.boundaryToken = t := Found.token hstage
    exact untouched_goOn _ hne
      ⟨sameFor_deleteRef (s := { s with completed := s.completed.delete t }) (htoken ▸ hne),
        by rw [deleteRef_running], by simp [hne]⟩
  | removingFile record =>
    exact untouched_goOn _ hne ⟨sameFor_removeFile (hstage.1 ▸ hne), rfl, rfl⟩
  | syncingRemoval _ => exact untouched_finish hne hrefl

end Others

section Names

variable (h : NamesOk s.disk)
include h

theorem NamesOk.putTemporary (hex : JsString) (file : PendingFile) :
    NamesOk (s.putFile (temporaryName hex) file).disk := by
  intro name found hfound
  simp only [System.putFile, JsMap.get_set] at hfound
  split at hfound
  case isTrue hname => exact Or.inr ⟨hex, hname⟩
  case isFalse _ => exact h name found hfound

theorem NamesOk.putFile (t : JsString) (file : PendingFile) :
    NamesOk (s.putFile (fileName t) file).disk := by
  intro name found hfound
  simp only [System.putFile, JsMap.get_set] at hfound
  split at hfound
  case isTrue hname => exact Or.inl ⟨t, hname⟩
  case isFalse _ => exact h name found hfound

theorem NamesOk.removeFile (removed : JsString) :
    NamesOk (s.removeFile removed).disk := by
  intro name found hfound
  simp only [System.removeFile, JsMap.get_delete] at hfound
  split at hfound
  case isTrue _ => cases hfound
  case isFalse _ => exact h name found hfound

theorem NamesOk.deleteRef (record : PendingWorkspaceBoundaryV1) :
    NamesOk (s.deleteRef store record).disk := by
  intro name found hfound
  rw [deleteRef_files] at hfound
  exact h name found hfound

theorem NamesOk.advance {stage : Stage} (hstage : StageOk store s t stage) (random : JsString) :
    NamesOk (s.advance store t random stage).disk := by
  cases stage with
  | starting operation =>
    simp only [System.advance]
    rcases continues_start operation with hstart | ⟨stage, -, hstart⟩
    · rw [hstart]
      exact h
    · rw [hstart]
      exact h
  | anchoring opening record =>
    simp only [System.advance]
    split
    case h_1 _ => exact h
    case h_2 _ _ => exact h
  | creating opening record =>
    simp only [System.advance]
    split
    case isTrue _ => cases opening <;> exact h
    case isFalse _ => exact h.putTemporary random _
  | writing record temporary =>
    obtain ⟨-, hex, rfl⟩ := hstage
    exact h.putTemporary hex _
  | syncing _ _ | syncingDirectory _ | syncingRemoval _ => exact h
  | moving record temporary => exact NamesOk.putFile (h.removeFile temporary) _ _
  | undoing record => exact h.deleteRef record
  | removingRef record =>
    exact NamesOk.deleteRef (s := { s with completed := s.completed.delete t }) h record
  | removingFile record => exact h.removeFile _

end Names

section Runs

theorem invariant_initial : Invariant store {} := by
  refine ⟨fun t => ⟨Or.inl rfl, ?_, ?_⟩, ?_⟩
  · intro stage hstage
    cases hstage
  · intro record hrecord
    cases hrecord
  · intro name file hfile
    cases hfile

/-- **Nothing that can happen breaks the invariant.** -/
theorem Invariant.step (h : Invariant store s) (event : Event) :
    Invariant store (s.step store event) := by
  cases event with
  | call operation =>
    simp only [System.step]
    split
    case h_1 _ _ => exact h
    case h_2 _ =>
      refine ⟨fun t => ?_, h.names⟩
      by_cases ht : t = operation.boundaryToken
      · subst ht
        have hstage : StageOk store s operation.boundaryToken (.starting operation) := rfl
        exact (h.boundary _).goOn hstage
      · exact (h.boundary t).untouched (untouched_goOn _ ht untouched_refl)
  | advance boundaryToken random =>
    simp only [System.step]
    split
    case h_1 _ => exact h
    case h_2 stage hrunning =>
      have hstage := (h.boundary boundaryToken).stage stage hrunning
      refine ⟨fun t => ?_, h.names.advance hstage random⟩
      by_cases ht : t = boundaryToken
      · subst ht
        exact (h.boundary t).advance hrunning random
      · exact (h.boundary t).untouched (untouched_advance hstage random ht)
  | crash boundaryToken =>
    refine ⟨fun t => ?_, h.names⟩
    by_cases ht : t = boundaryToken
    · subst ht
      exact (h.boundary t).finish
    · exact (h.boundary t).untouched (untouched_finish ht untouched_refl)

/-- **The invariant holds in every state of every run.** -/
theorem run_invariant (events : List Event) :
    Invariant store (Runs.run (System.step store) {} events) :=
  Runs.run_invariant (System.step store) (Invariant store) (fun _ event h => h.step event)
    invariant_initial events

end Runs

end PendingBoundaryStore

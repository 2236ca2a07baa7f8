import Crest.JournalPublicationSteps

/-!
# What readers and recoveries of a journal publication find

Nobody who reads or recovers a publication that fits sees a part of it, or calls it unsafe,
or misses it once it is there.  A publication that does not fit is reported unsafe to
everybody, because a publisher does not look at the limit that the readers keep.
-/

namespace JournalPublication

variable {maximumEntryBytes : Nat} {s : System}

/-- The calls of a publication that nothing goes wrong with. -/
def uninterrupted (bytes : Bytes) : List Event :=
  .publish bytes :: List.replicate 9 (.advance bytes.length)

theorem run_uninterrupted (hidle : s.writer = .idle)
    (hdestination : s.directory.destination = none)
    (htemporary : s.directory.temporary = none) (bytes : Bytes) :
    let s' := Runs.run (System.step maximumEntryBytes) s (uninterrupted bytes)
    s'.reported = some bytes ∧ s'.writer = .idle ∧ s'.readers = s.readers ∧
      s'.log = s.log ++ [.published bytes none] ∧
      s'.directory.destination = some s.directory.next ∧
      s'.directory.temporary = none ∧
      (s'.directory.inodes s.directory.next).content = bytes ∧
      (s'.directory.inodes s.directory.next).nlink = 1 := by
  simp [uninterrupted, Runs.run, System.step, System.begin, hidle, System.advance,
    System.advancePublish, hdestination, htemporary, System.goOn, System.finish,
    Directory.create, Directory.write, Directory.link, Directory.unlinkTemporary,
    Directory.change, Directory.lstatDestination, Directory.stat, List.replicate]

/-- **A journal publication is an atomic create-if-absent**, in every run whose
publications fit what is read.  Every operation that is over has come to what it may: a
recovery that completed found nothing and left an empty directory, or found the complete
bytes of the entry and left no temporary file; a reader found nothing only if there was no
entry when it started, or a removal went between, and what it found is complete and is the
entry that was there; neither called anything unsafe, and a reader missed an entry only
through a removal.  What was reported as published is there until it is removed.  And
whenever the directory is empty and the lock is free, a publication can succeed. -/
theorem published_atomically
    (maximumEntryBytes : Nat) (events : List Event)
    (hfits : Runs.Guarded (System.step maximumEntryBytes) (Fits maximumEntryBytes) {} events) :
    let s := Runs.run (System.step maximumEntryBytes) {} events
    (∀ outcome ∈ s.log, outcome.Ok s.history) ∧
      (∀ bytes, s.reported = some bytes → s.directory.entry = some bytes) ∧
      (s.writer = .idle → s.directory.destination = none → s.directory.temporary = none →
        ∀ bytes, (Runs.run (System.step maximumEntryBytes) s (uninterrupted bytes)).reported =
          some bytes) := by
  have hinvariant := run_invariant hfits
  refine ⟨hinvariant.log, hinvariant.reported, ?_⟩
  intro hidle hdestination htemporary bytes
  exact (run_uninterrupted hidle hdestination htemporary bytes).1

/-- A read and a recovery of a finished publication that does not fit. -/
def oversized (bytes : Bytes) : List Event :=
  uninterrupted bytes ++
    [.read 0, .advanceReader 0, .advanceReader 0, .recover, .advance 0, .advance 0]

theorem log_oversized {bytes : Bytes} (hlarge : maximumEntryBytes < bytes.length) :
    (Runs.run (System.step maximumEntryBytes) {} (oversized bytes)).log =
      [.published bytes none, .read (some bytes) false (.threw .unsafeEntry),
        .recovered (some bytes) (.threw .unsafeEntry) true false] := by
  have hlarge' : ¬ bytes.length ≤ maximumEntryBytes := Nat.not_le_of_lt hlarge
  obtain ⟨-, hidle, hreaders, hlog, hdestination, htemporary, hcontent, hnlink⟩ :=
    @run_uninterrupted maximumEntryBytes {} rfl rfl rfl bytes
  rw [oversized, Runs.run_append]
  generalize Runs.run (System.step maximumEntryBytes) {} (uninterrupted bytes) = s at *
  simp [Runs.run, System.step, System.advanceReader, hreaders, ReaderStage.step,
    Directory.lstatDestination, Directory.lstatTemporary, Directory.entry, hdestination,
    htemporary, hcontent, hnlink, Directory.stat, judgePair, safePrivateRegular,
    readEntryWithState, ofEntry, hlarge', System.finishReader, System.begin, hidle,
    System.advance, System.advanceRecovery, RecoverStage.step, judgeRecovery,
    System.finishRecovery, System.finish, hlog]

/-- The limit under which the pending restore is read. -/
def maximumPendingBytes : Nat := 4 * 1024 * 1024

/-- A record that is one byte too long. -/
def largeRecord : Bytes := List.replicate (maximumPendingBytes + 1) 0x61

/-- **A record of more than four mebibytes is published with success, and nobody can read or
recover it.** -/
theorem largeRecord_unsafe :
    (Runs.run (System.step maximumPendingBytes) {} (oversized largeRecord)).log =
        [.published largeRecord none, .read (some largeRecord) false (.threw .unsafeEntry),
          .recovered (some largeRecord) (.threw .unsafeEntry) true false] ∧
      ¬ ∀ outcome ∈ (Runs.run (System.step maximumPendingBytes) {} (oversized largeRecord)).log,
        outcome.Ok (Runs.run (System.step maximumPendingBytes) {} (oversized largeRecord)).history := by
  have hlarge : maximumPendingBytes < largeRecord.length := by
    rw [largeRecord, List.length_replicate]
    exact Nat.lt_succ_self _
  have hlog := log_oversized hlarge
  refine ⟨hlog, fun hall => ?_⟩
  rw [hlog] at hall
  have hread := hall (.read (some largeRecord) false (.threw .unsafeEntry)) (by simp)
  rcases hread with hio | ⟨hremoved, -⟩
  · cases hio
  · cases hremoved

/-- A publication that is killed between the link and the unlink, a reader that runs next to
it, and the recovery. -/
def killedPublication : List Event :=
  [.publish [1, 2, 3], .advance 0, .advance 0, .advance 2, .read 0, .advanceReader 0,
    .advance 2, .advance 0, .advanceReader 0, .read 1, .advance 0, .kill, .advanceReader 1,
    .recover, .advanceReader 1, .advanceReader 1, .advanceReader 1, .advance 0, .advance 0,
    .advance 0, .advanceReader 1, .advanceReader 1, .advanceReader 1] ++
    List.replicate 7 (.advance 0) ++ List.replicate 8 (.advanceReader 1)

/-- The first reader finds nothing, the second one and the recovery find the entry. -/
theorem killedPublication_ok :
    (Runs.run (System.step 4) {} killedPublication).log =
        [.read none false .nothing, .recovered (some [1, 2, 3]) (.entry [1, 2, 3]) true false,
          .read none false (.entry [1, 2, 3])] ∧
      ∀ outcome ∈ (Runs.run (System.step 4) {} killedPublication).log,
        outcome.Ok (Runs.run (System.step 4) {} killedPublication).history :=
  ⟨by decide +kernel, (published_atomically 4 killedPublication
    (by simp [killedPublication, Runs.Guarded, Fits, List.replicate])).1⟩

end JournalPublication

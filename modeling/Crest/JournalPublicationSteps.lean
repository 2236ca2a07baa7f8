import Crest.JournalPublicationReaders

/-!
# The steps of a journal publication

What the holder of the lock does to the directory keeps its phases, and what it does apart
from a removal leaves an undisturbed reader where it is.  A removal disturbs the readers, and
then they know only that what they have is complete.
-/

namespace JournalPublication

variable {maximumEntryBytes : Nat}

attribute [local simp] Directory.lstatDestination Directory.lstatTemporary Directory.create

section Calls

variable {history : List Bytes} {d : Directory} {ino : Nat}

@[simp] theorem content_change (i : Nat) (f : Inode → Inode) :
    ((d.change ino f).inodes i).content =
      if i = ino then (f (d.inodes ino)).content else (d.inodes i).content := by
  simp only [Directory.change]
  split <;> rfl

@[simp] theorem nlink_change (i : Nat) (f : Inode → Inode) :
    ((d.change ino f).inodes i).nlink =
      if i = ino then (f (d.inodes ino)).nlink else (d.inodes i).nlink := by
  simp only [Directory.change]
  split <;> rfl

section

variable (h : DirectoryOk maximumEntryBytes history d)
include h

section

variable (hnone : d.destination = none)
include hnone

theorem DirectoryOk.create :
    DirectoryOk maximumEntryBytes history d.create := by
  refine ⟨?_, ?_, ?_, ?_, ?_⟩
  · intro i hi
    rcases hi with hi | hi
    · exact Nat.lt_succ_of_lt (h.fresh i (Or.inl hi))
    · obtain rfl : d.next = i := by simpa using hi
      exact Nat.lt_succ_self _
  · intro i _ hi
    obtain rfl : d.next = i := by simpa using hi
    simp
  · intro i hi
    rw [show d.create.destination = d.destination from rfl, hnone] at hi
    cases hi
  · intro i j hi
    rw [show d.create.destination = d.destination from rfl, hnone] at hi
    cases hi
  · intro i hi
    rw [show d.create.destination = d.destination from rfl, hnone] at hi
    cases hi

theorem DirectoryOk.write (htemporary : d.temporary = some ino) {content : Bytes}
    (hsize : content.length ≤ maximumEntryBytes) :
    DirectoryOk maximumEntryBytes history (d.write ino content) := by
  have hno : ∀ i, (d.write ino content).destination ≠ some i := by
    intro i hi
    rw [show (d.write ino content).destination = d.destination from rfl, hnone] at hi
    cases hi
  refine ⟨fun i hi => h.fresh i hi, ?_, fun i hi => absurd hi (hno i),
    fun i _ hi => absurd hi (hno i), fun i hi => absurd hi (hno i)⟩
  intro i _ hi
  obtain rfl : ino = i := Option.some.inj (htemporary.symm.trans hi)
  obtain ⟨hone, -⟩ := h.temporary ino hnone htemporary
  simp [Directory.write, hone, hsize]

theorem DirectoryOk.link (htemporary : d.temporary = some ino) :
    DirectoryOk maximumEntryBytes (history ++ [(d.inodes ino).content]) (d.link ino) := by
  obtain ⟨hone, hsize⟩ := h.temporary ino hnone htemporary
  have htemporary' : (d.link ino).temporary = some ino := htemporary
  refine ⟨?_, ?_, ?_, ?_, ?_⟩
  · intro i hi
    have hfresh := h.fresh ino (Or.inr htemporary)
    rcases hi with hi | hi
    · obtain rfl : ino = i := Option.some.inj hi
      exact hfresh
    · obtain rfl : ino = i := Option.some.inj (htemporary'.symm.trans hi)
      exact hfresh
  · intro i hdestination
    cases hdestination
  · intro i _ hi
    rw [htemporary'] at hi
    cases hi
  · intro i j hi hj
    obtain rfl : ino = i := Option.some.inj hi
    obtain rfl : ino = j := Option.some.inj (htemporary'.symm.trans hj)
    simp [Directory.link, hone]
  · intro i hi
    obtain rfl : ino = i := Option.some.inj hi
    simp [Directory.link, hsize]

end

theorem DirectoryOk.unlinkTemporary (htemporary : d.temporary = some ino) :
    DirectoryOk maximumEntryBytes history (d.unlinkTemporary ino) := by
  refine ⟨?_, ?_, ?_, ?_, ?_⟩
  · intro i hi
    rcases hi with hi | hi
    · exact h.fresh i (Or.inl hi)
    · cases hi
  · intro i _ hi
    cases hi
  · intro i hi _
    obtain ⟨rfl, htwo⟩ := h.pair i ino hi htemporary
    simp [Directory.unlinkTemporary, htwo]
  · intro i j _ hj
    cases hj
  · intro i hi
    have hcomplete := h.complete i hi
    simp only [Directory.unlinkTemporary, content_change]
    split
    case isTrue heq => exact heq ▸ hcomplete
    case isFalse _ => exact hcomplete

theorem DirectoryOk.unlinkDestination (hdestination : d.destination = some ino) :
    DirectoryOk maximumEntryBytes history (d.unlinkDestination ino) := by
  refine ⟨?_, ?_, ?_, ?_, ?_⟩
  · intro i hi
    rcases hi with hi | hi
    · cases hi
    · exact h.fresh i (Or.inr hi)
  · intro i _ hi
    have hi' : d.temporary = some i := hi
    obtain ⟨rfl, htwo⟩ := h.pair ino i hdestination hi'
    simp [Directory.unlinkDestination, htwo, (h.complete i hdestination).2]
  · intro i hi
    cases hi
  · intro i j hi
    cases hi
  · intro i hi
    cases hi

end

theorem later_unlinkTemporary (htemporary : d.temporary = some ino) :
    Later d (d.unlinkTemporary ino) := by
  refine ⟨fun i hi => hi, ?_, ?_, ?_⟩
  · intro i _
    simp only [Directory.unlinkTemporary, content_change]
    split
    case isTrue heq => rw [heq]
    case isFalse _ => rfl
  · intro i _ halone
    rw [htemporary] at halone
    cases halone
  · intro i _ hsome
    cases hsome

theorem content_link (i : Nat) : ((d.link ino).inodes i).content = (d.inodes i).content := by
  simp only [Directory.link, content_change]
  split
  case isTrue heq => rw [heq]
  case isFalse _ => rfl

theorem content_unlinkTemporary (i : Nat) :
    ((d.unlinkTemporary ino).inodes i).content = (d.inodes i).content := by
  simp only [Directory.unlinkTemporary, content_change]
  split
  case isTrue heq => rw [heq]
  case isFalse _ => rfl

theorem content_unlinkDestination (i : Nat) :
    ((d.unlinkDestination ino).inodes i).content = (d.inodes i).content := by
  simp only [Directory.unlinkDestination, content_change]
  split
  case isTrue heq => rw [heq]
  case isFalse _ => rfl

end Calls

variable {s s' : System}

section Keeping

theorem keeps_of (hnext : s.directory.next ≤ s'.directory.next) (hcontent : ∀ i, Sealed s i →
      (s'.directory.inodes i).content = (s.directory.inodes i).content)
    (hhistory : ∀ bytes ∈ s.history, bytes ∈ s'.history)
    (hwritten : ∀ i, Sealed s i → s'.beingWritten ≠ some i) :
    Keeps s s' := by
  refine ⟨fun i hi => ⟨Nat.lt_of_lt_of_le hi.known hnext, ?_, hwritten i hi⟩, hhistory⟩
  rw [hcontent i hi]
  exact hhistory _ hi.content

variable (h : Invariant maximumEntryBytes s)
include h

theorem Invariant.quiet (hdirectory : DirectoryOk maximumEntryBytes s'.history s'.directory)
    (hwriter : WriterOk maximumEntryBytes s'.directory s'.writer)
    (hlater : Later s.directory s'.directory) (hkeeps : Keeps s s')
    (hreaders : s'.readers = s.readers)
    (hreported : ∀ bytes, s'.reported = some bytes →
      s.reported = some bytes ∨ s'.directory.entry = some bytes)
    (hlog : ∀ outcome ∈ s'.log, outcome ∈ s.log ∨ outcome.Ok s'.history) :
    Invariant maximumEntryBytes s' := by
  refine ⟨hdirectory, hwriter, ?_, ?_, ?_⟩
  · intro id reader hreader
    rw [hreaders] at hreader
    exact (h.readers id reader hreader).later hkeeps hlater
  · intro bytes hbytes
    rcases hreported bytes hbytes with hbefore | hnow
    · exact hlater.entry (h.reported bytes hbefore)
    · exact hnow
  · intro outcome houtcome
    rcases hlog outcome houtcome with hbefore | hok
    · exact (h.log outcome hbefore).mono hkeeps.history
    · exact hok

theorem Invariant.turn {writer : Writer} (hwriter : WriterOk maximumEntryBytes s.directory writer)
    (hwritten : ({ s with writer } : System).beingWritten = none) :
    Invariant maximumEntryBytes { s with writer } := by
  have hkeeps : Keeps s { s with writer } :=
    keeps_of (Nat.le_refl _) (fun _ _ => rfl) (fun _ hb => hb)
      (fun i _ hi => by rw [hwritten] at hi; cases hi)
  exact h.quiet h.directory hwriter (Later.refl _) hkeeps rfl (fun _ hb => Or.inl hb)
    (fun _ ho => Or.inl ho)

theorem Invariant.finish {outcome : Outcome} (hok : outcome.Ok s.history) :
    Invariant maximumEntryBytes (s.finish outcome) := by
  have hkeeps : Keeps s (s.finish outcome) :=
    keeps_of (Nat.le_refl _) (fun _ _ => rfl) (fun _ hb => hb) (fun i _ hi => by cases hi)
  refine h.quiet h.directory trivial (Later.refl _) hkeeps rfl (fun _ hb => Or.inl hb) ?_
  intro other hother
  rcases List.mem_append.mp hother with hbefore | hnow
  · exact Or.inl hbefore
  · obtain rfl := List.mem_singleton.mp hnow
    exact Or.inr hok

theorem Invariant.unlinkTemporary {ino : Nat}
    (htemporary : s.directory.temporary = some ino) {writer : Writer}
    (hwriter : WriterOk maximumEntryBytes (s.directory.unlinkTemporary ino) writer) :
    Invariant maximumEntryBytes
      { s with directory := s.directory.unlinkTemporary ino, writer } := by
  refine h.quiet (h.directory.unlinkTemporary htemporary) hwriter
    (later_unlinkTemporary htemporary) ?_ rfl (fun _ hb => Or.inl hb) (fun _ ho => Or.inl ho)
  refine keeps_of (Nat.le_refl _) (fun i _ => content_unlinkTemporary i) (fun _ hb => hb) ?_
  intro i _ hi
  simp only [System.beingWritten] at hi
  split at hi
  · cases hi
  · cases hi

end Keeping

section Publishing

variable {bytes : Bytes}

/-- **A call of a publication.** -/
theorem Invariant.publish (h : Invariant maximumEntryBytes s) {stage : PublishStage}
    (hstage : WriterOk maximumEntryBytes s.directory (.publishing bytes stage))
    (hwriter : s.writer = .publishing bytes stage) (amount : Nat) :
    Invariant maximumEntryBytes (s.advancePublish bytes amount stage) := by
  obtain ⟨hfits, hstage⟩ := hstage
  have hno : ∀ failure : Failure, failure ≠ .unsafeEntry →
      (Outcome.published bytes (some failure)).Ok s.history :=
    fun failure hne => fun heq => hne (Option.some.inj heq)
  cases stage with
  | lstatDestination =>
    simp only [System.advancePublish]
    split
    case isTrue _ => exact h.finish (hno _ (by decide))
    case isFalse hnone => exact h.turn ⟨hfits, by simpa [PublishOk] using hnone⟩ rfl
  | openTemporary =>
    simp only [System.advancePublish]
    split
    case isTrue _ => exact h.finish (hno _ (by decide))
    case isFalse hnone =>
      have hempty : s.directory.destination = none := hstage
      refine h.quiet (h.directory.create hempty) ⟨hfits, hempty, s.directory.next, rfl, 0, ?_⟩
        (later_of_none hempty) ?_ rfl (fun _ hb => Or.inl hb) (fun _ ho => Or.inl ho)
      · simp [System.goOn]
      · refine keeps_of (Nat.le_succ _) (fun i hi => ?_) (fun _ hb => hb) (fun i hi hw => ?_)
        · have hne : i ≠ s.directory.next := Nat.ne_of_lt hi.known
          simp [System.goOn, hne]
        · obtain rfl : s.directory.next = i := Option.some.inj hw
          exact Nat.lt_irrefl _ hi.known
  | writeFile =>
    obtain ⟨hempty, ino, htemporary, n, hcontent⟩ := hstage
    simp only [System.advancePublish, htemporary]
    generalize hwritten :
      bytes.take ((s.directory.inodes ino).content.length + amount) = written
    have hsize : written.length ≤ maximumEntryBytes := by
      rw [← hwritten, List.length_take]
      exact Nat.le_trans (Nat.min_le_right _ _) hfits
    refine h.quiet (h.directory.write hempty htemporary hsize) ⟨hfits, ?_⟩
      (later_of_none hempty) ?_ rfl (fun _ hb => Or.inl hb) (fun _ ho => Or.inl ho)
    · show PublishOk (s.directory.write ino written) bytes _
      split
      case isTrue hall => exact ⟨hempty, ino, htemporary, by simp [Directory.write, hall]⟩
      case isFalse _ =>
        refine ⟨hempty, ino, htemporary,
          (s.directory.inodes ino).content.length + amount, ?_⟩
        simpa [Directory.write] using hwritten.symm
    · -- what is written is not complete yet
      have hbefore : s.beingWritten = some ino := by
        rw [System.beingWritten, hwriter]
        exact htemporary
      refine keeps_of (Nat.le_refl _) (fun i hi => ?_) (fun _ hb => hb) (fun i hi hw => ?_)
      · have hne : i ≠ ino := fun heq => hi.notWritten (heq ▸ hbefore)
        simp [System.goOn, Directory.write, hne]
      · have hafter : s.directory.temporary = some i ∨ (none : Option Nat) = some i := by
          simp only [System.beingWritten, System.goOn] at hw
          split at hw
          · exact Or.inl hw
          · exact Or.inr hw
        rcases hafter with hsame | hnone
        · obtain rfl : ino = i := Option.some.inj (htemporary.symm.trans hsame)
          exact hi.notWritten hbefore
        · cases hnone
  | sync | syncLink | syncUnlink => exact h.turn ⟨hfits, hstage⟩ rfl
  | link =>
    obtain ⟨hempty, ino, htemporary, hcontent⟩ := hstage
    simp only [System.advancePublish, htemporary, hempty]
    refine h.quiet ?_ ⟨hfits, ino, rfl, htemporary, (content_link ino).trans hcontent⟩
      (later_of_none hempty) ?_ rfl (fun _ hb => Or.inl hb) (fun _ ho => Or.inl ho)
    · have hlinked := h.directory.link hempty htemporary
      rw [hcontent] at hlinked
      exact hlinked
    · exact keeps_of (Nat.le_refl _) (fun i _ => content_link i)
        (fun _ hb => List.mem_append_left _ hb) (fun i _ hw => by cases hw)
  | unlinkTemporary =>
    obtain ⟨ino, hdestination, htemporary, hcontent⟩ := hstage
    simp only [System.advancePublish, htemporary]
    exact h.unlinkTemporary htemporary
      ⟨hfits, ino, hdestination, rfl, (content_unlinkTemporary ino).trans hcontent⟩
  | lstatPublished =>
    obtain ⟨ino, hdestination, halone, hcontent⟩ := hstage
    have hone : (s.directory.stat ino).nlink = 1 := h.directory.alone ino hdestination halone
    simp only [System.advancePublish, Directory.lstatDestination, hdestination,
      Option.map_some, hone, if_true]
    refine h.quiet h.directory trivial (Later.refl _) ?_ rfl ?_ ?_
    · exact keeps_of (Nat.le_refl _) (fun _ _ => rfl) (fun _ hb => hb) (fun i _ hw => by cases hw)
    · intro reported hreported
      obtain rfl : bytes = reported := Option.some.inj hreported
      right
      show s.directory.entry = _
      rw [Directory.entry, hdestination, Option.map_some, hcontent]
    · intro other hother
      rcases List.mem_append.mp hother with hbefore | hnow
      · exact Or.inl hbefore
      · obtain rfl := List.mem_singleton.mp hnow
        exact Or.inr fun heq => by cases heq
  | cleanUp failure =>
    simp only [System.advancePublish]
    split
    case h_1 _ => exact h.finish (hno failure hstage)
    case h_2 ino htemporary => exact h.unlinkTemporary htemporary ⟨hfits, hstage⟩
  | syncCleanUp failure => exact h.finish (hno failure hstage)

theorem Invariant.failPublish (h : Invariant maximumEntryBytes s) {stage : PublishStage}
    (hfits : bytes.length ≤ maximumEntryBytes) :
    Invariant maximumEntryBytes (s.failPublish bytes stage) := by
  have hio : PublishOk s.directory bytes (.cleanUp .io) := fun heq => by cases heq
  have hok : (Outcome.published bytes (some .io)).Ok s.history := fun heq => by cases heq
  cases stage
  case writeFile | sync | link | syncLink | unlinkTemporary | syncUnlink =>
    exact h.turn ⟨hfits, hio⟩ rfl
  case lstatDestination | openTemporary | lstatPublished | cleanUp | syncCleanUp =>
    exact h.finish hok

end Publishing

section Recovering

variable {due : Option Bytes}

variable (h : Invariant maximumEntryBytes s)
include h

theorem Invariant.finishRecovery {result : Result}
    (hok : (Outcome.recovered due result s.directory.destination.isSome
      s.directory.temporary.isSome).Ok s.history) :
    Invariant maximumEntryBytes (s.finishRecovery due result) :=
  h.finish hok

theorem Invariant.recoverOn {stage : RecoverStage}
    (hdue : due = s.directory.entry) (hstage : RecoverOk s.directory stage) :
    Invariant maximumEntryBytes
      { s with directory := s.directory, writer := .recovering due stage } := by
  have hturn : Invariant maximumEntryBytes { s with writer := .recovering due stage } :=
    h.turn ⟨hdue, hstage⟩ rfl
  exact hturn

theorem recoverOk_judge :
    match judgeRecovery maximumEntryBytes s.directory.lstatDestination
        s.directory.lstatTemporary with
    | .more stage => RecoverOk s.directory stage
    | .done result => result = .nothing ∧ s.directory.destination = none ∧
        s.directory.temporary = none := by
  cases hdestination : s.directory.destination with
  | none =>
    cases htemporary : s.directory.temporary with
    | none =>
      simp [hdestination, htemporary, judgeRecovery]
    | some ino =>
      obtain ⟨hone, hsize⟩ := h.directory.temporary ino hdestination htemporary
      simp [hdestination, htemporary, judgeRecovery, safePrivateRegular, Directory.stat, hone, hsize, RecoverOk]
  | some ino =>
    obtain ⟨-, hsize⟩ := h.directory.complete ino hdestination
    cases htemporary : s.directory.temporary with
    | none =>
      have hone := h.directory.alone ino hdestination htemporary
      simp [hdestination, htemporary, judgeRecovery, safePrivateRegular, Directory.stat, hone, hsize, RecoverOk]
    | some other =>
      obtain ⟨rfl, htwo⟩ := h.directory.pair ino other hdestination htemporary
      simp [hdestination, htemporary, judgeRecovery, safePrivateRegular, sameInode, Directory.stat, htwo, hsize, RecoverOk]

/-- **A call of a recovery.** -/
theorem Invariant.recover {stage : RecoverStage}
    (hstage : WriterOk maximumEntryBytes s.directory (.recovering due stage)) :
    Invariant maximumEntryBytes (s.advanceRecovery maximumEntryBytes due stage) := by
  obtain ⟨hdue, hstage⟩ := hstage
  cases stage with
  | lstatDestination => exact h.recoverOn hdue rfl
  | lstatTemporary destination =>
    obtain rfl : destination = s.directory.lstatDestination := hstage
    have hjudge := recoverOk_judge h
    simp only [System.advanceRecovery, RecoverStage.step]
    cases hnext : judgeRecovery maximumEntryBytes s.directory.lstatDestination
        s.directory.lstatTemporary with
    | more stage =>
      rw [hnext] at hjudge
      exact h.recoverOn hdue hjudge
    | done result =>
      rw [hnext] at hjudge
      obtain ⟨rfl, hdestination, htemporary⟩ := hjudge
      refine h.finishRecovery ⟨?_, ?_, ?_⟩
      · rw [hdue, Directory.entry, hdestination, Option.map_none]
      · rw [hdestination, Option.isSome_none]
      · rw [htemporary, Option.isSome_none]
  | unlinkTemporary published =>
    obtain ⟨hsome, hpublished⟩ := hstage
    obtain ⟨ino, htemporary⟩ := Option.isSome_iff_exists.mp hsome
    simp only [System.advanceRecovery, RecoverStage.step, htemporary]
    refine h.unlinkTemporary htemporary ⟨?_, rfl, hpublished⟩
    rw [hdue, Directory.entry, Directory.entry]
    simp only [content_unlinkTemporary]
    rfl
  | syncRoot published =>
    obtain ⟨halone, rfl⟩ := hstage
    simp only [System.advanceRecovery, RecoverStage.step]
    cases hdestination : s.directory.destination with
    | none =>
      refine h.finishRecovery ⟨?_, ?_, ?_⟩
      · rw [hdue, Directory.entry, hdestination, Option.map_none]
      · rw [hdestination, Option.isSome_none]
      · rw [halone, Option.isSome_none]
    | some ino => exact h.recoverOn hdue ⟨halone, Option.isSome_of_mem hdestination⟩
  | lstatRecovered =>
    obtain ⟨halone, hsome⟩ := hstage
    obtain ⟨ino, hdestination⟩ := Option.isSome_iff_exists.mp hsome
    have hone : (s.directory.stat ino).nlink = 1 := h.directory.alone ino hdestination halone
    have hsize : (s.directory.stat ino).size ≤ maximumEntryBytes :=
      (h.directory.complete ino hdestination).2
    simp only [System.advanceRecovery, RecoverStage.step, Directory.lstatDestination,
      hdestination, Option.map_some, readEntryWithState, safePrivateRegular, hone, hsize,
      decide_true, Bool.and_self, if_true, ofRecoveredEntry]
    exact h.recoverOn hdue ⟨ino, hdestination, halone, rfl⟩
  | entry stage =>
    obtain ⟨ino, hdestination, halone, hentry⟩ := hstage
    simp only [System.advanceRecovery, RecoverStage.step]
    rcases entrySteady_step hdestination hentry with ⟨next, hnext, hsteady⟩ | hdone
    · simp only [hnext, ofRecoveredEntry]
      exact h.recoverOn hdue ⟨ino, hdestination, halone, hsteady⟩
    · simp only [hdone, ofRecoveredEntry]
      refine h.finishRecovery ⟨?_, (h.directory.complete ino hdestination).1, ?_, ?_⟩
      · rw [hdue, Directory.entry, hdestination, Option.map_some]
      · rw [hdestination, Option.isSome_some]
      · rw [halone, Option.isSome_none]

end Recovering

section Removing

/-- **A call of a removal.** -/
theorem Invariant.removal (h : Invariant maximumEntryBytes s) (stage : RemoveStage) :
    Invariant maximumEntryBytes (s.advanceRemoval stage) := by
  have hdone : ∀ failure, (Outcome.removed failure).Ok s.history := fun _ => trivial
  cases stage with
  | lstatSource expected =>
    simp only [System.advanceRemoval]
    split
    case h_1 _ => exact h.finish (hdone _)
    case h_2 source _ =>
      split
      case isTrue _ => exact h.turn trivial rfl
      case isFalse _ => exact h.finish (hdone _)
  | unlink =>
    simp only [System.advanceRemoval]
    split
    case h_1 _ => exact h.finish (hdone _)
    case h_2 ino hdestination =>
      have hkeeps : Keeps s { s.removeEntry ino with writer := .removing .syncRoot } :=
        keeps_of (Nat.le_refl _) (fun i _ => content_unlinkDestination i) (fun _ hb => hb)
          (fun i _ hw => by cases hw)
      refine ⟨h.directory.unlinkDestination hdestination, trivial, ?_, ?_, h.log⟩
      · intro id reader hreader
        -- every reader that was under way is disturbed
        simp only [System.removeEntry, JsMap.get_filterMap] at hreader
        obtain ⟨before, hbefore, hsame⟩ := Option.bind_eq_some_iff.mp hreader
        obtain rfl := Option.some.inj hsame
        exact ⟨(h.readers id before hbefore).weak.keeps hkeeps, (fun hremoved => by cases hremoved),
          (fun hremoved => by cases hremoved)⟩
      · intro bytes hbytes
        cases hbytes
  | syncRoot => exact h.finish (hdone _)

end Removing

section Reading

theorem ReaderOk.same (hdirectory : s'.directory = s.directory)
    (hwriter : s'.writer = s.writer) (hhistory : s'.history = s.history) {reader : Reader}
    (h : ReaderOk maximumEntryBytes s reader) :
    ReaderOk maximumEntryBytes s' reader := by
  have hwritten : s'.beingWritten = s.beingWritten := by
    rw [System.beingWritten, System.beingWritten, hwriter, hdirectory]
  refine h.later ?_ (hdirectory ▸ Later.refl _)
  exact keeps_of (hdirectory ▸ Nat.le_refl _) (fun _ _ => by rw [hdirectory])
    (fun _ hb => hhistory ▸ hb) (fun i hi => hwritten ▸ hi.notWritten)

section

variable (h : Invariant maximumEntryBytes s)
include h

theorem Invariant.finishReader (id : Nat) {reader : Reader} {result : Result}
    (hok : (Outcome.read reader.due reader.removed result).Ok s.history) :
    Invariant maximumEntryBytes (s.finishReader id reader result) := by
  refine ⟨h.directory, h.writer, ?_, h.reported, ?_⟩
  · intro other otherReader hother
    simp only [System.finishReader, JsMap.get_delete] at hother
    split at hother
    case isTrue _ => cases hother
    case isFalse _ =>
      refine ReaderOk.same ?_ ?_ ?_ (h.readers other otherReader hother) <;> rfl
  · intro outcome houtcome
    rcases List.mem_append.mp houtcome with hbefore | hnow
    · exact h.log outcome hbefore
    · obtain rfl := List.mem_singleton.mp hnow
      exact hok

theorem Invariant.setReader {id : Nat} {reader : Reader}
    (hreader : ReaderOk maximumEntryBytes s reader) :
    Invariant maximumEntryBytes { s with readers := s.readers.set id reader } := by
  refine ⟨h.directory, h.writer, ?_, h.reported, h.log⟩
  intro other otherReader hother
  simp only [JsMap.get_set] at hother
  split at hother
  case isTrue _ =>
    obtain rfl := Option.some.inj hother
    refine ReaderOk.same ?_ ?_ ?_ hreader <;> rfl
  case isFalse _ =>
    refine ReaderOk.same ?_ ?_ ?_ (h.readers other otherReader hother) <;> rfl

/-- **A call of a reader.** -/
theorem Invariant.advanceReader (id : Nat) :
    Invariant maximumEntryBytes (s.advanceReader maximumEntryBytes id) := by
  simp only [System.advanceReader]
  split
  case h_1 _ => exact h
  case h_2 reader hreader =>
    have hprogress := (h.readers id reader hreader).step h
    revert hprogress
    cases reader.stage.step maximumEntryBytes s.directory with
    | more stage => exact fun hprogress => h.setReader hprogress
    | done result => exact fun hprogress => h.finishReader id hprogress

end

theorem readerOk_start :
    ReaderOk maximumEntryBytes s ⟨.lstatDestination 0, s.directory.entry, false⟩ :=
  ⟨trivial, fun _ => Or.inl rfl, fun _ _ hdue => hdue⟩

end Reading

section Runs

/-- What is published fits what is read. -/
def Fits (maximumEntryBytes : Nat) (_ : System) : Event → Prop
  | .publish bytes => bytes.length ≤ maximumEntryBytes
  | _ => True

theorem invariant_initial : Invariant maximumEntryBytes {} := by
  refine ⟨⟨?_, ?_, ?_, ?_, ?_⟩, trivial, ?_, ?_, ?_⟩
  · intro i hi
    rcases hi with hi | hi <;> cases hi
  · intro i _ hi
    cases hi
  · intro i hi
    cases hi
  · intro i j hi
    cases hi
  · intro i hi
    cases hi
  · intro id reader hreader
    cases hreader
  · intro bytes hbytes
    cases hbytes
  · intro outcome houtcome
    cases houtcome

theorem Invariant.begin (h : Invariant maximumEntryBytes s) {writer : Writer}
    (hwriter : WriterOk maximumEntryBytes s.directory writer)
    (hwritten : ({ s with writer } : System).beingWritten = none) :
    Invariant maximumEntryBytes (s.begin writer) := by
  unfold System.begin
  split
  · exact h.turn hwriter hwritten
  · exact h

/-- **An event keeps the invariant**, if what it publishes fits. -/
theorem Invariant.step (h : Invariant maximumEntryBytes s) {event : Event}
    (hfits : Fits maximumEntryBytes s event) :
    Invariant maximumEntryBytes (s.step maximumEntryBytes event) := by
  cases event with
  | publish bytes => exact h.begin ⟨hfits, trivial⟩ rfl
  | recover => exact h.begin ⟨rfl, trivial⟩ rfl
  | remove expected => exact h.begin trivial rfl
  | advance amount =>
    have hwriter := h.writer
    simp only [System.step, System.advance]
    split
    case h_1 _ => exact h
    case h_2 bytes stage hstage =>
      rw [hstage] at hwriter
      exact h.publish hwriter hstage amount
    case h_3 due stage hstage =>
      rw [hstage] at hwriter
      exact h.recover hwriter
    case h_4 stage _ => exact h.removal stage
  | fail =>
    have hwriter := h.writer
    simp only [System.step, System.fail]
    split
    case h_1 _ => exact h
    case h_2 bytes stage hstage =>
      rw [hstage] at hwriter
      exact h.failPublish hwriter.1
    case h_3 due stage _ => exact h.finishRecovery rfl
    case h_4 stage _ => exact h.finish trivial
  | kill => exact h.turn trivial rfl
  | read id =>
    simp only [System.step]
    split
    case h_1 _ _ => exact h
    case h_2 _ => exact h.setReader readerOk_start
  | advanceReader id => exact h.advanceReader id
  | failReader id =>
    simp only [System.step]
    split
    case h_1 _ => exact h
    case h_2 reader _ => exact h.finishReader id (Or.inl rfl)
  | killReader id =>
    refine ⟨h.directory, h.writer, ?_, h.reported, h.log⟩
    intro other otherReader hother
    simp only [System.step, JsMap.get_delete] at hother
    split at hother
    case isTrue _ => cases hother
    case isFalse _ =>
      refine ReaderOk.same ?_ ?_ ?_ (h.readers other otherReader hother) <;> rfl

/-- **The invariant holds in every state of every run** whose publications fit. -/
theorem run_invariant {events : List Event}
    (hfits : Runs.Guarded (System.step maximumEntryBytes) (Fits maximumEntryBytes) {} events) :
    Invariant maximumEntryBytes (Runs.run (System.step maximumEntryBytes) {} events) :=
  Runs.guarded_invariant (System.step maximumEntryBytes) (Invariant maximumEntryBytes)
    (Fits maximumEntryBytes) (fun _ _ h hok => h.step hok) invariant_initial events hfits

end Runs

end JournalPublication

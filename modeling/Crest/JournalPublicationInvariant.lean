import Crest.JournalPublication

/-!
# The invariant of a journal publication

The directory is in one of four phases: empty, with a lone temporary file, with one file
under both names, or with a lone entry.  A file that was ever linked is complete and is not
written again, so what a reader takes from it is complete too.

A reader whose entry was not removed since it started knows more: the entry it saw is still
there, and a state that does not fit what it sees next means that the temporary name went in
between.  That happens once, so the second retry is the last.
-/

namespace JournalPublication

section Directories

/-- The phases of the directory. -/
structure DirectoryOk (maximumEntryBytes : Nat) (history : List Bytes) (d : Directory) : Prop where
  /-- The files of the names have numbers. -/
  fresh : ∀ i, d.destination = some i ∨ d.temporary = some i → i < d.next
  /-- A lone temporary file has one name and is not too long. -/
  temporary : ∀ i, d.destination = none → d.temporary = some i →
    (d.inodes i).nlink = 1 ∧ (d.inodes i).content.length ≤ maximumEntryBytes
  /-- A lone entry has one name. -/
  alone : ∀ i, d.destination = some i → d.temporary = none → (d.inodes i).nlink = 1
  /-- Two names are those of one file. -/
  pair : ∀ i j, d.destination = some i → d.temporary = some j → j = i ∧ (d.inodes i).nlink = 2
  /-- An entry is complete. -/
  complete : ∀ i, d.destination = some i →
    (d.inodes i).content ∈ history ∧ (d.inodes i).content.length ≤ maximumEntryBytes

/-- What a reader may rely on while the entry is not removed: an entry stays, and so does its
state, unless the temporary name goes. -/
structure Later (d d' : Directory) : Prop where
  destination : ∀ i, d.destination = some i → d'.destination = some i
  content : ∀ i, d.destination = some i → (d'.inodes i).content = (d.inodes i).content
  alone : ∀ i, d.destination = some i → d.temporary = none →
    d'.temporary = none ∧ d'.stat i = d.stat i
  pair : ∀ i, d.destination = some i → d'.temporary.isSome = true → d'.stat i = d.stat i

theorem Later.refl (d : Directory) : Later d d :=
  ⟨fun _ h => h, fun _ _ => rfl, fun _ _ h => ⟨h, rfl⟩, fun _ _ _ => rfl⟩

theorem later_of_none {d d' : Directory} (h : d.destination = none) : Later d d' := by
  constructor <;> intro i hi <;> rw [h] at hi <;> cases hi

theorem Later.entry {d d' : Directory} (h : Later d d') {bytes : Bytes}
    (hentry : d.entry = some bytes) :
    d'.entry = some bytes := by
  obtain ⟨i, hi, rfl⟩ := Option.map_eq_some_iff.mp hentry
  rw [Directory.entry, h.destination i hi, Option.map_some, h.content i hi]

end Directories

section Readers

/-- Where an undisturbed `readEntryWithState` of a lone entry is. -/
def EntrySteady (d : Directory) (i : Nat) : EntryStage → Prop
  | .openEntry expected => expected = d.stat i
  | .statHandle expected handle | .readFile expected handle => expected = d.stat i ∧ handle = i
  | .statAfter expected handle bytes =>
    expected = d.stat i ∧ handle = i ∧ bytes = (d.inodes i).content
  | .lstatNamed expected after bytes =>
    expected = d.stat i ∧ after = d.stat i ∧ bytes = (d.inodes i).content

/-- A state of the entry that was seen since the entry is there: it is the state now, or it
was before the temporary name went. -/
def Observed (d : Directory) (i : Nat) (state : Stat) : Prop :=
  state.ino = i ∧ state.size = (d.inodes i).content.length ∧
    (state.nlink = 1 ∧ d.temporary = none ∧ state = d.stat i ∨
      state.nlink = 2 ∧ (d.temporary.isSome = true → state = d.stat i))

/-- What the number of an attempt tells: after the first one the entry is there, after the
second one it is alone, and there is no fourth. -/
def AttemptOk (d : Directory) (attempt : Nat) : Prop :=
  attempt = 0 ∨ attempt = 1 ∧ d.destination.isSome = true ∨
    attempt = 2 ∧ d.destination.isSome = true ∧ d.temporary = none

/-- Where an undisturbed reader is. -/
def Steady (d : Directory) (due : Option Bytes) : ReaderStage → Prop
  | .lstatDestination attempt => AttemptOk d attempt
  | .lstatTemporary attempt none => attempt = 0 ∧ due = none
  | .lstatTemporary attempt (some state) =>
    ∃ i, d.destination = some i ∧ Observed d i state ∧ (state.nlink = 2 → attempt ≤ 1)
  | .openLinked attempt state => attempt ≤ 1 ∧ d.destination = some state.ino
  | .statLinked attempt state handle | .readLinked attempt state handle =>
    attempt ≤ 1 ∧ d.destination = some handle ∧ state.ino = handle
  | .statLinkedAfter attempt state handle bytes =>
    attempt ≤ 1 ∧ d.destination = some handle ∧ state.ino = handle ∧
      bytes = (d.inodes handle).content
  | .lstatLinkedDestination attempt state after bytes =>
    attempt ≤ 1 ∧ ∃ i, d.destination = some i ∧ state.ino = i ∧
      bytes = (d.inodes i).content ∧ Observed d i after
  | .lstatLinkedTemporary attempt state after named bytes =>
    attempt ≤ 1 ∧ ∃ i, d.destination = some i ∧ state.ino = i ∧
      bytes = (d.inodes i).content ∧ Observed d i after ∧ Observed d i named
  | .entry stage => ∃ i, d.destination = some i ∧ d.temporary = none ∧ EntrySteady d i stage

/-- The file that is being written. -/
def System.beingWritten (s : System) : Option Nat :=
  match s.writer with
  | .publishing _ .writeFile => s.directory.temporary
  | _ => none

/-- A file is complete. -/
structure Sealed (s : System) (i : Nat) : Prop where
  known : i < s.directory.next
  content : (s.directory.inodes i).content ∈ s.history
  notWritten : s.beingWritten ≠ some i

/-- What any `readEntryWithState` has is complete. -/
def EntryWeak (s : System) : EntryStage → Prop
  | .openEntry _ => True
  | .statHandle _ handle | .readFile _ handle => Sealed s handle
  | .statAfter _ _ bytes | .lstatNamed _ _ bytes => bytes ∈ s.history

/-- What any reader has is complete, and it has seen no state that is unsafe. -/
def Weak (maximumEntryBytes : Nat) (s : System) : ReaderStage → Prop
  | .lstatDestination _ | .openLinked _ _ => True
  | .lstatTemporary _ destination => ∀ state, destination = some state →
      state.size ≤ maximumEntryBytes ∧ (state.nlink = 1 ∨ state.nlink = 2)
  | .statLinked _ _ handle | .readLinked _ _ handle => Sealed s handle
  | .statLinkedAfter _ _ _ bytes | .lstatLinkedDestination _ _ _ bytes
  | .lstatLinkedTemporary _ _ _ _ bytes => bytes ∈ s.history
  | .entry stage => EntryWeak s stage

/-- What holds of a reader. -/
structure ReaderOk (maximumEntryBytes : Nat) (s : System) (reader : Reader) : Prop where
  weak : Weak maximumEntryBytes s reader.stage
  steady : reader.removed = false → Steady s.directory reader.due reader.stage
  due : reader.removed = false → ∀ bytes, reader.due = some bytes →
    s.directory.entry = some bytes

end Readers

section Writers

/-- Where a publication is. -/
def PublishOk (d : Directory) (bytes : Bytes) : PublishStage → Prop
  | .lstatDestination => True
  | .openTemporary => d.destination = none
  | .writeFile => d.destination = none ∧
      ∃ i, d.temporary = some i ∧ ∃ n, (d.inodes i).content = bytes.take n
  | .sync | .link => d.destination = none ∧
      ∃ i, d.temporary = some i ∧ (d.inodes i).content = bytes
  | .syncLink | .unlinkTemporary =>
    ∃ i, d.destination = some i ∧ d.temporary = some i ∧ (d.inodes i).content = bytes
  | .syncUnlink | .lstatPublished =>
    ∃ i, d.destination = some i ∧ d.temporary = none ∧ (d.inodes i).content = bytes
  | .cleanUp failure | .syncCleanUp failure => failure ≠ .unsafeEntry

/-- Where a recovery is. -/
def RecoverOk (d : Directory) : RecoverStage → Prop
  | .lstatDestination => True
  | .lstatTemporary destination => destination = d.lstatDestination
  | .unlinkTemporary published => d.temporary.isSome = true ∧ published = d.destination.isSome
  | .syncRoot published => d.temporary = none ∧ published = d.destination.isSome
  | .lstatRecovered => d.temporary = none ∧ d.destination.isSome = true
  | .entry stage => ∃ i, d.destination = some i ∧ d.temporary = none ∧ EntrySteady d i stage

/-- Where the holder of the lock is. -/
def WriterOk (maximumEntryBytes : Nat) (d : Directory) : Writer → Prop
  | .idle | .removing _ => True
  | .publishing bytes stage => bytes.length ≤ maximumEntryBytes ∧ PublishOk d bytes stage
  | .recovering due stage => due = d.entry ∧ RecoverOk d stage

/-- What an operation may come to. -/
def Outcome.Ok (history : List Bytes) : Outcome → Prop
  | .published _ failure => failure ≠ some .unsafeEntry
  | .recovered due .nothing destination temporary =>
    due = none ∧ destination = false ∧ temporary = false
  | .recovered due (.entry bytes) destination temporary =>
    due = some bytes ∧ bytes ∈ history ∧ destination = true ∧ temporary = false
  | .recovered _ (.threw failure) _ _ => failure = .io
  | .removed _ => True
  | .read due gone .nothing => gone = true ∨ due = none
  | .read due gone (.entry bytes) =>
    bytes ∈ history ∧ (gone = true ∨ due = none ∨ due = some bytes)
  | .read _ gone (.threw failure) =>
    failure = .io ∨ gone = true ∧ failure ≠ .unsafeEntry

/-- **The invariant.** -/
structure Invariant (maximumEntryBytes : Nat) (s : System) : Prop where
  directory : DirectoryOk maximumEntryBytes s.history s.directory
  writer : WriterOk maximumEntryBytes s.directory s.writer
  readers : ∀ id reader, s.readers.get id = some reader → ReaderOk maximumEntryBytes s reader
  reported : ∀ bytes, s.reported = some bytes → s.directory.entry = some bytes
  log : ∀ outcome ∈ s.log, outcome.Ok s.history

end Writers

section Monotone

variable {d d' : Directory} {i : Nat}

theorem EntrySteady.later (h : Later d d') (hi : d.destination = some i)
    (halone : d.temporary = none) {stage : EntryStage} (hstage : EntrySteady d i stage) :
    EntrySteady d' i stage := by
  obtain ⟨-, hstat⟩ := h.alone i hi halone
  have hcontent := h.content i hi
  cases stage <;> simp only [EntrySteady, hstat, hcontent] at hstage ⊢ <;> exact hstage

theorem Observed.later (h : Later d d') (hi : d.destination = some i) {state : Stat}
    (hstate : Observed d i state) :
    Observed d' i state := by
  obtain ⟨hino, hsize, hcase⟩ := hstate
  refine ⟨hino, by rw [hsize, h.content i hi], ?_⟩
  rcases hcase with ⟨hone, halone, hsame⟩ | ⟨htwo, hsame⟩
  · obtain ⟨halone', hstat⟩ := h.alone i hi halone
    exact Or.inl ⟨hone, halone', hsame.trans hstat.symm⟩
  · refine Or.inr ⟨htwo, fun hpair => ?_⟩
    cases htemporary : d.temporary with
    | none =>
      rw [(h.alone i hi htemporary).1] at hpair
      cases hpair
    | some j => rw [h.pair i hi hpair, hsame (by rw [htemporary]; rfl)]

theorem AttemptOk.later (h : Later d d') {attempt : Nat} (hattempt : AttemptOk d attempt) :
    AttemptOk d' attempt := by
  rcases hattempt with rfl | ⟨rfl, hsome⟩ | ⟨rfl, hsome, halone⟩
  · exact Or.inl rfl
  · obtain ⟨i, hi⟩ := Option.isSome_iff_exists.mp hsome
    exact Or.inr (Or.inl ⟨rfl, Option.isSome_of_mem (h.destination i hi)⟩)
  · obtain ⟨i, hi⟩ := Option.isSome_iff_exists.mp hsome
    exact Or.inr (Or.inr ⟨rfl, Option.isSome_of_mem (h.destination i hi), (h.alone i hi halone).1⟩)

theorem Steady.later (h : Later d d') {due : Option Bytes} {stage : ReaderStage}
    (hstage : Steady d due stage) :
    Steady d' due stage := by
  cases stage with
  | lstatDestination attempt => exact AttemptOk.later h hstage
  | lstatTemporary attempt destination =>
    cases destination with
    | none => exact hstage
    | some state =>
      obtain ⟨i, hi, hstate, hattempt⟩ := hstage
      exact ⟨i, h.destination i hi, hstate.later h hi, hattempt⟩
  | openLinked attempt state => exact ⟨hstage.1, h.destination _ hstage.2⟩
  | statLinked _ _ _ | readLinked _ _ _ =>
    exact ⟨hstage.1, h.destination _ hstage.2.1, hstage.2.2⟩
  | statLinkedAfter attempt state handle bytes =>
    obtain ⟨hattempt, hi, hino, hbytes⟩ := hstage
    exact ⟨hattempt, h.destination _ hi, hino, hbytes.trans (h.content _ hi).symm⟩
  | lstatLinkedDestination attempt state after bytes =>
    obtain ⟨hattempt, i, hi, hino, hbytes, hafter⟩ := hstage
    exact ⟨hattempt, i, h.destination i hi, hino, hbytes.trans (h.content i hi).symm,
      hafter.later h hi⟩
  | lstatLinkedTemporary attempt state after named bytes =>
    obtain ⟨hattempt, i, hi, hino, hbytes, hafter, hnamed⟩ := hstage
    exact ⟨hattempt, i, h.destination i hi, hino, hbytes.trans (h.content i hi).symm,
      hafter.later h hi, hnamed.later h hi⟩
  | entry stage =>
    obtain ⟨i, hi, halone, hentry⟩ := hstage
    exact ⟨i, h.destination i hi, (h.alone i hi halone).1, hentry.later h hi halone⟩

/-- Files that are complete stay complete. -/
structure Keeps (s s' : System) : Prop where
  sealed : ∀ i, Sealed s i → Sealed s' i
  history : ∀ bytes ∈ s.history, bytes ∈ s'.history

variable {s s' : System} {maximumEntryBytes : Nat}

theorem Weak.keeps (h : Keeps s s') {stage : ReaderStage}
    (hstage : Weak maximumEntryBytes s stage) :
    Weak maximumEntryBytes s' stage := by
  cases stage with
  | lstatDestination _ | openLinked _ _ => trivial
  | lstatTemporary _ _ => exact hstage
  | statLinked _ _ handle | readLinked _ _ handle => exact h.sealed handle hstage
  | statLinkedAfter _ _ _ bytes | lstatLinkedDestination _ _ _ bytes
  | lstatLinkedTemporary _ _ _ _ bytes => exact h.history bytes hstage
  | entry stage =>
    cases stage with
    | openEntry _ => trivial
    | statHandle _ handle | readFile _ handle => exact h.sealed handle hstage
    | statAfter _ _ bytes | lstatNamed _ _ bytes => exact h.history bytes hstage

theorem ReaderOk.later (hkeeps : Keeps s s') (hlater : Later s.directory s'.directory)
    {reader : Reader} (h : ReaderOk maximumEntryBytes s reader) :
    ReaderOk maximumEntryBytes s' reader :=
  ⟨h.weak.keeps hkeeps, fun hremoved => (h.steady hremoved).later hlater,
    fun hremoved bytes hdue => hlater.entry (h.due hremoved bytes hdue)⟩

theorem Outcome.Ok.mono {history history' : List Bytes}
    (h : ∀ bytes ∈ history, bytes ∈ history') {outcome : Outcome} (hok : outcome.Ok history) :
    outcome.Ok history' := by
  cases outcome with
  | published _ _ => exact hok
  | removed _ => trivial
  | recovered due result destination temporary =>
    cases result with
    | nothing | threw _ => exact hok
    | entry bytes => exact ⟨hok.1, h bytes hok.2.1, hok.2.2⟩
  | read due removed result =>
    cases result with
    | nothing | threw _ => exact hok
    | entry bytes => exact ⟨h bytes hok.1, hok.2⟩

end Monotone

end JournalPublication

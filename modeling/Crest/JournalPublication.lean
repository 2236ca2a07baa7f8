import Crest.JsMap
import Crest.Runs

/-!
# Publication of a journal entry

An entry of a private directory is published once: it is written under a temporary name,
linked to its name, and the temporary name is removed.  A worker that is killed leaves one of
the states in between, and recovery completes or undoes it.  Readers do not wait for either:
they look at the two names and at the file in separate calls, and look again when what they
saw does not fit together.

The holder of the workspace lock publishes, recovers or removes, one thing at a time.  Any
number of readers run next to it.  The calls of all of them interleave, and each may fail.
-/

namespace JournalPublication

/-- The bytes of a file. -/
abbrev Bytes := List UInt8

/-- A private regular file. -/
structure Inode where
  content : Bytes := []
  nlink : Nat := 1
  /-- How often it has changed, which its times tell. -/
  changes : Nat := 0
  deriving DecidableEq, Repr

/-- What `stat` tells of a file.  The number stands for device, inode and birth time. -/
structure Stat where
  ino : Nat
  nlink : Nat
  size : Nat
  changes : Nat
  deriving DecidableEq, Repr

/-- The private directory, as far as one publication is concerned. -/
structure Directory where
  destination : Option Nat := none
  temporary : Option Nat := none
  /-- The files. -/
  inodes : Nat → Inode := fun _ => {}
  next : Nat := 0

namespace Directory

variable (d : Directory)

/-- `stat` of a file. -/
def stat (ino : Nat) : Stat :=
  ⟨ino, (d.inodes ino).nlink, (d.inodes ino).content.length, (d.inodes ino).changes⟩

/-- `lstatOptional` of the entry. -/
def lstatDestination : Option Stat := d.destination.map d.stat

/-- `lstatOptional` of the temporary name. -/
def lstatTemporary : Option Stat := d.temporary.map d.stat

/-- The bytes of the entry. -/
def entry : Option Bytes := d.destination.map fun ino => (d.inodes ino).content

/-- A file changes. -/
def change (ino : Nat) (f : Inode → Inode) : Directory :=
  { d with inodes := fun i =>
      if i = ino then { f (d.inodes ino) with changes := (d.inodes ino).changes + 1 }
      else d.inodes i }

/-- The exclusive creation of the temporary file. -/
def create : Directory :=
  { d with
    temporary := some d.next
    inodes := fun i => if i = d.next then {} else d.inodes i
    next := d.next + 1 }

/-- A write to a file. -/
def write (ino : Nat) (content : Bytes) : Directory :=
  d.change ino fun inode => { inode with content }

/-- The temporary file is linked to the name of the entry. -/
def link (ino : Nat) : Directory :=
  { d.change ino fun inode => { inode with nlink := inode.nlink + 1 } with
    destination := some ino }

/-- The temporary name goes. -/
def unlinkTemporary (ino : Nat) : Directory :=
  { d.change ino fun inode => { inode with nlink := inode.nlink - 1 } with temporary := none }

/-- The entry goes. -/
def unlinkDestination (ino : Nat) : Directory :=
  { d.change ino fun inode => { inode with nlink := inode.nlink - 1 } with destination := none }

end Directory

/-- Why an operation throws. -/
inductive Failure
  /-- A message that calls an entry unsafe. -/
  | unsafeEntry
  /-- `journal publication pair does not match`. -/
  | pairMismatch
  /-- `journal entry changed`, or `journal publication changed while reading`. -/
  | changed
  /-- `ENOENT`. -/
  | missing
  /-- `EEXIST`. -/
  | alreadyExists
  /-- `journal write destination appeared`. -/
  | appeared
  /-- A call failed for another reason. -/
  | io
  deriving DecidableEq, Repr

/-- What a reader or a recovery comes to. -/
inductive Result
  | nothing
  | entry (bytes : Bytes)
  | threw (failure : Failure)
  deriving DecidableEq, Repr

/-- An operation after one of its calls. -/
inductive Progress (σ : Type)
  | more (stage : σ)
  | done (result : Result)

def safePrivateRegular (state : Stat) (maximumEntryBytes expectedNlink : Nat) : Bool :=
  decide (state.nlink = expectedNlink) && decide (state.size ≤ maximumEntryBytes)

def sameInode (left right : Stat) : Bool := decide (left.ino = right.ino)

/-- The calls of `readEntryWithState`. -/
inductive EntryStage
  | openEntry (expected : Stat)
  | statHandle (expected : Stat) (handle : Nat)
  | readFile (expected : Stat) (handle : Nat)
  | statAfter (expected : Stat) (handle : Nat) (bytes : Bytes)
  | lstatNamed (expected after : Stat) (bytes : Bytes)
  deriving DecidableEq

/-- `readEntryWithState`, with the state of the entry before. -/
def readEntryWithState (maximumEntryBytes : Nat) (before : Stat) : Progress EntryStage :=
  if safePrivateRegular before maximumEntryBytes 1 then .more (.openEntry before)
  else .done (.threw .unsafeEntry)

/-- The next call of `readEntryWithState`. -/
def EntryStage.step (d : Directory) : EntryStage → Progress EntryStage
  | .openEntry expected =>
    match d.destination with
    | none => .done (.threw .missing)
    | some ino => .more (.statHandle expected ino)
  | .statHandle expected handle =>
    if d.stat handle = expected then .more (.readFile expected handle)
    else .done (.threw .changed)
  | .readFile expected handle =>
    .more (.statAfter expected handle (d.inodes handle).content)
  | .statAfter expected handle bytes => .more (.lstatNamed expected (d.stat handle) bytes)
  | .lstatNamed expected after bytes =>
    match d.lstatDestination with
    | none => .done (.threw .missing)
    | some named =>
      if after = expected && named = expected then .done (.entry bytes)
      else .done (.threw .changed)

/-- The calls of `readPublication`, with the number of the attempt.  Those from `openLinked` on
are the calls of `readLinkedPublicationEntry`. -/
inductive ReaderStage
  | lstatDestination (attempt : Nat)
  | lstatTemporary (attempt : Nat) (destination : Option Stat)
  | openLinked (attempt : Nat) (destination : Stat)
  | statLinked (attempt : Nat) (destination : Stat) (handle : Nat)
  | readLinked (attempt : Nat) (destination : Stat) (handle : Nat)
  | statLinkedAfter (attempt : Nat) (destination : Stat) (handle : Nat) (bytes : Bytes)
  | lstatLinkedDestination (attempt : Nat) (destination after : Stat) (bytes : Bytes)
  | lstatLinkedTemporary (attempt : Nat) (destination after named : Stat) (bytes : Bytes)
  | entry (stage : EntryStage)
  deriving DecidableEq

/-- The next attempt of `readPublication`, if there is one left. -/
def tryAgain (attempt : Nat) : Progress ReaderStage :=
  if attempt + 1 < 4 then .more (.lstatDestination (attempt + 1)) else .done (.threw .changed)

/-- The rest of a read after a call of `readEntryWithState`. -/
def ofEntry : Progress EntryStage → Progress ReaderStage
  | .more stage => .more (.entry stage)
  | .done result => .done result

/-- What `readPublication` makes of the two names. -/
def judgePair (maximumEntryBytes attempt : Nat) (destination temporary : Option Stat) :
    Progress ReaderStage :=
  match destination, temporary with
  | none, none => .done .nothing
  | none, some temporary =>
    if safePrivateRegular temporary maximumEntryBytes 1 then .done .nothing
    else if safePrivateRegular temporary maximumEntryBytes 2 then tryAgain attempt
    else .done (.threw .unsafeEntry)
  | some destination, none =>
    if safePrivateRegular destination maximumEntryBytes 2 then tryAgain attempt
    else ofEntry (readEntryWithState maximumEntryBytes destination)
  | some destination, some temporary =>
    if !sameInode destination temporary then .done (.threw .pairMismatch)
    else if !safePrivateRegular destination maximumEntryBytes 2 ||
        !safePrivateRegular temporary maximumEntryBytes 2 then tryAgain attempt
    else .more (.openLinked attempt destination)

/-- What `readLinkedPublicationEntry` makes of what it saw. -/
def judgeLinked (maximumEntryBytes attempt : Nat) (destination after named : Stat)
    (temporary : Option Stat) (bytes : Bytes) : Progress ReaderStage :=
  if after ≠ named || !sameInode after destination then tryAgain attempt
  else
    match temporary with
    | some temporary =>
      if !safePrivateRegular after maximumEntryBytes 2 ||
          !safePrivateRegular temporary maximumEntryBytes 2 ||
          !sameInode after temporary then tryAgain attempt
      else .done (.entry bytes)
    | none =>
      if !safePrivateRegular after maximumEntryBytes 1 then tryAgain attempt
      else .done (.entry bytes)

/-- The next call of `readPublication`. -/
def ReaderStage.step (maximumEntryBytes : Nat) (d : Directory) :
    ReaderStage → Progress ReaderStage
  | .lstatDestination attempt => .more (.lstatTemporary attempt d.lstatDestination)
  | .lstatTemporary attempt destination =>
    judgePair maximumEntryBytes attempt destination d.lstatTemporary
  | .openLinked attempt destination =>
    match d.destination with
    | none => .done (.threw .missing)
    | some ino => .more (.statLinked attempt destination ino)
  | .statLinked attempt destination handle =>
    if sameInode (d.stat handle) destination then
      .more (.readLinked attempt destination handle)
    else tryAgain attempt
  | .readLinked attempt destination handle =>
    .more (.statLinkedAfter attempt destination handle (d.inodes handle).content)
  | .statLinkedAfter attempt destination handle bytes =>
    .more (.lstatLinkedDestination attempt destination (d.stat handle) bytes)
  | .lstatLinkedDestination attempt destination after bytes =>
    match d.lstatDestination with
    | none => .done (.threw .missing)
    | some named => .more (.lstatLinkedTemporary attempt destination after named bytes)
  | .lstatLinkedTemporary attempt destination after named bytes =>
    judgeLinked maximumEntryBytes attempt destination after named d.lstatTemporary bytes
  | .entry stage => ofEntry (stage.step d)

/-- The calls of `recoverPublication`; `published` tells whether the entry was there. -/
inductive RecoverStage
  | lstatDestination
  | lstatTemporary (destination : Option Stat)
  | unlinkTemporary (published : Bool)
  | syncRoot (published : Bool)
  | lstatRecovered
  | entry (stage : EntryStage)
  deriving DecidableEq

/-- What `recoverPublication` makes of the two names. -/
def judgeRecovery (maximumEntryBytes : Nat) (destination temporary : Option Stat) :
    Progress RecoverStage :=
  match destination, temporary with
  | none, none => .done .nothing
  | none, some temporary =>
    if safePrivateRegular temporary maximumEntryBytes 1 then .more (.unlinkTemporary false)
    else .done (.threw .unsafeEntry)
  | some destination, none =>
    if safePrivateRegular destination maximumEntryBytes 1 then .more (.syncRoot true)
    else .done (.threw .unsafeEntry)
  | some destination, some temporary =>
    if safePrivateRegular destination maximumEntryBytes 2 &&
        safePrivateRegular temporary maximumEntryBytes 2 &&
        sameInode destination temporary then .more (.unlinkTemporary true)
    else .done (.threw .unsafeEntry)

/-- The rest of a recovery after a call of `readEntryWithState`. -/
def ofRecoveredEntry : Progress EntryStage → Progress RecoverStage
  | .more stage => .more (.entry stage)
  | .done result => .done result

/-- The next call of `recoverPublication`. -/
def RecoverStage.step (maximumEntryBytes : Nat) (d : Directory) :
    RecoverStage → Directory × Progress RecoverStage
  | .lstatDestination => (d, .more (.lstatTemporary d.lstatDestination))
  | .lstatTemporary destination => (d, judgeRecovery maximumEntryBytes destination d.lstatTemporary)
  | .unlinkTemporary published =>
    match d.temporary with
    | none => (d, .done (.threw .missing))
    | some ino => (d.unlinkTemporary ino, .more (.syncRoot published))
  | .syncRoot published => (d, if published then .more .lstatRecovered else .done .nothing)
  | .lstatRecovered =>
    match d.lstatDestination with
    | none => (d, .done (.threw .missing))
    | some recovered => (d, ofRecoveredEntry (readEntryWithState maximumEntryBytes recovered))
  | .entry stage => (d, ofRecoveredEntry (stage.step d))

/-- The calls of `publish-no-replace`. -/
inductive PublishStage
  | lstatDestination
  | openTemporary
  | writeFile
  | sync
  | link
  | syncLink
  | unlinkTemporary
  | syncUnlink
  | lstatPublished
  /-- The `unlink` of the `catch`, before the error is thrown again. -/
  | cleanUp (failure : Failure)
  /-- The sync after it. -/
  | syncCleanUp (failure : Failure)
  deriving DecidableEq

/-- The calls of `remove`. -/
inductive RemoveStage
  | lstatSource (expected : Stat)
  | unlink
  | syncRoot
  deriving DecidableEq

/-- What the holder of the lock does; a recovery comes with what the entry held when it
started. -/
inductive Writer
  | idle
  | publishing (bytes : Bytes) (stage : PublishStage)
  | recovering (due : Option Bytes) (stage : RecoverStage)
  | removing (stage : RemoveStage)
  deriving DecidableEq

/-- A reader, with what the entry held when it started and whether the entry was removed
since. -/
structure Reader where
  stage : ReaderStage
  due : Option Bytes
  removed : Bool := false
  deriving DecidableEq

/-- An operation that is over. -/
inductive Outcome
  | published (bytes : Bytes) (failure : Option Failure)
  /-- With whether the two names are there afterwards. -/
  | recovered (due : Option Bytes) (result : Result) (destination temporary : Bool)
  | removed (failure : Option Failure)
  | read (due : Option Bytes) (removed : Bool) (result : Result)
  deriving DecidableEq

/-- The directory and everybody who works on it. -/
structure System where
  directory : Directory := {}
  writer : Writer := .idle
  readers : JsMap Nat Reader := JsMap.empty
  /-- What was ever published, also by a publication that then failed. -/
  history : List Bytes := []
  /-- The publication that reported success, until the entry is removed. -/
  reported : Option Bytes := none
  log : List Outcome := []

/-- What can happen. -/
inductive Event
  | publish (bytes : Bytes)
  | recover
  | remove (expected : Stat)
  /-- The next call of the holder of the lock; a write writes at most `amount` bytes. -/
  | advance (amount : Nat)
  /-- The next call of the holder of the lock fails. -/
  | fail
  /-- The holder of the lock is killed. -/
  | kill
  | read (reader : Nat)
  | advanceReader (reader : Nat)
  | failReader (reader : Nat)
  | killReader (reader : Nat)
  deriving DecidableEq

namespace System

variable (maximumEntryBytes : Nat) (s : System)

/-- The holder of the lock is done. -/
def finish (outcome : Outcome) : System :=
  { s with writer := .idle, log := s.log ++ [outcome] }

/-- A publication goes on. -/
def goOn (bytes : Bytes) (stage : PublishStage) : System :=
  { s with writer := .publishing bytes stage }

/-- The next call of `publish-no-replace`. -/
def advancePublish (bytes : Bytes) (amount : Nat) : PublishStage → System
  | .lstatDestination =>
    if s.directory.destination.isSome then s.finish (.published bytes (some .appeared))
    else s.goOn bytes .openTemporary
  | .openTemporary =>
    if s.directory.temporary.isSome then s.finish (.published bytes (some .alreadyExists))
    else { s with directory := s.directory.create }.goOn bytes .writeFile
  | .writeFile =>
    match s.directory.temporary with
    | none => s.goOn bytes .sync
    | some ino =>
      let written := bytes.take ((s.directory.inodes ino).content.length + amount)
      { s with directory := s.directory.write ino written }.goOn bytes
        (if written = bytes then .sync else .writeFile)
  | .sync => s.goOn bytes .link
  | .link =>
    match s.directory.temporary, s.directory.destination with
    | some ino, none =>
      { s with directory := s.directory.link ino, history := s.history ++ [bytes] }.goOn
        bytes .syncLink
    | some _, some _ => s.goOn bytes (.cleanUp .alreadyExists)
    | none, _ => s.goOn bytes (.cleanUp .missing)
  | .syncLink => s.goOn bytes .unlinkTemporary
  | .unlinkTemporary =>
    match s.directory.temporary with
    | none => s.goOn bytes (.cleanUp .missing)
    | some ino =>
      { s with directory := s.directory.unlinkTemporary ino }.goOn bytes .syncUnlink
  | .syncUnlink => s.goOn bytes .lstatPublished
  | .lstatPublished =>
    match s.directory.lstatDestination with
    | none => s.finish (.published bytes (some .missing))
    | some published =>
      if published.nlink = 1 then
        { s with reported := some bytes }.finish (.published bytes none)
      else s.finish (.published bytes (some .unsafeEntry))
  | .cleanUp failure =>
    match s.directory.temporary with
    | none => s.finish (.published bytes (some failure))
    | some ino =>
      { s with directory := s.directory.unlinkTemporary ino }.goOn bytes
        (.syncCleanUp failure)
  | .syncCleanUp failure => s.finish (.published bytes (some failure))

/-- A call of `publish-no-replace` fails: the `try` block ends in the `catch`. -/
def failPublish (bytes : Bytes) : PublishStage → System
  | .writeFile | .sync | .link | .syncLink | .unlinkTemporary | .syncUnlink =>
    s.goOn bytes (.cleanUp .io)
  | .lstatDestination | .openTemporary | .lstatPublished | .cleanUp _ | .syncCleanUp _ =>
    s.finish (.published bytes (some .io))

/-- The outcome of a recovery. -/
def finishRecovery (due : Option Bytes) (result : Result) : System :=
  s.finish (.recovered due result s.directory.destination.isSome s.directory.temporary.isSome)

/-- The next call of `recoverPublication`. -/
def advanceRecovery (due : Option Bytes) (stage : RecoverStage) : System :=
  let next := stage.step maximumEntryBytes s.directory
  match next.2 with
  | .more stage => { s with directory := next.1, writer := .recovering due stage }
  | .done result => { s with directory := next.1 }.finishRecovery due result

/-- The entry is unlinked, and the readers that are under way take note of it. -/
def removeEntry (ino : Nat) : System :=
  { s with
    directory := s.directory.unlinkDestination ino
    reported := none
    readers := s.readers.filterMap fun _ reader => some { reader with removed := true } }

/-- The next call of `remove`. -/
def advanceRemoval : RemoveStage → System
  | .lstatSource expected =>
    match s.directory.lstatDestination with
    | none => s.finish (.removed (some .missing))
    | some source =>
      if source = expected then { s with writer := .removing .unlink }
      else s.finish (.removed (some .changed))
  | .unlink =>
    match s.directory.destination with
    | none => s.finish (.removed (some .missing))
    | some ino => { s.removeEntry ino with writer := .removing .syncRoot }
  | .syncRoot => s.finish (.removed none)

/-- The next call of the holder of the lock. -/
def advance (amount : Nat) : System :=
  match s.writer with
  | .idle => s
  | .publishing bytes stage => s.advancePublish bytes amount stage
  | .recovering due stage => s.advanceRecovery maximumEntryBytes due stage
  | .removing stage => s.advanceRemoval stage

/-- The next call of the holder of the lock fails. -/
def fail : System :=
  match s.writer with
  | .idle => s
  | .publishing bytes stage => s.failPublish bytes stage
  | .recovering due _ => s.finishRecovery due (.threw .io)
  | .removing _ => s.finish (.removed (some .io))

/-- A reader is done. -/
def finishReader (id : Nat) (reader : Reader) (result : Result) : System :=
  { s with
    readers := s.readers.delete id
    log := s.log ++ [.read reader.due reader.removed result] }

/-- The next call of a reader. -/
def advanceReader (id : Nat) : System :=
  match s.readers.get id with
  | none => s
  | some reader =>
    match reader.stage.step maximumEntryBytes s.directory with
    | .more stage => { s with readers := s.readers.set id { reader with stage } }
    | .done result => s.finishReader id reader result

/-- The holder of the lock takes something on, if it is free. -/
def begin (writer : Writer) : System :=
  match s.writer with
  | .idle => { s with writer }
  | _ => s

/-- One event. -/
def step : Event → System
  | .publish bytes => s.begin (.publishing bytes .lstatDestination)
  | .recover => s.begin (.recovering s.directory.entry .lstatDestination)
  | .remove expected => s.begin (.removing (.lstatSource expected))
  | .advance amount => s.advance maximumEntryBytes amount
  | .fail => s.fail
  | .kill => { s with writer := .idle }
  | .read id =>
    match s.readers.get id with
    | some _ => s
    | none =>
      { s with readers := s.readers.set id ⟨.lstatDestination 0, s.directory.entry, false⟩ }
  | .advanceReader id => s.advanceReader maximumEntryBytes id
  | .failReader id =>
    match s.readers.get id with
    | none => s
    | some reader => s.finishReader id reader (.threw .io)
  | .killReader id => { s with readers := s.readers.delete id }

end System

end JournalPublication

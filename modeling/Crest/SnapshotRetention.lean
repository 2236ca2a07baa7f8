import Crest.SnapshotOwners
import Crest.Runs

/-!
# Removing snapshots nobody owns

A run of the retention collects the owners of all snapshots, makes sure that their
refs exist, and looks at every ref of the store.  A ref without an owner is written to
a ledger with the time; when it has been there for long enough it is deleted.  A run
may stop after any of its steps, and the next one goes by the ledger it finds.
-/

namespace Workspace

open JsString

def orphanGraceMs : Int := 7 * 24 * 60 * 60 * 1000

/-- What follows `start` in a text that starts with it. -/
def afterStart (start value : JsString) : Option JsString :=
  if start.isPrefixOf value then some (value.drop start.length) else none

/-- The hash and the token of a turn under way. -/
def isPendingRefRest (rest : JsString) : Bool :=
  isIdentity (rest.take 64) && rest[64]? = some 0x2F && matchesTokenPattern (rest.drop 65)

def isCrestRetentionRef (value : JsString) : Bool :=
  (afterStart (js "refs/crest/snapshots/") value).any isGitOid ||
    (afterStart (js "refs/crest/pending/") value).any isPendingRefRest ||
    (afterStart (js "refs/crest/ops/") value).any matchesTokenPattern

/-- `validateCrestRefName`. -/
def isCrestRefName (value : JsString) : Bool :=
  isCrestRetentionRef value && !isUnsafeRefSuffix value

/-- The file of the ledger: there may be none, it may not be readable as JSON, or it
holds a value. -/
inductive LedgerFile
  | absent
  | unreadable
  | json (value : Json)
  deriving DecidableEq, Repr

/-- One field of the ledger. -/
def readLedgerField (ledger : JsMap JsString Nat) (field : JsString × Json) :
    Option (JsMap JsString Nat) :=
  if isCrestRetentionRef field.1 then do
    let firstSeen ← decodeNonnegativeInteger field.2
    some (ledger.set field.1 firstSeen)
  else none

def readLedger : LedgerFile → Option (JsMap JsString Nat)
  | .absent => some JsMap.empty
  | .unreadable => none
  | .json value =>
    if value.isRecord && value.get (js "schemaversion") = some (.num 1) then
      match value.get (js "firstseenbyref") with
      | some (.obj fields) => fields.foldlM readLedgerField JsMap.empty
      | _ => none
    else none

/-- The ledger as it is written. -/
def ledgerJson (firstSeen : JsMap JsString Int) : Json :=
  Json.copyJsonValue (.obj
    [(js "schemaversion", .num 1),
      (js "firstseenbyref", .obj (firstSeen.entries.map fun e => (e.1, .num e.2)))])

/-- The store: its refs, and the ledger beside them. -/
structure RefStore where
  refs : JsMap JsString JsString := JsMap.empty
  ledger : LedgerFile := .absent

/-- Where a run stops, because it fails or the process ends. -/
inductive Stop
  /-- Before it touches a ref. -/
  | verifying
  /-- After it made sure of some refs. -/
  | anchoring (count : Nat)
  /-- Before it writes the ledger. -/
  | listing
  /-- After it wrote the ledger. -/
  | written
  /-- After it deleted some refs. -/
  | deleting (count : Nat)
  deriving DecidableEq, Repr

/-- What a run depends on besides the store. -/
structure RunInput where
  sources : OwnerSources
  now : Int
  stop : Option Stop := none

/-- What is to be done about a ref. -/
inductive RefFate
  | live
  | orphan (firstSeen : Int)
  | expired
  deriving DecidableEq, Repr

/-- One round of the loop over the refs. -/
def refFate (live : List JsString) (ledger : JsMap JsString Nat) (now : Int)
    (name : JsString) : RefFate :=
  if name ∈ live then .live
  else
    match ledger.get name with
    | none => .orphan now
    | some firstSeen =>
      if now - firstSeen ≤ orphanGraceMs then .orphan firstSeen else .expired

variable (digest : Digest) (descriptorOid : PendingWorkspaceBoundaryV1 → JsString)
variable (store : StoreIdentity)

/-- The refs `anchorSnapshot` makes sure of. -/
def snapshotAnchors (snapshot : WorkspaceSnapshotRefV1) : List (JsString × JsString) :=
  [(snapshotObjectRefName snapshot.id, snapshot.id),
    (ownerRefName snapshot.id, snapshot.scopeManifest)]

/-- The refs `anchorPending` makes sure of. -/
def pendingAnchors (record : PendingWorkspaceBoundaryV1) : List (JsString × JsString) :=
  (pendingSnapshots record).flatMap snapshotAnchors ++
    (pendingRefName digest record).toList.map fun name => (name, descriptorOid record)

/-- All refs a run makes sure of. -/
def SnapshotOwners.anchors (owners : SnapshotOwners) : List (JsString × JsString) :=
  owners.snapshots.values.flatMap snapshotAnchors ++
    owners.pending.flatMap (pendingAnchors digest descriptorOid)

/-- The refs after some were made sure of. -/
def anchorRefs (refs : JsMap JsString JsString) (anchors : List (JsString × JsString)) :
    JsMap JsString JsString :=
  anchors.foldl (fun refs anchor => refs.set anchor.1 anchor.2) refs

/-- Whether a ref is in one of the listed namespaces. -/
def isListedNamespace (name : JsString) : Bool :=
  (js "refs/crest/snapshots/").isPrefixOf name || (js "refs/crest/pending/").isPrefixOf name ||
    (js "refs/crest/ops/").isPrefixOf name

def listCrestRefs (refs : JsMap JsString JsString) : Option (JsMap JsString JsString) :=
  let listed := refs.filterMap fun name oid => if isListedNamespace name then some oid else none
  if listed.keys.all isCrestRefName && listed.values.all isGitOid then some listed else none

/-- The refs one deletion names: a snapshot is deleted with its second ref, if it has
one. -/
def deletionNames (refs : JsMap JsString JsString) (name : JsString) : List JsString :=
  match (afterStart (js "refs/crest/snapshots/") name).filter isGitOid with
  | some id =>
    if refs.has (snapshotObjectRefName id) then [name, snapshotObjectRefName id] else [name]
  | none => [name]

/-- The refs after some were deleted. -/
def removeRefs (refs : JsMap JsString JsString) (names : List JsString) :
    JsMap JsString JsString :=
  names.foldl (fun refs name => refs.delete name) refs

/-- What a run did, for those who look back. -/
structure RunRecord where
  sources : OwnerSources
  now : Int
  ledger : LedgerFile
  wroteLedger : Bool := false
  /-- The refs it wrote to the ledger for the first time. -/
  recorded : List JsString := []
  deleted : List JsString := []
  removedRefs : List JsString := []

/-- The ledger a run writes. -/
def nextLedger (live : List JsString) (ledger : JsMap JsString Nat) (now : Int)
    (refs : JsMap JsString JsString) : JsMap JsString Int :=
  refs.filterMap fun name _ =>
    match refFate live ledger now name with
    | .orphan firstSeen => some firstSeen
    | .live | .expired => none

/-- The refs whose time is over. -/
def expiredRefs (live : List JsString) (ledger : JsMap JsString Nat) (now : Int)
    (refs : JsMap JsString JsString) : List JsString :=
  refs.keys.filter fun name => refFate live ledger now name = .expired

/-- The refs that are not in the ledger yet. -/
def newOrphans (live : List JsString) (ledger : JsMap JsString Nat)
    (refs : JsMap JsString JsString) : List JsString :=
  refs.keys.filter fun name => name ∉ live ∧ ledger.get name = none

/-- How many refs a run deletes before it stops. -/
def Stop.deletions (stop : Option Stop) (names : List JsString) : List JsString :=
  match stop with
  | none => names
  | some (.deleting count) => names.take count
  | some _ => []

/-- The part of a run after the owners were collected and their refs made sure of. -/
def sweep (input : RunInput) (owners : SnapshotOwners) (s : RefStore) (record : RunRecord) :
    RefStore × RunRecord :=
  match listCrestRefs s.refs, readLedger s.ledger with
  | some refs, some ledger =>
    if input.stop = some .listing then (s, record)
    else
      let live := owners.liveRefNames
      let expired := expiredRefs live ledger input.now refs
      let names := expired.flatMap (deletionNames s.refs)
      let deleted := Stop.deletions input.stop names
      ({ refs := removeRefs s.refs deleted
         ledger := .json (ledgerJson (nextLedger live ledger input.now refs)) },
        { record with
          wroteLedger := true
          recorded := newOrphans live ledger refs
          deleted
          removedRefs := if input.stop = none then expired else [] })
  | _, _ => (s, record)

def reconcileSnapshotRefsLocked (input : RunInput) (s : RefStore) : RefStore × RunRecord :=
  let record : RunRecord := { sources := input.sources, now := input.now, ledger := s.ledger }
  match scanOwners digest store input.sources with
  | none => (s, record)
  | some owners =>
    let anchors := owners.anchors digest descriptorOid
    match input.stop with
    | some .verifying => (s, record)
    | some (.anchoring count) =>
      ({ s with refs := anchorRefs s.refs (anchors.take count) }, record)
    | _ => sweep input owners { s with refs := anchorRefs s.refs anchors } record

/-- The store and the runs so far, the last one first. -/
structure History where
  store : RefStore := {}
  runs : List RunRecord := []

/-- What happens to a store. -/
inductive StoreEvent
  /-- A run of the retention. -/
  | reconcile (input : RunInput)
  /-- Others add and remove refs. -/
  | changeRefs (refs : JsMap JsString JsString)
  /-- The ledger is lost, or what is left of it cannot be read. -/
  | damageLedger (file : LedgerFile)

/-- One event in the life of a store. -/
def History.step (h : History) : StoreEvent → History
  | .reconcile input =>
    let (store', record) := reconcileSnapshotRefsLocked digest descriptorOid store input h.store
    { store := store', runs := record :: h.runs }
  | .changeRefs refs => { h with store := { h.store with refs } }
  | .damageLedger file =>
    if file = .absent ∨ readLedger file = none then
      { h with store := { h.store with ledger := file } }
    else h

end Workspace

import Crest.JsMap
import Crest.SessionEntry

/-!
# Transactions of a session log

A user turn is appended as one transaction: its members carry the same
`transactionId`, and a manifest entry just before the final user entry names
them and their digest.  Readers show a transaction only when the whole group
validates, so an append that was cut short stays invisible.

`filterCommittedTransactionEntries` reads a log, `validateSessionEntriesForAppend`
guards an append.  An exception of the source is an error of `Except`, with its
message.
-/

namespace Session

/-- The exceptions of this module carry a message. -/
abbrev Checked (α : Type) := Except JsString α

def sessionTransactionManifestCustomType : JsString := js "session_tx_manifest"

structure SessionTransactionManifestData where
  transactionId : JsString
  orderedMemberEntryIds : List JsString
  userEntryId : JsString
  membersSha256 : JsString
deriving DecidableEq, Repr

structure CommittedSessionEntryTransaction where
  transactionId : JsString
  manifest : SessionTreeEntry
  physicalEntries : List SessionTreeEntry
  members : List SessionTreeEntry
  userEntryId : JsString
deriving DecidableEq, Repr

structure SessionEntryTransactionDiagnostic where
  message : JsString
  transactionId : Option JsString := none
deriving DecidableEq, Repr

/-- `readOwnValue` of a JSON object. -/
def readOwnValue (value : Json) (key : JsString) : Checked Json :=
  match value.get key with
  | some v => .ok v
  | none => .error (js "JSON object field " ++ key ++ js " must be a data property")

def requiredString (value : Json) (field : JsString) : Checked JsString :=
  match value with
  | .str s => if s = [] then .error (field ++ js " must be a non-empty string") else .ok s
  | _ => .error (field ++ js " must be a non-empty string")

def readArrayValues (value : Json) (field : JsString) : Checked (List Json) :=
  match value with
  | .arr items => .ok items
  | _ => .error (field ++ js " must be an array")

def transactionIdForEntry (entry : SessionTreeEntry) : Checked (Option JsString) :=
  match entry.transactionId with
  | none => .ok none
  | some t => (requiredString (.str t) (js "transactionId")).map some

def entryId (entry : SessionTreeEntry) : Checked JsString :=
  requiredString (.str entry.id) (js "entry ID")

def isUserEntry (entry : SessionTreeEntry) : Checked Bool :=
  match entry.body with
  | .message (.obj fields) => do
      let role ← readOwnValue (.obj fields) (js "role")
      return role = .str (js "user")
  | .message (.arr items) => do
      let role ← readOwnValue (.arr items) (js "role")
      return role = .str (js "user")
  | _ => .ok false

/-- The fields of a manifest's data. -/
def decodeManifestData (data : Json) : Checked SessionTransactionManifestData := do
  if (← readOwnValue data (js "schemaVersion")) ≠ .num 1 then
    throw (js "Transaction manifest schemaVersion must be 1")
  let transactionId ←
    requiredString (← readOwnValue data (js "transactionId")) (js "manifest transactionId")
  let userEntryId ←
    requiredString (← readOwnValue data (js "userEntryId")) (js "manifest userEntryId")
  let membersSha256 ←
    requiredString (← readOwnValue data (js "membersSha256")) (js "manifest membersSha256")
  let ordered ←
    readArrayValues (← readOwnValue data (js "orderedMemberEntryIds"))
      (js "manifest orderedMemberEntryIds")
  if ordered = [] then throw (js "manifest orderedMemberEntryIds must be a non-empty array")
  let orderedMemberEntryIds ←
    ordered.mapM fun item => requiredString item (js "manifest member entry ID")
  return { transactionId, orderedMemberEntryIds, userEntryId, membersSha256 }

/-- `manifestData`: `none` when the entry is not a manifest. -/
def manifestData (entry : SessionTreeEntry) : Checked (Option SessionTransactionManifestData) :=
  match entry.body with
  | .custom customType data =>
    if customType ≠ sessionTransactionManifestCustomType then .ok none
    else
      match data with
      | none => .error (js "JSON object field data must be a data property")
      | some (.obj fields) => (decodeManifestData (.obj fields)).map some
      | some _ => .error (js "Transaction manifest data must be an object")
  | _ => .ok none

/-- The only manifest of a group and where it stands. -/
def findManifest (group : List SessionTreeEntry) :
    Checked (Nat × SessionTransactionManifestData) := do
  let manifests ← group.mapM manifestData
  match manifests.reduceOption with
  | [data] => return (manifests.findIdx Option.isSome, data)
  | _ => throw (js "transaction must have exactly one manifest")

/-- Each entry of a group is the parent of the next. -/
def isPhysicalChain : List SessionTreeEntry → Bool
  | [] => true
  | [_] => true
  | a :: b :: rest => b.parentId = some a.id && isPhysicalChain (b :: rest)

variable (digest : Digest)

/-- `validateGroup`: the transaction, or the issue with the group. -/
def validateGroup (transactionId : JsString) (group : List SessionTreeEntry) :
    Checked CommittedSessionEntryTransaction := do
  let (manifestIndex, data) ← findManifest group
  if data.transactionId ≠ transactionId then
    throw (js "manifest transactionId does not match entry transactionId")
  if manifestIndex + 2 ≠ group.length then
    throw (js "manifest must precede the final user member")
  let members := group.eraseIdx manifestIndex
  let actualIds ← members.mapM entryId
  let physicalEntryIds ← group.mapM entryId
  if ¬ physicalEntryIds.Nodup then throw (js "transaction entry IDs must be unique")
  if actualIds ≠ data.orderedMemberEntryIds then
    throw (js "manifest ordered member IDs do not match transaction entries")
  match members.getLast?, group[manifestIndex]?, group.head? with
  | some user, some manifest, some first =>
    if !(← isUserEntry user) || user.id ≠ data.userEntryId then
      throw (js "manifest user member must be the final user entry")
    if data.membersSha256 ≠
        digest.sha256CanonicalJson (.arr (members.map SessionTreeEntry.toJson)) then
      throw (js "manifest member digest does not match transaction entries")
    if first.parentId.any fun parent => parent ∈ physicalEntryIds then
      throw (js "first transaction entry parent must be outside its group")
    if !isPhysicalChain group then
      throw (js "transaction entries must form one physical ancestor chain")
    return { transactionId, manifest, physicalEntries := group, members,
             userEntryId := data.userEntryId }
  | _, _, _ => throw (js "manifest user member must be the final user entry")

/-- The id of an entry, if it has a valid one. -/
def validEntryId (entry : SessionTreeEntry) : Option JsString := (entryId entry).toOption

/-- The ids that several entries share, in the order of their first occurrence. -/
def duplicateEntryIds (entries : List SessionTreeEntry) : List JsString :=
  let ids := entries.filterMap validEntryId
  (ids.reverse.dedup.reverse).filter fun id => 1 < ids.count id

/-- Push an entry to the group of its transaction. -/
def pushGroup (groups : JsMap JsString (List SessionTreeEntry)) (entry : SessionTreeEntry) :
    JsMap JsString (List SessionTreeEntry) :=
  match transactionIdForEntry entry with
  | .ok (some t) => groups.set t ((groups.get t).getD [] ++ [entry])
  | _ => groups

/-- The entries of every transaction, in log order. -/
def transactionGroups (entries : List SessionTreeEntry) :
    JsMap JsString (List SessionTreeEntry) :=
  entries.foldl pushGroup JsMap.empty

/-- A group with an entry that has no id of its own is not even validated. -/
def hasUnusableEntry (duplicates : List JsString) (group : List SessionTreeEntry) : Bool :=
  group.any fun entry => (validEntryId entry).all fun id => id ∈ duplicates

/-- The transaction of a group that validates. -/
def committedGroup
    (duplicates : List JsString) (transactionId : JsString)
    (group : List SessionTreeEntry) : Option CommittedSessionEntryTransaction :=
  if hasUnusableEntry duplicates group then none
  else (validateGroup digest transactionId group).toOption

/-- The message of an exception. -/
def errorOf {α : Type} : Checked α → Option JsString
  | .ok _ => none
  | .error message => some message

/-- `CommittedTransactionEntriesResult`.  The committed transaction ids are the
keys of `committedTransactions`. -/
structure CommittedTransactionEntriesResult where
  entries : List SessionTreeEntry
  diagnostics : List SessionEntryTransactionDiagnostic
  committedTransactions : JsMap JsString CommittedSessionEntryTransaction

/-- The diagnostics of `filterCommittedTransactionEntries`. -/
def transactionDiagnostics (entries : List SessionTreeEntry) :
    List SessionEntryTransactionDiagnostic :=
  let duplicates := duplicateEntryIds entries
  (entries.filterMap fun e => (errorOf (entryId e)).map fun m => ⟨m, none⟩) ++
  (duplicates.map fun id => ⟨js "duplicate session entry ID " ++ id, none⟩) ++
  (entries.filterMap fun e => (errorOf (transactionIdForEntry e)).map fun m => ⟨m, none⟩) ++
  ((transactionGroups entries).entries.filterMap fun g =>
    if hasUnusableEntry duplicates g.2 then none
    else (errorOf (validateGroup digest g.1 g.2)).map fun m => ⟨m, some g.1⟩)

def filterCommittedTransactionEntries (entries : List SessionTreeEntry) :
    CommittedTransactionEntriesResult :=
  let duplicates := duplicateEntryIds entries
  let committed :=
    (transactionGroups entries).filterMap fun t group => committedGroup digest duplicates t group
  { entries := entries.filter fun entry =>
      match validEntryId entry with
      | none => false
      | some id =>
        if id ∈ duplicates then false
        else
          match transactionIdForEntry entry with
          | .error _ => false
          | .ok none => true
          | .ok (some t) => committed.has t
    diagnostics := transactionDiagnostics digest entries
    committedTransactions := committed }

/-- The parent of an appended entry is in the log or earlier in the batch. -/
def checkParent (knownIds : List JsString) (entry : SessionTreeEntry) : Checked Unit :=
  match entry.parentId with
  | none => .ok ()
  | some parent =>
    if parent ∈ knownIds then .ok ()
    else .error (js "entry parentId " ++ parent ++ js " not found")

/-- The transaction of an appended entry is new. -/
def checkTransactionId (existingTransactionIds : List JsString) (entry : SessionTreeEntry) :
    Checked Unit := do
  match ← transactionIdForEntry entry with
  | none => return ()
  | some t =>
    if t ∈ existingTransactionIds then
      throw (js "duplicate session transaction ID " ++ t)

/-- The check of one entry of a batch against the log and the entries before it
in the batch. -/
def checkAppendedEntry
    (existingEntryIds existingTransactionIds batchEntryIds : List JsString)
    (entry : SessionTreeEntry) : Checked JsString := do
  let id ← entryId entry
  if id ∈ existingEntryIds ∨ id ∈ batchEntryIds then
    throw (js "duplicate session entry ID " ++ id)
  checkParent (existingEntryIds ++ batchEntryIds) entry
  checkTransactionId existingTransactionIds entry
  return id

/-- The loop over the entries of a batch. -/
def checkAppendedEntries
    (existingEntryIds existingTransactionIds : List JsString) :
    List JsString → List SessionTreeEntry → Checked Unit
  | _, [] => .ok ()
  | batchEntryIds, entry :: rest => do
      let id ← checkAppendedEntry existingEntryIds existingTransactionIds batchEntryIds entry
      checkAppendedEntries existingEntryIds existingTransactionIds (id :: batchEntryIds) rest

def validateSessionEntriesForAppend
    (existingEntryIds existingTransactionIds : List JsString)
    (batch : List SessionTreeEntry) : Checked Unit := do
  checkAppendedEntries existingEntryIds existingTransactionIds [] batch
  let result := filterCommittedTransactionEntries digest batch
  match result.diagnostics with
  | diagnostic :: _ => throw diagnostic.message
  | [] => pure ()
  if result.entries ≠ batch then
    throw (js "session entries did not form complete transactions")

/-- The entry and transaction ids a storage keeps for its log. -/
def logEntryIds (log : List SessionTreeEntry) : List JsString := log.map SessionTreeEntry.id

@[inherit_doc logEntryIds]
def logTransactionIds (log : List SessionTreeEntry) : List JsString :=
  log.filterMap SessionTreeEntry.transactionId

end Session

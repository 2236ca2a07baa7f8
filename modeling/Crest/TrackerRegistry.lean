import Crest.JsMap
import Crest.PendingBoundary
import Crest.Runs

/-!
# The registry of workspace trackers

Every session of a process that works on a workspace shares one set of resources: a snapshot
store, a watcher, the writer leases.  The registry makes them for the first session, counts who
holds them, and disposes of them when nobody has held them for a while.  Making and disposing
take time, and other sessions come and go meanwhile.

The code runs between two `await`s without interruption, so an event is such a piece of code, or
the end of something that the registry waits for.  Objects that the code refers to, the entries
and the promises of disposals, are numbered in the order in which they were made.
-/

namespace TrackerRegistry

structure WorkspaceDirectoryIdentityToken where
  absolutePath : JsString
  dev : JsString
  ino : JsString
  birthtimeNs : JsString
  deriving DecidableEq, Repr

structure CanonicalWorkspaceIdentity where
  canonicalRoot : JsString
  workspaceIdentity : JsString
  workspaceIncarnation : JsString
  storeKey : JsString
  ancestorIdentityChain : List WorkspaceDirectoryIdentityToken
  deriving DecidableEq, Repr

/-- What `acquire` reads of a `WorkspaceTrackerAcquireInput`. -/
structure WorkspaceTrackerAcquireInput where
  dataRoot : JsString
  identity : CanonicalWorkspaceIdentity
  processOwner : Workspace.ProcessOwnerIdentity
  deriving DecidableEq, Repr

structure WorkspaceTrackerRegistryBinding where
  dataRoot : JsString
  identity : CanonicalWorkspaceIdentity
  processOwner : Workspace.ProcessOwnerIdentity
  deriving DecidableEq, Repr

/-- `makeBinding`; `resolve` makes a path absolute. -/
def makeBinding (resolve : JsString → JsString) (input : WorkspaceTrackerAcquireInput) :
    WorkspaceTrackerRegistryBinding where
  dataRoot := resolve input.dataRoot
  identity := input.identity
  processOwner := input.processOwner

/-- The key that `acquire` makes of an identity. -/
def CanonicalWorkspaceIdentity.key (identity : CanonicalWorkspaceIdentity) : JsString :=
  identity.workspaceIdentity ++ js ":" ++ identity.workspaceIncarnation

/-- The loop of `bindingsEqual` over two chains of the same length. -/
def ancestorsEqual :
    List WorkspaceDirectoryIdentityToken → List WorkspaceDirectoryIdentityToken → Bool
  | leftAncestor :: left, rightAncestor :: right =>
    if leftAncestor.absolutePath != rightAncestor.absolutePath then false
    else if leftAncestor.dev != rightAncestor.dev then false
    else if leftAncestor.ino != rightAncestor.ino then false
    else if leftAncestor.birthtimeNs != rightAncestor.birthtimeNs then false
    else ancestorsEqual left right
  | _, _ => true

def bindingsEqual (left right : WorkspaceTrackerRegistryBinding) : Bool :=
  if left.dataRoot != right.dataRoot then false
  else if left.identity.canonicalRoot != right.identity.canonicalRoot then false
  else if left.identity.storeKey != right.identity.storeKey then false
  else if left.identity.workspaceIdentity != right.identity.workspaceIdentity then false
  else if left.identity.workspaceIncarnation != right.identity.workspaceIncarnation then false
  else if left.identity.ancestorIdentityChain.length !=
    right.identity.ancestorIdentityChain.length then false
  else if !ancestorsEqual left.identity.ancestorIdentityChain
    right.identity.ancestorIdentityChain then false
  else if left.processOwner.pid != right.processOwner.pid then false
  else if left.processOwner.processStartToken != right.processOwner.processStartToken then false
  else left.processOwner.nonce == right.processOwner.nonce

/-- The number of an entry object. -/
abbrev EntryId := Nat

/-- The number of a promise that `disposeEntry` made. -/
abbrev DisposalId := Nat

/-- How far `initialization` of an entry has come: it opens the store, makes the feed and the
snapshot source, and disposes of the feed when that fails. -/
inductive Initialization (ρ : Type)
  | opening
  | sourcing
  | cleanup
  | fulfilled (resource : ρ)
  | rejected
  deriving DecidableEq, Repr

/-- `WorkspaceTrackerRegistryEntry`; the timer is the key its callback has captured. -/
structure WorkspaceTrackerRegistryEntry (ρ : Type) where
  binding : WorkspaceTrackerRegistryBinding
  initialization : Initialization ρ
  refCount : Int
  idleDisposalTimer : Option JsString
  disposal : Option DisposalId
  deriving DecidableEq, Repr

/-- How far a disposal has come: it waits for the initialization, disposes of the snapshot source
and of the feed, and then of the entry, or forgets itself when one of the two has failed. -/
inductive Stage
  | scheduled
  | snapshotSource
  | feed (failures : Nat)
  | disposed
  | failed
  | fulfilled
  | rejected
  deriving DecidableEq, Repr

/-- A disposal, with what its callbacks have captured. -/
structure Disposal where
  key : JsString
  entry : EntryId
  stage : Stage
  deriving DecidableEq, Repr

/-- The promise that a `release` returned. -/
inductive ReleasePromise
  | resolved
  | disposal (disposal : DisposalId)
  deriving DecidableEq, Repr

/-- `WorkspaceTrackerLease`, with the variables its `release` has captured. -/
structure WorkspaceTrackerLease (ρ : Type) where
  key : JsString
  entry : EntryId
  resource : ρ
  decremented : Bool
  releasePromise : Option ReleasePromise
  deriving DecidableEq, Repr

/-- Where a call of `acquire` is. -/
inductive Acquire (ρ : Type)
  | running
  | disposing (key : JsString) (binding : WorkspaceTrackerRegistryBinding)
      (disposal : DisposalId)
  | initializing (key : JsString) (entry : EntryId)
  | leased (lease : WorkspaceTrackerLease ρ)
  | rejected
  deriving DecidableEq, Repr

/-- Whether a call waits for the initialization of an entry or holds an unreleased lease on it. -/
def Acquire.holds {ρ : Type} (e : EntryId) : Acquire ρ → Bool
  | .initializing _ entry => entry == e
  | .leased lease => lease.entry == e && !lease.decremented
  | _ => false

/-- `WorkspaceTrackerRegistry`, with all entries, disposals and calls of `acquire` there ever
were. -/
structure WorkspaceTrackerRegistry (ρ : Type) where
  idleTtlMs : Int
  entries : JsMap JsString EntryId
  objects : List (WorkspaceTrackerRegistryEntry ρ)
  disposals : List Disposal
  acquires : List (Acquire ρ)

namespace WorkspaceTrackerRegistry

variable {ρ : Type}

/-- A registry before its first use. -/
def make (idleTtlMs : Int) : WorkspaceTrackerRegistry ρ where
  idleTtlMs := idleTtlMs
  entries := .empty
  objects := []
  disposals := []
  acquires := []

/-- How far the initialization of an entry has come. -/
def initializationOf (registry : WorkspaceTrackerRegistry ρ) (e : EntryId) :
    Option (Initialization ρ) :=
  registry.objects[e]?.map WorkspaceTrackerRegistryEntry.initialization

/-- How far a disposal has come. -/
def stageOf (registry : WorkspaceTrackerRegistry ρ) (d : DisposalId) : Option Stage :=
  registry.disposals[d]?.map Disposal.stage

/-- An assignment to the fields of an entry. -/
def modifyEntry
    (registry : WorkspaceTrackerRegistry ρ) (e : EntryId)
    (f : WorkspaceTrackerRegistryEntry ρ → WorkspaceTrackerRegistryEntry ρ) :
    WorkspaceTrackerRegistry ρ :=
  { registry with objects := registry.objects.modify e f }

/-- A call of `acquire` gets to another place. -/
def setAcquire (registry : WorkspaceTrackerRegistry ρ) (i : Nat) (acquire : Acquire ρ) :
    WorkspaceTrackerRegistry ρ :=
  { registry with acquires := registry.acquires.set i acquire }

/-- A disposal gets to another stage. -/
def setStage (registry : WorkspaceTrackerRegistry ρ) (d : DisposalId) (stage : Stage) :
    WorkspaceTrackerRegistry ρ :=
  { registry with
    disposals := registry.disposals.modify d fun disposal => { disposal with stage := stage } }

/-- `makeEntry`, up to its first `await`. -/
def makeEntry (binding : WorkspaceTrackerRegistryBinding) : WorkspaceTrackerRegistryEntry ρ where
  binding := binding
  initialization := .opening
  refCount := 0
  idleDisposalTimer := none
  disposal := none

/-- `disposeEntry`, and the promise it returns. -/
def disposeEntry (registry : WorkspaceTrackerRegistry ρ) (key : JsString) (e : EntryId) :
    WorkspaceTrackerRegistry ρ × DisposalId :=
  match registry.objects[e]?.bind (·.disposal) with
  | some disposal => (registry, disposal)
  | none =>
    ({ registry with
        objects := registry.objects.modify e fun entry =>
          { entry with
            idleDisposalTimer := none
            disposal := some registry.disposals.length }
        disposals := registry.disposals ++ [⟨key, e, .scheduled⟩] },
      registry.disposals.length)

/-- `acquire` has found or made its entry: it counts itself and waits for the initialization. -/
def join (registry : WorkspaceTrackerRegistry ρ) (i : Nat) (key : JsString) (e : EntryId) :
    WorkspaceTrackerRegistry ρ :=
  (registry.modifyEntry e fun entry => { entry with refCount := entry.refCount + 1 }).setAcquire i
    (.initializing key e)

/-- One round of the loop of `acquire`. -/
def acquireLoop
    (registry : WorkspaceTrackerRegistry ρ) (i : Nat) (key : JsString)
    (binding : WorkspaceTrackerRegistryBinding) :
    WorkspaceTrackerRegistry ρ :=
  match registry.entries.get key with
  | none =>
    { registry with
      objects := registry.objects ++ [makeEntry binding]
      entries := registry.entries.set key registry.objects.length }.join i key
        registry.objects.length
  | some e =>
    match registry.objects[e]? with
    | none => registry
    | some entry =>
      if !bindingsEqual entry.binding binding then registry.setAcquire i .rejected
      else if entry.refCount == 0 then
        match entry.disposal with
        | some disposal => registry.setAcquire i (.disposing key binding disposal)
        | none =>
          if entry.idleDisposalTimer.isSome then
            (registry.modifyEntry e fun entry =>
              { entry with idleDisposalTimer := none }).join i key e
          else
            (registry.disposeEntry key e).1.setAcquire i
              (.disposing key binding (registry.disposeEntry key e).2)
      else registry.join i key e

/-- `acquire`, up to its first `await`. -/
def acquire
    (registry : WorkspaceTrackerRegistry ρ) (resolve : JsString → JsString)
    (input : WorkspaceTrackerAcquireInput) :
    WorkspaceTrackerRegistry ρ :=
  { registry with acquires := registry.acquires ++ [Acquire.running] }.acquireLoop
    registry.acquires.length input.identity.key (makeBinding resolve input)

/-- `acquire` goes on when what it waits for has settled. -/
def resume (registry : WorkspaceTrackerRegistry ρ) (i : Nat) : WorkspaceTrackerRegistry ρ :=
  match registry.acquires[i]? with
  | some (.disposing key binding disposal) =>
    match registry.stageOf disposal with
    | some .fulfilled => registry.acquireLoop i key binding
    | some .rejected => registry.setAcquire i .rejected
    | _ => registry
  | some (.initializing key e) =>
    match registry.initializationOf e with
    | some (.fulfilled resource) =>
      registry.setAcquire i (.leased ⟨key, e, resource, false, none⟩)
    | some .rejected =>
      let left := (registry.modifyEntry e fun entry =>
        { entry with refCount := entry.refCount - 1 }).setAcquire i .rejected
      if left.entries.get key = some e then
        { left with entries := left.entries.delete key }
      else left
    | _ => registry
  | _ => registry

/-- `releaseEntry`, and the promise it returns. -/
def releaseEntry (registry : WorkspaceTrackerRegistry ρ) (key : JsString) (e : EntryId) :
    WorkspaceTrackerRegistry ρ × ReleasePromise :=
  if registry.idleTtlMs ≤ 0 then
    ((registry.disposeEntry key e).1, .disposal (registry.disposeEntry key e).2)
  else
    match registry.objects[e]? with
    | none => (registry, .resolved)
    | some entry =>
      if entry.idleDisposalTimer.isSome || entry.disposal.isSome ||
          registry.entries.get key ≠ some e then
        (registry, .resolved)
      else
        (registry.modifyEntry e fun entry => { entry with idleDisposalTimer := some key },
          .resolved)

/-- The lease of a call counts down, the first time it is released. -/
def letGo (registry : WorkspaceTrackerRegistry ρ) (i : Nat) (lease : WorkspaceTrackerLease ρ) :
    WorkspaceTrackerRegistry ρ :=
  if lease.decremented then registry
  else
    (registry.modifyEntry lease.entry fun entry =>
      { entry with refCount := entry.refCount - 1 }).setAcquire i
        (.leased { lease with decremented := true })

/-- The rest of `release`: what is returned, and what happens to an entry without holders. -/
def finishRelease
    (registry : WorkspaceTrackerRegistry ρ) (i : Nat) (lease : WorkspaceTrackerLease ρ) :
    WorkspaceTrackerRegistry ρ :=
  match registry.objects[lease.entry]? with
  | none => registry
  | some entry =>
    if 0 < entry.refCount then
      registry.setAcquire i (.leased { lease with releasePromise := some .resolved })
    else
      (registry.releaseEntry lease.key lease.entry).1.setAcquire i
        (.leased { lease with
          releasePromise := some (registry.releaseEntry lease.key lease.entry).2 })

/-- `release` of the lease of a call. -/
def release (registry : WorkspaceTrackerRegistry ρ) (i : Nat) : WorkspaceTrackerRegistry ρ :=
  match registry.acquires[i]? with
  | some (.leased lease) =>
    if lease.releasePromise.isSome then registry
    else (registry.letGo i lease).finishRelease i { lease with decremented := true }
  | _ => registry

/-- The `catch` of a release: it may be tried again. -/
def releaseRejected (registry : WorkspaceTrackerRegistry ρ) (i : Nat) :
    WorkspaceTrackerRegistry ρ :=
  match registry.acquires[i]? with
  | some (.leased lease) =>
    match lease.releasePromise with
    | some (.disposal disposal) =>
      if registry.stageOf disposal = some .rejected then
        registry.setAcquire i (.leased { lease with releasePromise := none })
      else registry
    | _ => registry
  | _ => registry

/-- The callback of the idle timer of an entry. -/
def fire (registry : WorkspaceTrackerRegistry ρ) (e : EntryId) : WorkspaceTrackerRegistry ρ :=
  match registry.objects[e]? with
  | none => registry
  | some entry =>
    match entry.idleDisposalTimer with
    | none => registry
    | some key =>
      let fired := registry.modifyEntry e fun entry =>
        { entry with idleDisposalTimer := none }
      if 0 < entry.refCount || fired.entries.get key ≠ some e then fired
      else (fired.disposeEntry key e).1

end WorkspaceTrackerRegistry

/-- How `openStore` ends, and the code of `makeEntry` up to its next `await`: one of the two
fails before there is a feed, the rest of the code fails, or the snapshot source is being
made. -/
inductive Opened
  | failed
  | feedOnly
  | sourcing
  deriving DecidableEq, Repr

/-- `makeEntry` goes on behind `openStore`. -/
def Initialization.storeOpened {ρ : Type} (opened : Opened) : Initialization ρ → Initialization ρ
  | .opening =>
    match opened with
    | .failed => .rejected
    | .feedOnly => .cleanup
    | .sourcing => .sourcing
  | initialization => initialization

/-- `makeEntry` goes on behind `makeSnapshotSource`, which gave the resource or failed. -/
def Initialization.sourceMade {ρ : Type} (resource : Option ρ) :
    Initialization ρ → Initialization ρ
  | .sourcing =>
    match resource with
    | some resource => .fulfilled resource
    | none => .cleanup
  | initialization => initialization

/-- `makeEntry` goes on behind `feed.dispose`, and fails. -/
def Initialization.feedCleaned {ρ : Type} : Initialization ρ → Initialization ρ
  | .cleanup => .rejected
  | initialization => initialization

/-- What happens to a registry. -/
inductive Event (ρ : Type)
  | acquire (input : WorkspaceTrackerAcquireInput)
  | storeOpened (e : EntryId) (opened : Opened)
  | sourceMade (e : EntryId) (resource : Option ρ)
  | feedCleaned (e : EntryId)
  | resume (i : Nat)
  | release (i : Nat)
  | releaseRejected (i : Nat)
  | fire (e : EntryId)
  | beginDisposal (d : DisposalId) (hasDispose : Bool)
  | sourceDisposed (d : DisposalId) (failures : Nat)
  | feedDisposed (d : DisposalId) (failures : Nat)
  | settleDisposal (d : DisposalId)

namespace WorkspaceTrackerRegistry

variable {ρ : Type}

/-- The initialization of an entry gets further. -/
def advance
    (registry : WorkspaceTrackerRegistry ρ) (e : EntryId)
    (next : Initialization ρ → Initialization ρ) :
    WorkspaceTrackerRegistry ρ :=
  registry.modifyEntry e fun entry => { entry with initialization := next entry.initialization }

/-- The callback of `entry.initialization.then`: it calls `dispose` of the snapshot source if
there is one, else of the feed. -/
def beginDisposal (registry : WorkspaceTrackerRegistry ρ) (d : DisposalId) (hasDispose : Bool) :
    WorkspaceTrackerRegistry ρ :=
  match registry.disposals[d]? with
  | some ⟨_, e, .scheduled⟩ =>
    match registry.initializationOf e with
    | some (.fulfilled _) =>
      registry.setStage d (if hasDispose then .snapshotSource else .feed 0)
    | some .rejected => registry.setStage d .failed
    | _ => registry
  | _ => registry

/-- `resource.snapshotSource.dispose()` has settled. -/
def sourceDisposed (registry : WorkspaceTrackerRegistry ρ) (d : DisposalId) (failures : Nat) :
    WorkspaceTrackerRegistry ρ :=
  match registry.disposals[d]? with
  | some ⟨_, _, .snapshotSource⟩ => registry.setStage d (.feed failures)
  | _ => registry

/-- `resource.feed.dispose()` has settled. -/
def feedDisposed (registry : WorkspaceTrackerRegistry ρ) (d : DisposalId) (failures : Nat) :
    WorkspaceTrackerRegistry ρ :=
  match registry.disposals[d]? with
  | some ⟨_, _, .feed before⟩ =>
    registry.setStage d (if before + failures = 0 then .disposed else .failed)
  | _ => registry

/-- The last callbacks of a disposal: the entry is deleted, or the disposal forgotten. -/
def settleDisposal (registry : WorkspaceTrackerRegistry ρ) (d : DisposalId) :
    WorkspaceTrackerRegistry ρ :=
  match registry.disposals[d]? with
  | some ⟨key, e, .disposed⟩ =>
    let settled := registry.setStage d .fulfilled
    if settled.entries.get key = some e then
      { settled with entries := settled.entries.delete key }
    else settled
  | some ⟨_, e, .failed⟩ =>
    (registry.modifyEntry e fun entry => { entry with disposal := none }).setStage d .rejected
  | _ => registry

end WorkspaceTrackerRegistry

/-- One event; an event that cannot happen does nothing. -/
def step {ρ : Type} (resolve : JsString → JsString) (registry : WorkspaceTrackerRegistry ρ) :
    Event ρ → WorkspaceTrackerRegistry ρ
  | .acquire input => registry.acquire resolve input
  | .storeOpened e opened => registry.advance e (Initialization.storeOpened opened)
  | .sourceMade e resource => registry.advance e (Initialization.sourceMade resource)
  | .feedCleaned e => registry.advance e Initialization.feedCleaned
  | .resume i => registry.resume i
  | .release i => registry.release i
  | .releaseRejected i => registry.releaseRejected i
  | .fire e => registry.fire e
  | .beginDisposal d hasDispose => registry.beginDisposal d hasDispose
  | .sourceDisposed d failures => registry.sourceDisposed d failures
  | .feedDisposed d failures => registry.feedDisposed d failures
  | .settleDisposal d => registry.settleDisposal d

end TrackerRegistry

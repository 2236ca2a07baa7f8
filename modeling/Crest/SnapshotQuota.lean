import Mathlib.Tactic
import Crest.Runs

/-!
# Snapshot quota accounting

`SnapshotQuotaAccounting` keeps an upper bound of the bytes the shadow store
uses.  A writer first reserves bytes, then writes objects, then commits the
reservation with the bytes it really added.  The bound lives in memory and in a
small state file that is replaced atomically; the file is trusted only while the
entry last read or written is still in place.

Every operation runs inside one serialised promise chain, so an operation is one
step of the model.  What the environment decides is an argument of the step: a
publication may fail before or after the file was replaced, reading or measuring
may fail, and the store may go on writing and deleting between a measurement and
its publication.

`usage`, `written` and the two logs describe the world outside the object; the
code never reads them, except through `measureExactUsage`.
-/

namespace SnapshotQuota

abbrev ReservationId := Nat

/-- `Number.MAX_SAFE_INTEGER`. -/
def maxSafeInteger : ℤ := 9007199254740991

/-- `validateBytes` does not throw. -/
def validBytes (value : ℤ) : Bool := 0 ≤ value && value ≤ maxSafeInteger

/-- `checkedAdd`: the sum, unless it is not a safe integer. -/
def checkedAdd (left right : ℤ) : Option ℤ :=
  if -maxSafeInteger ≤ left + right ∧ left + right ≤ maxSafeInteger then some (left + right)
  else none

/-- `status` of a reservation. -/
inductive ReservationStatus
  | active
  | resolved
deriving DecidableEq, Repr, Inhabited

/-- `SnapshotQuotaReservation`.  `written` counts the bytes written under it. -/
structure SnapshotQuotaReservation where
  reservedBytes : ℤ
  status : ReservationStatus := .active
  needsExactSettlement : Bool := false
  written : ℤ := 0
deriving DecidableEq, Repr, Inhabited

/-- The state file: the identity of its current entry and the bytes it records. -/
structure StateFile where
  entry : Nat
  measuredbytes : ℤ
deriving DecidableEq, Repr

/-- `SnapshotQuotaAccounting` and the store it accounts for. -/
structure SnapshotQuotaAccounting where
  maxBytes : ℤ
  stateEntry : Option Nat := none
  measuredBytes : ℤ := 0
  activeReservedBytes : ℤ := 0
  activeReservations : Finset ReservationId := ∅
  needsReconcile : Bool := false
  reservations : ReservationId → SnapshotQuotaReservation := fun _ => ⟨0, .resolved, false, 0⟩
  reservationCount : Nat := 0
  file : Option StateFile := none
  /-- The identity of the next file to be written. -/
  nextEntry : Nat := 0
  usage : ℤ := 0
  /-- Every value a state file was written with. -/
  published : List ℤ := []
  /-- Every reservation that left the active set. -/
  resolutions : List ReservationId := []

/-- How a publication ends. -/
inductive PublishOutcome
  | completes
  | throwsBefore
  | throwsAfter
deriving DecidableEq, Repr

/-- What the store does while an operation waits. -/
inductive StoreActivity
  | write (reservation : ReservationId) (bytes : Nat)
  | delete (bytes : Nat)
deriving DecidableEq, Repr

/-- What the environment decides during an exact reconciliation. -/
structure ReconcileOutcome where
  reads : Bool := true
  measures : Bool := true
  during : List StoreActivity := []
  publish : PublishOutcome := .completes
  /-- The store root is still in place when the operation ends. -/
  pinned : Bool := true
deriving DecidableEq, Repr

namespace SnapshotQuotaAccounting

variable (s : SnapshotQuotaAccounting)

/-- Assign to fields of a reservation. -/
def updateReservation
    (i : ReservationId)
    (f : SnapshotQuotaReservation → SnapshotQuotaReservation) : SnapshotQuotaAccounting :=
  { s with reservations := Function.update s.reservations i (f (s.reservations i)) }

/-- Bytes are written under a reservation. -/
def writeUnder (i : ReservationId) (bytes : Nat) : SnapshotQuotaAccounting :=
  { s.updateReservation i (fun r => { r with written := r.written + bytes }) with
    usage := s.usage + bytes }

/-- The store writes under an active reservation, within what it reserved, or
deletes. -/
def storeActivity : StoreActivity → SnapshotQuotaAccounting
  | .write i bytes =>
    if i ∈ s.activeReservations ∧
        (s.reservations i).written + bytes ≤ (s.reservations i).reservedBytes then
      s.writeUnder i bytes
    else s
  | .delete bytes => { s with usage := max 0 (s.usage - bytes) }

/-- Several store activities in a row. -/
def storeActivities (l : List StoreActivity) : SnapshotQuotaAccounting :=
  Runs.run storeActivity s l

/-- `publishMeasuredBytes`.  The journal writer refuses to replace an entry other
than the expected one. -/
def publishMeasuredBytes (measuredBytes : ℤ) (outcome : PublishOutcome) :
    SnapshotQuotaAccounting × Bool :=
  if !validBytes measuredBytes then (s, false)
  else if outcome = .throwsBefore ∨ s.stateEntry ≠ s.file.map StateFile.entry then (s, false)
  else
    let entry := s.nextEntry
    let s :=
      { s with
        file := some ⟨entry, measuredBytes⟩
        nextEntry := entry + 1
        published := s.published ++ [measuredBytes] }
    if outcome = .throwsAfter then (s, false)
    else ({ s with stateEntry := some entry, measuredBytes := measuredBytes }, true)

def markActiveReservationsForExactSettlement : SnapshotQuotaAccounting :=
  { s with
    reservations := fun i =>
      if i ∈ s.activeReservations then { s.reservations i with needsExactSettlement := true }
      else s.reservations i }

/-- `resolveReservation`; `none` is the exception for a reservation that is not
active. -/
def resolveReservation (i : ReservationId) : Option SnapshotQuotaAccounting :=
  if i ∈ s.activeReservations then
    some
      { s.updateReservation i (fun r => { r with status := .resolved }) with
        activeReservations := s.activeReservations.erase i
        activeReservedBytes := s.activeReservedBytes - (s.reservations i).reservedBytes
        resolutions := s.resolutions ++ [i] }
  else none

/-- `assertReservationFits` does not throw. -/
def reservationFits (reservedBytes : ℤ) : Bool := reservedBytes ≤ s.maxBytes - s.measuredBytes

def reconcileExactUsageUnlocked (o : ReconcileOutcome) : SnapshotQuotaAccounting × Option ℤ :=
  if !o.reads then (s, none)
  else
    let s := { s with stateEntry := s.file.map StateFile.entry }
    let s := s.markActiveReservationsForExactSettlement
    if !o.measures then (s, none)
    else
      let measuredBytes := s.usage
      let s := s.storeActivities o.during
      if !validBytes measuredBytes then (s, none)
      else
        match checkedAdd measuredBytes s.activeReservedBytes with
        | none => (s, none)
        | some measuredWithReservations =>
          match s.publishMeasuredBytes measuredWithReservations o.publish with
          | (s, false) => (s, none)
          | (s, true) =>
            let s := { s with needsReconcile := false }
            (s, if o.pinned then some measuredWithReservations else none)

/-- What the environment decides during `reserve`. -/
structure ReserveOutcome where
  reconcile : ReconcileOutcome := {}
  publish : PublishOutcome := .completes
  retryReconcile : ReconcileOutcome := {}
  retryPublish : PublishOutcome := .completes
deriving DecidableEq, Repr

/-- The end of `reserve`: the published reservation becomes active. -/
def addReservation (reservedBytes : ℤ) : SnapshotQuotaAccounting × Option ReservationId :=
  let i := s.reservationCount
  let s :=
    { s with
      activeReservations := insert i s.activeReservations
      reservations := Function.update s.reservations i { reservedBytes := reservedBytes }
      reservationCount := i + 1 }
  match checkedAdd s.activeReservedBytes reservedBytes with
  | none => (s, none)
  | some total => ({ s with activeReservedBytes := total }, some i)

/-- The second publication of `reserve`, after the first one failed. -/
def retryReserve (reservedBytes : ℤ) (o : ReserveOutcome) :
    SnapshotQuotaAccounting × Option ReservationId :=
  match { s with needsReconcile := true }.reconcileExactUsageUnlocked o.retryReconcile with
  | (s, none) => (s, none)
  | (s, some _) =>
    if !s.reservationFits reservedBytes then (s, none)
    else
      match s.publishMeasuredBytes (s.measuredBytes + reservedBytes) o.retryPublish with
      | (s, false) => ({ s with needsReconcile := true }, none)
      | (s, true) => s.addReservation reservedBytes

/-- `reserve` once the reservation is known to be needed and the bound exact
enough. -/
def publishReservation (reservedBytes : ℤ) (o : ReserveOutcome) :
    SnapshotQuotaAccounting × Option ReservationId :=
  if !s.reservationFits reservedBytes then (s, none)
  else
    match s.publishMeasuredBytes (s.measuredBytes + reservedBytes) o.publish with
    | (s, false) => s.retryReserve reservedBytes o
    | (s, true) => s.addReservation reservedBytes

/-- `reserve`: the reservation, or `none` when it throws. -/
def reserve (contentBytes metadataBytes : ℤ) (o : ReserveOutcome) :
    SnapshotQuotaAccounting × Option ReservationId :=
  if !validBytes contentBytes || !validBytes metadataBytes then (s, none)
  else
    match checkedAdd contentBytes metadataBytes with
    | none => (s, none)
    | some reservedBytes =>
      if s.needsReconcile then
        match s.reconcileExactUsageUnlocked o.reconcile with
        | (s, none) => (s, none)
        | (s, some _) => s.publishReservation reservedBytes o
      else s.publishReservation reservedBytes o

/-- What the environment decides while a reservation is settled. -/
structure SettleOutcome where
  reconcile : ReconcileOutcome := {}
  publish : PublishOutcome := .completes
deriving DecidableEq, Repr

/-- `commitReservation`, called with the true count of the bytes written, the
last `extra` of which land before the call. -/
def commitReservation (i : ReservationId) (extra : Nat) (o : SettleOutcome) :
    SnapshotQuotaAccounting :=
  if !validBytes ((s.reservations i).written + extra) then s
  else if (s.reservations i).status = .resolved then s
  else
    let s := s.writeUnder i extra
    let reservation := s.reservations i
    let actualNewLooseBytes := reservation.written
    if s.needsReconcile || reservation.needsExactSettlement
        || reservation.reservedBytes < actualNewLooseBytes then
      match s.resolveReservation i with
      | none => s
      | some s => ({ s with needsReconcile := true }.reconcileExactUsageUnlocked o.reconcile).1
    else
      let next := s.measuredBytes - reservation.reservedBytes + actualNewLooseBytes
      match s.publishMeasuredBytes next o.publish with
      | (s, true) => (s.resolveReservation i).getD s
      | (s, false) => { (s.resolveReservation i).getD s with needsReconcile := true }

def releaseReservation (i : ReservationId) (o : SettleOutcome) : SnapshotQuotaAccounting :=
  if (s.reservations i).status = .resolved then s
  else if s.needsReconcile || (s.reservations i).needsExactSettlement then
    match s.resolveReservation i with
    | none => s
    | some s => (s.reconcileExactUsageUnlocked o.reconcile).1
  else
    match s.publishMeasuredBytes (s.measuredBytes - (s.reservations i).reservedBytes) o.publish with
    | (s, true) => (s.resolveReservation i).getD s
    | (s, false) => { (s.resolveReservation i).getD s with needsReconcile := true }

def invalidateReservation (i : ReservationId) : SnapshotQuotaAccounting :=
  if (s.reservations i).status = .resolved then s
  else
    match s.resolveReservation i with
    | none => s
    | some s => { s with needsReconcile := true }

/-- `replaceExactUsage`, called with the bytes in use when it runs. -/
def replaceExactUsage (o : SettleOutcome) : SnapshotQuotaAccounting :=
  if !validBytes s.usage then s
  else
    let measuredBytes := s.usage
    let s := s.markActiveReservationsForExactSettlement
    let published : SnapshotQuotaAccounting × Bool :=
      match checkedAdd measuredBytes s.activeReservedBytes with
      | none => (s, false)
      | some total => s.publishMeasuredBytes total o.publish
    match published with
    | (s, true) => { s with needsReconcile := false }
    | (s, false) => ({ s with needsReconcile := true }.reconcileExactUsageUnlocked o.reconcile).1

def markNeedsReconcile : SnapshotQuotaAccounting := { s with needsReconcile := true }

/-- `refreshAfterStoreOpen`; `reads` is false when the state cannot be read or
its directory is not the pinned one. -/
def refreshAfterStoreOpen (reads : Bool) (o : ReconcileOutcome) : SnapshotQuotaAccounting :=
  if !reads then s
  else if (s.file.map StateFile.measuredbytes) = some s.measuredBytes then
    { s with stateEntry := s.file.map StateFile.entry }
  else
    ({ s with
        stateEntry := s.file.map StateFile.entry
        needsReconcile := true }.reconcileExactUsageUnlocked o).1

end SnapshotQuotaAccounting

open SnapshotQuotaAccounting

/-- What can happen to the accounting and its store. -/
inductive Event
  | store (activity : StoreActivity)
  | reserve (contentBytes metadataBytes : ℤ) (o : ReserveOutcome)
  | commit (reservation : ReservationId) (extra : Nat) (o : SettleOutcome)
  | release (reservation : ReservationId) (o : SettleOutcome)
  | invalidate (reservation : ReservationId)
  | replaceExactUsage (o : SettleOutcome)
  | markNeedsReconcile
  | refreshAfterStoreOpen (reads : Bool) (o : ReconcileOutcome)
  | reconcileExactUsage (o : ReconcileOutcome)
deriving DecidableEq, Repr

/-- The accounting after one event. -/
def step (s : SnapshotQuotaAccounting) : Event → SnapshotQuotaAccounting
  | .store activity => s.storeActivity activity
  | .reserve contentBytes metadataBytes o => (s.reserve contentBytes metadataBytes o).1
  | .commit i extra o => s.commitReservation i extra o
  | .release i o => s.releaseReservation i o
  | .invalidate i => s.invalidateReservation i
  | .replaceExactUsage o => s.replaceExactUsage o
  | .markNeedsReconcile => s.markNeedsReconcile
  | .refreshAfterStoreOpen reads o => s.refreshAfterStoreOpen reads o
  | .reconcileExactUsage o => (s.reconcileExactUsageUnlocked o).1

/-- The accounting after a list of events. -/
def runEvents (s : SnapshotQuotaAccounting) (es : List Event) : SnapshotQuotaAccounting :=
  Runs.run step s es

/-- A state file found by `open`, already decoded: whether it is of the
accounting's own generation, and the bytes it records. -/
structure StoredQuotaState where
  sameGeneration : Bool
  measuredbytes : ℤ
deriving DecidableEq, Repr

/-- `open` of a store that uses `usage` bytes.  A state of this generation is
adopted; otherwise the exact usage is measured and published. -/
def openAccounting
    (maxBytes : ℤ) (usage : Nat) (stored : Option StoredQuotaState)
    (o : ReconcileOutcome) : Option SnapshotQuotaAccounting :=
  if !validBytes maxBytes || maxBytes = 0 then none
  else
    let s : SnapshotQuotaAccounting :=
      { maxBytes := maxBytes, usage := usage, nextEntry := 1
        file := stored.map fun state => ⟨0, state.measuredbytes⟩
        stateEntry := stored.map fun _ => 0 }
    match stored with
    | some ⟨true, measuredbytes⟩ =>
      if validBytes measuredbytes then some { s with measuredBytes := measuredbytes }
      else none
    | _ =>
      match s.reconcileExactUsageUnlocked o with
      | (s, some _) => some s
      | (_, none) => none

end SnapshotQuota

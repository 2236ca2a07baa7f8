import Crest.JsString

/-!
# Captured path states

What a workspace snapshot records about one path, what a live inspection of
the path can find, and how recovery compares the two.  A commit stores a
`CapturedPathStateV1`; the inspector returns a `LiveCapturedPathState`, of
which only three kinds can be compared with a stored state.
-/

namespace Workspace

/-- Why a path has no captured content. -/
inductive WorkspaceCoverageReason
  | ignored
  | nestedRepository
  | oversizedUntracked
  | nonUtf8Path
  | hardLinked
  | specialEntry
  | captureBudget
  deriving DecidableEq, Repr

/-- The state a snapshot records for one path. -/
inductive CapturedPathStateV1
  | absent
  | file (oid : JsString) (executable : Bool)
  | symlink (oid : JsString)
  | excluded (reason : WorkspaceCoverageReason)
  deriving DecidableEq, Repr

/-- The state a live inspection finds at one path.  The fingerprint, a hash of
the same data, is left out. -/
inductive LiveCapturedPathState
  | absent
  | file (oid : JsString) (executable : Bool)
  | symlink (oid : JsString)
  | directory (empty : Bool)
  | unsafeKind (kind : JsString)
  | blocked (reason : JsString)
  deriving DecidableEq, Repr

/-- Equality of captured states as the code spells it out, field by field. -/
def sameCapturedState : CapturedPathStateV1 → CapturedPathStateV1 → Bool
  | .file oid executable, .file oid' executable' => oid == oid' && executable == executable'
  | .symlink oid, .symlink oid' => oid == oid'
  | .excluded reason, .excluded reason' => reason == reason'
  | .absent, .absent => true
  | _, _ => false

@[simp] theorem sameCapturedState_iff (left right : CapturedPathStateV1) :
    sameCapturedState left right = true ↔ left = right := by
  cases left <;> cases right <;> simp [sameCapturedState]

/-- The captured state of a live inspection; `none` is the code's
`"unknown"`. -/
def capturedFromLive : LiveCapturedPathState → Option CapturedPathStateV1
  | .absent => some .absent
  | .file oid executable => some (.file oid executable)
  | .symlink oid => some (.symlink oid)
  | _ => none

/-- Where a path stands between the two commits of a pending restore. -/
inductive RecoveryClassification
  | before
  | target
  | unknown
  deriving DecidableEq, Repr

/-- `classifyWorkspaceRecoveryPath`: the source state is tried first, so a
path whose two states agree counts as not yet changed. -/
def classifyWorkspaceRecoveryPath (live : Option CapturedPathStateV1)
    (source planned : CapturedPathStateV1) : RecoveryClassification :=
  match live, source, planned with
  | none, _, _ => .unknown
  | some (.excluded _), _, _ => .unknown
  | _, .excluded _, _ => .unknown
  | _, _, .excluded _ => .unknown
  | some live, source, planned =>
    if sameCapturedState live source then .before
    else if sameCapturedState live planned then .target
    else .unknown

/-- `liveMatchesCaptured`: an excluded state matches nothing. -/
def liveMatchesCaptured : LiveCapturedPathState → CapturedPathStateV1 → Bool
  | live, .absent => live == .absent
  | live, .file oid executable => live == .file oid executable
  | live, .symlink oid => live == .symlink oid
  | _, .excluded _ => false

/-- A state that can be applied to a path or required of it: the code's
`Exclude<CapturedPathStateV1, { state: "excluded" }>`. -/
inductive RestorableState
  | absent
  | file (oid : JsString) (executable : Bool)
  | symlink (oid : JsString)
  deriving DecidableEq, Repr

/-- A restorable state as a captured one. -/
def RestorableState.captured : RestorableState → CapturedPathStateV1
  | .absent => .absent
  | .file oid executable => .file oid executable
  | .symlink oid => .symlink oid

/-- The restorable state a captured one is, if it is not an exclusion. -/
def CapturedPathStateV1.restorable : CapturedPathStateV1 → Option RestorableState
  | .absent => some .absent
  | .file oid executable => some (.file oid executable)
  | .symlink oid => some (.symlink oid)
  | .excluded _ => none

@[simp] theorem RestorableState.restorable_captured (s : RestorableState) :
    s.captured.restorable = some s := by
  cases s <;> rfl

@[simp] theorem RestorableState.captured_inj (s t : RestorableState) :
    s.captured = t.captured ↔ s = t := by
  cases s <;> cases t <;> simp [captured]

theorem liveMatchesCaptured_iff (live : LiveCapturedPathState) (s : RestorableState) :
    liveMatchesCaptured live s.captured = true ↔ capturedFromLive live = some s.captured := by
  cases s <;> cases live <;>
    simp [liveMatchesCaptured, capturedFromLive, RestorableState.captured]

theorem classify_captured (live source planned : RestorableState) :
    classifyWorkspaceRecoveryPath (some live.captured) source.captured planned.captured =
      if live = source then .before else if live = planned then .target else .unknown := by
  have hsame (s t : RestorableState) :
      sameCapturedState s.captured t.captured = decide (s = t) := by
    rw [Bool.eq_iff_iff]
    simp
  have h := hsame live source
  have h' := hsame live planned
  cases live <;> cases source <;> cases planned <;>
    simp_all [classifyWorkspaceRecoveryPath, RestorableState.captured]

end Workspace

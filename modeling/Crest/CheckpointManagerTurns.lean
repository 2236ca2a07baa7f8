import Crest.CheckpointManagerRules

/-!
# What the events of a turn do

The acquisition of the lease, the user entry, and the end of a turn.  A boundary that was
acquired has a record of its turn, or could not get one and says why; the end of a turn
whose checkpoint is sound gives the turn one checkpoint, or says that its record may go.
-/

namespace CheckpointManager

open Workspace Faults Faulty

section Turns

variable {input : Registration} {c : JsString → Option JsString} {t : JsString}
  {P : PendingWorkspaceBoundaryV1 → Prop} {w₀ : World} {n : Nat} {ob : Option ActiveBoundary}
  {w : World}

/-- What a boundary says of its turn, whatever state the turn is in. -/
structure BoundaryOk (c : JsString → Option JsString) (t : JsString) (boundary : ActiveBoundary) :
    Prop where
  token_eq : boundary.token = t
  user : boundary.userEntryId = c t
  unbound : c t = none → boundary.pendingBound = false
  plain : ∀ failure, boundary.beforeFailure = some failure → failure.coverage = none

/-- A boundary that has been acquired, or could not be; `P` holds for its records. -/
structure Acquired (c : JsString → Option JsString) (t : JsString)
    (P : PendingWorkspaceBoundaryV1 → Prop) (boundary : ActiveBoundary) : Prop
    extends BoundaryOk c t boundary where
  leased : boundary.lease = true → boundary.pending = true ∧
    ∃ base, boundary.base = some base ∧ ∀ record, P record → record.before = base.ref
  failed : boundary.lease = false →
    boundary.acquisitionFailure.isSome = true ∧ boundary.beforeFailure.isSome = true

theorem Acquired.of_failure {boundary : ActiveBoundary} (h : BoundaryOk c t boundary)
    (failure : Thrown) :
    Acquired c t P
      { boundary with
        acquisitionFailure := some failure
        beforeFailure := some (classifyCheckpointFailure failure)
        lease := false } where
  token_eq := h.token_eq
  user := h.user
  unbound := h.unbound
  plain := by
    intro f hf
    cases hf
    cases failure <;> rfl
  leased := by simp
  failed := by simp

theorem wp_acquisitionFailed {boundary : ActiveBoundary}
    (h : At input c t P w₀ n (some boundary) w) (hboundary : BoundaryOk c t boundary)
    (error : Thrown) (Q : Unit → World → Prop) :
    wp (acquisitionFailed t error) Q
      (fun _ w' => ∃ boundary', At input c t P w₀ n (some boundary') w' ∧
        Acquired c t P boundary')
      (fun w' => ∃ ob, At input c t P w₀ n ob w') w := by
  have hfail : ∀ (failure : Thrown) (boundary' : ActiveBoundary) (w' : World),
      At input c t P w₀ n (some boundary') w' → BoundaryOk c t boundary' →
      wp (do
          updateBoundary t fun boundary =>
            { boundary with
              acquisitionFailure := some failure
              beforeFailure := some (classifyCheckpointFailure failure)
              lease := false }
          throwing failure) Q
        (fun _ w' => ∃ boundary', At input c t P w₀ n (some boundary') w' ∧
          Acquired c t P boundary')
        (fun w' => ∃ ob, At input c t P w₀ n ob w') w' := by
    intro failure boundary' w' h' hboundary'
    apply wp_bind
    apply wp_modify
    apply wp_throwing
    exact ⟨_, h'.update _, Acquired.of_failure hboundary' failure⟩
  apply wp_bind
  apply wp_get
  rw [h.boundary]
  dsimp only
  split
  case isTrue hunbound =>
    have hnot : ¬ ∃ boundary', some boundary = some boundary' ∧ boundary'.pendingBound = true := by
      rintro ⟨boundary', heq, hbound⟩
      cases heq
      simp [hbound] at hunbound
    apply wp_bind
    apply wp_catching
    apply wp_bind
    apply wp_mono (wp_retireFailedPending h fun hbound => absurd hbound hnot)
    · rintro _ w' (h' | h')
      · exact wp_pure (hfail error boundary w' h' hboundary)
      · exact wp_pure (hfail error _ w' h'
          ⟨hboundary.token_eq, hboundary.user, hboundary.unbound, hboundary.plain⟩)
    · intro _ w' h'
      exact wp_pure (hfail _ boundary w' h' hboundary)
    · exact fun _ h' => ⟨_, h'⟩
  case isFalse _ =>
    apply wp_bind
    exact wp_pure (hfail error boundary w h hboundary)

theorem wp_acquire {boundary : ActiveBoundary}
    {lease : Except Thrown Unit} {base : Except Thrown WorkspaceCheckpointHead} {nonce : JsString}
    (h : At input c t P w₀ 0 (some boundary) w) (hboundary : BoundaryOk c t boundary)
    (hP : ∀ head, base = .ok head → ∀ record : PendingWorkspaceBoundaryV1,
      record.processOwner = w₀.processOwner → record.after = none → record.before = head.ref →
      P record)
    (hbind : ∀ record userEntryId, P record → P { record with userEntryId := some userEntryId })
    (hbase : ∀ head, base = .ok head → ∀ record, P record → record.before = head.ref) :
    wp (acquire input t boundary.userEntryId lease base nonce)
      (fun _ w' => ∃ boundary', At input c t P w₀ 0 (some boundary') w' ∧
        Acquired c t P boundary')
      (fun _ w' => ∃ boundary', At input c t P w₀ 0 (some boundary') w' ∧
        BoundaryOk c t boundary')
      (fun w' => ∃ ob, At input c t P w₀ 0 ob w') w := by
  apply wp_bind
  apply wp_ofExcept
  case herror => exact fun _ _ => ⟨boundary, h, hboundary⟩
  intro _ _
  apply wp_bind
  apply wp_modify
  have hleased := h.update fun boundary => { boundary with lease := true }
  apply wp_bind
  apply wp_ofExcept
  case herror =>
    exact fun _ _ => ⟨_, hleased, hboundary.token_eq, hboundary.user, hboundary.unbound,
      hboundary.plain⟩
  intro head hhead
  apply wp_bind
  apply wp_modify
  have hheaded := hleased.update fun boundary => { boundary with base := some head }
  apply wp_bind
  apply wp_get
  apply wp_bind
  apply wp_mono (wp_beginPending hheaded rfl rfl rfl
    (hP head hhead _ hheaded.frame.owner rfl rfl))
  case hX =>
    exact fun _ w' h' => ⟨_, h', hboundary.token_eq, hboundary.user, hboundary.unbound,
      hboundary.plain⟩
  case hD => exact fun w' h' => ⟨_, h'⟩
  intro _ w' hbegun
  apply wp_bind
  apply wp_modify
  have hpending := hbegun.update fun boundary => { boundary with pending := true }
  cases hid : boundary.userEntryId with
  | none =>
    exact wp_pure ⟨_, hpending,
      { token_eq := hboundary.token_eq
        user := hboundary.user
        unbound := hboundary.unbound
        plain := hboundary.plain
        leased := fun _ => ⟨rfl, head, rfl, hbase head hhead⟩
        failed := by simp }⟩
  | some userEntryId =>
    have hturn : c t = some userEntryId := by rw [← hboundary.user, hid]
    apply wp_bind
    apply wp_mono (wp_bindPending hpending hturn fun record hrecord =>
      hbind record userEntryId hrecord)
    · intro _ w'' hbound
      exact wp_modify ⟨_, hbound.update fun boundary => { boundary with pendingBound := true },
        { token_eq := hboundary.token_eq
          user := hboundary.user
          unbound := fun hnone => by simp [hturn] at hnone
          plain := hboundary.plain
          leased := fun _ => ⟨rfl, head, rfl, hbase head hhead⟩
          failed := by simp }⟩
    · exact fun _ w'' h' => ⟨_, h', hboundary.token_eq, hboundary.user, hboundary.unbound,
        hboundary.plain⟩
    · exact fun w'' h' => ⟨_, h'⟩

theorem wp_onCommitted {boundary : ActiveBoundary} {userEntryId : JsString}
    (h : At input c t P w₀ 0 (some boundary) w) (hturn : c t = some userEntryId)
    (htoken : boundary.token = t)
    (hplain : ∀ failure, boundary.beforeFailure = some failure → failure.coverage = none)
    (hpending : boundary.pending = true) (hunbound : boundary.pendingBound = false)
    (hleased : boundary.lease = true →
      ∃ base, boundary.base = some base ∧ ∀ record, P record → record.before = base.ref)
    (hfailed : boundary.lease = false →
      boundary.acquisitionFailure.isSome = true ∧ boundary.beforeFailure.isSome = true)
    (hbind : ∀ record, P record → P { record with userEntryId := some userEntryId }) :
    wp (onCommitted t userEntryId)
      (fun _ w' => ∃ boundary', At input c t P w₀ 0 (some boundary') w' ∧
        Acquired c t P boundary')
      (fun _ w' => ∃ boundary', At input c t P w₀ 0 (some boundary') w' ∧
        Acquired c t P boundary')
      (fun w' => ∃ ob, At input c t P w₀ 0 ob w') w := by
  apply wp_bind
  apply wp_get
  rw [h.boundary]
  apply wp_bind
  apply wp_modify
  have hcommitted := h.update fun boundary => { boundary with userEntryId := some userEntryId }
  have hok : BoundaryOk c t { boundary with userEntryId := some userEntryId } :=
    { token_eq := htoken
      user := hturn.symm
      unbound := fun _ => hunbound
      plain := hplain }
  rw [if_pos hpending]
  apply wp_catching
  apply wp_bind
  apply wp_mono (wp_bindPending hcommitted hturn hbind)
  case hD => exact fun _ h' => ⟨_, h'⟩
  · intro _ w' hbound
    exact wp_modify ⟨_, hbound.update fun boundary => { boundary with pendingBound := true },
      { token_eq := htoken
        user := hturn.symm
        unbound := fun hnone => by simp [hturn] at hnone
        plain := hplain
        leased := fun hlease => ⟨hpending, hleased hlease⟩
        failed := hfailed }⟩
  · intro error w' h'
    apply wp_bind
    apply wp_modify
    have hfailure := h'.update fun boundary =>
      { boundary with
        acquisitionFailure := some error
        beforeFailure := some (classifyCheckpointFailure error)
        lease := false }
    have hacquired := Acquired.of_failure (P := P) hok error
    apply wp_bind
    apply wp_mono (wp_retireFailedPending hfailure ?_)
    · rintro _ w'' (h'' | h'')
      · exact wp_throwing ⟨_, h'', hacquired⟩
      · exact wp_throwing ⟨_, h'',
          { token_eq := htoken
            user := hturn.symm
            unbound := fun _ => hunbound
            plain := hacquired.plain
            leased := by simp
            failed := by simp }⟩
    · exact fun _ w'' h'' => ⟨_, h'', hacquired⟩
    · exact fun w'' h'' => ⟨_, h''⟩
    · rintro ⟨boundary', heq, hbound⟩
      cases heq
      rw [hunbound] at hbound
      cases hbound

section

variable (h : At input c t P w₀ 0 ob w)
include h

theorem At.append {checkpoint : WorkspaceCheckpointV1} (hturn : c t = some checkpoint.turnId)
    (hread : decodeWorkspaceCheckpointV1 checkpoint.toJson = some checkpoint)
    (hcontent : ∀ available, checkpoint = .available available → Content w.log available)
    (recovering : Bool) (outcome : Outcome Thrown) :
    At input c t P w₀ (if outcome.persisted then 1 else 0) ob
      (CheckpointManager.effect (.appendCheckpoint checkpoint recovering) outcome w) where
  durable := h.durable.append hturn (h.count _ hturn) hread hcontent outcome
  frame := h.frame.trans (Frame.effect
    (show Concerns c t (.appendCheckpoint checkpoint recovering) from hturn) outcome w)
  count := by
    intro u hu
    have hid : checkpoint.turnId = u := by
      rw [hu] at hturn
      cases hturn
      rfl
    cases hpersisted : outcome.persisted with
    | false => simpa [CheckpointManager.effect, hpersisted] using h.count u hu
    | true =>
      simp only [CheckpointManager.effect, hpersisted, ite_true, turnCount_append, hid,
        h.count u hu]
  records := by
    intro record hrecord
    apply h.records
    cases hpersisted : outcome.persisted <;>
      simpa [CheckpointManager.effect, hpersisted, Durable.apply] using hrecord
  boundary := h.boundary

theorem At.closable_of_append
    {checkpoint : WorkspaceCheckpointV1} (hturn : c t = some checkpoint.turnId)
    (hread : decodeWorkspaceCheckpointV1 checkpoint.toJson = some checkpoint)
    (hcontent : ∀ available, checkpoint = .available available → Content w.log available)
    (outcome : Outcome Thrown) :
    Closable (CheckpointManager.effect (.appendCheckpoint checkpoint false) outcome w) t := by
  have h' := h.append hturn hread hcontent false outcome
  cases hpersisted : outcome.persisted with
  | true =>
    rw [hpersisted] at h'
    exact h'.closable
  | false =>
    intro u hb
    have hu := (h'.durable.kept t u hb).1
    rw [hturn] at hu
    cases hu
    exact Or.inr ⟨_, List.mem_append_right _ (List.mem_singleton.mpr rfl),
      Or.inr ⟨hpersisted, checkpoint, rfl, rfl⟩⟩

theorem wp_appendUnavailable {turnId : JsString}
    {failure : CheckpointFailure} (hturn : c t = some turnId) (hplain : failure.coverage = none)
    (recovering : Bool) :
    wp (appendUnavailable input turnId failure recovering)
      (fun _ => At input c t P w₀ 1 ob)
      (fun _ w' => ∃ n, At input c t P w₀ n ob w' ∧ (recovering = false → Closable w' t))
      (At input c t P w₀ 0 ob) w := by
  have hread : decodeWorkspaceCheckpointV1 (failedCheckpoint input turnId failure).toJson =
      some (failedCheckpoint input turnId failure) :=
    decodeWorkspaceCheckpointV1_unavailable _ hplain
  have hcontent : ∀ available, failedCheckpoint input turnId failure = .available available →
      Content w.log available := by
    intro available heq
    cases heq
  have hturn' : c t = some (failedCheckpoint input turnId failure).turnId := hturn
  apply wp_perform
  · exact h.append hturn' hread hcontent recovering .ok
  · intro _ outcome _
    refine ⟨_, h.append hturn' hread hcontent recovering outcome, ?_⟩
    rintro rfl
    exact h.closable_of_append hturn' hread hcontent outcome
  · exact h

end

theorem wp_retirePending (h : At input c t P w₀ n ob w) (hclosable : Closable w t) :
    wp (retirePending t)
      (fun _ w' => ∃ ob, At input c t P w₀ n ob w')
      (fun _ w' => ∃ ob, At input c t P w₀ n ob w')
      (fun w' => ∃ ob, At input c t P w₀ n ob w') w := by
  apply wp_bind
  apply wp_modify
  have h' : At input c t P w₀ n ob { w with retirementAttempted := true } :=
    { durable := h.durable.congr rfl rfl
      frame := { h.frame with }
      count := h.count
      records := h.records
      boundary := h.boundary }
  apply wp_mono (wp_retireFailedPending h' fun _ => hclosable)
  · rintro _ w'' (h'' | h'')
    · exact ⟨_, h''⟩
    · exact ⟨_, h''⟩
  · exact fun _ _ h'' => ⟨_, h''⟩
  · exact fun _ h'' => ⟨_, h''⟩

theorem At.closable_of_none (h : At input c t P w₀ n ob w) (hturn : c t = none) :
    Closable w t := by
  intro u hb
  have hu := (h.durable.kept t u hb).1
  rw [hturn] at hu
  cases hu

/-- What is known when the body of `onTerminal` returns: the turn has no user entry, or it
has its checkpoint. -/
def Finished (input : Registration) (c : JsString → Option JsString) (t : JsString)
    (P : PendingWorkspaceBoundaryV1 → Prop) (w₀ w : World) : Prop :=
  ∃ ob, (c t = none ∧ At input c t P w₀ 0 ob w) ∨ At input c t P w₀ 1 ob w

/-- What is known when it throws: the record may go. -/
def Failed (input : Registration) (c : JsString → Option JsString) (t : JsString)
    (P : PendingWorkspaceBoundaryV1 → Prop) (w₀ w : World) : Prop :=
  ∃ n ob, At input c t P w₀ n ob w ∧ Closable w t

/-- What is known in any case. -/
def Stopped (input : Registration) (c : JsString → Option JsString) (t : JsString)
    (P : PendingWorkspaceBoundaryV1 → Prop) (w₀ w : World) : Prop :=
  ∃ n ob, At input c t P w₀ n ob w

theorem wp_finishUnavailable (h : At input c t P w₀ 0 ob w) {turnId : JsString}
    {failure : CheckpointFailure} (hturn : c t = some turnId) (hplain : failure.coverage = none) :
    wp (finishUnavailable input t turnId failure)
      (fun _ => Finished input c t P w₀) (fun _ => Failed input c t P w₀)
      (Stopped input c t P w₀) w := by
  apply wp_bind
  apply wp_mono (wp_appendUnavailable h hturn hplain false)
  case hX =>
    intro _ _ hrest
    obtain ⟨n, h', hclosable⟩ := hrest
    exact ⟨n, ob, h', hclosable rfl⟩
  case hD => exact fun _ h' => ⟨0, ob, h'⟩
  intro _ w' h'
  apply wp_bind
  apply wp_mono (wp_retirePending h' h'.closable)
  · intro _ _ hrest
    obtain ⟨ob', h''⟩ := hrest
    exact wp_pure ⟨ob', Or.inr h''⟩
  · intro _ _ hrest
    obtain ⟨ob', h''⟩ := hrest
    exact ⟨1, ob', h'', h''.closable⟩
  · intro _ hrest
    obtain ⟨ob', h''⟩ := hrest
    exact ⟨1, ob', h''⟩

/-- Whether the first call throws after it took effect. -/
def throwsAfterEffect : List (Outcome Thrown) → Bool
  | .kept _ :: _ => true
  | _ => false

theorem wpFor_finishIdle (h : At input c t P w₀ 0 ob w) {turnId : JsString}
    {head : Except Thrown WorkspaceCheckpointHead} {os : List (Outcome Thrown)}
    (hturn : c t = some turnId) (hnever : ∀ boundaryToken, ¬ EverBound w.log boundaryToken turnId)
    (hread : ∀ current ∈ head.toOption, throwsAfterEffect os = false ∧
      decodeWorkspaceCheckpointV1
          (capturedCheckpoint input turnId current.ref current.ref [] current.coverage).toJson =
        some (capturedCheckpoint input turnId current.ref current.ref [] current.coverage)) :
    wpFor os (finishIdle input turnId head)
      (fun _ => Finished input c t P w₀) (fun _ => Failed input c t P w₀)
      (Stopped input c t P w₀) w := by
  have hunavailable : ∀ (error : Thrown) (w' : World), At input c t P w₀ 0 ob w' →
      wp (appendUnavailable input turnId (classifyCheckpointFailure error) false)
        (fun _ w'' => wp (pure true : Operation Bool) (fun _ => Finished input c t P w₀)
          (fun _ => Failed input c t P w₀) (Stopped input c t P w₀) w'')
        (fun _ => Failed input c t P w₀) (Stopped input c t P w₀) w' := by
    intro error w' h'
    have hplain : (classifyCheckpointFailure error).coverage = none := by
      cases error <;> rfl
    apply wp_mono (wp_appendUnavailable h' hturn hplain false)
    · exact fun _ _ h'' => wp_pure ⟨ob, Or.inr h''⟩
    · intro _ _ hrest
      obtain ⟨n, h'', hclosable⟩ := hrest
      exact ⟨n, ob, h'', hclosable rfl⟩
    · exact fun _ h'' => ⟨0, ob, h''⟩
  apply wpFor_bind
  apply wpFor_catching
  cases head with
  | error error =>
    apply wpFor_error
    exact hunavailable error w h
  | ok current =>
    obtain ⟨hos, hread⟩ := hread current rfl
    have hcontent : ∀ available,
        capturedCheckpoint input turnId current.ref current.ref [] current.coverage =
          .available available → Content w.log available := by
      intro available heq
      cases heq
      exact Or.inr ⟨hnever, rfl, rfl⟩
    have hturn' : c t = some (capturedCheckpoint input turnId current.ref current.ref []
        current.coverage).turnId := hturn
    apply wpFor_ok
    apply wpFor_attempt
    · rintro e rest rfl
      cases hos
    · exact wp_pure ⟨ob, Or.inr (h.append hturn' hread hcontent false .ok)⟩
    · exact fun e => hunavailable e _ (h.append hturn' hread hcontent false (.lost e))
    · exact ⟨0, ob, h⟩

theorem wp_finishCaptured {boundary : ActiveBoundary}
    (h : At input c t P w₀ 0 (some boundary) w) {turnId : JsString}
    {base : WorkspaceCheckpointHead} {captured : WorkspaceOwnedTurnCapture}
    (hturn : c t = some turnId) (htoken : boundary.token = t) (hpending : boundary.pending = true)
    (hopen : ∀ record, pendingRecord w.durable t = some record → record.after = none)
    (hbase : ∀ record, P record → record.before = base.ref)
    (hP : ∀ record after, P record → P { record with after := some after })
    (hread : decodeWorkspaceCheckpointV1
        (capturedCheckpoint input turnId base.ref captured.after captured.changes
          captured.coverage).toJson =
      some (capturedCheckpoint input turnId base.ref captured.after captured.changes
        captured.coverage)) :
    wp (finishCaptured input boundary turnId base captured)
      (fun _ => Finished input c t P w₀) (fun _ => Failed input c t P w₀)
      (Stopped input c t P w₀) w := by
  unfold finishCaptured
  simp only [hpending, ite_true, htoken]
  apply wp_bind
  apply wp_mono (wp_recordAfter h hturn hopen fun record => hP record captured.after)
  case hX =>
    intro _ _ hrest
    obtain ⟨h', hclosable⟩ := hrest
    exact ⟨0, _, h', hclosable⟩
  case hD => exact fun _ h' => ⟨0, _, h'⟩
  rintro _ w' ⟨h', record, hrecord, hid, hafter, hentry⟩
  have hcontent : ∀ available,
      capturedCheckpoint input turnId base.ref captured.after captured.changes captured.coverage =
        .available available → Content w'.log available := by
    intro available heq
    cases heq
    exact Or.inl ⟨record, hentry, hid, hbase record hrecord, hafter⟩
  have hturn' : c t = some (capturedCheckpoint input turnId base.ref captured.after
      captured.changes captured.coverage).turnId := hturn
  apply wp_bind
  apply wp_perform
  case hthrow =>
    exact fun _ outcome _ => ⟨_, _, h'.append hturn' hread hcontent false outcome,
      h'.closable_of_append hturn' hread hcontent outcome⟩
  case hdies => exact ⟨0, _, h'⟩
  have hdone := h'.append hturn' hread hcontent false .ok
  apply wp_bind
  apply wp_mono (wp_completePending hdone hdone.closable)
  · intro _ w'' h''
    apply wp_bind
    apply wp_modify
    apply wp_pure
    exact ⟨_, Or.inr (h''.update fun boundary => { boundary with pending := false })⟩
  · exact fun _ _ h'' => ⟨1, _, h'', h''.closable⟩
  · exact fun _ h'' => ⟨1, _, h''⟩

/-- Whether a checkpoint is read back as it was. -/
def ReadsBack (checkpoint : WorkspaceCheckpointV1) : Prop :=
  decodeWorkspaceCheckpointV1 checkpoint.toJson = some checkpoint

instance (checkpoint : WorkspaceCheckpointV1) : Decidable (ReadsBack checkpoint) :=
  inferInstanceAs (Decidable (_ = _))

/-- Whether the available checkpoint that the end of a turn would append is read back, and,
for a turn without lease, its append does not throw after it took effect. -/
def Sound (input : Registration) (boundary : ActiveBoundary) (turnEnd : TurnEnd)
    (os : List (Outcome Thrown)) : Prop :=
  ∀ turnId ∈ boundary.userEntryId,
    boundary.beforeFailure = none →
    turnEnd.hostedRunning = false →
    (boundary.lease = false → ∀ current ∈ turnEnd.head.toOption,
      throwsAfterEffect os = false ∧
        ReadsBack (capturedCheckpoint input turnId current.ref current.ref [] current.coverage)) ∧
    (boundary.lease = true → ∀ base ∈ boundary.base, ∀ captured ∈ turnEnd.captured.toOption,
      ReadsBack (capturedCheckpoint input turnId base.ref captured.after captured.changes
        captured.coverage))

instance (input : Registration) (boundary : ActiveBoundary) (turnEnd : TurnEnd)
    (os : List (Outcome Thrown)) : Decidable (Sound input boundary turnEnd os) := by
  unfold Sound
  infer_instance

theorem wp_terminalFailed (h : Failed input c t P w₀ w) (error : Thrown)
    (Q : Bool → World → Prop) :
    wp (terminalFailed t error) Q
      (fun _ => Stopped input c t P w₀)
      (Stopped input c t P w₀) w := by
  obtain ⟨n, ob, h, hclosable⟩ := h
  apply wp_bind
  apply wp_get
  split
  case isTrue _ =>
    apply wp_bind
    apply wp_catching
    apply wp_mono (wp_retirePending h hclosable)
    · intro _ _ hrest
      obtain ⟨ob', h'⟩ := hrest
      exact wp_throwing ⟨n, ob', h'⟩
    · intro _ _ hrest
      obtain ⟨ob', h'⟩ := hrest
      exact wp_throwing ⟨n, ob', h'⟩
    · intro _ hrest
      obtain ⟨ob', h'⟩ := hrest
      exact ⟨n, ob', h'⟩
  case isFalse _ => exact wp_throwing ⟨n, ob, h⟩

theorem At.terminalDone (h : At input c t P w₀ n ob w) :
    ∃ ob', At input c t P w₀ n ob' (terminalDone t w) := by
  refine ⟨_, h.durable.congr rfl rfl, ?_, h.count, h.records, rfl⟩
  refine { h.frame with boundaries := ?_, active := ?_ }
  · intro t' ht'
    rw [← h.frame.boundaries t' ht']
    unfold CheckpointManager.terminalDone
    cases w.boundaries.get t with
    | none => rfl
    | some boundary =>
      dsimp only
      split <;> simp [ht']
  · intro t' ht'
    apply h.frame.active
    simp only [CheckpointManager.terminalDone] at ht'
    split at ht'
    case isTrue _ => cases ht'
    case isFalse _ => exact ht'

theorem terminalDone_active (t : JsString) (w : World) :
    (terminalDone t w).activeBoundaryToken ≠ some t := by
  simp only [terminalDone]
  split
  case isTrue _ => simp
  case isFalse h => exact h

variable {boundary : ActiveBoundary} {turnEnd : TurnEnd} {os : List (Outcome Thrown)}
  (h : At input c t P w₀ 0 (some boundary) w) (hboundary : BoundaryOk c t boundary)
  (hinjective : ∀ t' u, c t = some u → c t' = some u → t' = t)
  (hopen : ∀ record, pendingRecord w.durable t = some record → record.after = none)
  (hleased : boundary.lease = true → boundary.pending = true ∧
    ∃ base, boundary.base = some base ∧ ∀ record, P record → record.before = base.ref)
  (hnever : boundary.lease = false → boundary.beforeFailure = none →
    ∀ u, ¬ EverBound w.log t u)
  (hP : ∀ record after, P record → P { record with after := some after })
  (hsound : Sound input boundary turnEnd os)
include h hboundary hinjective hopen hleased hnever hP hsound

theorem wpFor_finishTurn :
    wpFor os (finishTurn input boundary turnEnd)
      (fun _ => Finished input c t P w₀) (fun _ => Failed input c t P w₀)
      (Stopped input c t P w₀) w := by
  have htoken := hboundary.token_eq
  unfold finishTurn
  rcases Option.eq_none_or_eq_some boundary.userEntryId with hid | ⟨turnId, hid⟩
  · have hturn : c t = none := by rw [← hboundary.user, hid]
    rw [hid, htoken]
    apply wpFor_bind
    apply wpFor_mono (wp_retirePending h (h.closable_of_none hturn) os)
    · intro _ _ hrest
      obtain ⟨ob', h'⟩ := hrest
      exact wp_pure ⟨ob', Or.inl ⟨hturn, h'⟩⟩
    · intro _ _ hrest
      obtain ⟨ob', h'⟩ := hrest
      exact ⟨0, ob', h', h'.closable_of_none hturn⟩
    · intro _ hrest
      obtain ⟨ob', h'⟩ := hrest
      exact ⟨0, ob', h'⟩
  · have hturn : c t = some turnId := by rw [← hboundary.user, hid]
    have hsound := hsound turnId hid
    rw [hid, htoken]
    dsimp only
    rcases Option.eq_none_or_eq_some boundary.beforeFailure with hbefore | ⟨failure, hbefore⟩
    case inr =>
      rw [hbefore]
      exact wp_finishUnavailable h hturn (hboundary.plain failure hbefore) os
    rw [hbefore]
    dsimp only
    split
    case isTrue _ => exact wp_finishUnavailable h hturn rfl os
    case isFalse hhosted =>
      obtain ⟨hidle, hcapture⟩ := hsound hbefore (by simpa using hhosted)
      split
      case isTrue hlease =>
        have hlease : boundary.lease = false := by simpa using hlease
        apply wpFor_finishIdle h hturn
        · intro t' hb
          have ht' := hinjective t' turnId hturn (h.durable.kept t' turnId hb).1
          exact hnever hlease hbefore turnId (ht' ▸ hb)
        · exact hidle hlease
      case isFalse hlease =>
        have hlease : boundary.lease = true := by simpa using hlease
        obtain ⟨hpending, base, hbase, hbefores⟩ := hleased hlease
        rw [hbase]
        dsimp only
        cases hcaptured : turnEnd.captured with
        | error error =>
          exact wp_finishUnavailable h hturn (by cases error <;> rfl) os
        | ok captured =>
          exact wp_finishCaptured h hturn htoken hpending hopen hbefores hP
            (hcapture hlease base hbase captured (by rw [hcaptured]; rfl)) os

theorem wpFor_onTerminal :
    wpFor os (onTerminal input t turnEnd)
      (fun _ w' => Finished input c t P w₀ w' ∧ w'.activeBoundaryToken ≠ some t)
      (fun _ w' => Stopped input c t P w₀ w' ∧ w'.activeBoundaryToken ≠ some t)
      (Stopped input c t P w₀) w := by
  apply wpFor_get
  rw [h.boundary, ← hboundary.token_eq]
  dsimp only
  rw [hboundary.token_eq]
  apply wpFor_cleaningUp
  apply wpFor_catching
  have hbody := wpFor_finishTurn h hboundary hinjective hopen hleased hnever hP hsound
  have hfinished : ∀ w', Finished input c t P w₀ w' → Finished input c t P w₀ (terminalDone t w') := by
    rintro w' ⟨ob, ⟨hturn, h'⟩ | h'⟩
    · obtain ⟨ob', h''⟩ := h'.terminalDone
      exact ⟨ob', Or.inl ⟨hturn, h''⟩⟩
    · obtain ⟨ob', h''⟩ := h'.terminalDone
      exact ⟨ob', Or.inr h''⟩
  have hstopped : ∀ w', Stopped input c t P w₀ w' → Stopped input c t P w₀ (terminalDone t w') := by
    rintro w' ⟨n, ob, h'⟩
    obtain ⟨ob', h''⟩ := h'.terminalDone
    exact ⟨n, ob', h''⟩
  apply wpFor_mono hbody
  · exact fun _ w' h' => ⟨hfinished w' h', terminalDone_active t w'⟩
  · intro e w' h'
    apply wp_mono (wp_terminalFailed h' e _)
    · exact fun _ _ h'' => h''
    · exact fun _ w'' h'' => ⟨hstopped w'' h'', terminalDone_active t w''⟩
    · exact fun _ h'' => h''
  · exact fun _ h' => h'

end Turns

end CheckpointManager

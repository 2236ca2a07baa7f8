import Crest.TurnOffers

/-!
# Offers and plans

The session state offers an undo or a redo for a turn, and the planners run it.
They agree on a turn unless they read the session differently there, and there are
four ways of doing so: a repeated id that only the session state minds, a leaf
entry on the branch that only the planners mind, a turn or a checkpoint that is not
committed, and an uncommitted entry that is in the way.
-/

namespace Session

open Workspace

variable (digest : Digest)

/-- Whether a marker on the branch is about a turn: after its checkpoint and in the
workspace of it. -/
def concernsSource (turnId : JsString) (source : MutationSource)
    (item : Nat × WorkspaceStateV1) : Bool :=
  source.branchIndex < item.1 &&
    (turnMutation item.2).any (fun mutation => mutation.sourceTurnId = turnId) &&
    item.2.workspaceIdentity = source.checkpoint.workspaceIdentity &&
    item.2.workspaceIncarnation = source.checkpoint.workspaceIncarnation

/-- What the committed markers after a checkpoint allow. -/
def authorityAfter (branch : List SessionTreeEntry) (sessionId turnId : JsString)
    (source : MutationSource) : WorkspaceTurnMutationAuthority :=
  ((committedStates digest branch sessionId).filter (concernsSource turnId source)).foldl
    (fun authority item => advanceTurnMutationAuthority authority item.2) .undo

theorem get_advanceTurn (sources : JsMap JsString MutationSource)
    (mutations : JsMap JsString WorkspaceTurnMutationAuthority)
    (item : Nat × WorkspaceStateV1) (turnId : JsString) {source : MutationSource}
    (hsource : sources.get turnId = some source) {current : WorkspaceTurnMutationAuthority}
    (hcurrent : mutations.get turnId = some current) :
    (advanceTurn sources mutations item).get turnId =
      some (if concernsSource turnId source item then
        advanceTurnMutationAuthority current item.2 else current) := by
  unfold advanceTurn concernsSource
  cases hmutation : turnMutation item.2 with
  | none => simp [hcurrent]
  | some mutation =>
    by_cases hturn : mutation.sourceTurnId = turnId
    · subst hturn
      simp only [hsource, hcurrent]
      split
      · rename_i hskip
        rw [hcurrent]
        have hno : ¬ (source.branchIndex < item.1 ∧
            item.2.workspaceIdentity = source.checkpoint.workspaceIdentity ∧
            item.2.workspaceIncarnation = source.checkpoint.workspaceIncarnation) := by
          rintro ⟨hlt, hidentity, hincarnation⟩
          rcases hskip with h | h | h
          · omega
          · exact h hidentity
          · exact h hincarnation
        simp [hno, and_assoc]
      · rename_i hkeep
        simp only [not_or, not_le, ne_eq, not_not] at hkeep
        simp [hkeep]
    · have hother : turnId ≠ mutation.sourceTurnId := fun h => hturn h.symm
      simp only [Option.any_some, hturn, decide_false, Bool.and_false, Bool.false_and,
        Bool.false_eq_true, if_false]
      split
      · split
        · exact hcurrent
        · rw [JsMap.get_set, if_neg hother, hcurrent]
      · exact hcurrent

/-- **All markers together do to a turn what those about it do.** -/
theorem get_foldl_advanceTurn (sources : JsMap JsString MutationSource) (turnId : JsString)
    {source : MutationSource} (hsource : sources.get turnId = some source)
    (items : List (Nat × WorkspaceStateV1))
    (mutations : JsMap JsString WorkspaceTurnMutationAuthority)
    {current : WorkspaceTurnMutationAuthority} (hcurrent : mutations.get turnId = some current) :
    (items.foldl (advanceTurn sources) mutations).get turnId =
      some ((items.filter (concernsSource turnId source)).foldl
        (fun authority item => advanceTurnMutationAuthority authority item.2) current) := by
  induction items generalizing mutations current with
  | nil => exact hcurrent
  | cons item items ih =>
    rw [List.foldl_cons, ih _ (get_advanceTurn sources mutations item turnId hsource hcurrent)]
    by_cases hconcerns : concernsSource turnId source item = true
    · rw [List.filter_cons_of_pos hconcerns, List.foldl_cons, if_pos hconcerns]
    · rw [List.filter_cons_of_neg hconcerns, if_neg hconcerns]

/-- The marker an indexed entry is for the session state. -/
def committedStateAt (branch : List SessionTreeEntry) (sessionId : JsString)
    (item : SessionTreeEntry × Nat) : Option (Nat × WorkspaceStateV1) :=
  if !isCommitted digest branch item.1 then none
  else
    match decodeWorkspaceStateEntry item.1 with
    | some state => if state.sessionId = sessionId then some (item.2, state) else none
    | none => none

theorem fst_of_committedStateAt {branch : List SessionTreeEntry} {sessionId : JsString}
    {item : SessionTreeEntry × Nat} {found : Nat × WorkspaceStateV1}
    (h : committedStateAt digest branch sessionId item = some found) :
    found.1 = item.2 := by
  unfold committedStateAt at h
  split at h
  · cases h
  split at h
  · split at h
    · obtain rfl := Option.some.inj h
      rfl
    · cases h
  · cases h

section

variable (input : PlanTurnRestoreInput) (branch : List SessionTreeEntry) (source : MutationSource)
include input branch source

theorem plannerStates_behind
    (hidentity : source.checkpoint.workspaceIdentity = input.workspaceIdentity)
    (hincarnation : source.checkpoint.workspaceIncarnation = input.workspaceIncarnation)
    (entries : List SessionTreeEntry) (start : Nat) (hstart : source.branchIndex < start) :
    ((((entries.zipIdx start).filterMap (committedStateAt digest branch input.sessionId)).filter
        (concernsSource input.sourceTurnId source)).map Prod.snd) =
      entries.filterMap fun entry =>
        if !isCommitted digest branch entry then none
        else (decodeWorkspaceStateEntry entry).filter (concernsTurn input) := by
  induction entries generalizing start with
  | nil => rfl
  | cons entry entries ih =>
    have ih := ih (start + 1) (by omega)
    rw [List.zipIdx_cons, List.filterMap_cons, List.filterMap_cons, ← ih]
    by_cases hcommitted : isCommitted digest branch entry = true
    · cases hdecoded : decodeWorkspaceStateEntry entry with
      | none => simp [committedStateAt, hcommitted, hdecoded]
      | some state =>
        by_cases hsession : state.sessionId = input.sessionId
        · have hsame : concernsSource input.sourceTurnId source (start, state) =
              concernsTurn input state := by
            simp [concernsSource, concernsTurn, hstart, hsession, hidentity, hincarnation]
          by_cases hconcerns : concernsTurn input state = true
          all_goals
            simp [committedStateAt, hcommitted, hdecoded, hsession, hsame, hconcerns,
              Option.filter]
        · have hother : concernsTurn input state = false := by
            simp [concernsTurn, hsession]
          simp [committedStateAt, hcommitted, hdecoded, hsession, hother, Option.filter]
    · simp [committedStateAt, hcommitted]

/-- **The planners collect the markers of a turn that the session state applies to
it.** -/
theorem plannerStates_eq (hindex : source.branchIndex < branch.length)
    (hidentity : source.checkpoint.workspaceIdentity = input.workspaceIdentity)
    (hincarnation : source.checkpoint.workspaceIncarnation = input.workspaceIncarnation) :
    ((branch.drop (source.branchIndex + 1)).filterMap fun entry =>
        if !isCommitted digest branch entry then none
        else (decodeWorkspaceStateEntry entry).filter (concernsTurn input)) =
      ((committedStates digest branch input.sessionId).filter
        (concernsSource input.sourceTurnId source)).map Prod.snd := by
  have hsplit : branch.zipIdx =
      (branch.take (source.branchIndex + 1)).zipIdx ++
        (branch.drop (source.branchIndex + 1)).zipIdx (source.branchIndex + 1) := by
    conv_lhs => rw [← List.take_append_drop (source.branchIndex + 1) branch]
    rw [List.zipIdx_append, List.length_take, Nat.min_eq_left (by omega), Nat.zero_add]
  have hstates : committedStates digest branch input.sessionId =
      branch.zipIdx.filterMap (committedStateAt digest branch input.sessionId) := rfl
  -- no marker up to the checkpoint is after it
  have hbefore : (((branch.take (source.branchIndex + 1)).zipIdx.filterMap
      (committedStateAt digest branch input.sessionId)).filter
        (concernsSource input.sourceTurnId source)) = [] := by
    rw [List.filter_eq_nil_iff]
    intro found hfound hconcerns
    obtain ⟨item, hitem, hat⟩ := List.mem_filterMap.mp hfound
    have hplace := fst_of_committedStateAt digest hat
    have hlt := (List.mem_zipIdx hitem).2.1
    rw [List.length_take] at hlt
    simp only [concernsSource, Bool.and_eq_true, decide_eq_true_eq] at hconcerns
    omega
  rw [hstates, hsplit, List.filterMap_append, List.filter_append, hbefore, List.nil_append,
    plannerStates_behind digest input branch source hidentity hincarnation _ _
      (Nat.lt_succ_self _)]

end

theorem foldl_resolveStep_authority (states : List WorkspaceStateV1)
    (resolved : ResolvedAuthority) :
    (states.foldl resolveStep resolved).authority =
      states.foldl advanceTurnMutationAuthority resolved.authority := by
  induction states generalizing resolved with
  | nil => rfl
  | cons state states ih => rw [List.foldl_cons, ih, List.foldl_cons, resolveStep]

theorem sourceMutationAuthority_authority (input : PlanTurnRestoreInput)
    (branch : List SessionTreeEntry) (checkpoint : AvailableCheckpoint) (index : Nat)
    (hindex : index < branch.length)
    (hidentity : checkpoint.workspaceIdentity = input.workspaceIdentity)
    (hincarnation : checkpoint.workspaceIncarnation = input.workspaceIncarnation) :
    (sourceMutationAuthority digest input
        { branch, checkpoint, checkpointIndex := index }).authority =
      authorityAfter digest branch input.sessionId input.sourceTurnId
        { checkpoint, branchIndex := index } := by
  rw [sourceMutationAuthority, foldl_resolveStep_authority,
    plannerStates_eq digest input branch { checkpoint, branchIndex := index } hindex hidentity
      hincarnation,
    List.foldl_map, authorityAfter]

/-- While a redo is allowed, the marker that last changed something is the undo it
takes back. -/
def ResolvedAuthority.Coherent (resolved : ResolvedAuthority) : Prop :=
  ∀ undoOperationId, resolved.authority = .redo undoOperationId →
    ∃ state sourceTurnId, resolved.latestState = some state ∧
      turnMutation state = some (.turnUndo sourceTurnId) ∧
      state.operationId = undoOperationId

theorem ResolvedAuthority.Coherent.step {resolved : ResolvedAuthority}
    (h : resolved.Coherent) (state : WorkspaceStateV1) :
    (resolveStep resolved state).Coherent := by
  intro undoOperationId hredo
  simp only [resolveStep] at hredo ⊢
  by_cases hsame : advanceTurnMutationAuthority resolved.authority state = resolved.authority
  · rw [if_pos hsame]
    exact h undoOperationId (hsame ▸ hredo)
  · rw [if_neg hsame]
    -- only an undo leads to a redo that was not allowed before
    unfold advanceTurnMutationAuthority at hredo hsame
    split at hredo
    · rename_i sourceTurnId hmutation _
      exact ⟨state, sourceTurnId, rfl, hmutation, by simpa using hredo⟩
    · split at hredo
      · cases hredo
      · rename_i hmutation hcurrent hother
        simp [hmutation, hcurrent, hother] at hsame
    · rename_i hnone hsome
      simp at hsame

/-- **Whenever the planners resolve a redo, they have its undo.** -/
theorem coherent_sourceMutationAuthority (input : PlanTurnRestoreInput)
    (prepared : PreparedTurn) :
    (sourceMutationAuthority digest input prepared).Coherent := by
  have hrun (states : List WorkspaceStateV1) (resolved : ResolvedAuthority)
      (h : resolved.Coherent) : (states.foldl resolveStep resolved).Coherent := by
    induction states generalizing resolved with
    | nil => exact h
    | cons state states ih => exact ih _ (h.step state)
  exact hrun _ _ fun _ h => by cases h

/-- The session state offers an action for a turn with a checkpoint. -/
structure Offers (folded : FoldedWorkspaceSessionState) (turnId : JsString)
    (checkpoint : AvailableCheckpoint) (action : WorkspaceTurnMutationAuthority) : Prop where
  /-- The turn is eligible. -/
  eligible : turnId ∈ folded.eligibleTurnIds
  /-- Its action is this one. -/
  action : folded.turnMutationsByTurnId.get turnId = some action
  /-- Its checkpoint is this one. -/
  checkpoint : folded.checkpointsByTurnId.get turnId = some (.available checkpoint)

theorem get_mutationSources {entries branch : List SessionTreeEntry}
    (hbranch : IsActiveBranch entries branch) (sessionId turnId : JsString)
    (source : MutationSource) :
    (mutationSources (foldedTurns digest branch sessionId)).get turnId = some source ↔
      ∃ parts, ClosesTurn digest (fun _ => true) branch turnId sessionId source.checkpoint parts ∧
        parts.index = source.branchIndex := by
  rw [mutationSources, JsMap.get_foldl_setSome_iff _ _ _ (nodup_foldedTurns digest hbranch _),
    ← mutationSource_iff]
  refine exists_congr fun turn => and_congr_right fun _ => and_congr_right fun _ => ?_
  obtain ⟨turnId, checkpoint⟩ := turn
  obtain ⟨checkpoint', index⟩ := source
  simp only [FoldedTurn.mutationSource]
  split
  · simp
  · rename_i hnone
    simp only [reduceCtorEq, false_iff]
    exact fun h => hnone checkpoint' index h

/-- **The session state offers an action for a turn exactly when a checkpoint
closes the turn among all entries of the branch and the markers after it lead to
that action.** -/
theorem offers_iff (entries : List SessionTreeEntry) (sessionId turnId : JsString)
    (checkpoint : AvailableCheckpoint) (action : WorkspaceTurnMutationAuthority) :
    Offers (foldWorkspaceSessionState digest entries sessionId) turnId checkpoint action ↔
      ∃ branch parts, activeBranch entries (rawLeafId entries) = some branch ∧
        ClosesTurn digest (fun _ => true) branch turnId sessionId checkpoint parts ∧
        authorityAfter digest branch sessionId turnId ⟨checkpoint, parts.index⟩ = action := by
  unfold foldWorkspaceSessionState
  cases hactive : activeBranch entries (rawLeafId entries) with
  | none =>
    constructor
    · intro h
      simpa using h.eligible
    · rintro ⟨branch, -, hnone, -⟩
      cases hnone
  | some branch =>
    have hbranch := activeBranch_spec hactive
    have hnodup := nodup_foldedTurns digest hbranch sessionId
    -- the action of an eligible turn
    have haction {source : MutationSource}
        (hsource : (mutationSources (foldedTurns digest branch sessionId)).get turnId =
          some source)
        (heligible : turnId ∈ eligibleTurns (foldedTurns digest branch sessionId)) :
        (turnMutations digest branch sessionId (foldedTurns digest branch sessionId)).get
            turnId = some (authorityAfter digest branch sessionId turnId source) :=
      get_foldl_advanceTurn _ turnId hsource _ _
        (JsMap.get_foldl_set_of_mem _ _ _ (Or.inl heligible))
    constructor
    · rintro ⟨heligible, hget, hcheckpoint⟩
      simp only at heligible hget hcheckpoint
      rw [JsMap.get_foldl_setSome_iff _ _ _ hnodup] at hcheckpoint
      obtain ⟨turn, hmem, hid, hfound⟩ := hcheckpoint
      obtain ⟨index, hok⟩ : ∃ index, turn.checkpoint = .ok (.available checkpoint, index) := by
        cases hcheck : turn.checkpoint with
        | error reason => simp [hcheck, Except.toOption] at hfound
        | ok found =>
          refine ⟨found.2, ?_⟩
          have hfst : found.1 = .available checkpoint := by
            simpa [hcheck, Except.toOption] using hfound
          rw [← hfst]
      obtain ⟨parts, hcloses, rfl⟩ :=
        (mutationSource_iff digest branch turnId sessionId checkpoint index).mp
          ⟨turn, hmem, hid, hok⟩
      refine ⟨branch, parts, rfl, hcloses, ?_⟩
      have hsource := (get_mutationSources digest hbranch sessionId turnId
        ⟨checkpoint, parts.index⟩).mpr ⟨parts, hcloses, rfl⟩
      rw [haction hsource heligible, Option.some.injEq] at hget
      exact hget
    · rintro ⟨_, parts, hsame, hcloses, rfl⟩
      obtain rfl := Option.some.inj hsame
      have hsource := (get_mutationSources digest hbranch sessionId turnId
        ⟨checkpoint, parts.index⟩).mpr ⟨parts, hcloses, rfl⟩
      obtain ⟨turn, hmem, hid, hok⟩ :=
        (mutationSource_iff digest branch turnId sessionId checkpoint parts.index).mpr
          ⟨parts, hcloses, rfl⟩
      have heligible : turnId ∈ eligibleTurns (foldedTurns digest branch sessionId) := by
        refine List.mem_filterMap.mpr ⟨turn, hmem, ?_⟩
        simp [FoldedTurn.mutationSource, hok, hid]
      refine { eligible := heligible, action := haction hsource heligible, checkpoint := ?_ }
      simp only
      rw [JsMap.get_foldl_setSome_iff _ _ _ hnodup]
      exact ⟨turn, hmem, hid, by simp [hok, Except.toOption]⟩

end Session

import Crest.TopTabQueue

/-!
# Accepting an intent

An intent that is accepted is put at the end of the pending ones, or merged into the last.
The latter is one update instead of two: where the earlier one takes effect, the update that
both make together does what they do one after the other.
-/

namespace NavigationQueue

open ContentState ContentState.Frontend

section Updates

/-- The tabs after an update, where it takes effect. -/
def updatedTopTabs (topTabs : List TopTab) (topTabId : JsString) (updates : TopTabUpdates) :
    Option (List TopTab) :=
  match topTabs.findIdx? fun tab => tab.id = topTabId with
  | none => none
  | some index =>
    match topTabs[index]?.bind fun tab => updateTopTab tab updates with
    | none => none
    | some updated =>
      if (topTabs.eraseIdx index).any fun tab =>
          topTabIdentityKey tab = topTabIdentityKey updated then none
      else some (topTabs.set index updated)

theorem reduce_updateTopTab (state : WorkspaceContentState) (topTabId : JsString)
    (updates : TopTabUpdates) :
    reduceWorkspaceContent state (.updateTopTab topTabId updates) =
      { state with
        topTabs := (updatedTopTabs state.topTabs topTabId updates).getD state.topTabs } := by
  simp only [reduceWorkspaceContent, updatedTopTabs]
  cases state.topTabs.findIdx? fun tab => decide (tab.id = topTabId) with
  | none => rfl
  | some index =>
    simp only
    cases state.topTabs[index]?.bind fun tab => updateTopTab tab updates with
    | none => rfl
    | some updated =>
      simp only
      split_ifs
      · rfl
      · rfl

theorem mergeUpdates_spread {tab first second : TopTab} {updates later : TopTabUpdates}
    (hfirst : mergeUpdates tab updates = some first)
    (hsecond : mergeUpdates first later = some second) :
    mergeUpdates tab (spreadUpdates updates later) = some second := by
  have hgetD : ∀ (new old : Option JsString) (field : JsString),
      (new.or old).getD field = new.getD (old.getD field) := by
    intro new old field
    cases new <;> rfl
  have honly : updates.onlyTitleAndPath = true → later.onlyTitleAndPath = true →
      (spreadUpdates updates later).onlyTitleAndPath = true := by
    intro h h'
    simp only [TopTabUpdates.onlyTitleAndPath, Bool.and_eq_true, Option.isNone_iff_eq_none,
      spreadUpdates] at h h' ⊢
    obtain ⟨⟨hrepoRoot, hmode⟩, horiginal⟩ := h
    obtain ⟨⟨hrepoRoot', hmode'⟩, horiginal'⟩ := h'
    rw [hrepoRoot, hmode, horiginal, hrepoRoot', hmode', horiginal']
    exact ⟨⟨rfl, rfl⟩, rfl⟩
  cases tab with
  | file _ _ _ | preview _ _ _ =>
    simp only [mergeUpdates] at hfirst
    split_ifs at hfirst with hkind
    cases hfirst
    simp only [mergeUpdates] at hsecond ⊢
    split_ifs at hsecond with hkind'
    cases hsecond
    rw [if_pos ⟨hkind'.1, honly hkind.2 hkind'.2⟩]
    simp only [spreadUpdates, hgetD]
  | gitDiff id repoRoot path mode originalPath title =>
    simp only [mergeUpdates] at hfirst
    split_ifs at hfirst with hkind
    cases hfirst
    simp only [mergeUpdates] at hsecond ⊢
    split_ifs at hsecond with hkind'
    cases hsecond
    have hmode : (spreadUpdates updates later).mode.all
        (fun mode => mode = word "+" ∨ mode = word "-") = true := by
      simp only [spreadUpdates]
      cases hnew : later.mode with
      | none => exact hkind.2
      | some mode =>
        have hlater := hkind'.2
        rwa [hnew] at hlater
    rw [if_pos ⟨hkind'.1, hmode⟩]
    simp only [spreadUpdates, hgetD]
  | agentTurnDiff => cases hfirst

theorem updateTopTab_spread {tab first second : TopTab} {updates later : TopTabUpdates}
    (hfirst : updateTopTab tab updates = some first)
    (hsecond : updateTopTab first later = some second) :
    updateTopTab tab (spreadUpdates updates later) = some second := by
  obtain ⟨hmerged, -⟩ := Option.filter_eq_some_iff.mp hfirst
  obtain ⟨hmerged', hvalid⟩ := Option.filter_eq_some_iff.mp hsecond
  exact Option.filter_eq_some_iff.mpr ⟨mergeUpdates_spread hmerged hmerged', hvalid⟩

/-- **Two updates of a tab that take effect take effect together.** -/
theorem updatedTopTabs_spread {topTabs first second : List TopTab} {topTabId : JsString}
    {updates later : TopTabUpdates}
    (hfirst : updatedTopTabs topTabs topTabId updates = some first)
    (hsecond : updatedTopTabs first topTabId later = some second) :
    updatedTopTabs topTabs topTabId (spreadUpdates updates later) = some second := by
  unfold updatedTopTabs at hfirst
  split at hfirst
  · cases hfirst
  rename_i index hindex
  split at hfirst
  · cases hfirst
  rename_i updated hupdated
  split_ifs at hfirst with hfree
  cases hfirst
  obtain ⟨tab, htab, hupdated⟩ := Option.bind_eq_some_iff.mp hupdated
  obtain ⟨hlt, hget⟩ := List.getElem?_eq_some_iff.mp htab
  -- the tab keeps its id, and so is found in its place again
  have hindex' : (topTabs.set index updated).findIdx? (fun tab => tab.id = topTabId) =
      some index := by
    obtain ⟨hlt', hid, hbefore⟩ := List.findIdx?_eq_some_iff_getElem.mp hindex
    refine List.findIdx?_eq_some_iff_getElem.mpr ⟨by simpa using hlt, ?_, ?_⟩
    · rw [List.getElem_set_self]
      rw [hget] at hid
      rwa [(id_of_updateTopTab hupdated).1]
    · intro j hj
      rw [List.getElem_set_ne (by omega)]
      exact hbefore j hj
  unfold updatedTopTabs at hsecond
  rw [hindex'] at hsecond
  simp only [List.getElem?_set_self hlt, Option.bind_some, List.eraseIdx_set_eq] at hsecond
  split at hsecond
  · cases hsecond
  rename_i final hfinal
  split_ifs at hsecond with hfree'
  cases hsecond
  unfold updatedTopTabs
  rw [hindex]
  simp only [htab, Option.bind_some, updateTopTab_spread hupdated hfinal]
  rw [if_neg hfree', List.set_set]

theorem plain_spreadUpdates {updates later : TopTabUpdates} (h : updates.Plain)
    (hlater : later.Plain) :
    (spreadUpdates updates later).Plain := by
  have hor : ∀ {P : JsString → Prop} {new old : Option JsString}, (∀ s ∈ new.toList, P s) →
      (∀ s ∈ old.toList, P s) → ∀ s ∈ (new.or old).toList, P s := by
    intro P new old hnew hold
    cases new with
    | none => exact hold
    | some s => exact hnew
  simp only [TopTabUpdates.Plain, TopTabUpdates.texts, TopTabUpdates.paths,
    List.forall_mem_append] at h hlater ⊢
  obtain ⟨⟨htitle, hmode⟩, ⟨hrepoRoot, hpath⟩, horiginal⟩ := h
  obtain ⟨⟨htitle', hmode'⟩, ⟨hrepoRoot', hpath'⟩, horiginal'⟩ := hlater
  exact ⟨⟨hor htitle' htitle, hor hmode' hmode⟩,
    ⟨hor hrepoRoot' hrepoRoot, hor hpath' hpath⟩, hor horiginal' horiginal⟩

end Updates

section Accept

theorem applyPending_append (state : WorkspaceContentState)
    (earlier later : List PendingTopTabIntent) :
    applyPending state (earlier ++ later) = applyPending (applyPending state earlier) later :=
  List.foldl_append

/-- The last pending intent updates the tab and takes effect. -/
def LastTakes (queue : TopTabNavigationQueue) (topTabId : JsString) : Prop :=
  ∃ earlier intent updates, queue.pending = earlier ++ [intent] ∧
    intent.action = .updateTopTab topTabId updates ∧
    (updatedTopTabs (applyPending queue.confirmed.shown earlier).topTabs topTabId updates).isSome

/-- An action is merged only into the last pending intent, and only where that takes effect. -/
def MergesIntoLast (queue : TopTabNavigationQueue) (number : Nat) :
    WorkspaceContentAction → Prop
  | .updateTopTab topTabId updates =>
    queue.merged number (.updateTopTab topTabId updates) ≠ none → LastTakes queue topTabId
  | _ => True

/-- How the pending intents grow. -/
inductive Grown (queue queue' : TopTabNavigationQueue) (number : Nat)
    (action : WorkspaceContentAction) : Prop
  | pushed
      (hpending : queue'.pending =
        queue.pending ++ [⟨queue.nextSequence, action, [number]⟩])
      (hnext : queue'.nextSequence = queue.nextSequence + 1)
  | merged (earlier : List PendingTopTabIntent) (intent : PendingTopTabIntent)
      (together : WorkspaceContentAction)
      (hpending : queue.pending = earlier ++ [intent])
      (hpending' : queue'.pending = earlier ++
        [{ intent with action := together, accepted := intent.accepted ++ [number] }])
      (hnext : queue'.nextSequence = queue.nextSequence)
      (hsent : ∀ batch, queue.retryBatch = some batch → batch.maxSequence < intent.sequence)
      (hplain : intent.action.Plain → together.Plain)

/-- What accepting an action does. -/
structure Accepts (queue queue' : TopTabNavigationQueue) (number : Nat)
    (action : WorkspaceContentAction) : Prop where
  confirmed : queue'.confirmed = queue.confirmed
  retryBatch : queue'.retryBatch = queue.retryBatch
  projected : queue'.projected = reduceWorkspaceContent queue.projected action
  folded : queue'.projected = applyPending queue'.confirmed.shown queue'.pending
  grown : Grown queue queue' number action

variable {queue queue' : TopTabNavigationQueue} {number : Nat} {action : WorkspaceContentAction}

theorem mergeUpdate_last {sent : Nat} {topTabId : JsString} {updates later : TopTabUpdates}
    {intent : PendingTopTabIntent} {older merged : List PendingTopTabIntent}
    (hintent : intent.action = .updateTopTab topTabId updates)
    (h : mergeUpdate sent number topTabId later (intent :: older) = some merged) :
    sent < intent.sequence ∧
      merged = { intent with
        action := .updateTopTab topTabId (spreadUpdates updates later)
        accepted := intent.accepted ++ [number] } :: older := by
  simp only [mergeUpdate, hintent] at h
  rw [if_pos trivial] at h
  split_ifs at h with hsent
  cases h
  exact ⟨Nat.lt_of_not_le hsent, rfl⟩

/-- **An accepted action shows what the reducer makes of what was shown.** -/
theorem accepts_enqueue
    (hprojected : queue.projected = applyPending queue.confirmed.shown queue.pending)
    (hmerges : MergesIntoLast queue number action) (hplain : action.Plain)
    (h : queue.enqueue number action = (queue', true)) :
    Accepts queue queue' number action := by
  simp only [TopTabNavigationQueue.enqueue] at h
  by_cases hsame : reduceWorkspaceContent queue.projected action = queue.projected
  · rw [if_pos hsame] at h
    cases h
  rw [if_neg hsame] at h
  cases hmerged : queue.merged number action with
  | none =>
    rw [hmerged] at h
    cases h
    refine ⟨rfl, rfl, rfl, ?_, .pushed rfl rfl⟩
    rw [applyPending_append, ← hprojected]
    rfl
  | some pending =>
    rw [hmerged] at h
    cases h
    cases action with
    | updateTopTab topTabId later =>
      obtain ⟨earlier, intent, updates, hpending, hintent, htakes⟩ := hmerges (by simp [hmerged])
      obtain ⟨merged, hmerge, rfl⟩ := Option.map_eq_some_iff.mp hmerged
      rw [hpending, List.reverse_append, List.reverse_singleton, List.singleton_append] at hmerge
      obtain ⟨hsent, rfl⟩ := mergeUpdate_last hintent hmerge
      obtain ⟨first, hfirst⟩ := Option.isSome_iff_exists.mp htakes
      have hshown : queue.projected =
          { applyPending queue.confirmed.shown earlier with topTabs := first } := by
        rw [hprojected, hpending, applyPending_append]
        change reduceWorkspaceContent _ intent.action = _
        rw [hintent, reduce_updateTopTab, hfirst]
        rfl
      have hlater : ∃ second, updatedTopTabs first topTabId later = some second := by
        cases hnone : updatedTopTabs first topTabId later with
        | some second => exact ⟨second, rfl⟩
        | none =>
          refine absurd ?_ hsame
          rw [reduce_updateTopTab, hshown]
          simp only [hnone, Option.getD_none]
      obtain ⟨second, hsecond⟩ := hlater
      have hreversed : ({ intent with
          action := .updateTopTab topTabId (spreadUpdates updates later)
          accepted := intent.accepted ++ [number] } :: earlier.reverse).reverse =
            earlier ++ [{ intent with
              action := .updateTopTab topTabId (spreadUpdates updates later)
              accepted := intent.accepted ++ [number] }] := by
        rw [List.reverse_cons, List.reverse_reverse]
      refine ⟨rfl, rfl, ?_, rfl, .merged earlier intent
        (.updateTopTab topTabId (spreadUpdates updates later)) hpending hreversed rfl ?_ ?_⟩
      · simp only [TopTabNavigationQueue.recomputeProjected]
        rw [hreversed, applyPending_append]
        change reduceWorkspaceContent _ (.updateTopTab topTabId _) = _
        rw [reduce_updateTopTab, updatedTopTabs_spread hfirst hsecond, hshown,
          reduce_updateTopTab]
        simp only [hsecond, Option.getD_some]
      · intro batch hbatch
        rw [hbatch] at hsent
        exact hsent
      · intro hearlier
        rw [hintent] at hearlier
        exact plain_spreadUpdates hearlier hplain
    | activateAgent | activateTerminal | activateTopTab | openTopTab | closeTopTab
    | reorderTopTab => cases hmerged

end Accept

end NavigationQueue

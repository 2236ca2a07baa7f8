import Crest.TopTabHydrate
import Mathlib.Data.List.Perm.Basic

/-!
# The actions on a content state

Every action of the frontend keeps a well formed state well formed.  Where the tab shown is
the one that was active last, it stays so: an action that shows a tab records it, and a tab
that is closed hands both over to its neighbour.
-/

namespace ContentState

open CodeUnit Encoding TopTabPath

namespace Frontend

section Reduce

variable {state : WorkspaceContentState}

variable {topTabs : List TopTab}

theorem Distinct.perm {others : List TopTab} (h : Distinct topTabs)
    (hperm : topTabs.Perm others) :
    Distinct others where
  valid tab htab := h.valid tab (hperm.mem_iff.mpr htab)
  distinct := hperm.pairwise h.distinct fun hab => ⟨hab.1.symm, hab.2.symm⟩

theorem Distinct.sublist {others : List TopTab} (h : Distinct topTabs)
    (hsub : others.Sublist topTabs) :
    Distinct others where
  valid tab htab := h.valid tab (hsub.subset htab)
  distinct := h.distinct.sublist hsub

variable {topTabId : JsString}

theorem getElem?_of_findIdx? {index : Nat}
    (h : topTabs.findIdx? (fun tab => tab.id = topTabId) = some index) :
    ∃ tab, topTabs[index]? = some tab ∧ tab.id = topTabId := by
  obtain ⟨hlt, htab, -⟩ := List.findIdx?_eq_some_iff_getElem.mp h
  exact ⟨topTabs[index], List.getElem?_eq_getElem hlt, of_decide_eq_true htab⟩

theorem hasTopTab_eraseIdx {other : JsString} {index : Nat}
    (hindex : topTabs.findIdx? (fun tab => tab.id = topTabId) = some index)
    (hne : other ≠ topTabId) (hthere : hasTopTab topTabs other = true) :
    hasTopTab (topTabs.eraseIdx index) other = true := by
  obtain ⟨hnil, tab, htab, hid⟩ := (hasTopTab_iff _ _).mp hthere
  obtain ⟨closed, hclosed, hclosedId⟩ := getElem?_of_findIdx? hindex
  obtain ⟨i, hi⟩ := List.getElem?_of_mem htab
  refine (hasTopTab_iff _ _).mpr ⟨hnil, tab, ?_, hid⟩
  refine List.mem_eraseIdx_iff_getElem?.mpr ⟨i, ?_, hi⟩
  intro heq
  rw [heq, hclosed] at hi
  cases hi
  exact hne (hid.symm.trans hclosedId)

theorem mem_of_findOpenTopTab {candidate existing : TopTab}
    (h : findOpenTopTab topTabs candidate = some existing) :
    existing ∈ topTabs := by
  rcases Option.or_eq_some_iff.mp h with hid | ⟨-, hidentity⟩
  · exact List.mem_of_find?_eq_some hid
  · exact List.mem_of_find?_eq_some hidentity

variable {tab : TopTab}

theorem distinct_append_of_findOpenTopTab (h : Distinct topTabs)
    (hvalid : isValidTopTab tab = true) (hopen : findOpenTopTab topTabs tab = none) :
    Distinct (topTabs ++ [tab]) := by
  obtain ⟨hid, hidentity⟩ := Option.or_eq_none_iff.mp hopen
  refine ⟨?_, List.pairwise_append.mpr ⟨h.distinct, List.pairwise_singleton _ _, ?_⟩⟩
  · intro other hother
    rcases List.mem_append.mp hother with hother | hother
    · exact h.valid other hother
    · cases List.mem_singleton.mp hother
      exact hvalid
  · intro other hother tab' htab'
    cases List.mem_singleton.mp htab'
    exact ⟨by simpa using List.find?_eq_none.mp hid other hother,
      by simpa using List.find?_eq_none.mp hidentity other hother⟩

theorem id_of_updateTopTab {updated : TopTab} {updates : TopTabUpdates}
    (h : updateTopTab tab updates = some updated) :
    updated.id = tab.id ∧ isValidTopTab updated = true := by
  obtain ⟨hmerged, hvalid⟩ := Option.filter_eq_some_iff.mp h
  refine ⟨?_, hvalid⟩
  cases tab with
  | file _ _ _ | preview _ _ _ | gitDiff _ _ _ _ _ _ =>
    simp only [mergeUpdates] at hmerged
    split_ifs at hmerged
    cases hmerged
    rfl
  | agentTurnDiff => cases hmerged

theorem perm_moveTopTab (topTabs : List TopTab) (currentIndex : Nat) (targetIndex : Int) :
    topTabs.Perm (moveTopTab topTabs currentIndex targetIndex) := by
  unfold moveTopTab
  split
  · exact List.Perm.refl _
  · rename_i tab htab
    obtain ⟨hlt, rfl⟩ := List.getElem?_eq_some_iff.mp htab
    have hplace : (max 0 (min targetIndex ((topTabs.eraseIdx currentIndex).length : Int))).toNat ≤
        (topTabs.eraseIdx currentIndex).length := by
      omega
    exact (List.getElem_cons_eraseIdx_perm hlt).symm.trans
      (List.perm_insertIdx _ _ hplace).symm

theorem distinct_set {updated : TopTab} {index : Nat} (h : Distinct topTabs)
    (htab : topTabs[index]? = some tab) (hid : updated.id = tab.id)
    (hvalid : isValidTopTab updated = true)
    (hidentity : ∀ other ∈ topTabs.eraseIdx index,
      topTabIdentityKey other ≠ topTabIdentityKey updated) :
    Distinct (topTabs.set index updated) := by
  obtain ⟨hlt, rfl⟩ := List.getElem?_eq_some_iff.mp htab
  have hbefore := h.perm (List.getElem_cons_eraseIdx_perm hlt).symm
  obtain ⟨hfirst, hrest⟩ := List.pairwise_cons.mp hbefore.distinct
  refine Distinct.perm ?_ (List.set_perm_cons_eraseIdx hlt updated).symm
  refine ⟨?_, List.pairwise_cons.mpr ⟨?_, hrest⟩⟩
  · intro other hother
    rcases List.mem_cons.mp hother with rfl | hother
    · exact hvalid
    · exact hbefore.valid other (List.mem_cons_of_mem _ hother)
  · intro other hother
    exact ⟨hid ▸ (hfirst other hother).1, (hidentity other hother).symm⟩

theorem hasTopTab_set {updated : TopTab} {index : Nat} (htab : topTabs[index]? = some tab)
    (hid : updated.id = tab.id) (hthere : hasTopTab topTabs topTabId = true) :
    hasTopTab (topTabs.set index updated) topTabId = true := by
  obtain ⟨hnil, other, hother, hotherId⟩ := (hasTopTab_iff _ _).mp hthere
  obtain ⟨hlt, rfl⟩ := List.getElem?_eq_some_iff.mp htab
  refine (hasTopTab_iff _ _).mpr ⟨hnil, ?_⟩
  obtain ⟨i, hi⟩ := List.getElem?_of_mem hother
  by_cases heq : i = index
  · subst heq
    rw [List.getElem?_eq_getElem hlt] at hi
    cases hi
    exact ⟨updated, List.mem_iff_getElem?.mpr ⟨i, List.getElem?_set_self hlt⟩,
      hid.trans hotherId⟩
  · exact ⟨other, List.mem_iff_getElem?.mpr
      ⟨i, (List.getElem?_set_ne (Ne.symm heq)).trans hi⟩, hotherId⟩

theorem WellFormed.withTopTabs (h : WellFormed state) (hdistinct : Distinct topTabs)
    (hkept : ∀ topTabId, hasTopTab state.topTabs topTabId = true →
      hasTopTab topTabs topTabId = true) :
    WellFormed { state with topTabs := topTabs } :=
  { hdistinct with
    shown := fun topTabId hshown => hkept topTabId (h.shown topTabId hshown)
    terminal := h.terminal
    last := fun hne => hkept _ (h.last hne)
    lastShown := h.lastShown }

theorem WellFormed.showing (hdistinct : Distinct topTabs)
    (hthere : hasTopTab topTabs topTabId = true) :
    WellFormed
      { activeContent := .topTab topTabId, topTabs := topTabs, lastActiveTopTabId := topTabId } :=
  { hdistinct with
    shown := by
      intro shown hshown
      cases hshown
      exact hthere
    terminal := by
      intro hterminal
      cases hterminal
    last := fun _ => hthere
    lastShown := fun _ _ => ((hasTopTab_iff _ _).mp hthere).1 }

theorem fallbackAfterClose_spec (h : Distinct topTabs) (closedIndex : Nat)
    (activeTerminalTabId : JsString) :
    (∀ topTabId, fallbackAfterClose topTabs closedIndex activeTerminalTabId = .topTab topTabId →
      hasTopTab topTabs topTabId = true) ∧
      fallbackAfterClose topTabs closedIndex activeTerminalTabId ≠ .terminal [] := by
  unfold fallbackAfterClose
  split
  · rename_i adjacent hadjacent
    refine ⟨?_, ?_⟩
    · intro topTabId hshown
      cases hshown
      exact h.hasTopTab (List.mem_of_getElem? hadjacent)
    · intro hterminal
      cases hterminal
  · split_ifs with hgiven
    · refine ⟨?_, ?_⟩
      · intro topTabId hshown
        cases hshown
      · intro hterminal
        cases hterminal
        exact hgiven rfl
    · refine ⟨?_, ?_⟩
      · intro topTabId hshown
        cases hshown
      · intro hterminal
        cases hterminal

theorem WellFormed.close {closedIndex : Nat} (h : WellFormed state)
    (hindex : state.topTabs.findIdx? (fun tab => tab.id = topTabId) = some closedIndex)
    (activeContent : ActiveContent) (activeTerminalTabId : JsString)
    (hactive : activeContent =
      if state.activeContent = .topTab topTabId then
        fallbackAfterClose (state.topTabs.eraseIdx closedIndex) closedIndex activeTerminalTabId
      else state.activeContent) :
    WellFormed
      { activeContent := activeContent
        topTabs := state.topTabs.eraseIdx closedIndex
        lastActiveTopTabId :=
          if state.lastActiveTopTabId = topTabId then activeContent.shownTopTabId
          else state.lastActiveTopTabId } := by
  have hdistinct := h.toDistinct.sublist (List.eraseIdx_sublist state.topTabs closedIndex)
  obtain ⟨htab, hterminal⟩ := fallbackAfterClose_spec hdistinct closedIndex activeTerminalTabId
  have hshown : ∀ shown, activeContent = .topTab shown →
      hasTopTab (state.topTabs.eraseIdx closedIndex) shown = true := by
    intro shown hshown
    rw [hactive] at hshown
    split_ifs at hshown with hclosed
    · exact htab shown hshown
    · refine hasTopTab_eraseIdx hindex ?_ (h.shown shown hshown)
      intro heq
      exact hclosed (heq ▸ hshown)
  refine { hdistinct with
    shown := hshown
    terminal := ?_
    last := ?_
    lastShown := ?_ }
  · simp only
    rw [hactive]
    split_ifs
    · exact hterminal
    · exact h.terminal
  · simp only
    intro hne
    split_ifs at hne ⊢ with hlast
    · exact shown_of_ne_nil hshown hne
    · exact hasTopTab_eraseIdx hindex hlast (h.last hne)
  · simp only
    intro shown heq
    split_ifs with hlast
    · rw [heq]
      exact ((hasTopTab_iff _ _).mp (hshown shown heq)).1
    · rw [hactive] at heq
      split_ifs at heq with hclosed
      · exact h.lastShown topTabId hclosed
      · exact h.lastShown shown heq

/-- **Every action keeps a state well formed.** -/
theorem WellFormed.reduce (h : WellFormed state) (action : WorkspaceContentAction) :
    WellFormed (reduceWorkspaceContent state action) := by
  cases action with
  | activateAgent =>
    exact { h with
      shown := by
        intro topTabId hshown
        cases hshown
      terminal := by
        intro hterminal
        cases hterminal
      lastShown := by
        intro topTabId hshown
        cases hshown }
  | activateTerminal terminalTabId =>
    simp only [reduceWorkspaceContent]
    split_ifs with hnil
    · exact h
    · exact { h with
        shown := by
          intro topTabId hshown
          cases hshown
        terminal := by
          intro hterminal
          cases hterminal
          exact hnil rfl
        lastShown := by
          intro topTabId hshown
          cases hshown }
  | activateTopTab topTabId =>
    simp only [reduceWorkspaceContent]
    split_ifs with hthere
    · exact WellFormed.showing h.toDistinct hthere
    · exact h
  | openTopTab tab =>
    simp only [reduceWorkspaceContent]
    split_ifs with hvalid
    · split
      · rename_i existing hexisting
        exact WellFormed.showing h.toDistinct
          (h.toDistinct.hasTopTab (mem_of_findOpenTopTab hexisting))
      · rename_i hopen
        have hdistinct := distinct_append_of_findOpenTopTab h.toDistinct hvalid hopen
        exact WellFormed.showing hdistinct
          (hdistinct.hasTopTab (List.mem_append_right _ (List.mem_singleton_self _)))
    · exact h
  | closeTopTab topTabId activeTerminalTabId =>
    simp only [reduceWorkspaceContent]
    split
    · exact h
    · rename_i closedIndex hindex
      exact h.close hindex _ (activeTerminalTabId.getD []) rfl
  | reorderTopTab topTabId targetIndex =>
    simp only [reduceWorkspaceContent]
    split
    · rename_i currentIndex target hindex
      have hperm := perm_moveTopTab state.topTabs currentIndex target
      refine h.withTopTabs (h.toDistinct.perm hperm) ?_
      intro id hthere
      obtain ⟨hnil, tab, htab, hid⟩ := (hasTopTab_iff _ _).mp hthere
      exact (hasTopTab_iff _ _).mpr ⟨hnil, tab, hperm.mem_iff.mp htab, hid⟩
    · exact h
  | updateTopTab topTabId updates =>
    simp only [reduceWorkspaceContent]
    split
    · exact h
    · split
      · exact h
      · rename_i currentIndex hindex updated hupdated
        split_ifs with hidentity
        · exact h
        · obtain ⟨tab, htab, hupdated⟩ := Option.bind_eq_some_iff.mp hupdated
          obtain ⟨hid, hvalid⟩ := id_of_updateTopTab hupdated
          refine h.withTopTabs (distinct_set h.toDistinct htab hid hvalid ?_) ?_
          · intro other hother heq
            exact hidentity (List.any_eq_true.mpr ⟨other, hother, decide_eq_true heq⟩)
          · intro id hthere
            exact hasTopTab_set htab hid hthere

/-- **Where the tab shown is the one that was active last, every action keeps it so.** -/
theorem Follows.reduce (h : Follows state) (action : WorkspaceContentAction) :
    Follows (reduceWorkspaceContent state action) := by
  cases action with
  | activateAgent =>
    intro topTabId hshown
    cases hshown
  | activateTerminal terminalTabId =>
    simp only [reduceWorkspaceContent]
    split_ifs
    · exact h
    · intro topTabId hshown
      cases hshown
  | activateTopTab topTabId =>
    simp only [reduceWorkspaceContent]
    split_ifs
    · intro shown hshown
      cases hshown
      rfl
    · exact h
  | openTopTab tab =>
    simp only [reduceWorkspaceContent]
    split_ifs
    · split <;> intro shown hshown <;> cases hshown <;> rfl
    · exact h
  | closeTopTab topTabId activeTerminalTabId =>
    simp only [reduceWorkspaceContent]
    split
    · exact h
    · rename_i closedIndex hindex
      intro shown hshown
      simp only at hshown ⊢
      by_cases hclosed : state.activeContent = .topTab topTabId
      · rw [if_pos hclosed] at hshown
        rw [if_pos (h topTabId hclosed), if_pos hclosed, hshown]
        rfl
      · rw [if_neg hclosed] at hshown ⊢
        have hlast := h shown hshown
        rw [if_neg, hlast]
        intro heq
        exact hclosed (by rw [hshown, ← hlast, heq])
  | reorderTopTab topTabId targetIndex =>
    simp only [reduceWorkspaceContent]
    split
    · exact h
    · exact h
  | updateTopTab topTabId updates =>
    simp only [reduceWorkspaceContent]
    split
    · exact h
    · split
      · exact h
      · split_ifs
        · exact h
        · exact h

end Reduce

end Frontend

end ContentState

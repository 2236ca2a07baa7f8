import Crest.TopTabContent

/-!
# Hydrating a content state

The loop over the descriptors keeps tabs of distinct ids and identities, and keeps all of a
list that is so already.  Two such loops that agree on what is valid and on which ids and
identities are equal keep the same descriptors.

A content state is well formed when its tabs are valid and distinct, and what is shown and
what was shown last are there.  Hydrating yields such a state, and hydrating what such a state
is serialized to gives the state back.
-/

namespace ContentState

open CodeUnit Encoding TopTabPath

section FirstOfEach

variable {δ β ι κ : Type} [DecidableEq ι] [DecidableEq κ]
variable {entry : δ → Option β} {id : β → ι} {identity : β → κ}

theorem firstOfEach_spec (validIds : List ι) (validIdentities : List κ) (l : List δ) :
    (∀ b ∈ firstOfEach entry id identity validIds validIdentities l,
      (∃ d ∈ l, entry d = some b) ∧ id b ∉ validIds ∧ identity b ∉ validIdentities) ∧
      (firstOfEach entry id identity validIds validIdentities l).Pairwise
        fun a b => id a ≠ id b ∧ identity a ≠ identity b := by
  induction l generalizing validIds validIdentities with
  | nil => exact ⟨fun b hb => absurd hb List.not_mem_nil, List.Pairwise.nil⟩
  | cons d rest ih =>
    have hlater : ∀ ids identities,
        ∀ b ∈ firstOfEach entry id identity ids identities rest,
          (∃ d' ∈ d :: rest, entry d' = some b) ∧ id b ∉ ids ∧ identity b ∉ identities := by
      intro ids identities b hb
      obtain ⟨⟨d', hd', hentry⟩, hnew⟩ := (ih ids identities).1 b hb
      exact ⟨⟨d', List.mem_cons_of_mem _ hd', hentry⟩, hnew⟩
    rw [firstOfEach]
    cases hentry : entry d with
    | none => exact ⟨hlater _ _, (ih _ _).2⟩
    | some tab =>
      simp only
      split_ifs with hseen
      · exact ⟨hlater _ _, (ih _ _).2⟩
      · obtain ⟨hid, hidentity⟩ := not_or.mp hseen
        refine ⟨?_, List.pairwise_cons.mpr ⟨?_, (ih _ _).2⟩⟩
        · intro b hb
          rcases List.mem_cons.mp hb with rfl | hb
          · exact ⟨⟨d, List.mem_cons_self, hentry⟩, hid, hidentity⟩
          · obtain ⟨hfrom, hids, hidentities⟩ := hlater _ _ b hb
            exact ⟨hfrom, fun hmem => hids (List.mem_cons_of_mem _ hmem),
              fun hmem => hidentities (List.mem_cons_of_mem _ hmem)⟩
        · intro b hb
          obtain ⟨-, hids, hidentities⟩ := hlater _ _ b hb
          exact ⟨fun heq => hids (heq ▸ List.mem_cons_self),
            fun heq => hidentities (heq ▸ List.mem_cons_self)⟩

theorem firstOfEach_distinct {validIds : List ι} {validIdentities : List κ} {l : List δ}
    (hvalid : ∀ d ∈ l, (entry d).isSome)
    (hdistinct : (l.filterMap entry).Pairwise fun a b => id a ≠ id b ∧ identity a ≠ identity b)
    (hnew : ∀ b ∈ l.filterMap entry, id b ∉ validIds ∧ identity b ∉ validIdentities) :
    firstOfEach entry id identity validIds validIdentities l = l.filterMap entry := by
  induction l generalizing validIds validIdentities with
  | nil => rfl
  | cons d rest ih =>
    obtain ⟨tab, htab⟩ := Option.isSome_iff_exists.mp (hvalid d List.mem_cons_self)
    rw [List.filterMap_cons_some htab] at hdistinct hnew ⊢
    obtain ⟨hfirst, hrest⟩ := List.pairwise_cons.mp hdistinct
    obtain ⟨hid, hidentity⟩ := hnew tab List.mem_cons_self
    rw [firstOfEach, htab]
    simp only
    rw [if_neg (not_or.mpr ⟨hid, hidentity⟩),
      ih (fun e he => hvalid e (List.mem_cons_of_mem _ he)) hrest]
    intro b hb
    obtain ⟨hids, hidentities⟩ := hnew b (List.mem_cons_of_mem _ hb)
    obtain ⟨hne, hne'⟩ := hfirst b hb
    exact ⟨fun hmem => (List.mem_cons.mp hmem).elim hne.symm hids,
      fun hmem => (List.mem_cons.mp hmem).elim hne'.symm hidentities⟩

/-- **Of what is kept everything is kept again.** -/
theorem firstOfEach_firstOfEach {entry : β → Option β}
    (hentry : ∀ d b, entry d = some b → d = b) (l : List β) :
    firstOfEach entry id identity [] [] (firstOfEach entry id identity [] [] l) =
      firstOfEach entry id identity [] [] l := by
  obtain ⟨hfrom, hdistinct⟩ := @firstOfEach_spec _ _ _ _ _ _ entry id identity [] [] l
  have hread : ∀ b ∈ firstOfEach entry id identity [] [] l, entry b = some b := by
    intro b hb
    obtain ⟨⟨d, -, hd⟩, -⟩ := hfrom b hb
    rw [← hentry d b hd, hd, hentry d b hd]
  have hall : (firstOfEach entry id identity [] [] l).filterMap entry =
      firstOfEach entry id identity [] [] l :=
    (List.filterMap_congr hread).trans List.filterMap_some
  refine (firstOfEach_distinct ?_ ?_ ?_).trans hall
  · intro b hb
    rw [hread b hb]
    rfl
  · rw [hall]
    exact hdistinct
  · exact fun _ _ => ⟨List.not_mem_nil, List.not_mem_nil⟩

theorem firstOfEach_map {γ : Type} (f : γ → δ) (validIds : List ι)
    (validIdentities : List κ) (l : List γ) :
    firstOfEach entry id identity validIds validIdentities (l.map f) =
      firstOfEach (entry ∘ f) id identity validIds validIdentities l := by
  induction l generalizing validIds validIdentities with
  | nil => rfl
  | cons d rest ih =>
    rw [List.map_cons, firstOfEach, firstOfEach, Function.comp_apply]
    cases entry (f d) with
    | none => exact ih _ _
    | some tab =>
      simp only
      rw [ih, ih]

variable {β' ι' κ' : Type} [DecidableEq ι'] [DecidableEq κ']
variable {entry' : δ → Option β'} {id' : β' → ι'} {identity' : β' → κ'}

/-- **Two loops that agree keep the same descriptors.** -/
theorem firstOfEach_agree {validIds : List ι} {validIdentities : List κ}
    {validIds' : List ι'} {validIdentities' : List κ'} {l : List δ}
    (hvalid : ∀ d ∈ l, (entry d).isSome = (entry' d).isSome)
    (hids : ∀ d ∈ l, ∀ b b', entry d = some b → entry' d = some b' →
      (id b ∈ validIds ↔ id' b' ∈ validIds') ∧
        (identity b ∈ validIdentities ↔ identity' b' ∈ validIdentities'))
    (hsame : ∀ d ∈ l, ∀ e ∈ l, ∀ b b' c c', entry d = some b → entry' d = some b' →
      entry e = some c → entry' e = some c' →
        (id b = id c ↔ id' b' = id' c') ∧ (identity b = identity c ↔ identity' b' = identity' c')) :
    ∃ kept : List δ, kept.Sublist l ∧ (∀ d ∈ kept, (entry d).isSome) ∧
      firstOfEach entry id identity validIds validIdentities l = kept.filterMap entry ∧
      firstOfEach entry' id' identity' validIds' validIdentities' l = kept.filterMap entry' := by
  induction l generalizing validIds validIdentities validIds' validIdentities' with
  | nil => exact ⟨[], List.Sublist.refl _, fun d hd => absurd hd List.not_mem_nil, rfl, rfl⟩
  | cons d rest ih =>
    have hvalidRest := fun e he => hvalid e (List.mem_cons_of_mem _ he)
    have hsameRest := fun e he e' he' =>
      hsame e (List.mem_cons_of_mem _ he) e' (List.mem_cons_of_mem _ he')
    have hhead := hvalid d List.mem_cons_self
    rw [firstOfEach, firstOfEach]
    cases hentry : entry d with
    | none =>
      rw [hentry] at hhead
      cases hentry' : entry' d with
      | some tab' =>
        rw [hentry'] at hhead
        cases hhead
      | none =>
        obtain ⟨kept, hkept, hall, hfirst, hsecond⟩ :=
          ih hvalidRest (fun e he => hids e (List.mem_cons_of_mem _ he)) hsameRest
        exact ⟨kept, hkept.cons d, hall, hfirst, hsecond⟩
    | some tab =>
      rw [hentry] at hhead
      cases hentry' : entry' d with
      | none =>
        rw [hentry'] at hhead
        cases hhead
      | some tab' =>
        obtain ⟨hid, hidentity⟩ := hids d List.mem_cons_self tab tab' hentry hentry'
        simp only
        by_cases hseen : id tab ∈ validIds ∨ identity tab ∈ validIdentities
        · have hseen' : id' tab' ∈ validIds' ∨ identity' tab' ∈ validIdentities' :=
            hseen.imp hid.mp hidentity.mp
          rw [if_pos hseen, if_pos hseen']
          obtain ⟨kept, hkept, hall, hfirst, hsecond⟩ :=
            ih hvalidRest (fun e he => hids e (List.mem_cons_of_mem _ he)) hsameRest
          exact ⟨kept, hkept.cons d, hall, hfirst, hsecond⟩
        · have hseen' : ¬ (id' tab' ∈ validIds' ∨ identity' tab' ∈ validIdentities') :=
            fun h => hseen (h.imp hid.mpr hidentity.mpr)
          rw [if_neg hseen, if_neg hseen']
          have hgrown : ∀ e ∈ rest, ∀ b b', entry e = some b → entry' e = some b' →
              (id b ∈ id tab :: validIds ↔ id' b' ∈ id' tab' :: validIds') ∧
                (identity b ∈ identity tab :: validIdentities ↔
                  identity' b' ∈ identity' tab' :: validIdentities') := by
            intro e he b b' hb hb'
            obtain ⟨hold, hold'⟩ := hids e (List.mem_cons_of_mem _ he) b b' hb hb'
            obtain ⟨hnew, hnew'⟩ := hsame e (List.mem_cons_of_mem _ he) d
              List.mem_cons_self b b' tab tab' hb hb' hentry hentry'
            rw [List.mem_cons, List.mem_cons, List.mem_cons, List.mem_cons, hold, hold',
              hnew, hnew']
            exact ⟨Iff.rfl, Iff.rfl⟩
          obtain ⟨kept, hkept, hall, hfirst, hsecond⟩ := ih hvalidRest hgrown hsameRest
          refine ⟨d :: kept, hkept.cons_cons d, ?_, ?_, ?_⟩
          · intro e he
            rcases List.mem_cons.mp he with rfl | he
            · rw [hentry]
              rfl
            · exact hall e he
          · rw [hfirst, List.filterMap_cons_some hentry]
          · rw [hsecond, List.filterMap_cons_some hentry']

end FirstOfEach

namespace Frontend

/-- Tabs that are valid, with distinct ids and identities. -/
structure Distinct (topTabs : List TopTab) : Prop where
  valid : ∀ tab ∈ topTabs, isValidTopTab tab = true
  distinct : topTabs.Pairwise fun a b =>
    a.id ≠ b.id ∧ topTabIdentityKey a ≠ topTabIdentityKey b

/-- A state that shows something that is there, and whose last tab is there. -/
structure WellFormed (state : WorkspaceContentState) : Prop extends Distinct state.topTabs where
  shown : ∀ topTabId, state.activeContent = .topTab topTabId → hasTopTab state.topTabs topTabId = true
  terminal : state.activeContent ≠ .terminal []
  last : state.lastActiveTopTabId ≠ [] → hasTopTab state.topTabs state.lastActiveTopTabId = true
  lastShown : ∀ topTabId, state.activeContent = .topTab topTabId → state.lastActiveTopTabId ≠ []

/-- The tab shown is the one that was active last. -/
def Follows (state : WorkspaceContentState) : Prop :=
  ∀ topTabId, state.activeContent = .topTab topTabId → state.lastActiveTopTabId = topTabId

/-- This is the terminal that the state shows, if it shows one. -/
def Shows (state : WorkspaceContentState) (terminalTabId : JsString) : Prop :=
  ∀ shown, state.activeContent = .terminal shown → terminalTabId = shown

theorem id_ne_nil {tab : TopTab} (h : isValidTopTab tab = true) : tab.id ≠ [] :=
  of_decide_eq_true ((Bool.and_eq_true _ _).mp h).1

theorem hasTopTab_iff (topTabs : List TopTab) (topTabId : JsString) :
    hasTopTab topTabs topTabId = true ↔ topTabId ≠ [] ∧ ∃ tab ∈ topTabs, tab.id = topTabId := by
  rw [hasTopTab, Bool.and_eq_true, decide_eq_true_iff, List.any_eq_true]
  simp only [decide_eq_true_eq]

theorem Distinct.hasTopTab {topTabs : List TopTab} (h : Distinct topTabs) {tab : TopTab}
    (htab : tab ∈ topTabs) :
    hasTopTab topTabs tab.id = true :=
  (hasTopTab_iff topTabs tab.id).mpr ⟨id_ne_nil (h.valid tab htab), tab, htab, rfl⟩

section Hydrate

theorem readTopTab_serializeTopTab (tab : TopTab) : readTopTab (serializeTopTab tab) = some tab := by
  have hpreview : (word "preview" : JsString) ≠ word "file" := by decide
  have hdiff : (word "git-diff" : JsString) ≠ word "file" ∧
      (word "git-diff" : JsString) ≠ word "preview" := by decide
  have hturn : (word "agent-turn-diff" : JsString) ≠ word "file" ∧
      (word "agent-turn-diff" : JsString) ≠ word "preview" ∧
      (word "agent-turn-diff" : JsString) ≠ word "git-diff" := by decide
  cases tab <;> simp [readTopTab, serializeTopTab, hpreview, hdiff, hturn]

theorem fromPersistedTopTab_serializeTopTab {tab : TopTab} (h : isValidTopTab tab = true) :
    fromPersistedTopTab (serializeTopTab tab) = some tab := by
  rw [fromPersistedTopTab, readTopTab_serializeTopTab, Option.filter_some, if_pos h]

theorem distinct_normalizePersistedTopTabs (topTabs : List PersistedTopTab) :
    Distinct (normalizePersistedTopTabs topTabs) := by
  obtain ⟨hfrom, hdistinct⟩ := @firstOfEach_spec _ _ _ _ _ _ fromPersistedTopTab TopTab.id
    topTabIdentityKey [] [] topTabs
  refine ⟨?_, hdistinct⟩
  intro tab htab
  obtain ⟨⟨d, -, hd⟩, -⟩ := hfrom tab htab
  exact (Option.filter_eq_some_iff.mp hd).2

theorem normalizePersistedTopTabs_serialize {topTabs : List TopTab} (h : Distinct topTabs) :
    normalizePersistedTopTabs (topTabs.map serializeTopTab) = topTabs := by
  have hread : ∀ tab ∈ topTabs, fromPersistedTopTab (serializeTopTab tab) = some tab :=
    fun tab htab => fromPersistedTopTab_serializeTopTab (h.valid tab htab)
  have hall : (topTabs.map serializeTopTab).filterMap fromPersistedTopTab = topTabs := by
    rw [List.filterMap_map]
    exact (List.filterMap_congr hread).trans List.filterMap_some
  refine (firstOfEach_distinct ?_ ?_ ?_).trans hall
  · intro d hd
    obtain ⟨tab, htab, rfl⟩ := List.mem_map.mp hd
    rw [hread tab htab]
    rfl
  · rw [hall]
    exact h.distinct
  · exact fun _ _ => ⟨List.not_mem_nil, List.not_mem_nil⟩

theorem resolveActiveContent_spec (active : PersistedActiveContent)
    (lastActiveTopTabId : Option JsString) (topTabs : List TopTab) (terminalTabId : JsString) :
    let shown := resolveActiveContentFromTopTabs active lastActiveTopTabId topTabs terminalTabId
    (∀ topTabId, shown = .topTab topTabId → hasTopTab topTabs topTabId = true) ∧
      ∀ terminal, shown = .terminal terminal → terminal ≠ [] ∧ terminalTabId = terminal := by
  intro shown
  refine ⟨?_, ?_⟩
  · intro topTabId hshown
    simp only [shown, resolveActiveContentFromTopTabs] at hshown
    split_ifs at hshown with _ _ htab hlast
    · cases hshown
      exact htab.2
    · cases hshown
      exact hlast
  · intro terminal hshown
    simp only [shown, resolveActiveContentFromTopTabs] at hshown
    split_ifs at hshown with _ hstored _ _ hgiven
    · cases hshown
      exact ⟨hstored.2.1, hstored.2.2.symm⟩
    · cases hshown
      exact ⟨hgiven, rfl⟩

theorem shown_of_ne_nil {activeContent : ActiveContent} {topTabs : List TopTab}
    (h : ∀ topTabId, activeContent = .topTab topTabId → hasTopTab topTabs topTabId = true)
    (hne : activeContent.shownTopTabId ≠ []) :
    hasTopTab topTabs activeContent.shownTopTabId = true := by
  cases activeContent with
  | agent | terminal _ => exact absurd rfl hne
  | topTab topTabId => exact h topTabId rfl

/-- **A hydrated state is well formed.** -/
theorem wellFormed_hydrate (snapshot : PersistedWorkspaceContentState)
    (terminalTabId : JsString) :
    WellFormed (hydrateWorkspaceContentState snapshot terminalTabId) ∧
      Shows (hydrateWorkspaceContentState snapshot terminalTabId) terminalTabId := by
  have hdistinct := distinct_normalizePersistedTopTabs snapshot.topTabs
  obtain ⟨htab, hterminal⟩ := resolveActiveContent_spec snapshot.activeContent
    snapshot.lastActiveTopTabId (normalizePersistedTopTabs snapshot.topTabs) terminalTabId
  refine ⟨{ hdistinct with
    shown := htab
    terminal := fun hshown => (hterminal [] hshown).1 rfl
    last := ?_
    lastShown := ?_ }, fun terminal hshown => (hterminal terminal hshown).2⟩
  · intro hlast
    simp only [hydrateWorkspaceContentState] at hlast ⊢
    split_ifs at hlast ⊢ with hstored
    · exact hstored
    · exact shown_of_ne_nil htab hlast
  · intro topTabId hshown
    have hhas := htab topTabId hshown
    simp only [hydrateWorkspaceContentState] at hshown ⊢
    split_ifs with hstored
    · exact ((hasTopTab_iff _ _).mp hstored).1
    · rw [hshown]
      exact ((hasTopTab_iff _ _).mp hhas).1

/-- **A well formed state is hydrated from what it is serialized to.** -/
theorem hydrate_serialize {state : WorkspaceContentState} {terminalTabId : JsString}
    (h : WellFormed state) (hshows : Shows state terminalTabId) :
    hydrateWorkspaceContentState (serializeContentState state) terminalTabId = state := by
  obtain ⟨activeContent, topTabs, lastActiveTopTabId⟩ := state
  have htabs : normalizePersistedTopTabs (topTabs.map serializeTopTab) = topTabs :=
    normalizePersistedTopTabs_serialize h.toDistinct
  have hactive : resolveActiveContentFromTopTabs (serializeActiveContent activeContent)
      (some lastActiveTopTabId) topTabs terminalTabId = activeContent := by
    have hterminal : (word "terminal" : JsString) ≠ word "agent" := by decide
    have htop : (word "top-tab" : JsString) ≠ word "agent" ∧
        (word "top-tab" : JsString) ≠ word "terminal" := by decide
    cases activeContent with
    | agent => rfl
    | terminal shown =>
      have hshown : terminalTabId = shown := hshows shown rfl
      have hne : shown ≠ [] := fun hnil => h.terminal (by rw [hnil])
      simp [resolveActiveContentFromTopTabs, serializeActiveContent, hterminal, hshown, hne]
    | topTab topTabId =>
      have hthere : hasTopTab topTabs topTabId = true := h.shown topTabId rfl
      simp [resolveActiveContentFromTopTabs, serializeActiveContent, htop, hthere]
  have hlast : (if hasTopTab topTabs lastActiveTopTabId = true then lastActiveTopTabId
      else activeContent.shownTopTabId) = lastActiveTopTabId := by
    by_cases hthere : hasTopTab topTabs lastActiveTopTabId = true
    · rw [if_pos hthere]
    · rw [if_neg hthere]
      have hnil : lastActiveTopTabId = [] := by
        by_contra hne
        exact hthere (h.last hne)
      cases activeContent with
      | agent | terminal _ => exact hnil.symm
      | topTab topTabId => exact absurd hnil (h.lastShown topTabId rfl)
  simp only [hydrateWorkspaceContentState, serializeContentState, htabs, Option.getD_some, hactive]
  rw [hlast]

end Hydrate

end Frontend

end ContentState

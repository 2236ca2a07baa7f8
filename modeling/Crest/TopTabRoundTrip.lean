import Crest.TopTabNormalize

/-!
# A content state goes through the backend

The frontend hydrates a stored state, changes it by actions and serializes it.  The backend
normalizes what it receives, and the frontend hydrates the result.  When the hydrated state
shows no other tab than the one that was active last, and every text and path of an action is
one that both sides read alike, the frontend gets the state back that it has serialized.
-/

namespace ContentState

open CodeUnit Encoding TopTabPath

section Idempotent

/-- **Normalizing a stored state twice is normalizing it once.** -/
theorem Backend.normalize_normalize (state : StoredContentState Backend.Bytes)
    (terminalId : Backend.Bytes) :
    Backend.normalizeWorkspaceContentState
        (Backend.normalizeWorkspaceContentState state terminalId) terminalId =
      Backend.normalizeWorkspaceContentState state terminalId := by
  have htabs : Backend.normalizeTopTabs (Backend.normalizeTopTabs state.topTabs) =
      Backend.normalizeTopTabs state.topTabs := by
    refine firstOfEach_firstOfEach ?_ state.topTabs
    intro d b hd
    rw [Backend.validTopTab] at hd
    split_ifs at hd
    exact Option.some.inj hd
  change withTopTabs (Backend.normalizeTopTabs (Backend.normalizeTopTabs state.topTabs))
    (withTopTabs (Backend.normalizeTopTabs state.topTabs) state terminalId) terminalId = _
  rw [htabs]
  exact withTopTabs_withTopTabs _ state terminalId

/-- **Hydrating what a hydrated state is serialized to gives it back.** -/
theorem Frontend.hydrate_hydrate (snapshot : Frontend.PersistedWorkspaceContentState)
    (terminalTabId : JsString) :
    Frontend.hydrateWorkspaceContentState
        (Frontend.serializeContentState
          (Frontend.hydrateWorkspaceContentState snapshot terminalTabId)) terminalTabId =
      Frontend.hydrateWorkspaceContentState snapshot terminalTabId := by
  obtain ⟨hwellFormed, hshows⟩ := Frontend.wellFormed_hydrate snapshot terminalTabId
  exact Frontend.hydrate_serialize hwellFormed hshows

end Idempotent

section Readable

/-- UTF-16 that is well formed. -/
def IsText (s : JsString) : Prop := ∃ t : Text, utf16.text t = s

/-- A path that both sides read alike. -/
def IsPlainPath (s : JsString) : Prop := ∃ t : Text, utf16.text t = s ∧ Lettered t

theorem utf8_text (t : Text) : JsString.utf8 (utf16.text t) = utf8.text t := by
  have hread : JsString.codePoints (utf16.text t) = t := by
    induction t with
    | nil => rfl
    | cons c t ih =>
      rw [Encoding.text_cons]
      exact (JsString.codePoints_utf16Units_append c _).trans (congrArg _ ih)
  rw [JsString.utf8, hread]
  rfl

namespace Frontend

def TopTab.texts : TopTab → List JsString
  | .file id _ title | .preview id _ title => [id, title]
  | .gitDiff id _ _ mode _ title => [id, mode, title]
  | .agentTurnDiff id sessionId sessionCreatedAt _ _ turnId _ title =>
    [id, sessionId, sessionCreatedAt, turnId, title]

def TopTab.paths : TopTab → List JsString
  | .file _ path _ | .preview _ path _ => [path]
  | .gitDiff _ repoRoot path _ originalPath _ => [repoRoot, path, originalPath]
  | .agentTurnDiff _ _ _ sessionCwd sessionPath _ path _ => [sessionCwd, sessionPath, path]

/-- Both sides read the tab alike. -/
def TopTab.Plain (tab : TopTab) : Prop :=
  (∀ s ∈ tab.texts, IsText s) ∧ ∀ s ∈ tab.paths, IsPlainPath s

def TopTabUpdates.texts (updates : TopTabUpdates) : List JsString :=
  updates.title.toList ++ updates.mode.toList

def TopTabUpdates.paths (updates : TopTabUpdates) : List JsString :=
  updates.repoRoot.toList ++ updates.path.toList ++ updates.originalPath.toList

/-- Both sides read the update alike. -/
def TopTabUpdates.Plain (updates : TopTabUpdates) : Prop :=
  (∀ s ∈ updates.texts, IsText s) ∧ ∀ s ∈ updates.paths, IsPlainPath s

/-- Both sides read what an action brings alike. -/
def WorkspaceContentAction.Plain : WorkspaceContentAction → Prop
  | .activateTerminal terminalTabId => IsText terminalTabId
  | .openTopTab tab => tab.Plain
  | .closeTopTab _ activeTerminalTabId => ∀ s ∈ activeTerminalTabId, IsText s
  | .updateTopTab _ updates => updates.Plain
  | .activateAgent | .activateTopTab _ | .reorderTopTab _ _ => True

/-- Both sides read the tabs and the terminal of a state alike. -/
structure Readable (state : WorkspaceContentState) : Prop where
  topTabs : ∀ tab ∈ state.topTabs, tab.Plain
  terminal : ∀ shown, state.activeContent = .terminal shown → IsText shown

theorem TopTab.Plain.updated {tab updated : TopTab} {updates : TopTabUpdates}
    (h : tab.Plain) (hupdates : updates.Plain)
    (hupdated : updateTopTab tab updates = some updated) :
    updated.Plain := by
  obtain ⟨hmerged, -⟩ := Option.filter_eq_some_iff.mp hupdated
  have hgetD : ∀ {P : JsString → Prop} (new : Option JsString) (old : JsString),
      (∀ s ∈ new.toList, P s) → P old → P (new.getD old) := by
    intro P new old hnew hold
    cases new with
    | none => exact hold
    | some s => exact hnew s (List.mem_singleton_self s)
  obtain ⟨htexts, hpaths⟩ := h
  obtain ⟨hnewTexts, hnewPaths⟩ := hupdates
  simp only [TopTabUpdates.texts, TopTabUpdates.paths, List.forall_mem_append]
    at hnewTexts hnewPaths
  obtain ⟨hnewTitle, hnewMode⟩ := hnewTexts
  obtain ⟨⟨hnewRepoRoot, hnewPath⟩, hnewOriginal⟩ := hnewPaths
  cases tab with
  | file _ _ _ | preview _ _ _ =>
    simp only [mergeUpdates] at hmerged
    split_ifs at hmerged
    cases hmerged
    obtain ⟨hid, htitle⟩ := List.forall_mem_cons.mp htexts
    refine ⟨List.forall_mem_cons.mpr ⟨hid, List.forall_mem_singleton.mpr
      (hgetD _ _ hnewTitle (List.forall_mem_singleton.mp htitle))⟩, ?_⟩
    exact List.forall_mem_singleton.mpr
      (hgetD _ _ hnewPath (List.forall_mem_singleton.mp hpaths))
  | gitDiff id repoRoot path mode originalPath title =>
    simp only [mergeUpdates] at hmerged
    split_ifs at hmerged
    cases hmerged
    simp only [TopTab.Plain, TopTab.texts, TopTab.paths, List.forall_mem_cons,
      List.not_mem_nil, false_imp_iff, implies_true, and_true] at htexts hpaths ⊢
    obtain ⟨hid, hmode, htitle⟩ := htexts
    obtain ⟨hrepoRoot, hpath, horiginal⟩ := hpaths
    exact ⟨⟨hid, hgetD _ _ hnewMode hmode, hgetD _ _ hnewTitle htitle⟩,
      hgetD _ _ hnewRepoRoot hrepoRoot, hgetD _ _ hnewPath hpath,
      hgetD _ _ hnewOriginal horiginal⟩
  | agentTurnDiff => cases hmerged

section Reduce

variable {state : WorkspaceContentState}

theorem terminal_of_fallbackAfterClose {topTabs : List TopTab} {closedIndex : Nat}
    {activeTerminalTabId shown : JsString}
    (h : fallbackAfterClose topTabs closedIndex activeTerminalTabId = .terminal shown) :
    shown = activeTerminalTabId := by
  unfold fallbackAfterClose at h
  split at h
  · cases h
  · split_ifs at h
    cases h
    rfl

/-- **An action that both sides read alike keeps the state so.** -/
theorem Readable.reduce (h : Readable state) {action : WorkspaceContentAction}
    (hplain : action.Plain) :
    Readable (reduceWorkspaceContent state action) := by
  cases action with
  | activateAgent =>
    refine ⟨h.topTabs, ?_⟩
    intro shown hshown
    cases hshown
  | activateTerminal terminalTabId =>
    simp only [reduceWorkspaceContent]
    split_ifs
    · exact h
    · refine ⟨h.topTabs, ?_⟩
      intro shown hshown
      cases hshown
      exact hplain
  | activateTopTab topTabId =>
    simp only [reduceWorkspaceContent]
    split_ifs
    · refine ⟨h.topTabs, ?_⟩
      intro shown hshown
      cases hshown
    · exact h
  | openTopTab tab =>
    simp only [reduceWorkspaceContent]
    split_ifs
    · split
      · refine ⟨h.topTabs, ?_⟩
        intro shown hshown
        cases hshown
      · refine ⟨?_, ?_⟩
        · intro other hother
          rcases List.mem_append.mp hother with hother | hother
          · exact h.topTabs other hother
          · rw [List.mem_singleton.mp hother]
            exact hplain
        · intro shown hshown
          cases hshown
    · exact h
  | closeTopTab topTabId activeTerminalTabId =>
    simp only [reduceWorkspaceContent]
    split
    · exact h
    · refine ⟨fun tab htab => h.topTabs tab (List.mem_of_mem_eraseIdx htab), ?_⟩
      intro shown hshown
      simp only at hshown
      split_ifs at hshown
      · rw [terminal_of_fallbackAfterClose hshown]
        cases activeTerminalTabId with
        | none => exact ⟨[], rfl⟩
        | some given => exact hplain given rfl
      · exact h.terminal shown hshown
  | reorderTopTab topTabId targetIndex =>
    simp only [reduceWorkspaceContent]
    split
    · rename_i currentIndex target hindex
      refine ⟨?_, h.terminal⟩
      intro tab htab
      exact h.topTabs tab ((perm_moveTopTab state.topTabs currentIndex target).mem_iff.mpr htab)
    · exact h
  | updateTopTab topTabId updates =>
    simp only [reduceWorkspaceContent]
    split
    · exact h
    · split
      · exact h
      · rename_i currentIndex hindex updated hupdated
        split_ifs
        · exact h
        · obtain ⟨tab, htab, hupdated⟩ := Option.bind_eq_some_iff.mp hupdated
          refine ⟨?_, h.terminal⟩
          intro other hother
          rcases List.mem_or_eq_of_mem_set hother with hother | rfl
          · exact h.topTabs other hother
          · exact (h.topTabs tab (List.mem_of_getElem? htab)).updated hplain hupdated

end Reduce

end Frontend

section Stored

theorem map_utf8 (state : StoredContentState Text) :
    (state.map utf16.text).map JsString.utf8 = state.map utf8.text := by
  have htabs : ∀ d : TopTabDescriptor Text,
      (d.map utf16.text).map JsString.utf8 = d.map utf8.text := by
    intro d
    simp only [TopTabDescriptor.map, utf8_text]
  simp only [StoredContentState.map, ActiveContent.map, utf8_text, List.map_map,
    Function.comp_def, htabs]

namespace Frontend

theorem hydrate_persisted_received (snapshot : PersistedWorkspaceContentState)
    (terminalTabId : JsString) :
    hydrateWorkspaceContentState (persisted (received snapshot)) terminalTabId =
      hydrateWorkspaceContentState snapshot terminalTabId := by
  have hread : fromPersistedTopTab ∘ (persistedTopTab ∘ receivedTopTab) =
      fromPersistedTopTab := by
    funext tab
    simp only [Function.comp_apply, fromPersistedTopTab, readTopTab, persistedTopTab,
      receivedTopTab, getD_omitEmpty]
  have htabs : normalizePersistedTopTabs (persisted (received snapshot)).topTabs =
      normalizePersistedTopTabs snapshot.topTabs := by
    simp only [persisted, received, List.map_map, normalizePersistedTopTabs]
    rw [firstOfEach_map, hread]
  simp only [hydrateWorkspaceContentState, htabs]
  simp only [resolveActiveContentFromTopTabs, persisted, received, getD_omitEmpty]

theorem contains_nul_of_isAbsoluteLocalPath {path : Text}
    (h : isAbsoluteLocalPath (utf16.text path) = true) :
    contains 0 path = false := by
  rw [isAbsoluteLocalPath_text, isAbsoluteLocalPath] at h
  by_contra hnul
  rw [if_pos (by rw [Bool.of_not_eq_false hnul, Bool.or_true])] at h
  cases h

attribute [local simp] TopTab.texts TopTab.paths

theorem TopTab.Plain.descriptor {tab : TopTab} (h : tab.Plain)
    (hvalid : isValidTopTab tab = true) :
    ∃ d : TopTabDescriptor Text, receivedTopTab (serializeTopTab tab) = d.map utf16.text ∧
      d.Plain := by
  obtain ⟨htexts, hpaths⟩ := h
  obtain ⟨-, hfields⟩ := (Bool.and_eq_true _ _).mp hvalid
  cases tab with
  | file id path title =>
    obtain ⟨id, rfl⟩ := htexts id (by simp)
    obtain ⟨title, rfl⟩ := htexts title (by simp)
    obtain ⟨path, rfl, hlettered⟩ := hpaths path (by simp)
    refine ⟨⟨id, word "file", path, title, [], [], [], [], [], [], [], []⟩, ?_, ?_, ?_⟩
    · simp only [TopTabDescriptor.map, text_word_char utf16 (w := "file") (by decide)]
      rfl
    · rw [TopTabDescriptor.paths, if_pos (.inl rfl)]
      exact List.forall_mem_singleton.mpr hlettered
    · rw [TopTabDescriptor.absolutePaths, if_pos (.inl rfl)]
      exact List.forall_mem_singleton.mpr fun _ => contains_nul_of_isAbsoluteLocalPath hfields
  | preview id path title =>
    obtain ⟨id, rfl⟩ := htexts id (by simp)
    obtain ⟨title, rfl⟩ := htexts title (by simp)
    obtain ⟨path, rfl, hlettered⟩ := hpaths path (by simp)
    refine ⟨⟨id, word "preview", path, title, [], [], [], [], [], [], [], []⟩, ?_, ?_, ?_⟩
    · simp only [TopTabDescriptor.map, text_word_char utf16 (w := "preview") (by decide)]
      rfl
    · rw [TopTabDescriptor.paths, if_pos (.inr rfl)]
      exact List.forall_mem_singleton.mpr hlettered
    · rw [TopTabDescriptor.absolutePaths, if_pos (.inr rfl)]
      exact List.forall_mem_singleton.mpr fun _ => contains_nul_of_isAbsoluteLocalPath hfields
  | gitDiff id repoRoot path mode originalPath title =>
    obtain ⟨id, rfl⟩ := htexts id (by simp)
    obtain ⟨mode, rfl⟩ := htexts mode (by simp)
    obtain ⟨title, rfl⟩ := htexts title (by simp)
    obtain ⟨repoRoot, rfl, hrepoRoot⟩ := hpaths repoRoot (by simp)
    obtain ⟨path, rfl, hpath⟩ := hpaths path (by simp)
    obtain ⟨originalPath, rfl, horiginal⟩ := hpaths originalPath (by simp)
    have hkind : ¬ ((word "git-diff" : Text) = word "file" ∨
        (word "git-diff" : Text) = word "preview") :=
      not_or.mpr ⟨gitDiff_ne_file, gitDiff_ne_preview⟩
    refine ⟨⟨id, word "git-diff", path, title, repoRoot, mode, originalPath, [], [], [], [],
      []⟩, ?_, ?_, ?_⟩
    · simp only [TopTabDescriptor.map, text_word_char utf16 (w := "git-diff") (by decide)]
      rfl
    · rw [TopTabDescriptor.paths, if_neg hkind, if_pos rfl]
      exact List.forall_mem_cons.mpr ⟨hrepoRoot, List.forall_mem_cons.mpr
        ⟨hpath, List.forall_mem_singleton.mpr horiginal⟩⟩
    · rw [TopTabDescriptor.absolutePaths, if_neg hkind,
        if_neg agentTurnDiff_ne_gitDiff.symm]
      exact fun path hpath => absurd hpath List.not_mem_nil
  | agentTurnDiff id sessionId sessionCreatedAt sessionCwd sessionPath turnId path title =>
    obtain ⟨id, rfl⟩ := htexts id (by simp)
    obtain ⟨sessionId, rfl⟩ := htexts sessionId (by simp)
    obtain ⟨sessionCreatedAt, rfl⟩ := htexts sessionCreatedAt (by simp)
    obtain ⟨turnId, rfl⟩ := htexts turnId (by simp)
    obtain ⟨title, rfl⟩ := htexts title (by simp)
    obtain ⟨sessionCwd, rfl, hcwd⟩ := hpaths sessionCwd (by simp)
    obtain ⟨sessionPath, rfl, hsessionPath⟩ := hpaths sessionPath (by simp)
    obtain ⟨path, rfl, hpath⟩ := hpaths path (by simp)
    have hkind : ¬ ((word "agent-turn-diff" : Text) = word "file" ∨
        (word "agent-turn-diff" : Text) = word "preview") :=
      not_or.mpr ⟨agentTurnDiff_ne_file, agentTurnDiff_ne_preview⟩
    simp only [Bool.and_eq_true, isCanonicalAbsoluteLocalPath] at hfields
    obtain ⟨⟨⟨⟨-, hcwdAbsolute, -⟩, hsessionAbsolute, -⟩, -⟩, -⟩ := hfields
    refine ⟨⟨id, word "agent-turn-diff", path, title, [], [], [], sessionId, sessionCreatedAt,
      sessionCwd, sessionPath, turnId⟩, ?_, ?_, ?_⟩
    · simp only [TopTabDescriptor.map,
        text_word_char utf16 (w := "agent-turn-diff") (by decide)]
      rfl
    · rw [TopTabDescriptor.paths, if_neg hkind, if_neg agentTurnDiff_ne_gitDiff, if_pos rfl]
      exact List.forall_mem_cons.mpr ⟨hcwd, List.forall_mem_cons.mpr
        ⟨hsessionPath, List.forall_mem_singleton.mpr hpath⟩⟩
    · rw [TopTabDescriptor.absolutePaths, if_neg hkind, if_pos rfl]
      exact List.forall_mem_cons.mpr
        ⟨fun _ => contains_nul_of_isAbsoluteLocalPath hcwdAbsolute,
          List.forall_mem_singleton.mpr
            fun _ => contains_nul_of_isAbsoluteLocalPath hsessionAbsolute⟩

theorem Readable.stored {state : WorkspaceContentState} (h : Readable state)
    (hwellFormed : WellFormed state) :
    ∃ stored : StoredContentState Text,
      received (serializeContentState state) = stored.map utf16.text ∧
        ∀ d ∈ stored.topTabs, d.Plain := by
  have hthere : ∀ topTabId, hasTopTab state.topTabs topTabId = true → IsText topTabId := by
    intro topTabId hhas
    obtain ⟨-, tab, htab, rfl⟩ := (hasTopTab_iff _ _).mp hhas
    have htexts := (h.topTabs tab htab).1
    cases tab <;> exact htexts _ List.mem_cons_self
  have htabs : ∃ descriptors : List (TopTabDescriptor Text),
      state.topTabs.map (receivedTopTab ∘ serializeTopTab) =
        descriptors.map (·.map utf16.text) ∧ ∀ d ∈ descriptors, d.Plain := by
    have hvalid := hwellFormed.valid
    have hplain := h.topTabs
    generalize state.topTabs = tabs at hvalid hplain
    induction tabs with
    | nil => exact ⟨[], rfl, fun d hd => absurd hd List.not_mem_nil⟩
    | cons tab tabs ih =>
      obtain ⟨d, hd, hdPlain⟩ :=
        (hplain tab List.mem_cons_self).descriptor (hvalid tab List.mem_cons_self)
      obtain ⟨ds, hds, hdsPlain⟩ := ih (fun t ht => hvalid t (List.mem_cons_of_mem _ ht))
        (fun t ht => hplain t (List.mem_cons_of_mem _ ht))
      refine ⟨d :: ds, ?_, List.forall_mem_cons.mpr ⟨hdPlain, hdsPlain⟩⟩
      rw [List.map_cons, List.map_cons, hds, Function.comp_apply, hd]
  have hlast : IsText state.lastActiveTopTabId := by
    by_cases hnil : state.lastActiveTopTabId = []
    · rw [hnil]
      exact ⟨[], rfl⟩
    · exact hthere _ (hwellFormed.last hnil)
  have hactive : ∃ active : ContentState.ActiveContent Text,
      (received (serializeContentState state)).activeContent = active.map utf16.text := by
    simp only [received, serializeContentState]
    cases hshown : state.activeContent with
    | agent =>
      refine ⟨⟨word "agent", [], []⟩, ?_⟩
      rw [ContentState.ActiveContent.map, text_word_char utf16 (by decide)]
      rfl
    | terminal shown =>
      obtain ⟨terminal, rfl⟩ := h.terminal shown hshown
      refine ⟨⟨word "terminal", terminal, []⟩, ?_⟩
      rw [ContentState.ActiveContent.map, text_word_char utf16 (by decide)]
      rfl
    | topTab topTabId =>
      obtain ⟨id, rfl⟩ := hthere topTabId (hwellFormed.shown topTabId hshown)
      refine ⟨⟨word "top-tab", [], id⟩, ?_⟩
      rw [ContentState.ActiveContent.map, text_word_char utf16 (by decide)]
      rfl
  obtain ⟨descriptors, hdescriptors, hplain⟩ := htabs
  obtain ⟨last, hlast⟩ := hlast
  obtain ⟨active, hactive⟩ := hactive
  refine ⟨⟨active, descriptors, last⟩, ?_, hplain⟩
  rw [StoredContentState.map, ← hactive, ← hdescriptors, hlast, ← List.map_map]
  rfl

theorem Follows.led {state : WorkspaceContentState} {stored : StoredContentState Text}
    (h : Follows state)
    (hstored : received (serializeContentState state) = stored.map utf16.text) :
    Led stored := by
  intro htop _ _
  have hkind : (received (serializeContentState state)).activeContent.kind = word "top-tab" := by
    rw [hstored]
    exact (text_eq_topTab utf16 _).mpr htop
  have hlast : state.lastActiveTopTabId = utf16.text stored.lastActiveTopTabId :=
    congrArg StoredContentState.lastActiveTopTabId hstored
  have hid := congrArg (fun s => s.activeContent.topTabId) hstored
  simp only [received, serializeContentState] at hkind hid
  cases hshown : state.activeContent with
  | agent =>
    rw [hshown] at hkind
    exact absurd hkind.symm (topTab_ne_agent UInt16)
  | terminal shown =>
    rw [hshown] at hkind
    exact absurd hkind.symm (topTab_ne_terminal UInt16)
  | topTab topTabId =>
    rw [hshown] at hid
    rw [← Encoding.text_inj utf16, ← hlast, h topTabId hshown]
    exact hid

/-- **A state that follows goes through the backend unchanged.** -/
theorem Readable.roundTrip {state : WorkspaceContentState} {shown : Text}
    (h : Readable state) (hwellFormed : WellFormed state) (hfollows : Follows state)
    (hshows : Shows state (utf16.text shown)) :
    ∃ n : StoredContentState Text,
      Backend.normalizeWorkspaceContentState
          ((received (serializeContentState state)).map JsString.utf8) (utf8.text shown) =
        n.map utf8.text ∧
      hydrateWorkspaceContentState (sent n) (utf16.text shown) = state := by
  obtain ⟨stored, hstored, hplain⟩ := h.stored hwellFormed
  refine ⟨normalized stored shown, ?_, ?_⟩
  · rw [hstored, map_utf8, Backend.normalize_utf8 hplain]
  · rw [hydrate_sent, (hydrated_normalized_iff stored shown).mpr (hfollows.led hstored),
      ← hydrate_sent hplain, sent, ← hstored, hydrate_persisted_received,
      hydrate_serialize hwellFormed hshows]
    exact fun d hd => hplain d (mem_keptTopTabs hd).1

end Frontend

end Stored

section Runs

variable {state : StoredContentState Text}

theorem TopTabDescriptor.Plain.read {d : TopTabDescriptor Text} {tab : Frontend.TopTab}
    (h : d.Plain) (hread : Frontend.readTopTab (sentTopTab d) = some tab) :
    tab.Plain := by
  obtain ⟨hpaths, -⟩ := h
  have htext : ∀ t : Text, IsText (utf16.text t) := fun t => ⟨t, rfl⟩
  have hpath : ∀ t : Text, t ∈ d.paths → IsPlainPath (utf16.text t) :=
    fun t ht => ⟨t, rfl, hpaths t ht⟩
  rw [Frontend.readTopTab_sent] at hread
  unfold TopTabDescriptor.paths at hpath
  split_ifs at hread with hfile hpreview hdiff hturn
  · cases hread
    rw [if_pos (.inl hfile)] at hpath
    simp [Frontend.TopTab.Plain, Frontend.TopTab.texts, Frontend.TopTab.paths, htext, hpath]
  · cases hread
    rw [if_pos (.inr hpreview)] at hpath
    simp [Frontend.TopTab.Plain, Frontend.TopTab.texts, Frontend.TopTab.paths, htext, hpath]
  · cases hread
    rw [if_neg (not_or.mpr ⟨hfile, hpreview⟩), if_pos hdiff] at hpath
    simp [Frontend.TopTab.Plain, Frontend.TopTab.texts, Frontend.TopTab.paths, htext, hpath]
  · cases hread
    rw [if_neg (not_or.mpr ⟨hfile, hpreview⟩), if_neg hdiff, if_pos hturn] at hpath
    simp [Frontend.TopTab.Plain, Frontend.TopTab.texts, Frontend.TopTab.paths, htext, hpath]

theorem readable_hydrated (hplain : ∀ d ∈ state.topTabs, d.Plain) (terminalId : Text) :
    Frontend.Readable (hydrated state terminalId) := by
  refine ⟨?_, ?_⟩
  · intro tab htab
    obtain ⟨d, hd, hread⟩ := List.mem_filterMap.mp htab
    exact (hplain d (mem_keptTopTabs hd).1).read (Option.filter_eq_some_iff.mp hread).1
  · intro shown hshown
    simp only [hydrated, shownContent] at hshown
    split_ifs at hshown
    cases hshown
    exact ⟨_, rfl⟩

/-- **What the frontend makes of a state that is led follows.** -/
theorem follows_hydrated (hled : Led state) (terminalId : Text) :
    Frontend.Follows (hydrated state terminalId) := by
  rw [← (hydrated_normalized_iff state terminalId).mpr hled]
  intro topTabId hshown
  simp only [hydrated, normalized_normalized, shownContent] at hshown ⊢
  split_ifs at hshown with hterminal htop
  cases hshown
  have hlast : (normalized state terminalId).lastActiveTopTabId =
      (normalized state terminalId).activeContent.topTabId := if_pos htop
  rw [hlast, ite_self]

theorem Frontend.run_reduce {start : Frontend.WorkspaceContentState}
    (hreadable : Frontend.Readable start) (hwellFormed : Frontend.WellFormed start)
    (hfollows : Frontend.Follows start) {actions : List Frontend.WorkspaceContentAction}
    (hactions : ∀ action ∈ actions, action.Plain) :
    Frontend.Readable (actions.foldl Frontend.reduceWorkspaceContent start) ∧
      Frontend.WellFormed (actions.foldl Frontend.reduceWorkspaceContent start) ∧
      Frontend.Follows (actions.foldl Frontend.reduceWorkspaceContent start) := by
  induction actions generalizing start with
  | nil => exact ⟨hreadable, hwellFormed, hfollows⟩
  | cons action actions ih =>
    have haction : action.Plain := hactions action List.mem_cons_self
    exact ih (hreadable.reduce haction) (hwellFormed.reduce action) (hfollows.reduce action)
      fun other hother => hactions other (List.mem_cons_of_mem _ hother)

end Runs

end Readable

section Agreement

open Backend Frontend

/-- A file tab. -/
def fileTab (id path : String) : TopTabDescriptor Text :=
  ⟨id.toList, word "file", path.toList, [], [], [], [], [], [], [], [], []⟩

/-- Two tabs, of which the first is shown and was active last. -/
def firstShown : StoredContentState Text where
  activeContent := ⟨word "top-tab", [], "a".toList⟩
  topTabs := [fileTab "a" "C:\\A\\.\\b", fileTab "b" "/b"]
  lastActiveTopTabId := "a".toList

/-- Two tabs, of which one is shown and the other was active last. -/
def shownAfterAnother : StoredContentState Text where
  activeContent := ⟨word "top-tab", [], "a".toList⟩
  topTabs := [fileTab "a" "/a", fileTab "b" "/b"]
  lastActiveTopTabId := "b".toList

end Agreement

end ContentState

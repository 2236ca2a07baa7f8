import Crest.TopTabAgreement

/-!
# What both sides make of a stored state

A stored state is text.  Of its descriptors the first of each id and identity is kept, and what
is shown is normalized for them.  The backend computes this on bytes.  The frontend hydrates
the same tabs and shows the same of them; the tab that was active last is the stored one, if
that is kept.
-/

namespace ContentState

open CodeUnit Encoding TopTabPath

section Words

variable {α : Type} [CodeUnit α]

theorem word_inj {v w : String} (hv : isAscii v = true) (hw : isAscii w = true)
    (h : (word v : List α) = word w) :
    v = w := by
  have hcodes : ∀ u : String, isAscii u = true →
      (word u : List α).map code = u.toList.map Char.toNat := by
    intro u hu
    rw [word, List.map_map]
    exact List.map_congr_left fun c hc => CodeUnit.code_ascii (lt_of_isAscii hu c hc)
  have hsame : v.toList.map Char.toNat = w.toList.map Char.toNat := by
    rw [← hcodes v hv, ← hcodes w hw, h]
  exact String.toList_inj.mp (List.map_injective_iff.mpr (fun c d => Char.toNat_inj.mp) hsame)

variable (α)

theorem terminal_ne_agent : (word "terminal" : List α) ≠ word "agent" := by
  intro h
  exact absurd (word_inj (by decide) (by decide) h) (by decide)

theorem topTab_ne_agent : (word "top-tab" : List α) ≠ word "agent" := by
  intro h
  exact absurd (word_inj (by decide) (by decide) h) (by decide)

theorem topTab_ne_terminal : (word "top-tab" : List α) ≠ word "terminal" := by
  intro h
  exact absurd (word_inj (by decide) (by decide) h) (by decide)

end Words

section ActiveContent

variable {α : Type} [CodeUnit α] [DecidableEq α]

/-- What the backend stores to be shown: the agent, the terminal, or a tab that is kept. -/
inductive Normal (terminalId : List α) (topTabIds : List (List α)) : ActiveContent (List α) → Prop
  | agent : Normal terminalId topTabIds ⟨word "agent", [], []⟩
  | terminal (hne : terminalId ≠ []) : Normal terminalId topTabIds ⟨word "terminal", terminalId, []⟩
  | topTab (topTabId : List α) (hmem : topTabId ∈ topTabIds) :
      Normal terminalId topTabIds ⟨word "top-tab", [], topTabId⟩

variable {terminalId lastActiveTopTabId : List α} {topTabIds : List (List α)}

variable {active : ActiveContent (List α)}

omit [DecidableEq α] in
theorem Normal.topTabId_mem (h : Normal terminalId topTabIds active)
    (htop : active.kind = word "top-tab") :
    active.topTabId ∈ topTabIds := by
  cases h with
  | agent => exact absurd htop.symm (topTab_ne_agent α)
  | terminal hterminal => exact absurd htop.symm (topTab_ne_terminal α)
  | topTab topTabId hmem => exact hmem

omit [DecidableEq α] in
theorem normal_fallbackActiveContent
    (hlast : lastActiveTopTabId ≠ [] → lastActiveTopTabId ∈ topTabIds) :
    Normal terminalId topTabIds
      (Backend.fallbackActiveContent lastActiveTopTabId terminalId) := by
  unfold Backend.fallbackActiveContent
  split_ifs with hne hterminal
  · exact Normal.topTab lastActiveTopTabId (hlast hne)
  · exact Normal.terminal hterminal
  · exact Normal.agent

omit [DecidableEq α] in
theorem Normal.topTabId_eq_nil (h : Normal terminalId topTabIds active)
    (htop : active.kind ≠ word "top-tab") :
    active.topTabId = [] := by
  cases h with
  | agent | terminal _ => rfl
  | topTab topTabId hmem => exact absurd rfl htop

theorem normal_normalizeActiveContent (active : ActiveContent (List α))
    (hlast : lastActiveTopTabId ≠ [] → lastActiveTopTabId ∈ topTabIds) :
    Normal terminalId topTabIds
      (Backend.normalizeActiveContent active lastActiveTopTabId terminalId topTabIds) := by
  have hfallback : Normal terminalId topTabIds
      (Backend.fallbackActiveContent lastActiveTopTabId terminalId) :=
    normal_fallbackActiveContent hlast
  unfold Backend.normalizeActiveContent
  split_ifs with hagent hterminal hsame htop hmem
  · exact Normal.agent
  · exact Normal.terminal hsame.2
  · exact hfallback
  · exact Normal.topTab active.topTabId hmem
  · exact hfallback
  · exact hfallback

theorem normalizeActiveContent_of_normal (h : Normal terminalId topTabIds active) :
    Backend.normalizeActiveContent active lastActiveTopTabId terminalId topTabIds = active := by
  unfold Backend.normalizeActiveContent
  cases h with
  | agent => rw [if_pos rfl]
  | terminal hne => rw [if_neg (terminal_ne_agent α), if_pos rfl, if_pos ⟨rfl, hne⟩]
  | topTab topTabId hmem =>
    rw [if_neg (topTab_ne_agent α), if_neg (topTab_ne_terminal α), if_pos rfl, if_pos hmem]

end ActiveContent

section WithTopTabs

variable {α : Type} [CodeUnit α] [DecidableEq α]

omit [CodeUnit α] in
theorem keptLast_mem {topTabIds : List (List α)} {lastActiveTopTabId : List α}
    (h : keptLast topTabIds lastActiveTopTabId ≠ []) :
    keptLast topTabIds lastActiveTopTabId ∈ topTabIds := by
  unfold keptLast at h ⊢
  split_ifs at h ⊢ with hmem
  · exact hmem
  · exact absurd rfl h

/-- A stored state that is normalized, once it is known which tabs are kept. -/
def withTopTabs (topTabs : List (TopTabDescriptor (List α))) (state : StoredContentState (List α))
    (terminalId : List α) : StoredContentState (List α) :=
  let topTabIds := topTabs.map TopTabDescriptor.id
  let lastActiveTopTabId := keptLast topTabIds state.lastActiveTopTabId
  let activeContent :=
    Backend.normalizeActiveContent state.activeContent lastActiveTopTabId terminalId topTabIds
  { activeContent := activeContent
    topTabs := topTabs
    lastActiveTopTabId :=
      if activeContent.kind = word "top-tab" then activeContent.topTabId else lastActiveTopTabId }

theorem normal_withTopTabs (topTabs : List (TopTabDescriptor (List α)))
    (state : StoredContentState (List α)) (terminalId : List α) :
    Normal terminalId (topTabs.map TopTabDescriptor.id)
      (withTopTabs topTabs state terminalId).activeContent :=
  normal_normalizeActiveContent _ keptLast_mem

omit [CodeUnit α] in
theorem keptLast_of_mem {topTabIds : List (List α)} {topTabId : List α}
    (h : topTabId ≠ [] → topTabId ∈ topTabIds) :
    keptLast topTabIds topTabId = topTabId := by
  unfold keptLast
  split_ifs with hmem
  · rfl
  · by_contra hne
    exact hmem (h fun hnil => hne hnil.symm)

theorem keptLast_withTopTabs (topTabs : List (TopTabDescriptor (List α)))
    (state : StoredContentState (List α)) (terminalId : List α) :
    keptLast (topTabs.map TopTabDescriptor.id)
        (withTopTabs topTabs state terminalId).lastActiveTopTabId =
      (withTopTabs topTabs state terminalId).lastActiveTopTabId := by
  have hnormal := normal_withTopTabs topTabs state terminalId
  apply keptLast_of_mem
  intro hne
  simp only [withTopTabs] at hne hnormal ⊢
  split_ifs at hne ⊢ with htop
  · exact hnormal.topTabId_mem htop
  · exact keptLast_mem hne

theorem withTopTabs_of_normal {topTabs : List (TopTabDescriptor (List α))}
    {state : StoredContentState (List α)} {terminalId : List α} (htabs : state.topTabs = topTabs)
    (hactive : Normal terminalId (topTabs.map TopTabDescriptor.id) state.activeContent)
    (hlast : keptLast (topTabs.map TopTabDescriptor.id) state.lastActiveTopTabId =
      state.lastActiveTopTabId)
    (hfollows : state.activeContent.kind = word "top-tab" →
      state.lastActiveTopTabId = state.activeContent.topTabId) :
    withTopTabs topTabs state terminalId = state := by
  obtain ⟨active, tabs, last⟩ := state
  simp only at htabs hactive hlast hfollows
  simp only [withTopTabs, hlast, normalizeActiveContent_of_normal hactive, htabs]
  by_cases htop : active.kind = word "top-tab"
  · rw [if_pos htop, hfollows htop]
  · rw [if_neg htop]

/-- **Normalizing what is normalized changes nothing.** -/
theorem withTopTabs_withTopTabs (topTabs : List (TopTabDescriptor (List α)))
    (state : StoredContentState (List α)) (terminalId : List α) :
    withTopTabs topTabs (withTopTabs topTabs state terminalId) terminalId =
      withTopTabs topTabs state terminalId := by
  refine withTopTabs_of_normal rfl (normal_withTopTabs topTabs state terminalId)
    (keptLast_withTopTabs topTabs state terminalId) ?_
  intro htop
  exact if_pos htop

end WithTopTabs

section Encoded

variable {α : Type} [CodeUnit α] (e : Encoding α)

theorem text_eq_agent (s : Text) : e.text s = word "agent" ↔ s = word "agent" :=
  text_eq_word e (by decide) s

theorem text_eq_terminal (s : Text) : e.text s = word "terminal" ↔ s = word "terminal" :=
  text_eq_word e (by decide) s

theorem text_eq_topTab (s : Text) : e.text s = word "top-tab" ↔ s = word "top-tab" :=
  text_eq_word e (by decide) s

theorem text_mem (s : Text) (ids : List Text) : e.text s ∈ ids.map e.text ↔ s ∈ ids :=
  List.mem_map_of_injective fun _ _ h => (e.text_inj _ _).mp h

theorem fallbackActiveContent_text (lastActiveTopTabId terminalId : Text) :
    Backend.fallbackActiveContent (e.text lastActiveTopTabId) (e.text terminalId) =
      (Backend.fallbackActiveContent lastActiveTopTabId terminalId).map e.text := by
  unfold Backend.fallbackActiveContent
  simp only [ne_eq, Encoding.text_eq_nil]
  split_ifs <;> simp only [ActiveContent.map, Encoding.text_nil,
    text_word_char e (w := "top-tab") (by decide), text_word_char e (w := "terminal") (by decide),
    text_word_char e (w := "agent") (by decide)]

variable [DecidableEq α]

theorem keptLast_text (topTabIds : List Text) (lastActiveTopTabId : Text) :
    keptLast (topTabIds.map e.text) (e.text lastActiveTopTabId) =
      e.text (keptLast topTabIds lastActiveTopTabId) := by
  unfold keptLast
  simp only [text_mem]
  split_ifs <;> rfl

theorem normalizeActiveContent_text (active : ActiveContent Text)
    (lastActiveTopTabId terminalId : Text) (topTabIds : List Text) :
    Backend.normalizeActiveContent (active.map e.text) (e.text lastActiveTopTabId)
        (e.text terminalId) (topTabIds.map e.text) =
      (Backend.normalizeActiveContent active lastActiveTopTabId terminalId topTabIds).map
        e.text := by
  unfold Backend.normalizeActiveContent
  rw [fallbackActiveContent_text]
  simp only [ActiveContent.map, text_eq_agent, text_eq_terminal, text_eq_topTab, text_mem,
    Encoding.text_inj, ne_eq, Encoding.text_eq_nil]
  split_ifs <;> simp only [Encoding.text_nil, text_word_char e (w := "top-tab") (by decide),
    text_word_char e (w := "terminal") (by decide), text_word_char e (w := "agent") (by decide)]

theorem withTopTabs_text (topTabs : List (TopTabDescriptor Text))
    (state : StoredContentState Text) (terminalId : Text) :
    withTopTabs (topTabs.map (·.map e.text)) (state.map e.text) (e.text terminalId) =
      (withTopTabs topTabs state terminalId).map e.text := by
  have hids : (topTabs.map (·.map e.text)).map TopTabDescriptor.id =
      (topTabs.map TopTabDescriptor.id).map e.text := by
    rw [List.map_map, List.map_map]
    rfl
  simp only [withTopTabs, hids, StoredContentState.map, keptLast_text,
    normalizeActiveContent_text]
  simp only [ActiveContent.map, text_eq_topTab]
  split_ifs <;> rfl

end Encoded

section Kept

/-- The descriptor, if it is valid. -/
def validTopTab (d : TopTabDescriptor Text) : Option (TopTabDescriptor Text) :=
  if Backend.isValidTopTabDescriptor (d.map utf8.text) then some d else none

/-- The descriptors that are kept: the valid ones, the first of each id and identity. -/
def keptTopTabs (topTabs : List (TopTabDescriptor Text)) : List (TopTabDescriptor Text) :=
  firstOfEach validTopTab TopTabDescriptor.id TopTabDescriptor.components [] [] topTabs

/-- The tabs that the frontend reads from descriptors. -/
def readTopTabs (topTabs : List (TopTabDescriptor Text)) : List Frontend.TopTab :=
  topTabs.filterMap fun d => Frontend.fromPersistedTopTab (sentTopTab d)

theorem validTopTab_eq_some {d e : TopTabDescriptor Text} (h : validTopTab d = some e) :
    d = e ∧ Backend.isValidTopTabDescriptor (d.map utf8.text) = true := by
  unfold validTopTab at h
  split_ifs at h with hvalid
  cases h
  exact ⟨rfl, hvalid⟩

variable {topTabs : List (TopTabDescriptor Text)}

theorem mem_keptTopTabs {d : TopTabDescriptor Text} (h : d ∈ keptTopTabs topTabs) :
    d ∈ topTabs ∧ validTopTab d = some d := by
  obtain ⟨⟨e, he, hvalid⟩, -⟩ := (firstOfEach_spec [] [] topTabs).1 d h
  cases (validTopTab_eq_some hvalid).1
  exact ⟨he, hvalid⟩

theorem keptTopTabs_keptTopTabs (topTabs : List (TopTabDescriptor Text)) :
    keptTopTabs (keptTopTabs topTabs) = keptTopTabs topTabs :=
  firstOfEach_firstOfEach (fun _ _ h => (validTopTab_eq_some h).1) topTabs

theorem firstOfEach_keptTopTabs {β ι κ : Type} [DecidableEq ι] [DecidableEq κ]
    {entry : TopTabDescriptor Text → Option β} {id : β → ι} {identity : β → κ}
    (hvalid : ∀ d ∈ topTabs, Backend.isValidTopTabDescriptor (d.map utf8.text) = (entry d).isSome)
    (hsame : ∀ d ∈ topTabs, ∀ e ∈ topTabs, ∀ b c, entry d = some b → entry e = some c →
      (d.id = e.id ↔ id b = id c) ∧ (d.components = e.components ↔ identity b = identity c)) :
    firstOfEach entry id identity [] [] topTabs = (keptTopTabs topTabs).filterMap entry := by
  obtain ⟨kept, -, hall, hkept, hentry⟩ := @firstOfEach_agree _ _ _ _ _ _ validTopTab
    TopTabDescriptor.id TopTabDescriptor.components _ _ _ _ _ entry id identity [] [] [] []
    topTabs (by
      intro d hd
      rw [← hvalid d hd, validTopTab]
      split_ifs with h
      · exact h.symm
      · exact (Bool.eq_false_iff.mpr h).symm)
    (by
      intro d _ b b' _ _
      exact ⟨⟨fun h => absurd h List.not_mem_nil, fun h => absurd h List.not_mem_nil⟩,
        ⟨fun h => absurd h List.not_mem_nil, fun h => absurd h List.not_mem_nil⟩⟩)
    (by
      intro d hd e he b b' c c' hb hb' hc hc'
      cases (validTopTab_eq_some hb).1
      cases (validTopTab_eq_some hc).1
      exact hsame d hd e he b' c' hb' hc')
  have hsame : keptTopTabs topTabs = kept := by
    refine hkept.trans ((List.filterMap_congr ?_).trans List.filterMap_some)
    intro d hd
    obtain ⟨e, he⟩ := Option.isSome_iff_exists.mp (hall d hd)
    rw [he, (validTopTab_eq_some he).1]
  rw [hentry, hsame]

variable {topTabs : List (TopTabDescriptor Text)}

variable (hplain : ∀ d ∈ topTabs, d.Plain)
include hplain

/-- **The backend keeps these descriptors.** -/
theorem Backend.normalizeTopTabs_utf8 :
    Backend.normalizeTopTabs (topTabs.map (·.map utf8.text)) =
      (keptTopTabs topTabs).map (·.map utf8.text) := by
  rw [Backend.normalizeTopTabs, firstOfEach_map, firstOfEach_keptTopTabs]
  · refine List.filterMap_eq_map_iff_forall_eq_some.mpr ?_
    intro d hd
    exact if_pos (validTopTab_eq_some (mem_keptTopTabs hd).2).2
  · intro d _
    rw [Function.comp_apply, Backend.validTopTab]
    split_ifs with h
    · exact h
    · exact Bool.eq_false_iff.mpr h
  · intro d hd e he b c hb hc
    rw [Function.comp_apply, Backend.validTopTab] at hb hc
    split_ifs at hb hc
    cases hb
    cases hc
    rw [Backend.topTabIdentityKey_utf8 (hplain d hd), Backend.topTabIdentityKey_utf8 (hplain e he),
      tupleIdentityKey_text]
    exact ⟨(utf8.text_inj d.id e.id).symm, Iff.rfl⟩

/-- **The frontend keeps these descriptors.** -/
theorem Frontend.normalizePersistedTopTabs_sent :
    Frontend.normalizePersistedTopTabs (topTabs.map sentTopTab) =
      readTopTabs (keptTopTabs topTabs) := by
  have hread : ∀ d : TopTabDescriptor Text, ∀ tab,
      Frontend.fromPersistedTopTab (sentTopTab d) = some tab →
        tab.id = utf16.text d.id ∧
          Frontend.topTabIdentityKey tab = tupleIdentityKey (d.components.map utf16.text) :=
    fun d tab h => Frontend.topTabIdentityKey_sent (Option.filter_eq_some_iff.mp h).1
  rw [Frontend.normalizePersistedTopTabs, firstOfEach_map, firstOfEach_keptTopTabs]
  · rfl
  · exact fun d hd => isValidTopTabDescriptor_agree (hplain d hd)
  · intro d _ e _ b c hb hc
    obtain ⟨hid, hidentity⟩ := hread d b hb
    obtain ⟨hid', hidentity'⟩ := hread e c hc
    rw [hid, hid', hidentity, hidentity', tupleIdentityKey_text, Encoding.text_inj]
    exact ⟨Iff.rfl, Iff.rfl⟩

theorem Frontend.hasTopTab_sent (topTabId : Text) :
    Frontend.hasTopTab (readTopTabs (keptTopTabs topTabs)) (utf16.text topTabId) = true ↔
      topTabId ∈ (keptTopTabs topTabs).map TopTabDescriptor.id := by
  rw [Frontend.hasTopTab_iff, List.mem_map]
  constructor
  · rintro ⟨-, tab, htab, hid⟩
    obtain ⟨d, hd, hread⟩ := List.mem_filterMap.mp htab
    have hread' := Frontend.topTabIdentityKey_sent (Option.filter_eq_some_iff.mp hread).1
    exact ⟨d, hd, (utf16.text_inj _ _).mp (hread'.1.symm.trans hid)⟩
  · rintro ⟨d, hd, rfl⟩
    obtain ⟨hmem, hvalid⟩ := mem_keptTopTabs hd
    have hsome := (isValidTopTabDescriptor_agree (hplain d hmem)).symm.trans
      (validTopTab_eq_some hvalid).2
    obtain ⟨tab, hread⟩ := Option.isSome_iff_exists.mp hsome
    obtain ⟨hid, -⟩ := Frontend.topTabIdentityKey_sent (Option.filter_eq_some_iff.mp hread).1
    refine ⟨?_, tab, List.mem_filterMap.mpr ⟨d, hd, hread⟩, hid⟩
    rw [← hid]
    exact Frontend.id_ne_nil (Option.filter_eq_some_iff.mp hread).2

end Kept

section Hydrated

/-- A stored state, normalized. -/
def normalized (state : StoredContentState Text) (terminalId : Text) : StoredContentState Text :=
  withTopTabs (keptTopTabs state.topTabs) state terminalId

/-- The ids of the tabs that are kept. -/
def keptTopTabIds (state : StoredContentState Text) : List Text :=
  (keptTopTabs state.topTabs).map TopTabDescriptor.id

/-- Where a tab that is kept is stored as the one that is shown, no other tab that is kept is
stored as the one that was active last. -/
def Led (state : StoredContentState Text) : Prop :=
  state.activeContent.kind = word "top-tab" →
    state.activeContent.topTabId ∈ keptTopTabIds state →
      state.lastActiveTopTabId ∈ keptTopTabIds state →
        state.lastActiveTopTabId = state.activeContent.topTabId

instance (state : StoredContentState Text) : Decidable (Led state) :=
  inferInstanceAs (Decidable (_ → _ → _ → _))

/-- What the frontend shows for what is stored to be shown. -/
def shownContent (active : ActiveContent Text) : Frontend.ActiveContent :=
  if active.kind = word "terminal" then .terminal (utf16.text active.terminalTabId)
  else if active.kind = word "top-tab" then .topTab (utf16.text active.topTabId)
  else .agent

/-- What the frontend makes of a stored state. -/
def hydrated (state : StoredContentState Text) (terminalId : Text) :
    Frontend.WorkspaceContentState where
  activeContent := shownContent (normalized state terminalId).activeContent
  topTabs := readTopTabs (keptTopTabs state.topTabs)
  lastActiveTopTabId :=
    utf16.text (if state.lastActiveTopTabId ∈ keptTopTabIds state then state.lastActiveTopTabId
      else (normalized state terminalId).activeContent.topTabId)

theorem shownContent_agent : shownContent ⟨word "agent", [], []⟩ = .agent := by
  rw [shownContent, if_neg (terminal_ne_agent Char).symm, if_neg (topTab_ne_agent Char).symm]

theorem shownContent_terminal (terminalTabId : Text) :
    shownContent ⟨word "terminal", terminalTabId, []⟩ = .terminal (utf16.text terminalTabId) :=
  if_pos rfl

theorem shownContent_topTab (topTabId : Text) :
    shownContent ⟨word "top-tab", [], topTabId⟩ = .topTab (utf16.text topTabId) := by
  rw [shownContent, if_neg (topTab_ne_terminal Char), if_pos rfl]

theorem shownTopTabId_shownContent {terminalId : Text} {topTabIds : List Text}
    {active : ActiveContent Text} (h : Normal terminalId topTabIds active) :
    (shownContent active).shownTopTabId = utf16.text active.topTabId := by
  cases h with
  | agent => rw [shownContent_agent]; rfl
  | terminal hne => rw [shownContent_terminal]; rfl
  | topTab topTabId hmem => rw [shownContent_topTab]; rfl

section Resolve

variable {topTabs : List Frontend.TopTab} {topTabIds : List Text}

theorem shownContent_fallbackActiveContent (hnil : [] ∉ topTabIds)
    (lastActiveTopTabId terminalId : Text) :
    shownContent (Backend.fallbackActiveContent
        (keptLast topTabIds lastActiveTopTabId) terminalId) =
      if lastActiveTopTabId ∈ topTabIds then .topTab (utf16.text lastActiveTopTabId)
      else if terminalId ≠ [] then .terminal (utf16.text terminalId) else .agent := by
  by_cases hmem : lastActiveTopTabId ∈ topTabIds
  · have hne : lastActiveTopTabId ≠ [] := fun h => hnil (h ▸ hmem)
    rw [keptLast, if_pos hmem, if_pos hmem, Backend.fallbackActiveContent, if_pos hne,
      shownContent_topTab]
  · rw [keptLast, if_neg hmem, if_neg hmem, Backend.fallbackActiveContent,
      if_neg (not_not.mpr rfl)]
    split_ifs with hne
    · rw [shownContent_terminal]
    · rw [shownContent_agent]

theorem resolveActiveContent_sent (htabs : ∀ topTabId : Text,
      Frontend.hasTopTab topTabs (utf16.text topTabId) = true ↔ topTabId ∈ topTabIds)
    (active : ActiveContent Text) (lastActiveTopTabId terminalId : Text) :
    Frontend.resolveActiveContentFromTopTabs
        { kind := utf16.text active.kind
          terminalTabId := omitEmpty (utf16.text active.terminalTabId)
          topTabId := omitEmpty (utf16.text active.topTabId) }
        (omitEmpty (utf16.text lastActiveTopTabId)) topTabs (utf16.text terminalId) =
      shownContent (Backend.normalizeActiveContent active (keptLast topTabIds lastActiveTopTabId)
        terminalId topTabIds) := by
  have hnil : ([] : Text) ∉ topTabIds := by
    intro h
    cases (htabs []).mpr h
  have hfallback := shownContent_fallbackActiveContent hnil lastActiveTopTabId terminalId
  unfold Frontend.resolveActiveContentFromTopTabs Backend.normalizeActiveContent
  simp only [getD_omitEmpty, text_eq_agent, text_eq_terminal, text_eq_topTab, htabs, ne_eq,
    Encoding.text_eq_nil, Encoding.text_inj]
  by_cases hagent : active.kind = word "agent"
  · rw [if_pos hagent, if_pos hagent, shownContent_agent]
  rw [if_neg hagent, if_neg hagent]
  by_cases hterminal : active.kind = word "terminal"
  · have hnotTop : ¬ (active.kind = word "top-tab" ∧ active.topTabId ∈ topTabIds) :=
      fun h => topTab_ne_terminal Char (h.1.symm.trans hterminal)
    rw [if_pos hterminal]
    by_cases hsame : active.terminalTabId = terminalId ∧ terminalId ≠ []
    · have hne : active.terminalTabId ≠ [] := hsame.1 ▸ hsame.2
      rw [if_pos ⟨hterminal, hne, hsame.1⟩, if_pos hsame, shownContent_terminal, hsame.1]
    · have hdiffers : ¬ (active.kind = word "terminal" ∧ active.terminalTabId ≠ [] ∧
          active.terminalTabId = terminalId) :=
        fun h => hsame ⟨h.2.2, h.2.2 ▸ h.2.1⟩
      rw [if_neg hdiffers, if_neg hsame, if_neg hnotTop, hfallback]
  rw [if_neg fun h => hterminal h.1, if_neg hterminal]
  by_cases htop : active.kind = word "top-tab"
  · rw [if_pos htop]
    by_cases hmem : active.topTabId ∈ topTabIds
    · rw [if_pos ⟨htop, hmem⟩, if_pos hmem, shownContent_topTab]
    · rw [if_neg fun h => hmem h.2, if_neg hmem, hfallback]
  · rw [if_neg fun h => htop h.1, if_neg htop, hfallback]

end Resolve

variable {state : StoredContentState Text}

/-- **The frontend makes this of a stored state.** -/
theorem hydrate_sent (hplain : ∀ d ∈ state.topTabs, d.Plain) (terminalId : Text) :
    Frontend.hydrateWorkspaceContentState (sent state) (utf16.text terminalId) =
      hydrated state terminalId := by
  have htabs : Frontend.normalizePersistedTopTabs (sent state).topTabs =
      readTopTabs (keptTopTabs state.topTabs) := by
    rw [← Frontend.normalizePersistedTopTabs_sent hplain, sent, persisted, StoredContentState.map]
    simp only [List.map_map]
    rfl
  have hhas : ∀ topTabId : Text, Frontend.hasTopTab (readTopTabs (keptTopTabs state.topTabs))
      (utf16.text topTabId) = true ↔ topTabId ∈ keptTopTabIds state :=
    Frontend.hasTopTab_sent hplain
  have hactive := resolveActiveContent_sent hhas state.activeContent state.lastActiveTopTabId
    terminalId
  have hnormal := normal_withTopTabs (keptTopTabs state.topTabs) state terminalId
  have hresolved : Frontend.resolveActiveContentFromTopTabs (sent state).activeContent
      (sent state).lastActiveTopTabId (readTopTabs (keptTopTabs state.topTabs))
      (utf16.text terminalId) = shownContent (normalized state terminalId).activeContent := hactive
  have hlast : (sent state).lastActiveTopTabId.getD [] = utf16.text state.lastActiveTopTabId :=
    getD_omitEmpty _
  simp only [Frontend.hydrateWorkspaceContentState, hydrated, htabs, hresolved, hlast, hhas,
    shownTopTabId_shownContent (normal_withTopTabs _ state terminalId), normalized]
  split_ifs <;> rfl

/-- **The backend makes this of a stored state.** -/
theorem Backend.normalize_utf8 (hplain : ∀ d ∈ state.topTabs, d.Plain) (terminalId : Text) :
    Backend.normalizeWorkspaceContentState (state.map utf8.text) (utf8.text terminalId) =
      (normalized state terminalId).map utf8.text := by
  have htabs : Backend.normalizeTopTabs (state.map utf8.text).topTabs =
      (keptTopTabs state.topTabs).map (·.map utf8.text) := Backend.normalizeTopTabs_utf8 hplain
  rw [normalized, ← withTopTabs_text, ← htabs]
  rfl

theorem normalized_normalized (state : StoredContentState Text) (terminalId : Text) :
    normalized (normalized state terminalId) terminalId = normalized state terminalId := by
  have htabs : keptTopTabs (normalized state terminalId).topTabs = keptTopTabs state.topTabs :=
    keptTopTabs_keptTopTabs state.topTabs
  rw [normalized, htabs]
  exact withTopTabs_withTopTabs _ state terminalId

theorem topTabId_of_fallback {active : ActiveContent Text}
    {lastActiveTopTabId terminalId : Text} {topTabIds : List Text}
    (hfallback : ¬ (active.kind = word "top-tab" ∧ active.topTabId ∈ topTabIds))
    (htop : (Backend.normalizeActiveContent active lastActiveTopTabId terminalId topTabIds).kind =
      word "top-tab") :
    (Backend.normalizeActiveContent active lastActiveTopTabId terminalId topTabIds).topTabId =
      lastActiveTopTabId := by
  have hfalls : (Backend.fallbackActiveContent lastActiveTopTabId terminalId).kind =
      word "top-tab" →
        (Backend.fallbackActiveContent lastActiveTopTabId terminalId).topTabId =
          lastActiveTopTabId := by
    unfold Backend.fallbackActiveContent
    intro h
    split_ifs at h ⊢ with hlast hterminal
    · rfl
    · exact absurd h.symm (topTab_ne_terminal Char)
    · exact absurd h.symm (topTab_ne_agent Char)
  unfold Backend.normalizeActiveContent at htop ⊢
  split_ifs at htop ⊢ with hagent hterminal hsame hkind hmem
  · exact absurd htop.symm (topTab_ne_agent Char)
  · exact absurd htop.symm (topTab_ne_terminal Char)
  · exact hfalls htop
  · exact absurd ⟨hkind, hmem⟩ hfallback
  · exact hfalls htop
  · exact hfalls htop

theorem lastActive_normalized_iff (state : StoredContentState Text) (terminalId : Text) :
    (hydrated (normalized state terminalId) terminalId).lastActiveTopTabId =
        (hydrated state terminalId).lastActiveTopTabId ↔ Led state := by
  have hids : keptTopTabIds (normalized state terminalId) = keptTopTabIds state := by
    rw [keptTopTabIds, keptTopTabIds]
    exact congrArg _ (keptTopTabs_keptTopTabs state.topTabs)
  simp only [hydrated, hids, normalized_normalized, Encoding.text_inj]
  by_cases hshown : state.activeContent.kind = word "top-tab" ∧
      state.activeContent.topTabId ∈ keptTopTabIds state
  · obtain ⟨htop, hmem⟩ := hshown
    have hactive : (normalized state terminalId).activeContent =
        ⟨word "top-tab", [], state.activeContent.topTabId⟩ := by
      change Backend.normalizeActiveContent state.activeContent _ terminalId
        (keptTopTabIds state) = _
      rw [Backend.normalizeActiveContent, if_neg (htop ▸ topTab_ne_agent Char),
        if_neg (htop ▸ topTab_ne_terminal Char), if_pos htop, if_pos hmem]
    have hlast : (normalized state terminalId).lastActiveTopTabId =
        state.activeContent.topTabId := by
      change (if (normalized state terminalId).activeContent.kind = word "top-tab" then
        (normalized state terminalId).activeContent.topTabId else _) = _
      rw [hactive, if_pos rfl]
    rw [hactive, hlast, if_pos hmem]
    unfold Led
    constructor
    · intro h _ _ hkept
      rw [if_pos hkept] at h
      exact h.symm
    · intro hled
      split_ifs with hkept
      · exact (hled htop hmem hkept).symm
      · rfl
  · have hled : Led state := fun htop hmem => absurd ⟨htop, hmem⟩ hshown
    refine iff_of_true ?_ hled
    have hnormal : Normal terminalId (keptTopTabIds state)
        (normalized state terminalId).activeContent :=
      normal_withTopTabs (keptTopTabs state.topTabs) state terminalId
    by_cases htop : (normalized state terminalId).activeContent.kind = word "top-tab"
    · have hlast : (normalized state terminalId).lastActiveTopTabId =
          (normalized state terminalId).activeContent.topTabId := if_pos htop
      have hfallback : (normalized state terminalId).activeContent.topTabId =
          keptLast (keptTopTabIds state) state.lastActiveTopTabId :=
        topTabId_of_fallback hshown htop
      rw [hlast, ite_self, hfallback, keptLast]
      split_ifs <;> rfl
    · have hlast : (normalized state terminalId).lastActiveTopTabId =
          keptLast (keptTopTabIds state) state.lastActiveTopTabId := if_neg htop
      rw [hlast, hnormal.topTabId_eq_nil htop, keptLast]
      split_ifs <;> rfl

/-- **The frontend sees no difference between what is stored and what the backend makes of it,
exactly when no other tab is stored as the one that was active last.** -/
theorem hydrated_normalized_iff (state : StoredContentState Text) (terminalId : Text) :
    hydrated (normalized state terminalId) terminalId = hydrated state terminalId ↔
      Led state := by
  rw [← lastActive_normalized_iff state terminalId]
  constructor
  · intro h
    rw [h]
  · intro h
    have htabs : keptTopTabs (normalized state terminalId).topTabs = keptTopTabs state.topTabs :=
      keptTopTabs_keptTopTabs state.topTabs
    simp only [hydrated, htabs, normalized_normalized] at h ⊢
    rw [h]

end Hydrated

end ContentState

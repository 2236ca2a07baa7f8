import Crest.TopTabReducer

/-!
# The two sides agree on a content state

On a descriptor whose paths begin with a letter where they look like drives, and have no NUL
where they are absolute, both sides agree whether it is valid and which others have its
identity.  So both keep the same descriptors of a stored state, and show the same.  They also
agree on the tab that was active last, unless another tab than that is shown: the backend
then takes the tab that is shown, and the frontend leaves it.
-/

namespace ContentState

open CodeUnit Encoding TopTabPath

section Words

variable {α : Type} [CodeUnit α] (e : Encoding α)

/-- A word in ASCII. -/
def isAscii (w : String) : Bool := w.toList.all fun c => decide (c.toNat < 128)

theorem lt_of_isAscii {w : String} (hw : isAscii w = true) : ∀ c ∈ w.toList, c.toNat < 128 :=
  fun c hc => of_decide_eq_true (List.all_eq_true.mp hw c hc)

theorem text_word {w : String} (hw : isAscii w = true) : e.text w.toList = word w := by
  have hw := lt_of_isAscii hw
  rw [word]
  generalize w.toList = cs at hw
  induction cs with
  | nil => rfl
  | cons c cs ih =>
    rw [e.text_cons_ascii (hw c List.mem_cons_self), List.map_cons,
      ih fun d hd => hw d (List.mem_cons_of_mem _ hd)]

theorem word_char (w : String) : (word w : Text) = w.toList := by
  rw [word]
  refine (List.map_congr_left ?_).trans (List.map_id _)
  intro c _
  exact Char.ofNat_toNat c

theorem text_word_char {w : String} (hw : isAscii w = true) :
    e.text (word w) = word w := by
  rw [word_char, text_word e hw]

theorem text_eq_word {w : String} (hw : isAscii w = true) (s : Text) :
    e.text s = word w ↔ s = word w := by
  rw [← text_word_char e hw, Encoding.text_inj]

end Words

@[simp] theorem getD_omitEmpty (field : JsString) : (omitEmpty field).getD [] = field := by
  unfold omitEmpty
  split_ifs with hnil
  · exact hnil.symm
  · rfl

def TopTabDescriptor.paths (d : TopTabDescriptor Text) : List Text :=
  if d.kind = word "file" ∨ d.kind = word "preview" then [d.path]
  else if d.kind = word "git-diff" then [d.repoRoot, d.path, d.originalPath]
  else if d.kind = word "agent-turn-diff" then [d.sessionCwd, d.sessionPath, d.path]
  else []

/-- The paths of a descriptor that have to be absolute. -/
def TopTabDescriptor.absolutePaths (d : TopTabDescriptor Text) : List Text :=
  if d.kind = word "file" ∨ d.kind = word "preview" then [d.path]
  else if d.kind = word "agent-turn-diff" then [d.sessionCwd, d.sessionPath]
  else []

/-- The paths begin with a letter where they look like drives, and an absolute one of those
that have to be absolute has no NUL. -/
def TopTabDescriptor.Plain (d : TopTabDescriptor Text) : Prop :=
  (∀ path ∈ d.paths, Lettered path) ∧
    ∀ path ∈ d.absolutePaths, isAbsoluteTopTabPath path = true → contains 0 path = false

instance (d : TopTabDescriptor Text) : Decidable d.Plain := inferInstanceAs (Decidable (_ ∧ _))

/-- What the identity of a tab consists of. -/
def TopTabDescriptor.components (d : TopTabDescriptor Text) : List Text :=
  if d.kind = word "file" then [word "file", pathIdentity isLetterDrive d.path]
  else if d.kind = word "preview" then [word "preview", pathIdentity isLetterDrive d.path]
  else if d.kind = word "git-diff" then
    [word "git-diff", pathIdentity isLetterDrive d.repoRoot, pathIdentity isLetterDrive d.path,
      d.mode, pathIdentity isLetterDrive d.originalPath]
  else if d.kind = word "agent-turn-diff" then
    [word "agent-turn-diff", pathIdentity isLetterDrive d.sessionPath, d.sessionId,
      d.sessionCreatedAt, d.turnId, pathIdentity isLetterDrive d.path]
  else []

section Kinds

theorem preview_ne_file : (word "preview" : Text) ≠ word "file" := by decide

theorem gitDiff_ne_file : (word "git-diff" : Text) ≠ word "file" := by decide

theorem gitDiff_ne_preview : (word "git-diff" : Text) ≠ word "preview" := by decide

theorem agentTurnDiff_ne_file : (word "agent-turn-diff" : Text) ≠ word "file" := by decide

theorem agentTurnDiff_ne_preview : (word "agent-turn-diff" : Text) ≠ word "preview" := by decide

theorem agentTurnDiff_ne_gitDiff : (word "agent-turn-diff" : Text) ≠ word "git-diff" := by
  decide

theorem kind_cases (kind : Text) :
    kind = word "file" ∨ kind = word "preview" ∨ kind = word "git-diff" ∨
      kind = word "agent-turn-diff" ∨
      kind ≠ word "file" ∧ kind ≠ word "preview" ∧ kind ≠ word "git-diff" ∧
        kind ≠ word "agent-turn-diff" := by
  grind

variable {α : Type} [CodeUnit α] (e : Encoding α) (s : Text)

theorem text_eq_file : e.text s = word "file" ↔ s = word "file" := text_eq_word e (by decide) s

theorem text_eq_preview : e.text s = word "preview" ↔ s = word "preview" :=
  text_eq_word e (by decide) s

theorem text_eq_gitDiff : e.text s = word "git-diff" ↔ s = word "git-diff" :=
  text_eq_word e (by decide) s

theorem text_eq_agentTurnDiff : e.text s = word "agent-turn-diff" ↔ s = word "agent-turn-diff" :=
  text_eq_word e (by decide) s

theorem text_eq_plus : e.text s = word "+" ↔ s = word "+" := text_eq_word e (by decide) s

theorem text_eq_minus : e.text s = word "-" ↔ s = word "-" := text_eq_word e (by decide) s

end Kinds

section Identity

variable {d : TopTabDescriptor Text}

theorem Backend.topTabIdentityKey_utf8 (h : d.Plain) :
    Backend.topTabIdentityKey (d.map utf8.text) =
      tupleIdentityKey (d.components.map utf8.text) := by
  have hpath : ∀ path, Lettered path →
      topTabPathIdentity (utf8.text path) = utf8.text (pathIdentity isLetterDrive path) := by
    intro path hpath
    rw [topTabPathIdentity, pathIdentity_text utf8 isByteDrive_text, hpath.pathIdentity]
  obtain ⟨hpaths, -⟩ := h
  unfold Backend.topTabIdentityKey TopTabDescriptor.components
  unfold TopTabDescriptor.paths at hpaths
  simp only [TopTabDescriptor.map, text_eq_file, text_eq_preview, text_eq_gitDiff,
    text_eq_agentTurnDiff]
  rcases kind_cases d.kind with hk | hk | hk | hk | ⟨hfile, hpreview, hdiff, hturn⟩
  · rw [if_pos (.inl hk)] at hpaths
    rw [if_pos hk, if_pos hk, hpath _ (hpaths _ List.mem_cons_self), List.map_cons,
      List.map_singleton, text_word_char utf8 (by decide)]
  · have hfile : d.kind ≠ word "file" := hk ▸ preview_ne_file
    rw [if_pos (.inr hk)] at hpaths
    rw [if_neg hfile, if_neg hfile, if_pos hk, if_pos hk, hpath _ (hpaths _ List.mem_cons_self),
      List.map_cons, List.map_singleton, text_word_char utf8 (by decide)]
  · have hfile : d.kind ≠ word "file" := hk ▸ gitDiff_ne_file
    have hpreview : d.kind ≠ word "preview" := hk ▸ gitDiff_ne_preview
    rw [if_neg (not_or.mpr ⟨hfile, hpreview⟩), if_pos hk] at hpaths
    rw [if_neg hfile, if_neg hfile, if_neg hpreview, if_neg hpreview, if_pos hk, if_pos hk,
      hpath _ (hpaths _ (by simp)), hpath _ (hpaths d.path (by simp)),
      hpath _ (hpaths d.originalPath (by simp))]
    simp only [List.map_cons, List.map_nil, text_word_char utf8 (w := "git-diff") (by decide)]
  · have hfile : d.kind ≠ word "file" := hk ▸ agentTurnDiff_ne_file
    have hpreview : d.kind ≠ word "preview" := hk ▸ agentTurnDiff_ne_preview
    have hdiff : d.kind ≠ word "git-diff" := hk ▸ agentTurnDiff_ne_gitDiff
    rw [if_neg (not_or.mpr ⟨hfile, hpreview⟩), if_neg hdiff, if_pos hk] at hpaths
    rw [if_neg hfile, if_neg hfile, if_neg hpreview, if_neg hpreview, if_neg hdiff, if_neg hdiff,
      if_pos hk, if_pos hk, hpath d.sessionPath (hpaths _ (by simp)),
      hpath d.path (hpaths _ (by simp))]
    simp only [List.map_cons, List.map_nil, text_word_char utf8 (w := "agent-turn-diff") (by decide)]
  · rw [if_neg hfile, if_neg hfile, if_neg hpreview, if_neg hpreview, if_neg hdiff, if_neg hdiff,
      if_neg hturn, if_neg hturn]
    rfl

theorem Frontend.readTopTab_sent (d : TopTabDescriptor Text) :
    Frontend.readTopTab (sentTopTab d) =
      if d.kind = word "file" then
        some (.file (utf16.text d.id) (utf16.text d.path) (utf16.text d.title))
      else if d.kind = word "preview" then
        some (.preview (utf16.text d.id) (utf16.text d.path) (utf16.text d.title))
      else if d.kind = word "git-diff" then
        some (.gitDiff (utf16.text d.id) (utf16.text d.repoRoot) (utf16.text d.path)
          (utf16.text d.mode) (utf16.text d.originalPath) (utf16.text d.title))
      else if d.kind = word "agent-turn-diff" then
        some (.agentTurnDiff (utf16.text d.id) (utf16.text d.sessionId)
          (utf16.text d.sessionCreatedAt) (utf16.text d.sessionCwd) (utf16.text d.sessionPath)
          (utf16.text d.turnId) (utf16.text d.path) (utf16.text d.title))
      else none := by
  simp only [Frontend.readTopTab, sentTopTab, persistedTopTab, TopTabDescriptor.map,
    getD_omitEmpty, text_eq_file, text_eq_preview, text_eq_gitDiff, text_eq_agentTurnDiff]

theorem Frontend.topTabIdentityKey_sent {tab : Frontend.TopTab}
    (hread : Frontend.readTopTab (sentTopTab d) = some tab) :
    tab.id = utf16.text d.id ∧
      Frontend.topTabIdentityKey tab = tupleIdentityKey (d.components.map utf16.text) := by
  have hpath : ∀ path, pathIdentityKey (utf16.text path) =
      utf16.text (pathIdentity isLetterDrive path) :=
    fun path => pathIdentity_text utf16 (isLetterDrive_text utf16) path
  rw [Frontend.readTopTab_sent] at hread
  unfold TopTabDescriptor.components
  split_ifs at hread with hfile hpreview hdiff hturn
  · cases hread
    rw [if_pos hfile]
    simp only [Frontend.TopTab.id, Frontend.topTabIdentityKey, hpath, List.map_cons,
      List.map_nil, text_word_char utf16 (w := "file") (by decide), and_self]
  · cases hread
    rw [if_neg hfile, if_pos hpreview]
    simp only [Frontend.TopTab.id, Frontend.topTabIdentityKey, hpath, List.map_cons,
      List.map_nil, text_word_char utf16 (w := "preview") (by decide), and_self]
  · cases hread
    rw [if_neg hfile, if_neg hpreview, if_pos hdiff]
    simp only [Frontend.TopTab.id, Frontend.topTabIdentityKey, hpath, List.map_cons,
      List.map_nil, text_word_char utf16 (w := "git-diff") (by decide), and_self]
  · cases hread
    rw [if_neg hfile, if_neg hpreview, if_neg hdiff, if_pos hturn]
    simp only [Frontend.TopTab.id, Frontend.topTabIdentityKey, hpath, List.map_cons,
      List.map_nil, text_word_char utf16 (w := "agent-turn-diff") (by decide), and_self]

/-- **Both sides see the same identities.** -/
theorem topTabIdentityKey_agree {e : TopTabDescriptor Text} {tab tab' : Frontend.TopTab}
    (hd : d.Plain) (he : e.Plain) (htab : Frontend.readTopTab (sentTopTab d) = some tab)
    (htab' : Frontend.readTopTab (sentTopTab e) = some tab') :
    Backend.topTabIdentityKey (d.map utf8.text) = Backend.topTabIdentityKey (e.map utf8.text) ↔
      Frontend.topTabIdentityKey tab = Frontend.topTabIdentityKey tab' := by
  rw [Backend.topTabIdentityKey_utf8 hd, Backend.topTabIdentityKey_utf8 he,
    (Frontend.topTabIdentityKey_sent htab).2, (Frontend.topTabIdentityKey_sent htab').2,
    tupleIdentityKey_text, tupleIdentityKey_text]

end Identity

section Validity

theorem isAbsoluteLocalPath_plain {path : Text}
    (h : isAbsoluteTopTabPath path = true → contains 0 path = false) :
    isAbsoluteLocalPath path = isAbsoluteTopTabPath path := by
  cases hnul : contains 0 path with
  | false => exact isAbsoluteLocalPath_eq hnul
  | true =>
    have hbackend : isAbsoluteTopTabPath path = false := by
      by_contra habsolute
      rw [h (by simpa using habsolute)] at hnul
      cases hnul
    rw [hbackend, isAbsoluteLocalPath, hnul, Bool.or_true, if_pos rfl]

theorem isCanonicalAbsoluteLocalPath_plain {path : Text} (hlettered : Lettered path)
    (hnul : isAbsoluteTopTabPath path = true → contains 0 path = false) :
    isCanonicalAbsoluteLocalPath (utf16.text path) =
      isCanonicalAbsoluteTopTabPath (utf8.text path) := by
  rw [isCanonicalAbsoluteLocalPath_text, isCanonicalAbsoluteTopTabPath_utf8,
    isAbsoluteLocalPath_plain hnul, hlettered.normalizePath]

/-- **Both sides agree on what is valid.** -/
theorem isValidTopTabDescriptor_agree {d : TopTabDescriptor Text} (h : d.Plain) :
    Backend.isValidTopTabDescriptor (d.map utf8.text) =
      (Frontend.fromPersistedTopTab (sentTopTab d)).isSome := by
  obtain ⟨hpaths, hnuls⟩ := h
  rw [Frontend.fromPersistedTopTab, Option.isSome_filter, Frontend.readTopTab_sent]
  unfold Backend.isValidTopTabDescriptor
  unfold TopTabDescriptor.paths at hpaths
  unfold TopTabDescriptor.absolutePaths at hnuls
  simp only [TopTabDescriptor.map, text_eq_file, text_eq_preview, text_eq_gitDiff,
    text_eq_agentTurnDiff, Encoding.text_eq_nil]
  by_cases hid : d.id = []
  · rw [if_pos hid]
    split_ifs <;> simp only [Option.any_some, Option.any_none, Frontend.isValidTopTab,
      Frontend.TopTab.id, hid, Encoding.text_nil, ne_eq, not_true_eq_false, decide_false,
      Bool.false_and]
  have hid16 : decide ((utf16.text d.id : JsString) ≠ []) = true := by
    simpa only [ne_eq, Encoding.text_eq_nil, decide_eq_true_eq] using hid
  rw [if_neg hid]
  rcases kind_cases d.kind with hk | hk | hk | hk | ⟨hfile, hpreview, hdiff, hturn⟩
  · rw [if_pos (.inl hk)] at hnuls
    rw [if_pos (.inl hk), if_pos hk, Option.any_some, Frontend.isValidTopTab, Frontend.TopTab.id,
      hid16, Bool.true_and, isAbsoluteLocalPath_text, isAbsoluteTopTabPath_text,
      isAbsoluteLocalPath_plain (hnuls _ List.mem_cons_self)]
  · have hfile : d.kind ≠ word "file" := hk ▸ preview_ne_file
    rw [if_pos (.inr hk)] at hnuls
    rw [if_pos (.inr hk), if_neg hfile, if_pos hk, Option.any_some, Frontend.isValidTopTab,
      Frontend.TopTab.id, hid16, Bool.true_and, isAbsoluteLocalPath_text,
      isAbsoluteTopTabPath_text, isAbsoluteLocalPath_plain (hnuls _ List.mem_cons_self)]
  · have hfile : d.kind ≠ word "file" := hk ▸ gitDiff_ne_file
    have hpreview : d.kind ≠ word "preview" := hk ▸ gitDiff_ne_preview
    rw [if_neg (not_or.mpr ⟨hfile, hpreview⟩), if_pos hk, if_neg hfile, if_neg hpreview,
      if_pos hk, Option.any_some, Frontend.isValidTopTab, Frontend.TopTab.id, hid16,
      Bool.true_and]
    simp only [ne_eq, Encoding.text_eq_nil, text_eq_plus, text_eq_minus]
  · have hfile : d.kind ≠ word "file" := hk ▸ agentTurnDiff_ne_file
    have hpreview : d.kind ≠ word "preview" := hk ▸ agentTurnDiff_ne_preview
    have hdiff : d.kind ≠ word "git-diff" := hk ▸ agentTurnDiff_ne_gitDiff
    rw [if_neg (not_or.mpr ⟨hfile, hpreview⟩), if_pos hk] at hnuls
    rw [if_neg (not_or.mpr ⟨hfile, hpreview⟩), if_neg hdiff, if_pos hk] at hpaths
    rw [if_neg (not_or.mpr ⟨hfile, hpreview⟩), if_neg hdiff, if_pos hk, if_neg hfile,
      if_neg hpreview, if_neg hdiff, if_pos hk, Option.any_some, Frontend.isValidTopTab,
      Frontend.TopTab.id, hid16, Bool.true_and,
      ← isCanonicalAbsoluteLocalPath_plain (hpaths d.sessionCwd (by simp))
        (hnuls d.sessionCwd (by simp)),
      ← isCanonicalAbsoluteLocalPath_plain (hpaths d.sessionPath (by simp))
        (hnuls d.sessionPath (by simp)),
      isCanonicalCheckpointPath_text, isCanonicalCheckpointTopTabPath_text,
      isCanonicalCheckpointPath_eq]
    simp only [ne_eq, Encoding.text_eq_nil]
  · rw [if_neg (not_or.mpr ⟨hfile, hpreview⟩), if_neg hdiff, if_neg hturn, if_neg hfile,
      if_neg hpreview, if_neg hdiff, if_neg hturn, Option.any_none]

end Validity

end ContentState

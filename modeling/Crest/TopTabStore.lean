import Crest.TopTabRoundTrip
import Crest.Utf8

/-!
# What the backend stores and sends again

The backend stores the bytes it has normalized.  When it sends them again they are read as
UTF-8.
-/

namespace Encoding

theorem decodeUtf8_text (s : List Char) : decodeUtf8 (utf8.text s) = s := by
  induction s with
  | nil => rfl
  | cons c s ih =>
    rw [text_cons]
    exact (decodeUtf8_encodeChar c _).trans (congrArg _ ih)

end Encoding

namespace ContentState

open CodeUnit Encoding TopTabPath

namespace Frontend

/-- What the backend stores of a serialized state, as it sends it again. -/
def storedContent (content : PersistedWorkspaceContentState) (terminalTabId : JsString) :
    PersistedWorkspaceContentState :=
  persisted ((Backend.normalizeWorkspaceContentState ((received content).map JsString.utf8)
    (JsString.utf8 terminalTabId)).map fun bytes => utf16.text (decodeUtf8 bytes))

/-- **A state that follows is hydrated from what the backend stores of it.** -/
theorem Readable.hydrate_storedContent {state : WorkspaceContentState}
    {terminalTabId : JsString} (h : Readable state) (hwellFormed : WellFormed state)
    (hfollows : Follows state) (hterminal : IsText terminalTabId)
    (hshows : Shows state terminalTabId) :
    hydrateWorkspaceContentState
      (storedContent (serializeContentState state) terminalTabId) terminalTabId = state := by
  obtain ⟨shown, rfl⟩ := hterminal
  obtain ⟨n, hn, hsame⟩ := h.roundTrip hwellFormed hfollows hshows
  have hsent : (n.map utf8.text).map (fun bytes => utf16.text (decodeUtf8 bytes)) =
      n.map utf16.text := by
    have htabs : ∀ d : TopTabDescriptor Text,
        (d.map utf8.text).map (fun bytes => utf16.text (decodeUtf8 bytes)) =
          d.map utf16.text := by
      intro d
      simp only [TopTabDescriptor.map, decodeUtf8_text]
    simp only [StoredContentState.map, ContentState.ActiveContent.map, decodeUtf8_text,
      List.map_map, Function.comp_def, htabs]
  rw [storedContent, utf8_text, hn, hsent]
  exact hsame

end Frontend

end ContentState

import Crest.JsMap
import Crest.Runs

/-!
# The renderer's draft references

The composer keeps draft references to other turns.  A send captures the
drafts it takes along, its success removes them and its failure gives them
back; summaries and choices change a draft by its id alone.  The reducer is
modelled here action by action.

`Held` looks at a state only through its rows (draft id, sending or not) and
the open captures.  Every action that keeps its hands off a draft being sent
keeps `Held`; `Careful` names the four kinds of action that may not.
-/

namespace ContextReferences

inductive SummaryStatus where
  | none | summarizing | ready | failed
deriving DecidableEq, Repr

inductive DeliveryScope where
  | message | conversation
deriving DecidableEq, Repr

inductive Representation where
  | full | summary
deriving DecidableEq, Repr

inductive DraftStatus where
  | ready | summarizing | sending | error
deriving DecidableEq, Repr

structure DraftView where
  draftId : String
  targetSessionPath : String
  summaryStatus : SummaryStatus
deriving DecidableEq, Repr

structure DraftState where
  view : DraftView
  deliveryScope : DeliveryScope
  requestedRepresentation : Representation
  status : DraftStatus
  errorMessage : Option String := none
deriving DecidableEq, Repr

structure TargetIdentity where
  targetSessionPath : Option String
  targetGeneration : Nat
deriving DecidableEq, Repr

structure AttachmentDraftInput where
  draftId : String
  deliveryScope : DeliveryScope
  requestedRepresentation : Representation
deriving DecidableEq, Repr

structure SendCapture where
  target : TargetIdentity
  captureId : String
  attachments : List AttachmentDraftInput
deriving DecidableEq, Repr

/-- A projection report, of which the reducer reads the turn. -/
structure ReportView where
  targetTurnId : String
  transactionId : String
deriving DecidableEq, Repr

structure RendererState where
  target : TargetIdentity
  drafts : List DraftState
  reportsByTurn : JsMap String ReportView
  sendCapturesById : JsMap String SendCapture
  enabled : Bool

inductive Action where
  | target_changed (targetSessionPath : Option String)
  | enabled_changed (enabled : Bool)
  | draft_prepared (target : TargetIdentity) (view : DraftView)
      (deliveryScope : Option DeliveryScope) (requestedRepresentation : Option Representation)
  | draft_discarded (target : TargetIdentity) (draftId : String)
  | draft_choice_changed (draftId : String)
      (deliveryScope : Option DeliveryScope) (requestedRepresentation : Option Representation)
  | summary_began (draftId : String)
  | summary_succeeded (target : TargetIdentity) (draftId : String) (view : DraftView)
  | summary_failed (target : TargetIdentity) (draftId : String) (errorMessage : String)
  | send_began (target : TargetIdentity) (captureId : String) (draftIds : List String)
  | send_succeeded (target : TargetIdentity) (captureId : String)
  | send_failed (target : TargetIdentity) (captureId : String) (errorMessage : String)
  | authoritative_state_received (target : TargetIdentity) (reports : List ReportView)
  | projection_received (target : TargetIdentity) (report : ReportView)

def createContextReferenceState (targetSessionPath : Option String) : RendererState where
  target := ⟨targetSessionPath, 0⟩
  drafts := []
  reportsByTurn := .empty
  sendCapturesById := .empty
  enabled := true

def contextAttachmentsForSend (drafts : List DraftState) : List AttachmentDraftInput :=
  (drafts.filter fun draft => draft.status == .ready || draft.status == .error).map
    fun draft => ⟨draft.view.draftId, draft.deliveryScope, draft.requestedRepresentation⟩

def addPreparedDraft (state : RendererState) (target : TargetIdentity) (view : DraftView)
    (deliveryScope : Option DeliveryScope) (requestedRepresentation : Option Representation) :
    RendererState :=
  if target ≠ state.target ∨ some view.targetSessionPath ≠ state.target.targetSessionPath ∨
      view.draftId ∈ state.drafts.map (·.view.draftId) then state
  else
    let requestedRepresentation := requestedRepresentation.getD .full
    { state with
      drafts := state.drafts ++ [{
        view
        deliveryScope := deliveryScope.getD .message
        requestedRepresentation
        status :=
          if requestedRepresentation = .summary ∧ view.summaryStatus ≠ .ready then .summarizing
          else .ready }] }

/-- The names every plain object answers to, with a value that is not falsy
and is no capture. -/
def inheritedNames : List String :=
  ["constructor", "__defineGetter__", "__defineSetter__", "hasOwnProperty", "__lookupGetter__",
    "__lookupSetter__", "isPrototypeOf", "propertyIsEnumerable", "toString", "valueOf",
    "__proto__", "toLocaleString"]

/-- A send is turned away: it is for another target, or its capture id is
taken. -/
def Refused (state : RendererState) (target : TargetIdentity) (captureId : String) : Prop :=
  target ≠ state.target ∨ (state.sendCapturesById.get captureId).isSome ∨
    captureId ∈ inheritedNames

instance (state : RendererState) (target : TargetIdentity) (captureId : String) :
    Decidable (Refused state target captureId) :=
  inferInstanceAs (Decidable (_ ∨ _ ∨ _))

def beginSend (state : RendererState) (target : TargetIdentity) (captureId : String)
    (draftIds : List String) : RendererState :=
  if Refused state target captureId then state
  else
    let attachments := contextAttachmentsForSend
      (state.drafts.filter fun draft => draftIds.contains draft.view.draftId)
    let capturedIds := attachments.map (·.draftId)
    { state with
      drafts := state.drafts.map fun draft =>
        if capturedIds.contains draft.view.draftId then
          { draft with status := .sending, errorMessage := none }
        else draft
      sendCapturesById := state.sendCapturesById.set captureId
        { target := state.target, captureId, attachments } }

/-- `completeSend`; `failure` is the message of a failed send. -/
def completeSend (state : RendererState) (target : TargetIdentity) (captureId : String)
    (failure : Option String) : RendererState :=
  if target ≠ state.target then state
  else
    match state.sendCapturesById.get captureId with
    | none => state
    | some capture =>
      if capture.target ≠ state.target then state
      else
        let capturedIds := capture.attachments.map (·.draftId)
        { state with
          drafts :=
            if failure.isNone then
              state.drafts.filter fun draft => !capturedIds.contains draft.view.draftId
            else
              state.drafts.map fun draft =>
                if capturedIds.contains draft.view.draftId && draft.status == .sending then
                  { draft with status := .error, errorMessage := failure }
                else draft
          sendCapturesById := state.sendCapturesById.delete captureId }

def updateDraft (state : RendererState) (draftId : String)
    (update : DraftState → DraftState) : RendererState :=
  { state with
    drafts := state.drafts.map fun draft =>
      if draft.view.draftId = draftId then update draft else draft }

/-- The update of `draft_choice_changed`. -/
def chooseDraft (deliveryScope : Option DeliveryScope)
    (requestedRepresentation : Option Representation) (draft : DraftState) : DraftState :=
  if draft.status ≠ .ready ∧ draft.status ≠ .error then draft
  else
    { draft with
      deliveryScope := deliveryScope.getD draft.deliveryScope
      requestedRepresentation :=
        if requestedRepresentation = some .summary ∧ draft.view.summaryStatus ≠ .ready then
          draft.requestedRepresentation
        else requestedRepresentation.getD draft.requestedRepresentation
      status := .ready
      errorMessage := none }

def reportsByTurn (reports : List ReportView) : JsMap String ReportView :=
  reports.foldl (fun byTurn report => byTurn.set report.targetTurnId report) .empty

def reduceContextReferenceState (state : RendererState) : Action → RendererState
  | .target_changed targetSessionPath =>
    if targetSessionPath = state.target.targetSessionPath then state
    else
      { createContextReferenceState targetSessionPath with
        target := ⟨targetSessionPath, state.target.targetGeneration + 1⟩
        enabled := state.enabled }
  | .enabled_changed enabled => { state with enabled }
  | .draft_prepared target view deliveryScope requestedRepresentation =>
    addPreparedDraft state target view deliveryScope requestedRepresentation
  | .draft_discarded target draftId =>
    if target ≠ state.target then state
    else { state with drafts := state.drafts.filter fun draft => draft.view.draftId ≠ draftId }
  | .draft_choice_changed draftId deliveryScope requestedRepresentation =>
    updateDraft state draftId (chooseDraft deliveryScope requestedRepresentation)
  | .summary_began draftId =>
    updateDraft state draftId fun draft =>
      { draft with
        requestedRepresentation := .summary, status := .summarizing, errorMessage := none }
  | .summary_succeeded target draftId view =>
    if target ≠ state.target ∨ view.summaryStatus ≠ .ready then state
    else
      updateDraft state draftId fun draft =>
        { draft with
          view, requestedRepresentation := .summary, status := .ready, errorMessage := none }
  | .summary_failed target draftId errorMessage =>
    if target ≠ state.target then state
    else
      updateDraft state draftId fun draft =>
        { draft with status := .error, errorMessage := some errorMessage }
  | .send_began target captureId draftIds => beginSend state target captureId draftIds
  | .send_succeeded target captureId => completeSend state target captureId none
  | .send_failed target captureId errorMessage =>
    completeSend state target captureId (some errorMessage)
  | .authoritative_state_received target reports =>
    if target ≠ state.target then state
    else { state with reportsByTurn := reportsByTurn reports }
  | .projection_received target report =>
    if target ≠ state.target then state
    else { state with reportsByTurn := state.reportsByTurn.set report.targetTurnId report }

/-! ## What a state shows of its drafts and captures -/

namespace SendCapture

def draftIds (capture : SendCapture) : List String := capture.attachments.map (·.draftId)

end SendCapture

def DraftState.row (draft : DraftState) : String × Bool :=
  (draft.view.draftId, draft.status == .sending)

abbrev RendererState.rows (state : RendererState) : List (String × Bool) :=
  state.drafts.map DraftState.row

abbrev Captures := JsMap String SendCapture

/-- An open capture lists the id. -/
def Listed (captures : Captures) (draftId : String) : Prop :=
  ∃ captureId capture, captures.get captureId = some capture ∧ draftId ∈ capture.draftIds

/-- The rows and the captures tell the same story.  `gone` holds a pair for
every draft discarded while a capture was open. -/
structure Held (rows : List (String × Bool)) (captures : Captures)
    (gone : List (String × String)) : Prop where
  unique : (rows.map Prod.fst).Nodup
  sending : ∀ row ∈ rows, row.2 = true ↔ Listed captures row.1
  once : ∀ {captureId captureId' capture capture' draftId},
    captures.get captureId = some capture → captures.get captureId' = some capture' →
      draftId ∈ capture.draftIds → draftId ∈ capture'.draftIds → captureId = captureId'
  kept : ∀ {captureId capture draftId}, captures.get captureId = some capture →
    draftId ∈ capture.draftIds → (draftId, true) ∈ rows ∨ (captureId, draftId) ∈ gone

section Rows

variable {rows : List (String × Bool)} {captures : Captures} {gone : List (String × String)}
  {draftId captureId : String} {capture : SendCapture}

theorem Held.empty : Held [] .empty gone :=
  ⟨List.nodup_nil, by simp, by simp, by simp⟩

variable (h : Held rows captures gone)
include h

theorem Held.append (hnew : draftId ∉ rows.map Prod.fst) (hlisted : ¬ Listed captures draftId) :
    Held (rows ++ [(draftId, false)]) captures gone := by
  refine ⟨?_, ?_, h.once, ?_⟩
  · rw [List.map_append, List.nodup_append]
    refine ⟨h.unique, List.nodup_singleton _, ?_⟩
    rintro other hother id hid rfl
    obtain rfl := List.mem_singleton.mp hid
    exact hnew hother
  · intro row hrow
    rcases List.mem_append.mp hrow with hrow | hrow
    · exact h.sending row hrow
    · obtain rfl := List.mem_singleton.mp hrow
      simpa using hlisted
  · intro captureId capture id hget hid
    exact (h.kept hget hid).imp_left fun hrow => List.mem_append_left _ hrow

theorem Held.discard :
    Held (rows.filter fun row => row.1 ≠ draftId) captures
      (gone ++ captures.keys.map (·, draftId)) := by
  refine ⟨h.unique.sublist (List.filter_sublist.map _),
    fun row hrow => h.sending row (List.mem_of_mem_filter hrow), h.once, ?_⟩
  intro captureId capture id hget hid
  rcases h.kept hget hid with hrow | hgone
  · by_cases hsame : id = draftId
    · subst hsame
      refine .inr (List.mem_append_right _ (List.mem_map.mpr ⟨captureId, ?_, rfl⟩))
      exact List.mem_map.mpr ⟨_, JsMap.mem_entries_of_get hget, rfl⟩
    · exact .inl (List.mem_filter.mpr ⟨hrow, by simpa using hsame⟩)
  · exact .inr (List.mem_append_left _ hgone)

theorem Held.begin (hfree : captures.get captureId = none)
    (hids : ∀ id ∈ capture.draftIds, (id, false) ∈ rows) :
    Held (rows.map fun row => (row.1, row.2 || capture.draftIds.contains row.1))
      (captures.set captureId capture) (gone.filter fun entry => entry.1 ≠ captureId) := by
  have hlisted : ∀ id, Listed (captures.set captureId capture) id ↔
      Listed captures id ∨ id ∈ capture.draftIds := by
    intro id
    constructor
    · rintro ⟨other, capture', hget, hid⟩
      rw [JsMap.get_set] at hget
      split at hget
      · cases hget
        exact .inr hid
      · exact .inl ⟨other, capture', hget, hid⟩
    · rintro (⟨other, capture', hget, hid⟩ | hid)
      · refine ⟨other, capture', ?_, hid⟩
        rw [JsMap.get_set, if_neg, hget]
        rintro rfl
        simp [hfree] at hget
      · exact ⟨captureId, capture, by simp, hid⟩
  have hfresh : ∀ id ∈ capture.draftIds, ¬ Listed captures id := by
    intro id hid hlisted
    simpa using (h.sending _ (hids id hid)).mpr hlisted
  refine ⟨?_, ?_, ?_, ?_⟩
  · simpa [List.map_map, Function.comp_def] using h.unique
  · intro row hrow
    obtain ⟨old, hold, rfl⟩ := List.mem_map.mp hrow
    rw [hlisted, ← h.sending old hold]
    simp
  · intro c c' cap cap' id hget hget' hid hid'
    rw [JsMap.get_set] at hget hget'
    split at hget <;> split at hget'
    · next hc hc' => rw [hc, hc']
    · cases hget
      exact absurd ⟨_, _, hget', hid'⟩ (hfresh id hid)
    · cases hget'
      exact absurd ⟨_, _, hget, hid⟩ (hfresh id hid')
    · exact h.once hget hget' hid hid'
  · intro c cap id hget hid
    rw [JsMap.get_set] at hget
    split at hget
    · cases hget
      exact .inl (List.mem_map.mpr ⟨_, hids id hid, by simp [hid]⟩)
    · next hother =>
      rcases h.kept hget hid with hrow | hgone
      · exact .inl (List.mem_map.mpr ⟨_, hrow, by simp⟩)
      · exact .inr (List.mem_filter.mpr ⟨hgone, by simpa using hother⟩)

theorem Held.listed_delete (hget : captures.get captureId = some capture) (id : String) :
    Listed (captures.delete captureId) id ↔ Listed captures id ∧ id ∉ capture.draftIds := by
  constructor
  · rintro ⟨other, capture', hget', hid⟩
    rw [JsMap.get_delete] at hget'
    split at hget'
    · cases hget'
    · next hother =>
      exact ⟨⟨other, capture', hget', hid⟩, fun hid' => hother (h.once hget' hget hid hid')⟩
  · rintro ⟨⟨other, capture', hget', hid⟩, hnot⟩
    refine ⟨other, capture', ?_, hid⟩
    rw [JsMap.get_delete, if_neg, hget']
    rintro rfl
    rw [hget] at hget'
    cases hget'
    exact hnot hid

theorem Held.once_delete (captureId : String) {c c' : String} {cap cap' : SendCapture}
    (hc : (captures.delete captureId).get c = some cap)
    (hc' : (captures.delete captureId).get c' = some cap')
    (hid : draftId ∈ cap.draftIds) (hid' : draftId ∈ cap'.draftIds) :
    c = c' := by
  rw [JsMap.get_delete] at hc hc'
  split at hc <;> split at hc' <;> try contradiction
  exact h.once hc hc' hid hid'

variable (hget : captures.get captureId = some capture)
include hget

theorem Held.kept_delete {other id : String}
    {capture' : SendCapture} (hget' : (captures.delete captureId).get other = some capture')
    (hid : id ∈ capture'.draftIds) :
    id ∉ capture.draftIds ∧ ((id, true) ∈ rows ∨ (other, id) ∈ gone) := by
  have hlisted := ((h.listed_delete hget id).mp ⟨other, capture', hget', hid⟩).2
  rw [JsMap.get_delete] at hget'
  split at hget'
  · cases hget'
  · exact ⟨hlisted, h.kept hget' hid⟩

theorem Held.succeed :
    Held (rows.filter fun row => !capture.draftIds.contains row.1)
      (captures.delete captureId) gone := by
  refine ⟨h.unique.sublist (List.filter_sublist.map _), ?_, h.once_delete captureId, ?_⟩
  · intro row hrow
    obtain ⟨hrow, hnot⟩ := List.mem_filter.mp hrow
    rw [h.listed_delete hget, h.sending row hrow]
    exact ⟨fun hl => ⟨hl, by simpa using hnot⟩, And.left⟩
  · intro c cap id hc hid
    obtain ⟨hnot, hkept⟩ := h.kept_delete hget hc hid
    exact hkept.imp_left fun hrow => List.mem_filter.mpr ⟨hrow, by simpa using hnot⟩

theorem Held.fail :
    Held (rows.map fun row => (row.1, row.2 && !capture.draftIds.contains row.1))
      (captures.delete captureId) gone := by
  refine ⟨?_, ?_, h.once_delete captureId, ?_⟩
  · simpa [List.map_map, Function.comp_def] using h.unique
  · intro row hrow
    obtain ⟨old, hold, rfl⟩ := List.mem_map.mp hrow
    rw [h.listed_delete hget, ← h.sending old hold]
    simp
  · intro c cap id hc hid
    obtain ⟨hnot, hkept⟩ := h.kept_delete hget hc hid
    exact hkept.imp_left fun hrow => List.mem_map.mpr ⟨_, hrow, by simp [hnot]⟩

end Rows

/-! ## Careful actions -/

/-- A state with the drafts that were discarded while a capture was open. -/
structure Tracked where
  state : RendererState
  gone : List (String × String) := []

/-- A discarded draft is noted under every open capture; a capture begins with
no such notes. -/
def noteGone (state : RendererState) (gone : List (String × String)) :
    Action → List (String × String)
  | .draft_discarded target draftId =>
    if target ≠ state.target then gone
    else gone ++ state.sendCapturesById.keys.map (·, draftId)
  | .send_began target captureId _ =>
    if Refused state target captureId then gone
    else gone.filter fun entry => entry.1 ≠ captureId
  | _ => gone

def track (tracked : Tracked) (action : Action) : Tracked :=
  ⟨reduceContextReferenceState tracked.state action,
    noteGone tracked.state tracked.gone action⟩

/-- The action leaves alone what is being sent: no summary step reaches a
draft in a capture, a summary comes back for its own draft, and no draft is
prepared under an id that an open capture still lists. -/
def Careful (state : RendererState) : Action → Prop
  | .draft_prepared target view _ _ =>
    target = state.target → some view.targetSessionPath = state.target.targetSessionPath →
      view.draftId ∉ state.rows.map Prod.fst → ¬ Listed state.sendCapturesById view.draftId
  | .summary_began draftId => (draftId, true) ∉ state.rows
  | .summary_succeeded target draftId view =>
    target = state.target → view.summaryStatus = .ready → (draftId, true) ∉ state.rows ∧
      (draftId ∈ state.rows.map Prod.fst → view.draftId = draftId)
  | .summary_failed target draftId _ => target = state.target → (draftId, true) ∉ state.rows
  | _ => True

/-- What a careful action does to the rows, the captures and the notes. -/
inductive Effect (state : RendererState) (gone : List (String × String)) :
    Action → List (String × Bool) → Captures → List (String × String) → Prop
  | same {action} : Effect state gone action state.rows state.sendCapturesById gone
  | append {action draftId} (hnew : draftId ∉ state.rows.map Prod.fst)
      (hlisted : ¬ Listed state.sendCapturesById draftId) :
      Effect state gone action (state.rows ++ [(draftId, false)]) state.sendCapturesById gone
  | discard {draftId} :
      Effect state gone (.draft_discarded state.target draftId)
        (state.rows.filter fun row => row.1 ≠ draftId) state.sendCapturesById
        (gone ++ state.sendCapturesById.keys.map (·, draftId))
  | begin {captureId draftIds} {capture : SendCapture}
      (hfree : state.sendCapturesById.get captureId = none)
      (hids : ∀ id ∈ capture.draftIds, (id, false) ∈ state.rows) :
      Effect state gone (.send_began state.target captureId draftIds)
        (state.rows.map fun row => (row.1, row.2 || capture.draftIds.contains row.1))
        (state.sendCapturesById.set captureId capture)
        (gone.filter fun entry => entry.1 ≠ captureId)
  | succeed {captureId} {capture : SendCapture}
      (hget : state.sendCapturesById.get captureId = some capture) :
      Effect state gone (.send_succeeded state.target captureId)
        (state.rows.filter fun row => !capture.draftIds.contains row.1)
        (state.sendCapturesById.delete captureId) gone
  | fail {action captureId} {capture : SendCapture}
      (hget : state.sendCapturesById.get captureId = some capture) :
      Effect state gone action
        (state.rows.map fun row => (row.1, row.2 && !capture.draftIds.contains row.1))
        (state.sendCapturesById.delete captureId) gone
  | retarget {targetSessionPath} (hpath : targetSessionPath ≠ state.target.targetSessionPath) :
      Effect state gone (.target_changed targetSessionPath) [] .empty gone

section Steps

variable {state : RendererState} {gone : List (String × String)} {action : Action}

theorem rows_updateDraft {draftId : String} {update : DraftState → DraftState}
    (hkeep : ∀ draft ∈ state.drafts, draft.view.draftId = draftId →
      (update draft).row = draft.row) :
    (updateDraft state draftId update).rows = state.rows := by
  rw [updateDraft, RendererState.rows, RendererState.rows, List.map_map]
  refine List.map_congr_left fun draft hdraft => ?_
  rw [Function.comp_apply]
  split
  · next hid => exact hkeep draft hdraft hid
  · rfl

theorem mem_rows_of_draft {draft : DraftState} (hdraft : draft ∈ state.drafts) :
    (draft.view.draftId, draft.status == .sending) ∈ state.rows :=
  List.mem_map.mpr ⟨draft, hdraft, rfl⟩

theorem row_of_idle {draft draft' : DraftState} {draftId : String}
    (hidle : (draftId, true) ∉ state.rows)
    (hdraft : draft ∈ state.drafts) (hid : draft.view.draftId = draftId)
    (hid' : draft'.view.draftId = draftId) (hstatus : draft'.status ≠ .sending) :
    draft'.row = draft.row := by
  have hquiet : draft.status ≠ .sending := by
    intro hsending
    have hrow := mem_rows_of_draft hdraft
    rw [hid, hsending] at hrow
    exact hidle hrow
  rw [DraftState.row, DraftState.row, hid, hid', beq_false_of_ne hquiet, beq_false_of_ne hstatus]

theorem effect_prepared
    {target : TargetIdentity} {view : DraftView} {deliveryScope : Option DeliveryScope}
    {requestedRepresentation : Option Representation}
    (hcareful : Careful state
      (.draft_prepared target view deliveryScope requestedRepresentation)) :
    Effect state gone action
      (addPreparedDraft state target view deliveryScope requestedRepresentation).rows
      (addPreparedDraft state target view deliveryScope requestedRepresentation).sendCapturesById
      gone := by
  rw [addPreparedDraft]
  split
  · exact .same
  · next haccepted =>
    push Not at haccepted
    obtain ⟨htarget, hpath, hnew⟩ := haccepted
    have hnew' : view.draftId ∉ state.rows.map Prod.fst := by
      rw [RendererState.rows, List.map_map]
      exact hnew
    simp only [RendererState.rows, List.map_append, List.map_singleton]
    have hrow : ∀ {scope representation} {p : Prop} [Decidable p],
        DraftState.row ⟨view, scope, representation,
          if p then .summarizing else .ready, none⟩ = (view.draftId, false) := by
      intro scope representation p _
      by_cases hp : p <;> simp [DraftState.row, hp]
    rw [hrow]
    exact .append hnew' (hcareful htarget hpath hnew')

theorem effect_began {target : TargetIdentity} {captureId : String} {draftIds : List String} :
    Effect state gone (.send_began target captureId draftIds)
      (beginSend state target captureId draftIds).rows
      (beginSend state target captureId draftIds).sendCapturesById
      (noteGone state gone (.send_began target captureId draftIds)) := by
  rw [beginSend, noteGone]
  by_cases hrefused : Refused state target captureId
  · rw [if_pos hrefused, if_pos hrefused]
    exact .same
  · rw [if_neg hrefused, if_neg hrefused]
    simp only [Refused, not_or, not_not, Bool.not_eq_true, Option.isSome_eq_false_iff,
      Option.isNone_iff_eq_none] at hrefused
    obtain ⟨rfl, hfree, -⟩ := hrefused
    generalize hattachments : contextAttachmentsForSend
      (state.drafts.filter fun draft => draftIds.contains draft.view.draftId) = attachments
    have hids : ∀ id ∈ attachments.map (·.draftId), (id, false) ∈ state.rows := by
      intro id hid
      obtain ⟨attachment, hattachment, rfl⟩ := List.mem_map.mp hid
      rw [← hattachments, contextAttachmentsForSend] at hattachment
      obtain ⟨draft, hdraft, rfl⟩ := List.mem_map.mp hattachment
      obtain ⟨hdraft, hstatus⟩ := List.mem_filter.mp hdraft
      refine List.mem_map.mpr ⟨draft, List.mem_of_mem_filter hdraft, ?_⟩
      rw [DraftState.row]
      cases hcase : draft.status <;> simp [hcase] at hstatus ⊢
    have hrows : (state.drafts.map fun draft =>
          if (attachments.map (·.draftId)).contains draft.view.draftId then
            { draft with status := DraftStatus.sending, errorMessage := none }
          else draft).map DraftState.row =
        state.rows.map fun row =>
          (row.1, row.2 || (attachments.map (·.draftId)).contains row.1) := by
      rw [RendererState.rows, List.map_map, List.map_map]
      refine List.map_congr_left fun draft _ => ?_
      simp only [Function.comp_apply, DraftState.row]
      generalize (attachments.map (·.draftId)).contains draft.view.draftId = taken
      cases taken
      · rw [Bool.or_false]
        rfl
      · rw [Bool.or_true]
        rfl
    simp only [RendererState.rows, hrows]
    exact @Effect.begin state gone captureId draftIds
      ⟨state.target, captureId, attachments⟩ hfree hids

theorem effect_completed {target : TargetIdentity} {captureId : String} {failure : Option String}
    (haction : failure = none → action = .send_succeeded target captureId) :
    Effect state gone action (completeSend state target captureId failure).rows
      (completeSend state target captureId failure).sendCapturesById gone := by
  rw [completeSend]
  split
  · exact .same
  · next htarget =>
    obtain rfl := not_not.mp htarget
    split
    · exact .same
    · next capture hget =>
      split
      · exact .same
      · cases failure with
        | none =>
          rw [haction rfl]
          have hrows : (state.drafts.filter fun draft =>
                !(capture.attachments.map (·.draftId)).contains draft.view.draftId).map
                DraftState.row =
              state.rows.filter fun row => !capture.draftIds.contains row.1 := by
            rw [RendererState.rows, List.filter_map]
            rfl
          simp only [RendererState.rows, Option.isNone_none, if_true, hrows]
          exact .succeed hget
        | some message =>
          have hrows : (state.drafts.map fun draft =>
                if (capture.attachments.map (·.draftId)).contains draft.view.draftId &&
                    draft.status == .sending then
                  { draft with status := DraftStatus.error, errorMessage := some message }
                else draft).map DraftState.row =
              state.rows.map fun row => (row.1, row.2 && !capture.draftIds.contains row.1) := by
            rw [RendererState.rows, List.map_map, List.map_map]
            refine List.map_congr_left fun draft _ => ?_
            simp only [Function.comp_apply, SendCapture.draftIds, DraftState.row]
            generalize (capture.attachments.map (·.draftId)).contains draft.view.draftId = taken
            cases taken
            · rw [Bool.false_and, Bool.not_false, Bool.and_true]
              rfl
            · cases hsending : draft.status == .sending
              · exact Prod.ext rfl hsending
              · rfl
          simp only [RendererState.rows, Option.isNone_some, Bool.false_eq_true, if_false, hrows]
          exact .fail hget

/-- **What a careful action does.** -/
theorem effect_of_careful {tracked : Tracked} (hcareful : Careful tracked.state action) :
    Effect tracked.state tracked.gone action (track tracked action).state.rows
      (track tracked action).state.sendCapturesById (track tracked action).gone := by
  obtain ⟨state, gone⟩ := tracked
  cases action with
  | target_changed path =>
    simp only [track, reduceContextReferenceState]
    split
    · exact .same
    · next hpath => exact .retarget hpath
  | enabled_changed enabled => exact .same
  | draft_prepared target view scope representation => exact effect_prepared hcareful
  | draft_discarded target draftId =>
    simp only [track, reduceContextReferenceState, noteGone]
    split
    · exact .same
    · next htarget =>
      obtain rfl := not_not.mp htarget
      have hrows : (state.drafts.filter fun draft => draft.view.draftId ≠ draftId).map
          DraftState.row = state.rows.filter fun row => row.1 ≠ draftId := by
        rw [RendererState.rows, List.filter_map]
        rfl
      simp only [RendererState.rows, hrows]
      exact .discard
  | draft_choice_changed draftId scope representation =>
    simp only [track, reduceContextReferenceState, noteGone]
    rw [rows_updateDraft]
    · exact .same
    · intro draft _ _
      rw [chooseDraft]
      split
      · rfl
      · next hstatus =>
        simp only [DraftState.row]
        cases hcase : draft.status <;> simp [hcase] at hstatus ⊢
  | summary_began draftId =>
    simp only [track, reduceContextReferenceState, noteGone]
    rw [rows_updateDraft]
    · exact .same
    · exact fun draft hdraft hid => row_of_idle hcareful hdraft hid hid (by simp)
  | summary_succeeded target draftId view =>
    simp only [track, reduceContextReferenceState, noteGone]
    split
    · exact .same
    · next haccepted =>
      push Not at haccepted
      obtain ⟨hidle, hsame⟩ := hcareful haccepted.1 haccepted.2
      rw [rows_updateDraft]
      · exact .same
      · intro draft hdraft hid
        refine row_of_idle hidle hdraft hid (hsame ?_) (by simp)
        exact List.mem_map.mpr ⟨_, mem_rows_of_draft hdraft, hid⟩
  | summary_failed target draftId message =>
    simp only [track, reduceContextReferenceState, noteGone]
    split
    · exact .same
    · next htarget =>
      rw [rows_updateDraft]
      · exact .same
      · exact fun draft hdraft hid =>
          row_of_idle (hcareful (not_not.mp htarget)) hdraft hid hid (by simp)
  | send_began target captureId draftIds => exact effect_began
  | send_succeeded target captureId => exact effect_completed fun _ => rfl
  | send_failed target captureId message => exact effect_completed nofun
  | authoritative_state_received _ _ | projection_received _ _ =>
    simp only [track, reduceContextReferenceState, noteGone]
    split <;> exact .same

theorem Effect.held
    {rows : List (String × Bool)} {captures : Captures} {gone' : List (String × String)}
    (heffect : Effect state gone action rows captures gone')
    (h : Held state.rows state.sendCapturesById gone) :
    Held rows captures gone' := by
  cases heffect with
  | same => exact h
  | append hnew hlisted => exact h.append hnew hlisted
  | discard => exact h.discard
  | begin hfree hids => exact h.begin hfree hids
  | succeed hget => exact h.succeed hget
  | fail hget => exact h.fail hget
  | retarget hpath => exact .empty

theorem Effect.disappears
    {rows : List (String × Bool)} {captures : Captures} {gone' : List (String × String)}
    (heffect : Effect state gone action rows captures gone') {draftId : String}
    (hbefore : draftId ∈ state.rows.map Prod.fst) (hafter : draftId ∉ rows.map Prod.fst) :
    action = .draft_discarded state.target draftId ∨
      (∃ captureId capture, action = .send_succeeded state.target captureId ∧
        state.sendCapturesById.get captureId = some capture ∧ draftId ∈ capture.draftIds) ∨
      ∃ path, action = .target_changed path ∧ path ≠ state.target.targetSessionPath := by
  obtain ⟨row, hrow, rfl⟩ := List.mem_map.mp hbefore
  have hout : row ∉ rows := fun hin => hafter (List.mem_map.mpr ⟨row, hin, rfl⟩)
  cases heffect with
  | same => exact absurd hrow hout
  | append => exact absurd (List.mem_append_left _ hrow) hout
  | @discard draftId =>
    by_cases hid : row.1 = draftId
    · exact .inl (hid ▸ rfl)
    · exact absurd (List.mem_filter.mpr ⟨hrow, by simpa using hid⟩) hout
  | begin | fail => exact absurd (List.mem_map.mpr ⟨_, List.mem_map.mpr ⟨_, hrow, rfl⟩, rfl⟩) hafter
  | @succeed captureId capture hget =>
    by_cases hid : row.1 ∈ capture.draftIds
    · exact .inr (.inl ⟨captureId, capture, rfl, hget, hid⟩)
    · exact absurd (List.mem_filter.mpr ⟨hrow, by simpa using hid⟩) hout
  | retarget hpath => exact .inr (.inr ⟨_, rfl, hpath⟩)

end Steps

/-! ## Runs -/

/-- The target an action is for. -/
def Action.target? : Action → Option TargetIdentity
  | .draft_prepared target .. | .draft_discarded target _ | .summary_succeeded target ..
  | .summary_failed target .. | .send_began target .. | .send_succeeded target _
  | .send_failed target .. | .authoritative_state_received target _
  | .projection_received target _ => some target
  | _ => none

theorem unchanged_of_other {state : RendererState} {action : Action} {target : TargetIdentity}
    (htarget : action.target? = some target) (hother : target ≠ state.target) :
    reduceContextReferenceState state action = state := by
  cases action <;> simp only [Action.target?, Option.some.injEq, reduceCtorEq] at htarget <;>
    subst htarget <;>
    simp [reduceContextReferenceState, addPreparedDraft, beginSend, Refused, completeSend, hother]

/-- A new state for a session, with nothing discarded. -/
def start (targetSessionPath : Option String) : Tracked :=
  ⟨createContextReferenceState targetSessionPath, []⟩

/-- What is promised of the references in a state: `listed` is the list of
draft ids of an open capture. -/
structure References (tracked : Tracked) : Prop where
  unique : (tracked.state.drafts.map (·.view.draftId)).Nodup
  sending : ∀ draft ∈ tracked.state.drafts, draft.status = .sending ↔
    ∃ captureId capture, tracked.state.sendCapturesById.get captureId = some capture ∧
      draft.view.draftId ∈ capture.draftIds ∧
      ∀ other capture', tracked.state.sendCapturesById.get other = some capture' →
        draft.view.draftId ∈ capture'.draftIds → other = captureId
  listed : ∀ captureId capture draftId,
    tracked.state.sendCapturesById.get captureId = some capture → draftId ∈ capture.draftIds →
      (∃ draft ∈ tracked.state.drafts,
        draft.view.draftId = draftId ∧ draft.status = .sending) ∨
      (captureId, draftId) ∈ tracked.gone
  once : ∀ captureId captureId' capture capture' draftId,
    tracked.state.sendCapturesById.get captureId = some capture →
    tracked.state.sendCapturesById.get captureId' = some capture' →
      draftId ∈ capture.draftIds → draftId ∈ capture'.draftIds → captureId = captureId'
  disappears : ∀ action draftId, Careful tracked.state action →
    draftId ∈ tracked.state.drafts.map (·.view.draftId) →
    draftId ∉ (reduceContextReferenceState tracked.state action).drafts.map (·.view.draftId) →
      action = .draft_discarded tracked.state.target draftId ∨
      (∃ captureId capture, action = .send_succeeded tracked.state.target captureId ∧
        tracked.state.sendCapturesById.get captureId = some capture ∧
        draftId ∈ capture.draftIds) ∨
      ∃ path, action = .target_changed path ∧ path ≠ tracked.state.target.targetSessionPath
  unchanged : ∀ action target, action.target? = some target → target ≠ tracked.state.target →
    reduceContextReferenceState tracked.state action = tracked.state

theorem Held.references {tracked : Tracked}
    (h : Held tracked.state.rows tracked.state.sendCapturesById tracked.gone) :
    References tracked := by
  have hids : ∀ state : RendererState,
      state.rows.map Prod.fst = state.drafts.map (·.view.draftId) := by
    intro state
    rw [RendererState.rows, List.map_map]
    rfl
  refine ⟨hids _ ▸ h.unique, ?_, ?_, fun _ _ _ _ _ => h.once, ?_,
    fun _ _ htarget hother => unchanged_of_other htarget hother⟩
  · intro draft hdraft
    have hrow := h.sending _ (mem_rows_of_draft hdraft)
    rw [beq_iff_eq] at hrow
    rw [hrow]
    constructor
    · rintro ⟨captureId, capture, hget, hid⟩
      exact ⟨captureId, capture, hget, hid, fun _ _ hget' hid' => h.once hget' hget hid' hid⟩
    · rintro ⟨captureId, capture, hget, hid, -⟩
      exact ⟨captureId, capture, hget, hid⟩
  · intro captureId capture draftId hget hid
    refine (h.kept hget hid).imp_left fun hrow => ?_
    obtain ⟨draft, hdraft, hrow⟩ := List.mem_map.mp hrow
    obtain ⟨hid, hsending⟩ := Prod.mk.inj hrow
    exact ⟨draft, hdraft, hid, beq_iff_eq.mp hsending⟩
  · intro action draftId hcareful hbefore hafter
    rw [← hids] at hbefore hafter
    exact (effect_of_careful hcareful).disappears hbefore hafter

/-- **References are sent at most once and none is lost**, in every run whose
actions are careful. -/
theorem references_of_careful (targetSessionPath : Option String) (actions : List Action)
    (hcareful : Runs.Guarded track (fun tracked => Careful tracked.state)
      (start targetSessionPath) actions) :
    References (Runs.run track (start targetSessionPath) actions) := by
  have hheld := Runs.guarded_invariant track
    (fun tracked => Held tracked.state.rows tracked.state.sendCapturesById tracked.gone)
    (fun tracked => Careful tracked.state) (fun _ _ h hok => (effect_of_careful hok).held h)
    (s := start targetSessionPath) Held.empty actions hcareful
  exact hheld.references

def here : TargetIdentity := ⟨some "s", 0⟩

def draft : DraftView := ⟨"d", "s", .ready⟩

/-- A draft that fails to be sent, and is discarded while it is sent again. -/
theorem references_of_retry :
    References (Runs.run track (start (some "s"))
      [.draft_prepared here draft none none, .send_began here "1" ["d"],
        .send_failed here "1" "no", .send_began here "2" ["d"], .draft_discarded here "d"]) := by
  refine references_of_careful (some "s") _ ⟨?_, trivial, trivial, trivial, trivial, trivial⟩
  rintro - - - ⟨_, _, hget, _⟩
  cases hget

/-- A summary for a draft that is being sent makes it ready for another
send. -/
theorem sent_twice :
    ¬ References (Runs.run track (start (some "s"))
      [.draft_prepared here draft none none, .send_began here "1" ["d"],
        .summary_began "d", .summary_succeeded here "d" draft,
        .send_began here "2" ["d"]]) := by
  intro h
  have hsame := h.once "1" "2" ⟨here, "1", [⟨"d", .message, .full⟩]⟩
    ⟨here, "2", [⟨"d", .message, .summary⟩]⟩ "d" (by decide) (by decide) (by decide) (by decide)
  exact absurd hsame (by decide)

end ContextReferences

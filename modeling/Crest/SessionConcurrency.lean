import Crest.Runs
import Crest.SessionLog

/-!
# Concurrent appends to a session

A typed append of a session creates an id, reads the leaf and writes its entry, and
waits in between; whatever else appends meanwhile goes first.  A batch with an expected
leaf is checked against the leaf when it is written.

An entry that is written on a leaf that is no longer the leaf starts a branch of its own,
and what was appended meanwhile is not on the path any more.  `OnLeaf` rules this out: what is
written is chained to the leaf.  Then no append loses another one's entries.
-/

namespace Session

/-- The calls that append to a session. -/
inductive AppendCall
  | appendMessage (message : Json)
  | appendThinkingLevelChange (thinkingLevel : JsString)
  | appendModelChange (provider modelId : JsString)
  | appendCompaction (summary firstKeptEntryId : JsString) (tokensBefore : ℚ)
      (details : Option Json) (fromHook : Option Bool)
  | appendCustomEntry (customType : JsString) (data : Option Json)
  | appendCustomMessageEntry (customType : JsString) (content : Json) (display : Bool)
      (details : Option Json)
  | appendLabel (targetId : JsString) (label : Option JsString)
  | appendSessionName (name : JsString)
  | appendEntries (entries : List SessionTreeEntry) (expectedLeafId : Option JsString)
  deriving DecidableEq, Repr

/-- Where a call is. -/
inductive CallProgress
  /-- `appendLabel` is about to ask for its target. -/
  | checksTarget (targetId : JsString) (label : Option JsString)
  /-- An id is about to be created. -/
  | createsId (body : SessionEntryBody)
  /-- The leaf is about to be read. -/
  | readsLeaf (body : SessionEntryBody) (id : JsString)
  /-- The entries are about to be written. -/
  | writes (entries : List SessionTreeEntry) (expectedLeafId : Option (Option JsString))
  /-- The call has resolved. -/
  | resolved (entries : List SessionTreeEntry)
  /-- The call has rejected. -/
  | rejected (code : SessionErrorCode)
  deriving DecidableEq, Repr

/-- Where a call begins. -/
def AppendCall.begin : AppendCall → CallProgress
  | .appendMessage message => .createsId (.message message)
  | .appendThinkingLevelChange thinkingLevel => .createsId (.thinkingLevelChange thinkingLevel)
  | .appendModelChange provider modelId => .createsId (.modelChange provider modelId)
  | .appendCompaction summary firstKeptEntryId tokensBefore details fromHook =>
    .createsId (.compaction summary firstKeptEntryId tokensBefore details fromHook)
  | .appendCustomEntry customType data => .createsId (.custom customType data)
  | .appendCustomMessageEntry customType content display details =>
    .createsId (.customMessage customType content details display)
  | .appendLabel targetId label => .checksTarget targetId label
  | .appendSessionName name => .createsId (.sessionInfo (some name.trim))
  | .appendEntries entries expectedLeafId => .writes entries (some expectedLeafId)

/-- A session and the calls made on it. -/
structure Appends where
  log : SessionLog
  /-- The calls, in the order in which they were made. -/
  calls : List CallProgress := []
  deriving DecidableEq, Repr

/-- What can happen next. -/
inductive AppendEvent
  /-- A call is made. -/
  | call (request : AppendCall)
  /-- What a call waits for is there.  The id and the time matter where one is created. -/
  | proceed (index : Nat) (id timestamp : JsString)
  /-- The storage fails to write, and nothing has changed. -/
  | fail (index : Nat)
  deriving DecidableEq, Repr

namespace Appends

variable (digest : Digest)

/-- A session that has grown by some appends, before any call. -/
def opened
    (kind : StorageKind)
    (appends : List (List SessionTreeEntry × Option (Option JsString))) : Appends :=
  { log := appendAll digest { kind } appends }

/-- One step of a call: the storage, and where the call is then. -/
def proceed (log : SessionLog) (id timestamp : JsString) :
    CallProgress → SessionLog × CallProgress
  | .checksTarget targetId label =>
    if (log.getEntry targetId).isSome then (log, .createsId (.label targetId label))
    else (log, .rejected .notFound)
  | .createsId body => (log, .readsLeaf body id)
  | .readsLeaf body id =>
    match log.getLeafId with
    | .error code => (log, .rejected code)
    | .ok leafId => (log, .writes [{ id, parentId := leafId, timestamp, body }] none)
  | .writes entries expectedLeafId =>
    match log.appendEntries digest entries expectedLeafId with
    | .error code => (log, .rejected code)
    | .ok log' => (log', .resolved entries)
  | .resolved entries => (log, .resolved entries)
  | .rejected code => (log, .rejected code)

/-- One step; an event of no call changes nothing. -/
def step (s : Appends) : AppendEvent → Appends
  | .call request => { s with calls := s.calls ++ [request.begin] }
  | .proceed index id timestamp =>
    match s.calls[index]? with
    | none => s
    | some progress =>
      let (log, progress') := proceed digest s.log id timestamp progress
      { log, calls := s.calls.set index progress' }
  | .fail index =>
    match s.calls[index]? with
    | some (.writes _ _) => { s with calls := s.calls.set index (.rejected .storage) }
    | _ => s

/-- What is written next is chained to the leaf, unless it is expected to be on
another one. -/
def OnLeaf (s : Appends) (event : AppendEvent) : Prop :=
  match event with
  | .proceed index _ _ =>
    match s.calls[index]? with
    | some (.writes entries expectedLeafId) =>
      (expectedLeafId.all fun expected => decide (expected = s.log.leafId)) = true →
        chainsFrom s.log.leafId entries = true
    | _ => True
  | _ => True

instance (s : Appends) (event : AppendEvent) : Decidable (s.OnLeaf event) := by
  unfold OnLeaf
  split
  · split <;> infer_instance
  · infer_instance

/-- Nothing that was appended since the log was `before` is lost: what a call has resolved
with is there, and all of it is on the path from the leaf to the root, in the order in
which it was appended. -/
structure LosesNothing (before : List SessionTreeEntry) (s : Appends) : Prop where
  appended : ∃ appended, s.log.entries = before ++ appended ∧
    (∀ entries, CallProgress.resolved entries ∈ s.calls → ∀ e ∈ entries, e ∈ appended) ∧
    (appended ≠ [] → ∃ path,
      getPathToRoot before (leafIdOf before) = .ok path ∧
      getPathToRoot s.log.entries s.log.leafId = .ok (path ++ appended) ∧
      (path ++ appended).Sublist s.log.entries)

/-- What is kept while calls are made. -/
structure Inv (before : List SessionTreeEntry) (s : Appends) : Prop where
  grown : GrownLog s.log.entries
  appended : ∃ appended, s.log.entries = before ++ appended ∧
    (∀ entries, CallProgress.resolved entries ∈ s.calls → ∀ e ∈ entries, e ∈ appended) ∧
    getPathToRoot s.log.entries s.log.leafId =
      (getPathToRoot before (leafIdOf before)).map (fun path => path ++ appended) ∧
    (appended ≠ [] → ∀ id, leafIdOf before = some id → id ∈ logEntryIds before)

variable {digest} {before : List SessionTreeEntry} {s : Appends}

theorem mem_resolved_set {calls : List CallProgress} {index : Nat} {progress : CallProgress}
    {entries : List SessionTreeEntry}
    (h : CallProgress.resolved entries ∈ calls.set index progress)
    (hne : progress ≠ .resolved entries) :
    CallProgress.resolved entries ∈ calls := by
  rcases List.mem_or_eq_of_mem_set h with hmem | heq
  · exact hmem
  · exact absurd heq.symm hne

namespace Inv

theorem init (kind : StorageKind) (hgrown : GrownLog before) :
    Inv before { log := { kind, entries := before } } := by
  refine ⟨hgrown, [], by simp, ?_, ?_, ?_⟩
  · intro entries hmem
    cases hmem
  · show getPathToRoot before (leafIdOf before) = _
    cases getPathToRoot before (leafIdOf before) with
    | error e => rfl
    | ok path => simp [Except.map]
  · intro hne
    exact absurd rfl hne

variable (h : Inv before s)
include h

theorem setCalls {calls : List CallProgress}
    (hcalls : ∀ entries, CallProgress.resolved entries ∈ calls →
      CallProgress.resolved entries ∈ s.calls) :
    Inv before { s with calls } := by
  obtain ⟨appended, heq, hresolved, hpath, hleaf⟩ := h.appended
  refine ⟨h.grown, appended, heq, ?_, hpath, hleaf⟩
  intro entries hmem
  exact hresolved entries (hcalls entries hmem)

theorem setProgress (index : Nat) {progress : CallProgress}
    (hne : ∀ entries, progress ≠ .resolved entries) :
    Inv before { s with calls := s.calls.set index progress } := by
  apply h.setCalls
  intro entries hmem
  exact mem_resolved_set hmem (hne entries)

theorem write (index : Nat) {entries : List SessionTreeEntry}
    (hgrown : GrownLog (s.log.entries ++ entries))
    (hchain : chainsFrom s.log.leafId entries = true) :
    Inv before
      { log := { s.log with entries := s.log.entries ++ entries }
        calls := s.calls.set index (.resolved entries) } := by
  obtain ⟨appended, heq, hresolved, hpath, hleaf⟩ := h.appended
  refine ⟨hgrown, appended ++ entries, ?_, ?_, ?_, ?_⟩
  · show s.log.entries ++ entries = _
    rw [heq, List.append_assoc]
  · intro entries' hmem e he
    rcases List.mem_or_eq_of_mem_set hmem with hold | hnew
    · exact List.mem_append_left _ (hresolved entries' hold e he)
    · cases hnew
      exact List.mem_append_right _ he
  · show getPathToRoot (s.log.entries ++ entries) (leafIdOf (s.log.entries ++ entries)) = _
    have hold : getPathToRoot s.log.entries (leafIdOf s.log.entries) = _ := hpath
    rw [getPathToRoot_chain hgrown hchain, hold]
    cases getPathToRoot before (leafIdOf before) with
    | error e => rfl
    | ok path => simp [Except.map]
  · intro hne id hid
    cases appended with
    | cons first rest => exact hleaf (List.cons_ne_nil first rest) id hid
    | nil =>
      have hsame : s.log.entries = before := by simpa using heq
      cases entries with
      | nil => exact absurd rfl hne
      | cons e rest =>
        simp only [chainsFrom, Bool.and_eq_true, decide_eq_true_eq] at hchain
        have hparent : e.parentId = some id := by
          rw [hchain.1.1, SessionLog.leafId, hsame, hid]
        rw [hsame] at hgrown
        have hsplit : before ++ e :: rest = (before ++ [e]) ++ rest := by simp
        rw [hsplit] at hgrown
        exact (hgrown.of_append.last.2 id hparent).1

/-- **Every step that writes on the leaf keeps the invariant.** -/
theorem step (event : AppendEvent) (honLeaf : s.OnLeaf event) :
    Inv before (Appends.step digest s event) := by
  cases event with
  | call request =>
    apply h.setCalls
    intro entries hmem
    rcases List.mem_append.mp hmem with hold | hnew
    · exact hold
    · have hbegin := List.mem_singleton.mp hnew
      cases request <;> cases hbegin
  | fail index =>
    simp only [Appends.step]
    split
    case h_1 entries expectedLeafId _ =>
      apply h.setProgress index
      intro entries' heq
      cases heq
    case h_2 _ => exact h
  | proceed index id timestamp =>
    simp only [Appends.step]
    cases hcall : s.calls[index]? with
    | none => exact h
    | some progress =>
      have hkeep : Inv before { s with calls := s.calls.set index progress } := by
        apply h.setCalls
        intro entries hmem
        rcases List.mem_or_eq_of_mem_set hmem with hold | hsame
        · exact hold
        · rw [hsame]
          exact List.mem_of_getElem? hcall
      cases progress with
      | checksTarget targetId label =>
        simp only [Appends.proceed]
        split
        case isTrue _ => exact h.setProgress index fun _ heq => by cases heq
        case isFalse _ => exact h.setProgress index fun _ heq => by cases heq
      | createsId body => exact h.setProgress index fun _ heq => by cases heq
      | readsLeaf body id' =>
        simp only [Appends.proceed]
        split
        case h_1 code _ => exact h.setProgress index fun _ heq => by cases heq
        case h_2 leafId _ => exact h.setProgress index fun _ heq => by cases heq
      | writes entries expectedLeafId =>
        simp only [Appends.proceed]
        split
        case h_1 code _ => exact h.setProgress index fun _ heq => by cases heq
        case h_2 log' hok =>
          obtain ⟨rfl, hexpected, hgrown⟩ := SessionLog.appendEntries_ok digest hok
          simp only [OnLeaf, hcall] at honLeaf
          apply h.write index (hgrown h.grown)
          apply honLeaf
          cases expectedLeafId with
          | none => rfl
          | some expected => simpa using hexpected expected rfl
      | resolved _ | rejected _ => exact hkeep

theorem losesNothing : LosesNothing before s := by
  obtain ⟨appended, heq, hresolved, hpath, hleaf⟩ := h.appended
  refine ⟨appended, heq, hresolved, ?_⟩
  intro hne
  have hgrown : GrownLog before := by
    apply GrownLog.of_append appended
    rw [← heq]
    exact h.grown
  obtain ⟨path, hok, hsub⟩ : ∃ path,
      getPathToRoot before (leafIdOf before) = .ok path ∧ path.Sublist before := by
    cases hid : leafIdOf before with
    | none => exact ⟨[], rfl, List.nil_sublist before⟩
    | some id => exact hgrown.exists_path id (hleaf hne id hid)
  refine ⟨path, hok, ?_, ?_⟩
  · rw [hpath, hok]
    rfl
  · rw [heq]
    exact hsub.append_right appended

end Inv

theorem log_of_rejected (digest : Digest) (s : Appends) (event : AppendEvent) (index : Nat)
    (code : SessionErrorCode) (hbefore : s.calls[index]? ≠ some (.rejected code))
    (hafter : (step digest s event).calls[index]? = some (.rejected code)) :
    (step digest s event).log = s.log := by
  cases event with
  | call request => rfl
  | fail index' =>
    simp only [step]
    split <;> rfl
  | proceed index' id timestamp =>
    simp only [step] at hafter ⊢
    cases hcall : s.calls[index']? with
    | none => rfl
    | some progress =>
      simp only [hcall] at hafter ⊢
      cases progress with
      | checksTarget _ _ | readsLeaf _ _ =>
        simp only [proceed]
        split <;> rfl
      | createsId _ | resolved _ | rejected _ => rfl
      | writes entries expectedLeafId =>
        simp only [proceed] at hafter ⊢
        cases happend : s.log.appendEntries digest entries expectedLeafId with
        | error code' => rfl
        | ok log' =>
          -- this call resolves, and every other one is where it was
          rw [happend] at hafter
          exfalso
          rw [List.getElem?_set] at hafter
          split at hafter
          case isTrue heq =>
            split at hafter
            case isTrue _ => cases hafter
            case isFalse _ => cases hafter
          case isFalse _ => exact hbefore hafter

/-- Two messages one after the other, and a batch that expects the first one to be the
leaf. -/
def oneByOne : List AppendEvent :=
  [.call (.appendMessage .null), .proceed 0 (js "a") [], .proceed 0 [] [], .proceed 0 [] [],
    .call (.appendEntries [{ id := js "x", parentId := some (js "a"), body := .sessionInfo none }]
      (some (js "a"))),
    .call (.appendMessage .null), .proceed 2 (js "b") [], .proceed 2 [] [], .proceed 2 [] []]

/-- Two messages that are appended at the same time. -/
def together : List AppendEvent :=
  [.call (.appendMessage .null), .call (.appendMessage .null), .proceed 0 (js "a") [],
    .proceed 1 (js "b") [], .proceed 0 [] [], .proceed 1 [] [], .proceed 0 [] [], .proceed 1 [] []]

end Appends

end Session

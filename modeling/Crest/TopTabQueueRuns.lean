import Crest.TopTabQueueSafety

/-!
# The queue follows the server

In every run that meets the conditions the projection is what the pending intents make of the
confirmed checkpoint, an accepted intent shows at once what the reducer makes of it, the
confirmed revision never falls, the server's checkpoint is made of the changes of others and of
the accepted intents, each once and in their order, and a flush that ends well with nothing
enqueued since it was called leaves nothing pending.

Without them an update may undo an open, and an intent may be applied twice: a checkpoint with
the effect of a save may be delivered before the response of the save, or the response may be
lost.
-/

namespace NavigationQueue

open ContentState ContentState.Frontend

section Runs

variable {origin : WorkspaceCheckpoint} {s : State}

theorem confirmed_begin (s : State) (activeTerminalTabId : JsString) :
    (s.begin activeTerminalTabId).queue.confirmed = s.queue.confirmed := by
  unfold State.begin
  split
  · rfl
  · exact confirmed_drainLocal _ _ _
  · rfl

theorem confirmed_serve (s : State) : s.serve.queue.confirmed = s.queue.confirmed := by
  unfold State.serve
  split
  · split_ifs <;> rfl
  · rfl
  · rfl

/-- **Every step that meets the conditions keeps what holds, and the confirmed revision does not
fall.** -/
theorem Inv.step (h : Inv origin s) {event : Event} (hok : Ok s event) :
    Inv origin (s.step event) ∧
      s.queue.confirmed.navigationRevision ≤
        (s.step event).queue.confirmed.navigationRevision := by
  cases event with
  | enqueue action =>
    refine ⟨h.enqueue hok, ?_⟩
    obtain ⟨hplain, hmerges⟩ := hok
    simp only [State.step]
    cases henqueue : s.queue.enqueue s.accepted action with
    | mk queue isAccepted =>
      cases isAccepted with
      | false => exact Nat.le_refl _
      | true =>
        have haccepts := accepts_enqueue h.queue.projected hmerges hplain henqueue
        exact (congrArg WorkspaceCheckpoint.navigationRevision haccepts.confirmed).ge
  | flush =>
    simp only [State.step]
    split_ifs with hpending
    · refine ⟨{ h with
        watched := fun _ _ _ => hpending
        stage := h.stage.of rfl rfl rfl rfl }, Nat.le_refl _⟩
    · refine ⟨{ h with
        ended := fun number hnumber => Nat.lt_succ_of_lt (h.ended number hnumber)
        waiting := ?_
        watched := ?_
        running := fun number start hsaving =>
          Nat.lt_succ_of_lt (h.running number start hsaving)
        stage := ?_ }, Nat.le_refl _⟩
      · intro number hnumber
        rcases List.mem_append.mp hnumber with hnumber | hnumber
        · exact Nat.lt_succ_of_lt (h.waiting number hnumber)
        · cases List.mem_singleton.mp hnumber
          exact Nat.lt_succ_self _
      · intro flush hflush hended
        rcases List.mem_cons.mp hflush with rfl | hflush
        · exact absurd (h.ended _ (hended _ rfl)) (Nat.lt_irrefl _)
        · exact h.watched flush hflush hended
      · exact h.stage.of rfl rfl rfl rfl
  | invalidate _ | runTerminalMutation =>
    refine ⟨h.waits ?_, Nat.le_refl _⟩
    intro number hnumber
    cases hnumber
  | reconcile checkpoint force =>
    simp only [State.step]
    split_ifs with hpast
    · exact h.reconcile hpast hok
    · exact ⟨h, Nat.le_refl _⟩
  | begin activeTerminalTabId =>
    refine ⟨h.begin hok, (congrArg WorkspaceCheckpoint.navigationRevision ?_).ge⟩
    exact confirmed_begin s activeTerminalTabId
  | serve =>
    refine ⟨h.serve, (congrArg WorkspaceCheckpoint.navigationRevision ?_).ge⟩
    exact confirmed_serve s
  | respond activeTerminalTabId => exact h.respond hok
  | fail activeTerminalTabId =>
    obtain ⟨hinv, hsame⟩ := h.fail hok
    exact ⟨hinv, (congrArg WorkspaceCheckpoint.navigationRevision hsame).ge⟩
  | mutated checkpoint =>
    simp only [State.step]
    split_ifs with hmutated
    · have hrequest := h.request_none (by
        intro operation start hsaving
        exact absurd (hmutated.1.symm.trans hsaving) (by simp))
      have hfree : Ok { s with running := .idle } (.reconcile checkpoint false) := by
        intro hcommitted
        simp only [hrequest, Request.isCommitted, Bool.false_eq_true] at hcommitted
      exact (h.idle hrequest).reconcile (.inl hmutated.2) hfree
    · exact ⟨h, Nat.le_refl _⟩
  | mutationFailed =>
    simp only [State.step]
    split_ifs with hmutating
    · have hrequest := h.request_none (by
        intro operation start hsaving
        exact absurd (hmutating.symm.trans hsaving) (by simp))
      exact ⟨h.idle hrequest, Nat.le_refl _⟩
    · exact ⟨h, Nat.le_refl _⟩
  | other checkpoint =>
    simp only [State.step]
    split_ifs with hlater
    · exact ⟨h.other hlater.1 hlater.2 hok, Nat.le_refl _⟩
    · exact ⟨h, Nat.le_refl _⟩

/-- What the queue promises in a state that is reached from the first checkpoint. -/
structure Promised (origin : WorkspaceCheckpoint) (s : State) : Prop where
  /-- The projection is what the pending intents make of the confirmed checkpoint. -/
  projected : s.queue.projected = applyPending s.queue.confirmed.shown s.queue.pending
  /-- An accepted intent shows what the reducer makes of it. -/
  accepted : ∀ action queue, Ok s (.enqueue action) →
    s.queue.enqueue s.accepted action = (queue, true) →
      queue.projected = reduceWorkspaceContent s.queue.projected action
  /-- The confirmed revision does not fall. -/
  revision : ∀ event, Ok s event →
    s.queue.confirmed.navigationRevision ≤ (s.step event).queue.confirmed.navigationRevision
  /-- The server shows what other writers and the intents that were applied have made of it. -/
  replayed : s.server.shown = replay origin.shown s.changes
  /-- Every accepted intent that was not dropped is applied or will be, once and in order. -/
  once : appliedNumbers s.changes ++ s.unapplied =
    (List.range s.accepted).filter fun number => number ∉ s.dropped
  /-- A flush that has ended leaves nothing pending, if nothing was accepted since its call. -/
  flushed : ∀ flush ∈ s.watched, (∀ number, flush = some number → number ∈ s.ended) →
    s.queue.pending = [] ∧ s.unapplied = [] ∧ s.queue.projected = s.queue.confirmed.shown

theorem Inv.promised (h : Inv origin s) : Promised origin s where
  projected := h.queue.projected
  accepted := by
    intro action queue hok henqueue
    exact (accepts_enqueue h.queue.projected hok.2 hok.1 henqueue).projected
  revision := fun event hok => (h.step hok).2
  replayed := h.replayed
  once := h.counted
  flushed := by
    intro flush hflush hended
    have hpending := h.watched flush hflush hended
    refine ⟨hpending, ?_, ?_⟩
    · rw [State.unapplied, hpending]
      split_ifs <;> rfl
    · rw [h.queue.projected, hpending]
      rfl

/-- **In every run that meets the conditions the queue keeps its promise.** -/
theorem queue_follows
    (hreadable : Readable origin.shown) (hfollows : Follows origin.shown) (events : List Event)
    (hok : Runs.Guarded State.step Ok (State.start origin) events) :
    Promised origin (Runs.run State.step (State.start origin) events) :=
  (Runs.guarded_invariant State.step (Inv origin) Ok
    (fun _ _ hinv hok => (hinv.step hok).1) (inv_start hreadable hfollows) events hok).promised

end Runs

section Examples

/-- A file tab as it is stored. -/
def storedFile (id path : String) : PersistedTopTab :=
  { id := word id, kind := word "file", title := [], path := some (word path) }

/-- The agent is shown beside a file. -/
def besideFile : WorkspaceCheckpoint where
  workspaceId := word "w"
  navigationRevision := 0
  terminalTabIds := []
  activeTerminalTabId := []
  contentState := { activeContent := { kind := word "agent" }, topTabs := [storedFile "a" "/a"] }

/-- The file is shown, and this is saved. -/
def savedOnce : List Event :=
  [.enqueue (.activateTopTab (word "a")), .flush, .begin [], .serve, .respond []]

/-- A save of one intent keeps the promise. -/
theorem savedOnce_promised :
    Promised besideFile (Runs.run State.step (State.start besideFile) savedOnce) := by
  have htabs : besideFile.shown.topTabs = [.file (word "a") (word "/a") []] := by
    decide +kernel
  have hagent : besideFile.shown.activeContent = .agent := by decide +kernel
  have hreadable : Readable besideFile.shown := by
    refine ⟨?_, ?_⟩
    · rw [htabs, List.forall_mem_singleton]
      refine ⟨?_, ?_⟩
      · intro text htext
        rcases List.mem_cons.mp htext with rfl | htext
        · exact ⟨['a'], by decide +kernel⟩
        · rw [List.mem_singleton.mp htext]
          exact ⟨[], rfl⟩
      · intro path hpath
        rw [List.mem_singleton.mp hpath]
        exact ⟨['/', 'a'], by decide +kernel, by decide +kernel⟩
    · intro terminal hterminal
      cases hagent.symm.trans hterminal
  have hfollows : Follows besideFile.shown := by
    intro topTabId hshown
    cases hagent.symm.trans hshown
  refine queue_follows hreadable hfollows savedOnce
    ⟨⟨trivial, trivial⟩, trivial, ⟨⟨[], rfl⟩, ?_⟩, trivial, ⟨⟨[], rfl⟩, ?_⟩, trivial⟩
  · intro terminal hterminal
    have hshown : (Runs.run State.step (State.start besideFile)
        (savedOnce.take 2)).queue.projected.activeContent = .topTab (word "a") := by
      decide +kernel
    cases hshown.symm.trans hterminal
  · intro terminal hterminal
    have hshown : (Runs.run State.step (State.start besideFile)
        (savedOnce.take 4)).taken.queue.projected.activeContent = .topTab (word "a") := by
      decide +kernel
    cases hshown.symm.trans hterminal

/-- The server's checkpoint is delivered before the response of the save that has made it. -/
def echoed : List Event :=
  [.enqueue (.activateTopTab (word "a")), .flush, .begin [], .serve,
    .reconcile (Runs.run State.step (State.start besideFile) (savedOnce.take 4)).server false,
    .respond [], .serve]

/-- The response of a save is lost, and the save is tried again. -/
def lostResponse : List Event :=
  [.enqueue (.activateTopTab (word "a")), .flush, .begin [], .serve, .fail [], .flush,
    .begin [], .serve, .respond [], .serve]

/-- The tab gets another path, and a file of this path is opened. -/
def updateThenOpen : List Event :=
  [.enqueue (.updateTopTab (word "a") { kind := .file, path := some (word "/b") }),
    .enqueue (.openTopTab (.file (word "c") (word "/b") []))]

/-- A later update of the tab. -/
def laterUpdate : WorkspaceContentAction :=
  .updateTopTab (word "a") { kind := .file, path := some (word "/d") }

/-- **An intent is applied twice, and an update that is accepted is not shown as the reducer
would have it.** -/
theorem queue_differs :
    appliedNumbers (Runs.run State.step (State.start besideFile) echoed).changes = [0, 0] ∧
      appliedNumbers (Runs.run State.step (State.start besideFile) lostResponse).changes =
        [0, 0] ∧
      ((Runs.run State.step (State.start besideFile) updateThenOpen).queue.enqueue 2
        laterUpdate).2 = true ∧
      ((Runs.run State.step (State.start besideFile) updateThenOpen).queue.enqueue 2
        laterUpdate).1.projected ≠
        reduceWorkspaceContent
          (Runs.run State.step (State.start besideFile) updateThenOpen).queue.projected
          laterUpdate := by
  refine ⟨?_, ?_, ?_, ?_⟩ <;> decide +kernel

end Examples

end NavigationQueue

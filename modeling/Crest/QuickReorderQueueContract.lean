import Crest.QuickReorderQueueSession

/-!
# What a reorder queue promises

The contract of a run, clause by clause.  Two things it does not promise are choices of
the code: `Close` drops what is still buffered, and an item of an older session that comes
after a newer one has begun is sent at once.
-/

namespace QuickReorderQueue

open scoped List

variable {α : Type*} (sorter : SliceSort (QueuedItem α))

theorem closed_sends_nothing {q : QuickReorderQueue α} (h : q.closed = true)
    (later : List (Event α)) :
    (Runs.run (step sorter) q later).sent = q.sent := by
  have hend := Runs.run_invariant (step sorter)
    (fun q' => q'.closed = true ∧ q'.sent = q.sent)
    (by intro q' e h
        obtain ⟨hclosed, hsent⟩ := h
        cases e with
        | queueItem sessionId seqNum data ts now =>
          simp [step, queueItem, hclosed, hsent]
        | onTimeout now => simp [step, onTimeout, hclosed, hsent]
        | close => simp [step, close, hclosed, hsent]
        | receive =>
          rw [step, (receive_frame q').2.2.2.2.1]
          unfold receive
          split <;> exact ⟨hclosed, hsent⟩)
    ⟨h, rfl⟩ later
  exact hend.2

/-- The state after the events, from a new queue. -/
def after (cap : Nat) (timeout : Int) (events : List (Event α)) : QuickReorderQueue α :=
  Runs.run (step sorter) (make cap timeout) events

/-- What holds after any events on a new queue. -/
structure Contract (cap : Nat) (timeout : Int) (events : List (Event α)) : Prop where
  /-- No send made under the lock blocks. -/
  unblocked : (after sorter cap timeout events).blocked = false
  /-- What is received is what was sent, in that order. -/
  flow : (after sorter cap timeout events).received ++ (after sorter cap timeout events).outCh =
    (after sorter cap timeout events).sent.map QueuedItem.data
  /-- Every accepted item was sent once or is in the buffer. -/
  placed : ((after sorter cap timeout events).sent ++
    (after sorter cap timeout events).buffer).Perm (after sorter cap timeout events).accepted
  /-- While the queue is open, a timer is armed for what is buffered. -/
  armed : (after sorter cap timeout events).closed = false →
    (after sorter cap timeout events).buffer ≠ [] →
      (after sorter cap timeout events).timer ≠ none
  /-- A timeout sends what has waited long enough. -/
  flushed : (after sorter cap timeout events).closed = false → ∀ now,
    (∀ x ∈ (after sorter cap timeout events).buffer,
      (after sorter cap timeout events).timedOut now x) →
    (after sorter cap timeout (events ++ [.onTimeout now])).buffer = []
  /-- `Close` drops what is buffered. -/
  dropped : (after sorter cap timeout events).closed = true → ∀ later,
    (after sorter cap timeout (events ++ later)).sent = (after sorter cap timeout events).sent
  /-- What is accepted before a session begins is sent before all of it. -/
  separate : ∀ t, t ≠ "" →
    (after sorter cap timeout events).sessionOrder.has t = false → ∀ later,
    ∃ first rest, (after sorter cap timeout (events ++ later)).sent = first ++ rest ∧
      (∀ x ∈ first, x.sessionId ≠ t) ∧
      ((∃ x ∈ rest, x.sessionId = t) →
        (after sorter cap timeout events).accepted <+~ first)
  /-- A session that arrives in one stretch comes out in order. -/
  sequence : ∀ s, s ≠ "" →
    Runs.Guarded (step sorter)
      (fun q e => q.ClockAdvances e ∧ q.ArrivesWhileNewest s e ∧ q.TimeoutSpares s e)
      (make cap timeout) events →
    ∀ k, (seqs s (after sorter cap timeout events).accepted).Perm (upTo k) →
      seqs s (after sorter cap timeout events).sent = upTo k
  /-- No buffered item of the current session is the expected one. -/
  ahead : Runs.Guarded (step sorter)
      (fun q e => q.ClockAdvances e ∧ q.Unrepeated e ∧ q.StopsAtGap sorter e)
      (make cap timeout) events →
    ∀ x ∈ (after sorter cap timeout events).buffer,
      x.sessionId = (after sorter cap timeout events).currentSessionId →
        x.seqNum ≠ (after sorter cap timeout events).nextSeqNum

/-- **The reorder queue keeps its contract in every run.** -/
theorem keeps_contract (cap : Nat) (timeout : Int) (events : List (Event α)) :
    Contract sorter cap timeout events := by
  have hacc := run_accounted sorter cap timeout events
  exact
    { unblocked := hacc.unblocked
      flow := hacc.flow
      placed := hacc.placed
      armed := hacc.armed
      flushed := by
        intro hopen now hall
        rw [after, Runs.run_append]
        exact onTimeout_sends_all sorter hopen hall
      dropped := by
        intro hclosed later
        rw [after, Runs.run_append]
        exact closed_sends_nothing sorter hclosed later
      separate := fun t ht hnew later =>
        sessions_separate sorter cap timeout events later ht hnew
      sequence := fun s hs hok k hk => sent_in_sequence sorter cap timeout events hs hok hk
      ahead := by
        intro hok x hx _ heq
        have hlt := Int64.lt_iff_toInt_lt.mp (run_ahead sorter cap timeout events hok x hx)
        rw [heq] at hlt
        exact lt_irrefl _ hlt }

/-- A queue that is closed while its third item waits for the second one. -/
def closedTooEarly : List (Event String) :=
  [.queueItem "session1" 1 "item1" 0 0, .queueItem "session1" 3 "item3" 0 0, .close]

/-- **An accepted item may never be received:** it was still buffered at `Close`. -/
theorem buffered_item_is_dropped :
    (∃ x ∈ (after SliceSort.insertion 10 200 closedTooEarly).accepted, x.data = "item3") ∧
    ∀ later, "item3" ∉
      (after SliceSort.insertion 10 200 (closedTooEarly ++ later)).received := by
  refine ⟨by decide +kernel, ?_⟩
  intro later hmem
  have hsent : (after SliceSort.insertion 10 200 (closedTooEarly ++ later)).sent =
      (after SliceSort.insertion 10 200 closedTooEarly).sent := by
    rw [after, Runs.run_append]
    exact closed_sends_nothing _ (by decide +kernel) later
  have hflow := (run_accounted SliceSort.insertion 10 200 (closedTooEarly ++ later)).flow
  have hin : "item3" ∈ (after SliceSort.insertion 10 200 closedTooEarly).sent.map
      QueuedItem.data := by
    rw [← hsent, after, ← hflow]
    exact List.mem_append_left _ hmem
  exact absurd hin (by decide +kernel)

end QuickReorderQueue

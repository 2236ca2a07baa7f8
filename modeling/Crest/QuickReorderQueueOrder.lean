import Crest.QuickReorderQueueRuns

/-!
# The order in which a reorder queue sends

Three facts about the order of the sent items.

* `sessions_separate`: when a session is first seen, everything accepted before has been
  sent before the first of its items, whatever the clocks do.
* `sent_in_sequence`: while the clock gives each new session a later time than the ones
  before, a session whose items arrive while it is the newest one, with numbers `1 .. k` in
  any order and no timeout in between, comes out as `1 .. k`.
* `run_ahead`: while in addition no number is accepted twice and no timeout stops right
  before the number it makes the next one, no buffered item carries the next number.
-/

namespace QuickReorderQueue

open scoped List

variable {α : Type*}

section Frames

theorem drain_frame (l : List (QueuedItem α)) (q : QuickReorderQueue α) :
    (q.drain l).sessionOrder = q.sessionOrder ∧
    (q.drain l).currentSessionId = q.currentSessionId := by
  induction l generalizing q with
  | nil => exact ⟨rfl, rfl⟩
  | cons item rest ih =>
    by_cases hnext : item.sessionId = q.currentSessionId ∧ item.seqNum = q.nextSeqNum
    · rw [drain, if_pos hnext]
      exact ih { q.send item with nextSeqNum := q.nextSeqNum + 1 }
    · rw [drain, if_neg hnext]
      exact ⟨rfl, rfl⟩

variable (sorter : SliceSort (QueuedItem α))

theorem placeItem_frame (q : QuickReorderQueue α) (item : QueuedItem α) :
    (placeItem sorter q item).sessionOrder = q.sessionOrder ∧
    (placeItem sorter q item).currentSessionId = q.currentSessionId := by
  unfold placeItem
  dsimp only
  split
  · exact ⟨rfl, rfl⟩
  split
  · unfold processBuffer
    split
    · exact ⟨rfl, rfl⟩
    · exact drain_frame _ { q.send item with nextSeqNum := q.nextSeqNum + 1 }
  · unfold ensureTimer
    split <;> exact ⟨rfl, rfl⟩

theorem sendTimedOut_frame (q : QuickReorderQueue α) (item : QueuedItem α) :
    (q.sendTimedOut item).sessionOrder = q.sessionOrder ∧
    (q.sendTimedOut item).currentSessionId = q.currentSessionId := by
  unfold sendTimedOut
  dsimp only
  split <;> exact ⟨rfl, rfl⟩

theorem foldl_sendTimedOut_frame (items : List (QueuedItem α)) (q : QuickReorderQueue α) :
    (items.foldl sendTimedOut q).sessionOrder = q.sessionOrder ∧
    (items.foldl sendTimedOut q).currentSessionId = q.currentSessionId := by
  induction items generalizing q with
  | nil => exact ⟨rfl, rfl⟩
  | cons item items ih =>
    obtain ⟨hso, hcur⟩ := sendTimedOut_frame q item
    obtain ⟨hso', hcur'⟩ := ih (q.sendTimedOut item)
    exact ⟨hso'.trans hso, hcur'.trans hcur⟩

theorem onTimeout_frame (q : QuickReorderQueue α) (now : Int) :
    (q.onTimeout sorter now).sessionOrder = q.sessionOrder ∧
    (q.onTimeout sorter now).currentSessionId = q.currentSessionId := by
  have hrearm : ∀ q' : QuickReorderQueue α, (q'.rearm now).sessionOrder = q'.sessionOrder ∧
      (q'.rearm now).currentSessionId = q'.currentSessionId := by
    intro q'
    unfold rearm
    split <;> exact ⟨rfl, rfl⟩
  unfold onTimeout
  split
  · exact ⟨rfl, rfl⟩
  split
  · exact ⟨rfl, rfl⟩
  · rw [(hrearm _).1, (hrearm _).2]
    unfold sendTimedOutItems
    dsimp only
    split
    · exact ⟨rfl, rfl⟩
    · exact foldl_sendTimedOut_frame _ { q with timer := none }

theorem close_frame (q : QuickReorderQueue α) :
    q.close.sessionOrder = q.sessionOrder ∧
    q.close.currentSessionId = q.currentSessionId ∧
    q.close.nextSeqNum = q.nextSeqNum ∧ q.close.buffer = q.buffer ∧
    q.close.sent = q.sent ∧ q.close.accepted = q.accepted := by
  unfold close
  split <;> exact ⟨rfl, rfl, rfl, rfl, rfl, rfl⟩

theorem receive_frame (q : QuickReorderQueue α) :
    q.receive.sessionOrder = q.sessionOrder ∧
    q.receive.currentSessionId = q.currentSessionId ∧
    q.receive.nextSeqNum = q.nextSeqNum ∧ q.receive.buffer = q.buffer ∧
    q.receive.sent = q.sent ∧ q.receive.accepted = q.accepted := by
  unfold receive
  split <;> exact ⟨rfl, rfl, rfl, rfl, rfl, rfl⟩

end Frames

section Sessions

variable (sorter : SliceSort (QueuedItem α))

theorem ensureSessionTs_cases (q : QuickReorderQueue α) (sessionId : String) (ts : Int) :
    (q.ensureSessionTs sorter sessionId ts = q ∧
      (sessionId = "" ∨ q.sessionOrder.has sessionId = true)) ∨
    (sessionId ≠ "" ∧ q.sessionOrder.has sessionId = false ∧
      (q.ensureSessionTs sorter sessionId ts).sessionOrder = q.sessionOrder.set sessionId ts ∧
      (q.ensureSessionTs sorter sessionId ts).currentSessionId = sessionId ∧
      (q.ensureSessionTs sorter sessionId ts).nextSeqNum = 1 ∧
      (q.ensureSessionTs sorter sessionId ts).buffer = []) := by
  have hflush := flushBuffer_frame sorter
    { q with sessionOrder := q.sessionOrder.set sessionId ts }
  have hempty := (flushBuffer_moves sorter
    { q with sessionOrder := q.sessionOrder.set sessionId ts }).2
  unfold ensureSessionTs
  split
  next hs => exact Or.inl ⟨rfl, Or.inl hs⟩
  next hs =>
      split
      next hhas => exact Or.inl ⟨rfl, Or.inr hhas⟩
      next hhas =>
          exact Or.inr ⟨hs, by simpa using hhas, hflush.1, rfl, rfl, hempty⟩

/-- Every accepted item has a session that was seen, or none. -/
def Seen (q : QuickReorderQueue α) : Prop :=
  ∀ x ∈ q.accepted, x.sessionId = "" ∨ q.sessionOrder.has x.sessionId = true

theorem ensureSessionTs_seen (q : QuickReorderQueue α) (sessionId : String) (ts : Int) :
    (sessionId = "" ∨
      (q.ensureSessionTs sorter sessionId ts).sessionOrder.has sessionId = true) ∧
    ∀ s, q.sessionOrder.has s = true →
      (q.ensureSessionTs sorter sessionId ts).sessionOrder.has s = true := by
  rcases ensureSessionTs_cases sorter q sessionId ts with ⟨hsame, hseen⟩ |
    ⟨-, -, hso, -, -, -⟩
  · rw [hsame]
    exact ⟨hseen, fun s hs => hs⟩
  · rw [hso]
    refine ⟨Or.inr (by simp [JsMap.has]), ?_⟩
    intro s hs
    by_cases hss : s = sessionId
    · simp [JsMap.has, hss]
    · simpa [JsMap.has, hss] using hs

variable {q : QuickReorderQueue α}

theorem Seen.step (h : Seen q) (e : Event α) :
    Seen (q.step sorter e) := by
  cases e with
  | queueItem sessionId seqNum data ts now =>
    rcases queueItem_cases sorter q sessionId seqNum data ts now with hsame |
      ⟨-, -, hplaced⟩
    · rw [QuickReorderQueue.step, hsame]
      exact h
    · obtain ⟨hitem, hold⟩ := ensureSessionTs_seen sorter q sessionId ts
      rw [QuickReorderQueue.step, hplaced]
      intro x hx
      dsimp only at hx ⊢
      rw [(placeItem_frame sorter _ _).1]
      rcases List.mem_append.mp hx with hx | hx
      · exact (h x hx).imp_right (hold x.sessionId)
      · rw [List.mem_singleton] at hx
        subst hx
        exact hitem
  | onTimeout now =>
    obtain ⟨items, hs, -⟩ := onTimeout_moves sorter q now
    rw [QuickReorderQueue.step, Seen, hs.accepted, (onTimeout_frame sorter q now).1]
    exact h
  | close =>
    rw [QuickReorderQueue.step, Seen, (close_frame q).1, (close_frame q).2.2.2.2.2]
    exact h
  | receive =>
    rw [QuickReorderQueue.step, Seen, (receive_frame q).1, (receive_frame q).2.2.2.2.2]
    exact h

theorem step_sends (q : QuickReorderQueue α) (e : Event α) :
    ∃ items, (q.step sorter e).sent = q.sent ++ items := by
  cases e with
  | queueItem sessionId seqNum data ts now =>
    rcases queueItem_cases sorter q sessionId seqNum data ts now with hsame |
      ⟨-, -, hplaced⟩
    · exact ⟨[], by rw [QuickReorderQueue.step, hsame, List.append_nil]⟩
    · obtain ⟨items, hs, -⟩ := (ensureSessionTs_moves sorter q sessionId ts).trans
        (placeItem_moves sorter _ ⟨sessionId, seqNum, data, now⟩)
      exact ⟨items, by rw [QuickReorderQueue.step, hplaced]; exact hs.sent⟩
  | onTimeout now =>
    obtain ⟨items, hs, -⟩ := onTimeout_moves sorter q now
    exact ⟨items, hs.sent⟩
  | close => exact ⟨[], by rw [QuickReorderQueue.step, (close_frame q).2.2.2.2.1]; simp⟩
  | receive => exact ⟨[], by rw [QuickReorderQueue.step, (receive_frame q).2.2.2.2.1]; simp⟩

theorem step_accepts (q : QuickReorderQueue α) (e : Event α) :
    ∃ items, (q.step sorter e).accepted = q.accepted ++ items := by
  cases e with
  | queueItem sessionId seqNum data ts now =>
    rcases queueItem_cases sorter q sessionId seqNum data ts now with hsame |
      ⟨-, -, hplaced⟩
    · exact ⟨[], by rw [QuickReorderQueue.step, hsame, List.append_nil]⟩
    · exact ⟨_, by rw [QuickReorderQueue.step, hplaced]⟩
  | onTimeout now =>
    obtain ⟨items, hs, -⟩ := onTimeout_moves sorter q now
    exact ⟨[], by rw [QuickReorderQueue.step, hs.accepted, List.append_nil]⟩
  | close => exact ⟨[], by rw [QuickReorderQueue.step, (close_frame q).2.2.2.2.2]; simp⟩
  | receive => exact ⟨[], by rw [QuickReorderQueue.step, (receive_frame q).2.2.2.2.2]; simp⟩

/-- The sent items split where session `t` begins, and all of `earlier` comes before. -/
def Separated (t : String) (earlier : List (QueuedItem α)) (q : QuickReorderQueue α) : Prop :=
  ∃ before after, q.sent = before ++ after ∧ (∀ x ∈ before, x.sessionId ≠ t) ∧
    earlier <+~ before

/-- Until session `t` begins, everything sent belongs before it. -/
def Apart (t : String) (earlier : List (QueuedItem α)) (q : QuickReorderQueue α) : Prop :=
  (q.sessionOrder.has t = false ∧ earlier <+~ q.accepted) ∨ Separated t earlier q

variable {t : String}

theorem Seen.not_accepted (h : Seen q) (ht : t ≠ "") (hnew : q.sessionOrder.has t = false) :
    ∀ x ∈ q.accepted, x.sessionId ≠ t := by
  intro x hx hxt
  rcases h x hx with hnil | hhas
  · exact ht (hxt.symm.trans hnil)
  · rw [hxt, hnew] at hhas
    exact absurd hhas (by simp)

variable {earlier : List (QueuedItem α)}

theorem separated_of_begins (hacc : Accounted q) (hseen : Seen q) (ht : t ≠ "")
    (hnew : q.sessionOrder.has t = false) (hearlier : earlier <+~ q.accepted)
    (item : QueuedItem α) (ts : Int)
    (hbegins : (q.ensureSessionTs sorter item.sessionId ts).sessionOrder.has t = true) :
    Separated t earlier
      (placeItem sorter (q.ensureSessionTs sorter item.sessionId ts) item) := by
  rcases ensureSessionTs_cases sorter q item.sessionId ts with ⟨hsame, -⟩ |
    ⟨-, -, -, -, -, hempty⟩
  · rw [hsame, hnew] at hbegins
    exact absurd hbegins (by simp)
  · obtain ⟨flushed, hs, hp⟩ := ensureSessionTs_moves sorter q item.sessionId ts
    obtain ⟨items, hs', -⟩ :=
      placeItem_moves sorter (q.ensureSessionTs sorter item.sessionId ts) item
    have hall : (q.sent ++ flushed).Perm q.accepted := by
      rw [hempty, List.append_nil, List.append_nil] at hp
      exact (hp.append_left q.sent).trans hacc.placed
    refine ⟨q.sent ++ flushed, items, by rw [hs'.sent, hs.sent], ?_, ?_⟩
    · intro x hx
      exact hseen.not_accepted ht hnew x (hall.mem_iff.mp hx)
    · exact hearlier.trans hall.symm.subperm

theorem Apart.step (hacc : Accounted q) (hseen : Seen q) (ht : t ≠ "")
    (h : Apart t earlier q) (e : Event α) :
    Apart t earlier (q.step sorter e) := by
  rcases h with ⟨hnew, hearlier⟩ | ⟨before, after, hsplit, hbefore, hsub⟩
  · obtain ⟨items, haccepted⟩ := step_accepts sorter q e
    have hgrow : earlier <+~ (q.step sorter e).accepted := by
      rw [haccepted]
      exact hearlier.trans (List.sublist_append_left _ _).subperm
    cases hnew' : (q.step sorter e).sessionOrder.has t with
    | false => exact Or.inl ⟨hnew', hgrow⟩
    | true =>
      refine Or.inr ?_
      cases e with
      | queueItem sessionId seqNum data ts now =>
        rcases queueItem_cases sorter q sessionId seqNum data ts now with hsame |
          ⟨-, -, hplaced⟩
        · rw [QuickReorderQueue.step, hsame, hnew] at hnew'
          exact absurd hnew' (by simp)
        · rw [QuickReorderQueue.step, hplaced] at hnew' ⊢
          dsimp only at hnew'
          rw [(placeItem_frame sorter _ _).1] at hnew'
          exact separated_of_begins sorter hacc hseen ht hnew hearlier
            ⟨sessionId, seqNum, data, now⟩ ts hnew'
      | onTimeout now =>
        rw [QuickReorderQueue.step, (onTimeout_frame sorter q now).1, hnew] at hnew'
        exact absurd hnew' (by simp)
      | close =>
        rw [QuickReorderQueue.step, (close_frame q).1, hnew] at hnew'
        exact absurd hnew' (by simp)
      | receive =>
        rw [QuickReorderQueue.step, (receive_frame q).1, hnew] at hnew'
        exact absurd hnew' (by simp)
  · obtain ⟨items, hsent⟩ := step_sends sorter q e
    exact Or.inr ⟨before, after ++ items, by rw [hsent, hsplit, List.append_assoc],
      hbefore, hsub⟩

theorem run_seen (cap : Nat) (timeout : Int) (events : List (Event α)) :
    Seen (Runs.run (step sorter) (make cap timeout) events) := by
  refine Runs.run_invariant (step sorter) Seen (fun _ e h => h.step sorter e) ?_ events
  intro x hx
  simp [make] at hx

/-- **Sessions come out apart.**  When a session has not been seen yet, whatever has been
accepted so far is sent before the first item of that session. -/
theorem sessions_separate (cap : Nat) (timeout : Int) (events later : List (Event α))
    (ht : t ≠ "")
    (hnew : (Runs.run (step sorter) (make cap timeout) events).sessionOrder.has t = false) :
    ∃ before after,
      (Runs.run (step sorter) (make cap timeout) (events ++ later)).sent = before ++ after ∧
      (∀ x ∈ before, x.sessionId ≠ t) ∧
      ((∃ x ∈ after, x.sessionId = t) →
        (Runs.run (step sorter) (make cap timeout) events).accepted <+~ before) := by
  have hend := Runs.run_invariant (step sorter)
    (fun q => Accounted q ∧ Seen q ∧
      Apart t (Runs.run (step sorter) (make cap timeout) events).accepted q)
    (by intro q e h
        obtain ⟨hacc, hseen, hapart⟩ := h
        exact ⟨hacc.step sorter e, hseen.step sorter e,
          Apart.step sorter hacc hseen ht hapart e⟩)
    ⟨run_accounted sorter cap timeout events, run_seen sorter cap timeout events,
      Or.inl ⟨hnew, List.Subperm.refl _⟩⟩
    later
  rw [Runs.run_append]
  obtain ⟨hacc, hseen, ⟨hnew', -⟩ | ⟨before, after, hsplit, hbefore, hsub⟩⟩ := hend
  · refine ⟨_, [], (List.append_nil _).symm, ?_, by simp⟩
    intro x hx
    exact hseen.not_accepted ht hnew' x
      (hacc.placed.mem_iff.mp (List.mem_append_left _ hx))
  · exact ⟨before, after, hsplit, hbefore, fun _ => hsub⟩

end Sessions

end QuickReorderQueue

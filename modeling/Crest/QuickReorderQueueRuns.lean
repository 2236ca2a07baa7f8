import Crest.QuickReorderQueue
import Crest.Runs

/-!
# Where the items of a reorder queue are

Whatever an operation does, it sends some items on the channel and leaves the others in the
buffer: `Moves` says so once, for each function of the queue and then for every step.  Two
facts about all runs follow.  Each accepted item is in exactly one place, the channel's
history or the buffer; and no send ever meets a full channel, because an item is only
accepted while the buffer and the channel together leave room for it.
-/

namespace QuickReorderQueue

open scoped List

variable {α : Type*}

/-- `q'` comes from `q` by sending `items`, and the channel had room for them if there was
room for all of them at the start. -/
structure Sends (q : QuickReorderQueue α) (items : List (QueuedItem α))
    (q' : QuickReorderQueue α) : Prop where
  outCh : q'.outCh = q.outCh ++ items.map QueuedItem.data
  sent : q'.sent = q.sent ++ items
  received : q'.received = q.received
  accepted : q'.accepted = q.accepted
  cap : q'.cap = q.cap
  closed : q'.closed = q.closed
  blocked : q.blocked = false → q.outCh.length + items.length ≤ q.cap → q'.blocked = false

theorem Sends.refl (q : QuickReorderQueue α) : Sends q [] q where
  outCh := by simp
  sent := by simp
  received := rfl
  accepted := rfl
  cap := rfl
  closed := rfl
  blocked h _ := h

variable {q q' : QuickReorderQueue α}

theorem Sends.trans {q'' : QuickReorderQueue α} {items items' : List (QueuedItem α)}
    (h : Sends q items q') (h' : Sends q' items' q'') :
    Sends q (items ++ items') q'' where
  outCh := by rw [h'.outCh, h.outCh, List.map_append, List.append_assoc]
  sent := by rw [h'.sent, h.sent, List.append_assoc]
  received := h'.received.trans h.received
  accepted := h'.accepted.trans h.accepted
  cap := h'.cap.trans h.cap
  closed := h'.closed.trans h.closed
  blocked := by
    intro hq hroom
    rw [List.length_append] at hroom
    have hq' := h.blocked hq (by omega)
    refine h'.blocked hq' ?_
    rw [h.outCh, h.cap, List.length_append, List.length_map]
    omega

theorem sends_send (q : QuickReorderQueue α) (item : QueuedItem α) :
    Sends q [item] (q.send item) where
  outCh := rfl
  sent := rfl
  received := rfl
  accepted := rfl
  cap := rfl
  closed := rfl
  blocked := by
    intro hq hroom
    have hlt : ¬ q.cap ≤ q.outCh.length := by
      rw [List.length_singleton] at hroom
      omega
    simp [send, hq, hlt]

theorem sends_sendTimedOut (q : QuickReorderQueue α) (item : QueuedItem α) :
    Sends q [item] (q.sendTimedOut item) := by
  have h := sends_send q item
  unfold sendTimedOut
  dsimp only
  split
  · exact ⟨h.outCh, h.sent, h.received, h.accepted, h.cap, h.closed, h.blocked⟩
  · exact h

theorem sends_foldl {f : QuickReorderQueue α → QueuedItem α → QuickReorderQueue α}
    (hf : ∀ q item, Sends q [item] (f q item)) (items : List (QueuedItem α))
    (q : QuickReorderQueue α) :
    Sends q items (items.foldl f q) := by
  induction items generalizing q with
  | nil => exact Sends.refl q
  | cons item items ih => exact (hf q item).trans (ih (f q item))

theorem foldl_send_frame (items : List (QueuedItem α)) (q : QuickReorderQueue α) :
    (items.foldl send q).sessionOrder = q.sessionOrder ∧
    (items.foldl send q).currentSessionId = q.currentSessionId ∧
    (items.foldl send q).nextSeqNum = q.nextSeqNum ∧
    (items.foldl send q).timeout = q.timeout := by
  induction items generalizing q with
  | nil => exact ⟨rfl, rfl, rfl, rfl⟩
  | cons item items ih => exact ih (q.send item)

/-- `q'` comes from `q` by adding the items `extra` and sending some of those at hand. -/
def Moves (q : QuickReorderQueue α) (extra : List (QueuedItem α))
    (q' : QuickReorderQueue α) : Prop :=
  ∃ items, Sends q items q' ∧ (items ++ q'.buffer).Perm (q.buffer ++ extra)

theorem Moves.trans {q'' : QuickReorderQueue α} {extra extra' : List (QueuedItem α)}
    (h : Moves q extra q') (h' : Moves q' extra' q'') :
    Moves q (extra ++ extra') q'' := by
  obtain ⟨items, hs, hp⟩ := h
  obtain ⟨items', hs', hp'⟩ := h'
  refine ⟨items ++ items', hs.trans hs', ?_⟩
  calc (items ++ items') ++ q''.buffer
      _ = items ++ (items' ++ q''.buffer) := by rw [List.append_assoc]
      _ ~ items ++ (q'.buffer ++ extra') := hp'.append_left items
      _ = (items ++ q'.buffer) ++ extra' := by rw [List.append_assoc]
      _ ~ (q.buffer ++ extra) ++ extra' := hp.append_right extra'
      _ = q.buffer ++ (extra ++ extra') := by rw [List.append_assoc]

theorem moves_of_same (h : Sends q [] q') (hb : q'.buffer = q.buffer) :
    Moves q [] q' :=
  ⟨[], h, by rw [hb]; simp⟩

variable (sorter : SliceSort (QueuedItem α))

theorem sortedBuffer_perm (q : QuickReorderQueue α) : (q.sortedBuffer sorter).Perm q.buffer :=
  sorter.perm _ _

theorem flushBuffer_moves (q : QuickReorderQueue α) :
    Moves q [] (q.flushBuffer sorter) ∧ (q.flushBuffer sorter).buffer = [] := by
  unfold flushBuffer
  split
  next hb => exact ⟨moves_of_same (Sends.refl q) rfl, hb⟩
  next =>
      have h := sends_foldl sends_send (q.sortedBuffer sorter) q
      refine ⟨⟨q.sortedBuffer sorter, ?_, ?_⟩, rfl⟩
      · exact ⟨h.outCh, h.sent, h.received, h.accepted, h.cap, h.closed, h.blocked⟩
      · simpa using q.sortedBuffer_perm sorter

theorem flushBuffer_frame (q : QuickReorderQueue α) :
    (q.flushBuffer sorter).sessionOrder = q.sessionOrder ∧
    (q.flushBuffer sorter).timeout = q.timeout := by
  unfold flushBuffer
  split
  · exact ⟨rfl, rfl⟩
  · obtain ⟨hso, -, -, ht⟩ := foldl_send_frame (q.sortedBuffer sorter) q
    exact ⟨hso, ht⟩

theorem ensureSessionTs_moves (q : QuickReorderQueue α) (sessionId : String) (ts : Int) :
    Moves q [] (q.ensureSessionTs sorter sessionId ts) := by
  unfold ensureSessionTs
  split
  · exact moves_of_same (Sends.refl q) rfl
  split
  · exact moves_of_same (Sends.refl q) rfl
  · obtain ⟨⟨items, hs, hp⟩, -⟩ := flushBuffer_moves sorter
      { q with sessionOrder := q.sessionOrder.set sessionId ts }
    exact ⟨items,
      ⟨hs.outCh, hs.sent, hs.received, hs.accepted, hs.cap, hs.closed, hs.blocked⟩, hp⟩

theorem drain_moves (l : List (QueuedItem α)) (q : QuickReorderQueue α) :
    ∃ items rest, l = items ++ rest ∧ Sends q items (q.drain l) ∧
      (q.drain l).buffer = rest := by
  induction l generalizing q with
  | nil =>
    have h := Sends.refl q
    exact ⟨[], [], rfl,
      ⟨h.outCh, h.sent, h.received, h.accepted, h.cap, h.closed, h.blocked⟩, rfl⟩
  | cons item rest ih =>
    by_cases hnext : item.sessionId = q.currentSessionId ∧ item.seqNum = q.nextSeqNum
    · obtain ⟨items, rest', hsplit, hs, hb⟩ :=
        ih { q.send item with nextSeqNum := q.nextSeqNum + 1 }
      have h := sends_send q item
      have hone : Sends q [item] { q.send item with nextSeqNum := q.nextSeqNum + 1 } :=
        ⟨h.outCh, h.sent, h.received, h.accepted, h.cap, h.closed, h.blocked⟩
      rw [drain, if_pos hnext]
      exact ⟨item :: items, rest', by rw [hsplit]; rfl, hone.trans hs, hb⟩
    · have h := Sends.refl q
      rw [drain, if_neg hnext]
      exact ⟨[], item :: rest, rfl,
        ⟨h.outCh, h.sent, h.received, h.accepted, h.cap, h.closed, h.blocked⟩, rfl⟩

theorem processBuffer_moves (q : QuickReorderQueue α) :
    Moves q [] (q.processBuffer sorter) := by
  unfold processBuffer
  split
  · exact moves_of_same (Sends.refl q) rfl
  · obtain ⟨items, rest, hsplit, hs, hb⟩ := drain_moves (q.sortedBuffer sorter) q
    refine ⟨items, hs, ?_⟩
    rw [hb, ← hsplit, List.append_nil]
    exact q.sortedBuffer_perm sorter

theorem ensureTimer_moves (q : QuickReorderQueue α) (now : Int) :
    Moves q [] (q.ensureTimer now) ∧ (q.ensureTimer now).timer ≠ none := by
  unfold ensureTimer
  cases htimer : q.timer with
  | some d => exact ⟨moves_of_same (Sends.refl q) rfl, by simp [htimer]⟩
  | none =>
    have h := Sends.refl q
    exact ⟨moves_of_same
      ⟨h.outCh, h.sent, h.received, h.accepted, h.cap, h.closed, h.blocked⟩ rfl, by simp⟩

theorem placeItem_moves (q : QuickReorderQueue α) (item : QueuedItem α) :
    Moves q [item] (placeItem sorter q item) := by
  have hsend := sends_send q item
  unfold placeItem
  dsimp only
  split
  · exact ⟨[item], hsend, List.perm_append_comm⟩
  split
  · have hone : Moves q [item] { q.send item with nextSeqNum := q.nextSeqNum + 1 } :=
      ⟨[item], ⟨hsend.outCh, hsend.sent, hsend.received, hsend.accepted, hsend.cap,
        hsend.closed, hsend.blocked⟩, List.perm_append_comm⟩
    simpa using hone.trans (processBuffer_moves sorter _)
  · have h := Sends.refl q
    have hbuffer : Moves q [item] { q with buffer := q.buffer ++ [item] } :=
      ⟨[], ⟨h.outCh, h.sent, h.received, h.accepted, h.cap, h.closed, h.blocked⟩,
        List.Perm.refl _⟩
    simpa using hbuffer.trans (ensureTimer_moves _ item.timestamp).1

theorem rearm_moves (q : QuickReorderQueue α) (now : Int) : Moves q [] (q.rearm now) := by
  have h := Sends.refl q
  unfold rearm
  split
  · exact moves_of_same h rfl
  · exact moves_of_same
      ⟨h.outCh, h.sent, h.received, h.accepted, h.cap, h.closed, h.blocked⟩ rfl

theorem rearm_buffer (q : QuickReorderQueue α) (now : Int) :
    (q.rearm now).buffer = q.buffer := by
  unfold rearm
  split <;> rfl

theorem rearm_timer (q : QuickReorderQueue α) (now : Int) (h : q.buffer ≠ []) :
    (q.rearm now).timer ≠ none := by
  unfold rearm
  split
  next hb => exact absurd hb h
  next => simp

theorem sendTimedOutItems_moves (q : QuickReorderQueue α) (now : Int) :
    Moves q [] (q.sendTimedOutItems sorter now) := by
  have hperm := q.sortedBuffer_perm sorter
  unfold sendTimedOutItems
  dsimp only
  split
  · have h := Sends.refl q
    exact ⟨[], ⟨h.outCh, h.sent, h.received, h.accepted, h.cap, h.closed, h.blocked⟩,
      by simpa using hperm⟩
  next i hi =>
      have h := sends_foldl sends_sendTimedOut ((q.sortedBuffer sorter).take (i + 1)) q
      refine ⟨(q.sortedBuffer sorter).take (i + 1),
        ⟨h.outCh, h.sent, h.received, h.accepted, h.cap, h.closed, h.blocked⟩, ?_⟩
      simpa using hperm

theorem onTimeout_moves (q : QuickReorderQueue α) (now : Int) :
    Moves q [] (q.onTimeout sorter now) := by
  have h := Sends.refl q
  have htimer : Moves q [] { q with timer := none } := moves_of_same
    ⟨h.outCh, h.sent, h.received, h.accepted, h.cap, h.closed, h.blocked⟩ rfl
  unfold onTimeout
  split
  · exact moves_of_same h rfl
  split
  · exact htimer
  · exact (htimer.trans (sendTimedOutItems_moves sorter _ now)).trans (rearm_moves _ now)

/-- While the queue is open, a timer is armed for what the buffer holds. -/
def Armed (q : QuickReorderQueue α) : Prop :=
  q.closed = false → q.buffer ≠ [] → q.timer ≠ none

theorem ensureSessionTs_armed (h : Armed q) (sessionId : String) (ts : Int) :
    Armed (q.ensureSessionTs sorter sessionId ts) := by
  have hempty := (flushBuffer_moves sorter
    { q with sessionOrder := q.sessionOrder.set sessionId ts }).2
  unfold ensureSessionTs
  split
  · exact h
  split
  · exact h
  · intro _ hbuffer
    exact absurd hempty hbuffer

theorem drain_timer (l : List (QueuedItem α)) (q : QuickReorderQueue α) :
    (q.drain l).timer = q.timer := by
  induction l generalizing q with
  | nil => rfl
  | cons item rest ih =>
    by_cases hnext : item.sessionId = q.currentSessionId ∧ item.seqNum = q.nextSeqNum
    · rw [drain, if_pos hnext, ih]
      rfl
    · rw [drain, if_neg hnext]

theorem processBuffer_armed {q : QuickReorderQueue α} (h : Armed q) :
    Armed (q.processBuffer sorter) := by
  obtain ⟨items, rest, -, hs, -⟩ := drain_moves (q.sortedBuffer sorter) q
  unfold processBuffer
  split
  · exact h
  next hb =>
      intro hopen _
      rw [drain_timer]
      exact h (hs.closed ▸ hopen) hb

theorem placeItem_armed (h : Armed q) (item : QueuedItem α) :
    Armed (placeItem sorter q item) := by
  unfold placeItem
  dsimp only
  split
  · exact h
  split
  · refine processBuffer_armed sorter ?_
    exact h
  · intro _ _
    exact (ensureTimer_moves _ _).2

theorem onTimeout_armed (h : Armed q) (now : Int) :
    Armed (q.onTimeout sorter now) := by
  unfold onTimeout
  split
  · exact h
  split
  next hb =>
      intro _ hbuffer
      exact absurd hb hbuffer
  · intro _ hbuffer
    rw [rearm_buffer] at hbuffer
    exact rearm_timer _ now hbuffer

/-- Where the items are, after any run. -/
structure Accounted (q : QuickReorderQueue α) : Prop where
  /-- What was sent has been received or is in the channel, in order. -/
  flow : q.received ++ q.outCh = q.sent.map QueuedItem.data
  /-- Every accepted item was sent once or is in the buffer. -/
  placed : (q.sent ++ q.buffer).Perm q.accepted
  /-- The channel has room for all that is buffered. -/
  room : q.buffer.length + q.outCh.length ≤ q.cap
  /-- No send met a full channel. -/
  unblocked : q.blocked = false
  armed : Armed q

theorem make_accounted (cap : Nat) (timeout : Int) :
    Accounted (make cap timeout : QuickReorderQueue α) where
  flow := rfl
  placed := List.Perm.refl _
  room := Nat.zero_le _
  unblocked := rfl
  armed _ h := absurd rfl h

theorem Accounted.moves {extra : List (QueuedItem α)} (h : Accounted q)
    (hroom : q.buffer.length + extra.length + q.outCh.length ≤ q.cap) (hm : Moves q extra q') :
    q'.received ++ q'.outCh = q'.sent.map QueuedItem.data ∧
    (q'.sent ++ q'.buffer).Perm (q.accepted ++ extra) ∧
    q'.buffer.length + q'.outCh.length ≤ q'.cap ∧
    q'.blocked = false := by
  obtain ⟨items, hs, hp⟩ := hm
  have hlen : items.length + q'.buffer.length = q.buffer.length + extra.length := by
    simpa using hp.length_eq
  refine ⟨?_, ?_, ?_, hs.blocked h.unblocked (by omega)⟩
  · rw [hs.received, hs.outCh, hs.sent, List.map_append, ← List.append_assoc, h.flow]
  · calc q'.sent ++ q'.buffer
        _ = q.sent ++ (items ++ q'.buffer) := by rw [hs.sent, List.append_assoc]
        _ ~ q.sent ++ (q.buffer ++ extra) := hp.append_left q.sent
        _ = (q.sent ++ q.buffer) ++ extra := by rw [List.append_assoc]
        _ ~ q.accepted ++ extra := h.placed.append_right extra
  · rw [hs.outCh, hs.cap, List.length_append, List.length_map]
    omega

theorem Accounted.receive {q : QuickReorderQueue α} (h : Accounted q) :
    Accounted q.receive := by
  unfold QuickReorderQueue.receive
  split
  · exact h
  next x rest hout =>
      have hflow := h.flow
      have hroom := h.room
      rw [hout] at hflow hroom
      exact
        { flow := by rw [← hflow]; simp
          placed := h.placed
          room := by simp only [List.length_cons] at hroom; dsimp only; omega
          unblocked := h.unblocked
          armed := h.armed }

theorem queueItem_cases (q : QuickReorderQueue α) (sessionId : String) (seqNum : Int64)
    (data : α) (ts now : Int) :
    (q.queueItem sorter sessionId seqNum data ts now).2 = q ∨
    q.closed = false ∧ q.buffer.length + q.outCh.length < q.cap ∧
      (q.queueItem sorter sessionId seqNum data ts now).2 =
        { placeItem sorter (q.ensureSessionTs sorter sessionId ts)
            ⟨sessionId, seqNum, data, now⟩ with
          accepted := q.accepted ++ [⟨sessionId, seqNum, data, now⟩] } := by
  obtain ⟨items, hs, -⟩ := (ensureSessionTs_moves sorter q sessionId ts).trans
    (placeItem_moves sorter _ ⟨sessionId, seqNum, data, now⟩)
  unfold queueItem
  split
  · exact Or.inl rfl
  next hopen =>
      split
      · exact Or.inl rfl
      next hroom =>
          refine Or.inr ⟨by simpa using hopen, by omega, ?_⟩
          dsimp only
          rw [hs.accepted]

theorem Accounted.step (h : Accounted q) (e : Event α) :
    Accounted (q.step sorter e) := by
  cases e with
  | queueItem sessionId seqNum data ts now =>
    rcases queueItem_cases sorter q sessionId seqNum data ts now with hsame |
      ⟨-, hroom, hplaced⟩
    · rw [QuickReorderQueue.step, hsame]
      exact h
    · have hm := (ensureSessionTs_moves sorter q sessionId ts).trans
        (placeItem_moves sorter _ ⟨sessionId, seqNum, data, now⟩)
      obtain ⟨hflow, hplace, hcap, hblocked⟩ := h.moves (by simp; omega) hm
      rw [QuickReorderQueue.step, hplaced]
      exact
        { flow := hflow
          placed := hplace
          room := hcap
          unblocked := hblocked
          armed := placeItem_armed sorter (ensureSessionTs_armed sorter h.armed _ _) _ }
  | onTimeout now =>
    have hm := onTimeout_moves sorter q now
    obtain ⟨hflow, hplace, hcap, hblocked⟩ := h.moves (by simpa using h.room) hm
    obtain ⟨items, hs, -⟩ := hm
    rw [List.append_nil, ← hs.accepted] at hplace
    exact
      { flow := hflow
        placed := hplace
        room := hcap
        unblocked := hblocked
        armed := onTimeout_armed sorter h.armed now }
  | close =>
    rw [QuickReorderQueue.step]
    unfold QuickReorderQueue.close
    split
    · exact h
    · exact ⟨h.flow, h.placed, h.room, h.unblocked, fun hopen => by simp at hopen⟩
  | receive => exact h.receive

/-- **Every accepted item is in one place, and no send blocks.** -/
theorem run_accounted (cap : Nat) (timeout : Int) (events : List (Event α)) :
    Accounted (Runs.run (step sorter) (make cap timeout) events) :=
  Runs.run_invariant (step sorter) Accounted (fun _ e h => h.step sorter e)
    (make_accounted cap timeout) events

theorem highestTimedOutIdx_of_all {now : Int} {l : List (QueuedItem α)}
    (hall : ∀ item ∈ l, q.timedOut now item) (hne : l ≠ []) :
    q.highestTimedOutIdx now l = some (l.length - 1) := by
  induction l with
  | nil => exact absurd rfl hne
  | cons item rest ih =>
    have hitem := hall item List.mem_cons_self
    rcases rest with - | ⟨next, rest⟩
    · simp [highestTimedOutIdx, hitem]
    · have hrest := ih (fun x hx => hall x (List.mem_cons_of_mem _ hx)) (by simp)
      rw [highestTimedOutIdx, hrest]
      simp

theorem onTimeout_sends_all {now : Int} (hopen : q.closed = false)
    (hall : ∀ item ∈ q.buffer, q.timedOut now item) :
    (q.onTimeout sorter now).buffer = [] := by
  have hclosed : ¬ q.closed = true := by simp [hopen]
  unfold onTimeout
  rw [if_neg hclosed]
  split
  next hb => exact hb
  next hb =>
      have hperm := sortedBuffer_perm sorter { q with timer := none }
      have hne : sortedBuffer sorter { q with timer := none } ≠ [] := by
        intro hnil
        rw [hnil] at hperm
        exact hb (List.nil_perm.mp hperm)
      have hidx : highestTimedOutIdx { q with timer := none } now
          (sortedBuffer sorter { q with timer := none }) = _ := highestTimedOutIdx_of_all
        (fun item hitem => hall item (hperm.mem_iff.mp hitem)) hne
      rw [rearm_buffer]
      unfold sendTimedOutItems
      dsimp only
      rw [hidx]
      dsimp only
      rw [List.drop_eq_nil_iff]
      omega

end QuickReorderQueue

import Crest.StreamManager

/-!
# Acknowledgements that are not accepted

`RecvAck` notes the greatest acknowledgement before it looks whether it can be one.  What is
behind the buffer's head is forgotten with the next one that counts.  What is ahead of all that
was sent makes the manager take later acknowledgements for stale.

Two managers are alike if they differ only in the greatest acknowledgements, and these are the
same or both behind the head.  No step tells such managers apart.
-/

namespace JobManager

open StreamClient

namespace CirBuf

theorem writeAvailable_keeps (cb : CirBuf) (data : List UInt8) :
    (cb.writeAvailable data).1.syncMode = cb.syncMode ∧
      cb.count ≤ (cb.writeAvailable data).1.count ∧
      (cb.syncMode = true → (cb.writeAvailable data).1.headPos = cb.headPos) := by
  induction data generalizing cb with
  | nil => exact ⟨rfl, Nat.le_refl _, fun _ => rfl⟩
  | cons b rest ih =>
    unfold writeAvailable
    split_ifs with hblocked
    · exact ⟨rfl, Nat.le_refl _, fun _ => rfl⟩
    · obtain ⟨hmode, hcount, hhead⟩ := ih (cb.writeByte b)
      have hgrows : cb.count ≤ (cb.writeByte b).count := by
        simp only [writeByte]
        split_ifs <;> omega
      refine ⟨hmode, Nat.le_trans hgrows hcount, ?_⟩
      intro hsync
      have hroom : (cb.count : Int) < cb.windowSize := by
        simp only [isBlocked, hsync, Bool.true_and, decide_eq_true_eq] at hblocked
        omega
      refine (hhead hsync).trans ?_
      simp only [headPos, writeByte, if_pos hroom]
      omega

theorem consume_keeps {cb next : CirBuf} {numBytes : Nat}
    (hnext : cb.consume numBytes = some next) :
    next.headPos = cb.headPos + numBytes ∧ next.count = cb.count - numBytes ∧
      numBytes ≤ cb.count ∧ next.syncMode = cb.syncMode := by
  unfold consume at hnext
  split_ifs at hnext with hmore
  cases hnext
  refine ⟨?_, rfl, Nat.le_of_not_lt hmore, rfl⟩
  simp only [headPos]
  omega

theorem headPos_le_setEffectiveWindow (cb : CirBuf) (syncMode : Bool) (windowSize : Int) :
    cb.headPos ≤ (cb.setEffectiveWindow syncMode windowSize).headPos := by
  simp only [setEffectiveWindow]
  split_ifs with hlarge hmany hmany
  all_goals
    simp only [headPos, Bool.and_eq_true, decide_eq_true_eq] at hmany ⊢
    omega

theorem length_peekDataAt (cb : CirBuf) (offset len : Nat) :
    (cb.peekDataAt offset len).length ≤ len ∧
      ((cb.peekDataAt offset len) ≠ [] →
        offset + (cb.peekDataAt offset len).length ≤ cb.count) := by
  unfold peekDataAt
  split_ifs with hnone hless
  · exact ⟨Nat.zero_le _, fun hne => absurd rfl hne⟩
  · rw [Ring.length_ring]
    exact ⟨Nat.le_refl _, fun _ => by omega⟩
  · rw [Ring.length_ring]
    exact ⟨by omega, fun _ => by omega⟩

end CirBuf

/-- A connection without what was noted of its acknowledgements. -/
def Connection.visible (c : Connection) : Connection := { c with acks := [] }

namespace Job

section Acks

/-- The acknowledgement is for the connected client's stream, and not its end. -/
def Concerns (s : Job) (ackPk : CommandStreamAckData) : Prop :=
  s.sm.connected = true ∧ ackPk.id = s.sm.streamId ∧ ackPk.fin = false

/-- The acknowledgement is not past the greatest one. -/
def Stale (s : Job) (ackPk : CommandStreamAckData) : Prop :=
  ackPk.seq < s.sm.maxAckedSeq ∨
    (ackPk.seq = s.sm.maxAckedSeq ∧ ackPk.rwnd ≤ s.sm.maxAckedRwnd)

/-- The acknowledgement is behind the buffer's head, or ahead of all that was sent. -/
def Rejects (s : Job) (ackPk : CommandStreamAckData) : Prop :=
  ackPk.seq < s.sm.buf.headPos ∨ s.sm.sentNotAcked < ackPk.seq - s.sm.buf.headPos

/-- The acknowledgement is accepted. -/
def Accepts (s : Job) (ackPk : CommandStreamAckData) : Prop :=
  s.holder = none ∧ s.Concerns ackPk ∧ ¬ s.Stale ackPk ∧ ¬ s.Rejects ackPk

/-- The acknowledgement is ahead of all that was sent, and becomes the greatest one. -/
def Misleads (s : Job) (ackPk : CommandStreamAckData) : Prop :=
  s.Concerns ackPk ∧ ¬ s.Stale ackPk ∧ s.sm.sentNotAcked < ackPk.seq - s.sm.buf.headPos

instance (s : Job) (ackPk : CommandStreamAckData) : Decidable (s.Concerns ackPk) :=
  inferInstanceAs (Decidable (_ ∧ _))

instance (s : Job) (ackPk : CommandStreamAckData) : Decidable (s.Stale ackPk) :=
  inferInstanceAs (Decidable (_ ∨ _))

instance (s : Job) (ackPk : CommandStreamAckData) : Decidable (s.Rejects ackPk) :=
  inferInstanceAs (Decidable (_ ∨ _))

instance (s : Job) (ackPk : CommandStreamAckData) : Decidable (s.Accepts ackPk) :=
  inferInstanceAs (Decidable (_ ∧ _))

instance (s : Job) (ackPk : CommandStreamAckData) : Decidable (s.Misleads ackPk) :=
  inferInstanceAs (Decidable (_ ∧ _))

/-- The bytes that may be sent and not acknowledged. -/
def window (s : Job) : Int := StreamManager.effectiveWindow s.sm.cwndSize s.sm.rwndSize

/-- The positions that are accepted in a run. -/
def acceptedSeqs (s : Job) : List Event → List Int
  | [] => []
  | e :: es =>
    (match e with
      | .recvAck ackPk => if s.Accepts ackPk then [ackPk.seq] else []
      | _ => []) ++ (s.step e).acceptedSeqs es

/-- Everything but the greatest acknowledgement and what was noted of others: the packets of
all connections, the buffer, and what happens next. -/
def visible (s : Job) : Job :=
  { s with
    sm := { s.sm with maxAckedSeq := 0, maxAckedRwnd := 0 }
    current := s.current.map Connection.visible
    past := s.past.map Connection.visible
    acked := [] }

end Acks

section Head

variable {s : Job}

@[simp] theorem sm_signal (s : Job) : s.signal.sm = s.sm := rfl

@[simp] theorem holder_signal (s : Job) : s.signal.holder = s.holder := rfl

theorem prepareNextPacket_cases (s : Job) :
    s.prepareNextPacket = { s with sender := .done } ∨
      s.prepareNextPacket = s.wait ∨
      (∃ event, s.prepareNextPacket =
        { s with sm := { s.sm with terminalEventSent := true } }.addPacket
          (s.sm.terminalPacket event)) ∨
      ∃ peekSize : Nat, s.prepareNextPacket = { s with holder := some (.peek peekSize) } ∧
        s.sm.connected = true ∧ (peekSize : Int) ≤ s.window - s.sm.sentNotAcked := by
  unfold prepareNextPacket
  simp only
  by_cases hdone : (s.sm.closed || s.sm.terminalEventAcked) = true
  · rw [if_pos hdone]
    exact .inl rfl
  rw [if_neg hdone]
  by_cases hconnected : (!s.sm.connected) = true
  · rw [if_pos hconnected]
    exact .inr (.inl rfl)
  rw [if_neg hconnected]
  by_cases hempty : s.sm.buf.count = 0
  · rw [if_pos hempty]
    cases s.sm.terminalEvent with
    | none => exact .inr (.inl rfl)
    | some event =>
      simp only
      split_ifs
      · exact .inr (.inl rfl)
      · exact .inr (.inr (.inl ⟨event, rfl⟩))
  rw [if_neg hempty]
  have hwindow : StreamManager.effectiveWindow s.sm.rwndSize s.sm.cwndSize = s.window := by
    simp only [window, StreamManager.effectiveWindow]
    split_ifs <;> omega
  rw [hwindow]
  by_cases hfull : s.window - s.sm.sentNotAcked ≤ 0
  · rw [if_pos hfull]
    exact .inr (.inl rfl)
  rw [if_neg hfull]
  refine .inr (.inr (.inr ⟨_, rfl, by simpa using hconnected, ?_⟩))
  split_ifs <;> omega

theorem prepareNextPacket_buf (s : Job) : s.prepareNextPacket.sm.buf = s.sm.buf := by
  obtain h | h | ⟨event, h⟩ | ⟨peekSize, h, -, -⟩ := prepareNextPacket_cases s <;>
    rw [h] <;> rfl

theorem headPos_le_proceed (s : Job) (holder : Holder) :
    s.sm.buf.headPos ≤ (s.proceed holder).sm.buf.headPos := by
  cases holder with
  | connectSize _ _ | peek _ =>
    simp only [proceed]
    split_ifs <;> exact le_refl _
  | connectConsume _ n | ackConsume _ n =>
    simp only [proceed]
    cases hconsume : s.sm.buf.consume n with
    | none => exact le_refl _
    | some buf =>
      have hhead := (CirBuf.consume_keeps hconsume).1
      show s.sm.buf.headPos ≤ buf.headPos
      omega
  | connectHead _ | packet _ => exact le_refl _
  | connectFinish req headPos => exact CirBuf.headPos_le_setEffectiveWindow _ _ _
  | ackFinish ackPk ackedBytes =>
    simp only [proceed]
    split_ifs <;> exact CirBuf.headPos_le_setEffectiveWindow _ _ _

theorem recvAck_buf (s : Job) (ackPk : CommandStreamAckData) :
    (s.recvAck ackPk).sm.buf = s.sm.buf := by
  unfold recvAck
  simp only
  split_ifs <;> rfl

/-- **No step takes the head back.** -/
theorem headPos_le_step (s : Job) (e : Event) :
    s.sm.buf.headPos ≤ (s.step e).sm.buf.headPos := by
  cases e with
  | ptyRead _ | signal | ptyEnd _ | close | sent =>
    simp only [step]
    split_ifs <;> exact le_refl _
  | write =>
    simp only [step]
    split_ifs
    · exact le_refl _
    · exact CirBuf.headPos_le_writeAvailable _ _
  | connect req =>
    simp only [step, connect]
    split_ifs <;> exact le_refl _
  | recvAck ackPk =>
    simp only [step]
    split_ifs
    · rw [recvAck_buf]
    · exact le_refl _
  | setRwndSize rwndSize =>
    simp only [step, setRwndSize]
    split_ifs
    · exact le_refl _
    · exact le_refl _
    · exact CirBuf.headPos_le_setEffectiveWindow _ _ _
    · exact le_refl _
  | disconnect =>
    simp only [step, clientDisconnected]
    generalize cirBufSize = windowSize
    split_ifs
    · exact le_refl _
    · exact CirBuf.headPos_le_setEffectiveWindow _ _ windowSize
    · exact le_refl _
  | prepare =>
    simp only [step]
    split_ifs
    · rw [prepareNextPacket_buf]
    · exact le_refl _
  | proceed =>
    simp only [step]
    cases s.holder with
    | none => exact le_refl _
    | some holder => exact headPos_le_proceed s holder

end Head

section Alike

variable {s s' : Job}

/-- The greatest acknowledgement. -/
def maxAcked (s : Job) : Int × Int := (s.sm.maxAckedSeq, s.sm.maxAckedRwnd)

/-- The manager with another greatest acknowledgement, and other notes of acknowledgements. -/
def noted (s : Job) (seq rwnd : Int) (current : Option Connection) (past : List Connection)
    (acked : List Int) : Job :=
  { s with
    sm := { s.sm with maxAckedSeq := seq, maxAckedRwnd := rwnd }
    current := current
    past := past
    acked := acked }

/-- The managers differ only in what was noted of acknowledgements. -/
def Same (s s' : Job) : Prop :=
  ∃ seq rwnd current past acked, s' = s.noted seq rwnd current past acked ∧
    current.map Connection.visible = s.current.map Connection.visible ∧
    past.map Connection.visible = s.past.map Connection.visible

theorem Same.visible (h : s.Same s') : s'.visible = s.visible := by
  obtain ⟨seq, rwnd, current, past, acked, rfl, hcurrent, hpast⟩ := h
  simp only [Job.visible, noted, hcurrent, hpast]

theorem Same.ite {t t' : Job} {c : Prop} {hdec hdec' : Decidable c} (hthen : c → s.Same s')
    (helse : ¬ c → t.Same t') :
    (@ite _ c hdec s t).Same (@ite _ c hdec' s' t') := by
  by_cases hc : c
  · rw [if_pos hc, if_pos hc]
    exact hthen hc
  · rw [if_neg hc, if_neg hc]
    exact helse hc

theorem Same.addPacket (h : s.Same s') (pk : CommandStreamData) :
    (s.addPacket pk).Same (s'.addPacket pk) := by
  obtain ⟨seq, rwnd, current, past, acked, rfl, hcurrent, hpast⟩ := h
  have hcommute : ∀ c : Option Connection,
      (c.map fun c => { c with packets := c.packets ++ [pk] }).map Connection.visible =
        (c.map Connection.visible).map fun c => { c with packets := c.packets ++ [pk] } := by
    intro c
    cases c <;> rfl
  refine ⟨seq, rwnd, _, past, acked, rfl, ?_, hpast⟩
  show (current.map _).map Connection.visible = (s.current.map _).map Connection.visible
  rw [hcommute, hcommute, hcurrent]

theorem Same.proceed (h : s.Same s') (holder : Holder) :
    (s.proceed holder).Same (s'.proceed holder) := by
  obtain ⟨seq, rwnd, current, past, acked, rfl, hcurrent, hpast⟩ := h
  cases holder with
  | connectSize _ _ | ackFinish _ _ | peek _ =>
    exact Same.ite (fun _ => ⟨seq, rwnd, current, past, acked, rfl, hcurrent, hpast⟩)
      fun _ => ⟨seq, rwnd, current, past, acked, rfl, hcurrent, hpast⟩
  | connectConsume _ n | ackConsume _ n =>
    simp only [Job.proceed, noted]
    cases s.sm.buf.consume n <;> exact ⟨seq, rwnd, current, past, _, rfl, hcurrent, hpast⟩
  | connectHead req => exact ⟨seq, rwnd, current, past, acked, rfl, hcurrent, hpast⟩
  | connectFinish req headPos => exact ⟨seq, rwnd, _, past, acked, rfl, rfl, hpast⟩
  | packet data =>
    have hsent : Same
        { s with sm := { s.sm with sentNotAcked := s.sm.sentNotAcked + data.length } }
        { s.noted seq rwnd current past acked with
          sm := { (s.noted seq rwnd current past acked).sm with
            sentNotAcked := s.sm.sentNotAcked + data.length } } :=
      ⟨seq, rwnd, current, past, acked, rfl, hcurrent, hpast⟩
    exact hsent.addPacket _

theorem Same.prepareNextPacket (h : s.Same s') :
    s.prepareNextPacket.Same s'.prepareNextPacket := by
  obtain ⟨seq, rwnd, current, past, acked, rfl, hcurrent, hpast⟩ := h
  have hsame : ∀ sender holder, Same { s with sender := sender, holder := holder }
      { s.noted seq rwnd current past acked with sender := sender, holder := holder } :=
    fun _ _ => ⟨seq, rwnd, current, past, acked, rfl, hcurrent, hpast⟩
  unfold Job.prepareNextPacket
  refine Same.ite (fun _ => hsame .done s.holder) fun _ => ?_
  refine Same.ite (fun _ => hsame .waiting none) fun _ => ?_
  refine Same.ite (fun _ => ?_) fun _ => ?_
  · have hevent : (s.noted seq rwnd current past acked).sm.terminalEvent = s.sm.terminalEvent := rfl
    rw [hevent]
    cases s.sm.terminalEvent with
    | none => exact hsame .waiting none
    | some event =>
      refine Same.ite (fun _ => hsame .waiting none) fun _ => ?_
      have hended : Same { s with sm := { s.sm with terminalEventSent := true } }
          { s.noted seq rwnd current past acked with
            sm := { (s.noted seq rwnd current past acked).sm with
              terminalEventSent := true } } :=
        ⟨seq, rwnd, current, past, acked, rfl, hcurrent, hpast⟩
      exact hended.addPacket _
  · exact Same.ite (fun _ => hsame .waiting none) fun _ => hsame s.sender _

theorem Same.step (h : s.Same s') {e : Event} (hother : ∀ ackPk, e ≠ .recvAck ackPk) :
    (s.step e).Same (s'.step e) := by
  obtain ⟨seq, rwnd, current, past, acked, rfl, hcurrent, hpast⟩ := id h
  cases e with
  | ptyRead _ | signal | ptyEnd _ | close | sent =>
    exact Same.ite (fun _ => ⟨seq, rwnd, current, past, acked, rfl, hcurrent, hpast⟩) fun _ => h
  | write =>
    exact Same.ite (fun _ => h) fun _ => ⟨seq, rwnd, current, past, acked, rfl, hcurrent, hpast⟩
  | connect req =>
    refine Same.ite (fun _ => ?_) fun _ => h
    unfold Job.connect
    refine Same.ite (fun _ => h) fun _ => Same.ite (fun _ => h) fun _ => Same.ite (fun _ => h)
      fun _ => Same.ite (fun _ => ?_) fun _ => ?_ <;>
    exact ⟨seq, rwnd, current, past, acked, rfl, hcurrent, hpast⟩
  | recvAck ackPk => exact absurd rfl (hother ackPk)
  | setRwndSize rwndSize =>
    refine Same.ite (fun _ => ?_) fun _ => h
    unfold Job.setRwndSize
    exact Same.ite (fun _ => h) fun _ => Same.ite (fun _ => h)
      fun _ => ⟨seq, rwnd, current, past, acked, rfl, hcurrent, hpast⟩
  | disconnect =>
    refine Same.ite (fun _ => ?_) fun _ => h
    unfold Job.clientDisconnected
    generalize cirBufSize = windowSize
    have hlist : ∀ c : Option Connection,
        c.toList.map Connection.visible = (c.map Connection.visible).toList := by
      intro c
      cases c <;> rfl
    refine Same.ite (fun _ => h) fun _ =>
      ⟨0, 0, none, past ++ current.toList, acked, rfl, rfl, ?_⟩
    show (past ++ current.toList).map Connection.visible =
      (s.past ++ s.current.toList).map Connection.visible
    rw [List.map_append, List.map_append, hpast, hlist, hlist, hcurrent]
  | prepare => exact Same.ite (fun _ => h.prepareNextPacket) fun _ => h
  | proceed =>
    rw [Job.step.eq_def, Job.step.eq_def]
    cases hholder : s.holder with
    | none =>
      have hholder' : (s.noted seq rwnd current past acked).holder = none := hholder
      simp only [hholder']
      exact h
    | some holder =>
      have hholder' : (s.noted seq rwnd current past acked).holder = some holder := hholder
      simp only [hholder']
      exact h.proceed holder

theorem maxAcked_step (s : Job) {e : Event} (hother : ∀ ackPk, e ≠ .recvAck ackPk) :
    (s.step e).maxAcked =
      if e = .disconnect ∧ s.holder = none ∧ s.sm.connected = true then (0, 0)
      else s.maxAcked := by
  cases e with
  | ptyRead _ | write | signal | ptyEnd _ | close | sent =>
    simp only [Job.step, reduceCtorEq, false_and, if_false]
    split_ifs <;> rfl
  | connect req =>
    simp only [Job.step, Job.connect, reduceCtorEq, false_and, if_false]
    split_ifs <;> rfl
  | recvAck ackPk => exact absurd rfl (hother ackPk)
  | setRwndSize rwndSize =>
    simp only [Job.step, Job.setRwndSize, reduceCtorEq, false_and, if_false]
    split_ifs <;> rfl
  | disconnect =>
    simp only [Job.step, Job.clientDisconnected, true_and]
    generalize cirBufSize = windowSize
    by_cases hfree : s.holder = none
    · cases hconnected : s.sm.connected with
      | false => simp [hfree]
      | true =>
        simp only [hfree, Bool.not_true, Bool.false_eq_true, and_self, if_true, if_false]
        rfl
    · simp only [hfree, false_and, if_false]
  | prepare =>
    simp only [Job.step, reduceCtorEq, false_and, if_false]
    split_ifs
    · obtain h | h | ⟨event, h⟩ | ⟨peekSize, h, -, -⟩ := prepareNextPacket_cases s <;>
        rw [h] <;> rfl
    · rfl
  | proceed =>
    simp only [Job.step, reduceCtorEq, false_and, if_false]
    cases s.holder with
    | none => rfl
    | some holder =>
      cases holder with
      | connectSize _ _ | ackFinish _ _ | peek _ =>
        simp only [Job.proceed]
        split_ifs <;> rfl
      | connectConsume _ n | ackConsume _ n =>
        simp only [Job.proceed]
        cases s.sm.buf.consume n <;> rfl
      | connectHead _ | connectFinish _ _ | packet _ => rfl

/-- The managers differ only in what was noted of acknowledgements, and the greatest ones are
the same or both behind the head. -/
structure Alike (s s' : Job) : Prop where
  same : s.Same s'
  greatest : s'.maxAcked = s.maxAcked ∨
    (s.sm.maxAckedSeq < s.sm.buf.headPos ∧ s'.sm.maxAckedSeq < s.sm.buf.headPos)

theorem Alike.ite {t t' : Job} {c : Prop} {hdec hdec' : Decidable c}
    (hthen : c → s.Alike s') (helse : ¬ c → t.Alike t') :
    (@ite _ c hdec s t).Alike (@ite _ c hdec' s' t') := by
  by_cases hc : c
  · rw [if_pos hc, if_pos hc]
    exact hthen hc
  · rw [if_neg hc, if_neg hc]
    exact helse hc

/-- The manager has noted the acknowledgement, and goes on with it. -/
def heard (s : Job) (ackPk : CommandStreamAckData) (greatest : Int × Int)
    (holder : Option Holder) : Job :=
  { s with
    sm := { s.sm with maxAckedSeq := greatest.1, maxAckedRwnd := greatest.2 }
    holder := holder
    current := s.current.map fun c => { c with acks := ackPk.seq :: c.acks }
    acked := ackPk.seq :: s.acked }

/-- What becomes of an acknowledgement that is not stale. -/
def answered (s : Job) (ackPk : CommandStreamAckData) : Option Holder :=
  if s.Rejects ackPk then s.holder
  else if 0 < ackPk.seq - s.sm.buf.headPos then
    some (.ackConsume ackPk (ackPk.seq - s.sm.buf.headPos).toNat)
  else some (.ackFinish ackPk 0)

theorem recvAck_eq {ackPk : CommandStreamAckData} (hconcerns : s.Concerns ackPk) :
    s.recvAck ackPk =
      if s.Stale ackPk then s.heard ackPk s.maxAcked s.holder
      else s.heard ackPk (ackPk.seq, ackPk.rwnd) (s.answered ackPk) := by
  obtain ⟨hconnected, hid, hfin⟩ := hconcerns
  have hours : ¬ (!s.sm.connected || decide (ackPk.id ≠ s.sm.streamId)) = true := by
    simp [hconnected, hid]
  unfold Job.recvAck
  rw [if_neg hours, if_neg (by rw [hfin]; exact Bool.false_ne_true)]
  by_cases hstale : s.Stale ackPk
  · rw [if_pos hstale]
    exact if_pos hstale
  · rw [if_neg hstale]
    refine (if_neg hstale).trans ?_
    by_cases hbehind : ackPk.seq < s.sm.buf.headPos
    · have hheld : s.answered ackPk = s.holder := if_pos (.inl hbehind)
      rw [hheld]
      exact if_pos hbehind
    by_cases hahead : s.sm.sentNotAcked < ackPk.seq - s.sm.buf.headPos
    · have hheld : s.answered ackPk = s.holder := if_pos (.inr hahead)
      rw [hheld]
      exact (if_neg hbehind).trans (if_pos hahead)
    refine (if_neg hbehind).trans ((if_neg hahead).trans ?_)
    have haccepted : ¬ s.Rejects ackPk := not_or.mpr ⟨hbehind, hahead⟩
    rw [answered, if_neg haccepted]
    by_cases hmore : 0 < ackPk.seq - s.sm.buf.headPos
    · rw [if_pos hmore, if_pos hmore]
      rfl
    · rw [if_neg hmore, if_neg hmore]
      rfl

theorem recvAck_other {ackPk : CommandStreamAckData} (hother : ¬ s.Concerns ackPk) :
    s.recvAck ackPk =
      if s.sm.connected = true ∧ ackPk.id = s.sm.streamId then
        { s with sm := { s.sm with terminalEventAcked := true } }.signal
      else s := by
  unfold Job.recvAck
  by_cases hours : s.sm.connected = true ∧ ackPk.id = s.sm.streamId
  · have hfin : ackPk.fin = true := by
      by_contra hno
      exact hother ⟨hours.1, hours.2, Bool.eq_false_of_not_eq_true hno⟩
    rw [if_pos hours, if_neg (by simp [hours.1, hours.2]), if_pos hfin]
  · rw [if_neg hours, if_pos]
    simp only [Bool.or_eq_true, Bool.not_eq_true', decide_eq_true_eq]
    by_contra hboth
    obtain ⟨hconnected, hid⟩ := not_or.mp hboth
    exact hours ⟨by simpa using hconnected, not_not.mp hid⟩

theorem map_visible_acks (c : Option Connection) (seq : Int) :
    (c.map fun c => { c with acks := seq :: c.acks }).map Connection.visible =
      c.map Connection.visible := by
  cases c <;> rfl

theorem same_heard (s : Job) (ackPk : CommandStreamAckData) (greatest : Int × Int) :
    s.Same (s.heard ackPk greatest s.holder) :=
  ⟨greatest.1, greatest.2, _, s.past, _, rfl, map_visible_acks s.current ackPk.seq, rfl⟩

theorem Alike.heard (h : s.Alike s') (ackPk : CommandStreamAckData)
    {greatest greatest' : Int × Int} (holder : Option Holder)
    (hgreatest : greatest' = greatest ∨
      (greatest.1 < s.sm.buf.headPos ∧ greatest'.1 < s.sm.buf.headPos)) :
    (s.heard ackPk greatest holder).Alike (s'.heard ackPk greatest' holder) := by
  obtain ⟨seq, rwnd, current, past, acked, rfl, hcurrent, hpast⟩ := h.same
  refine ⟨⟨greatest'.1, greatest'.2, _, past, _, rfl, ?_, hpast⟩, hgreatest⟩
  show (current.map _).map Connection.visible = (s.current.map _).map Connection.visible
  rw [map_visible_acks, map_visible_acks, hcurrent]

theorem Alike.recvAck (h : s.Alike s') (ackPk : CommandStreamAckData) :
    (s.recvAck ackPk).Alike (s'.recvAck ackPk) := by
  have hsame : s'.sm.connected = s.sm.connected ∧ s'.sm.streamId = s.sm.streamId ∧
      s'.sm.buf = s.sm.buf ∧ s'.sm.sentNotAcked = s.sm.sentNotAcked ∧ s'.holder = s.holder := by
    obtain ⟨seq, rwnd, current, past, acked, rfl, -, -⟩ := h.same
    exact ⟨rfl, rfl, rfl, rfl, rfl⟩
  obtain ⟨hconnected, hid, hbuf, hsent, hholder⟩ := hsame
  by_cases hconcerns : s.Concerns ackPk
  · have hconcerns' : s'.Concerns ackPk := by
      rw [Concerns, hconnected, hid]
      exact hconcerns
    have hrejects : s'.Rejects ackPk ↔ s.Rejects ackPk := by
      rw [Rejects, Rejects, hbuf, hsent]
    have hanswered : s'.answered ackPk = s.answered ackPk := by
      simp only [answered, hrejects, hbuf, hholder]
    rw [recvAck_eq hconcerns, recvAck_eq hconcerns', hanswered, hholder]
    rcases h.greatest with hequal | hbehind
    · -- both have noted the same
      have hstale : s'.Stale ackPk ↔ s.Stale ackPk := by
        have hseq : s'.sm.maxAckedSeq = s.sm.maxAckedSeq := congrArg Prod.fst hequal
        have hrwnd : s'.sm.maxAckedRwnd = s.sm.maxAckedRwnd := congrArg Prod.snd hequal
        rw [Stale, Stale, hseq, hrwnd]
      simp only [hstale]
      split_ifs
      · exact h.heard ackPk s.holder (.inl hequal)
      · exact h.heard ackPk (s.answered ackPk) (.inl rfl)
    · by_cases hless : ackPk.seq < s.sm.buf.headPos
      · -- it is behind the head, as what they had noted
        have hheld : s.answered ackPk = s.holder := if_pos (.inl hless)
        rw [hheld]
        split_ifs
        · exact h.heard ackPk s.holder (.inr hbehind)
        · exact h.heard ackPk s.holder (.inr ⟨hbehind.1, hless⟩)
        · exact h.heard ackPk s.holder (.inr ⟨hless, hbehind.2⟩)
        · exact h.heard ackPk s.holder (.inl rfl)
      · -- it is past what they had noted
        have hfresh : ¬ s.Stale ackPk := by
          simp only [Stale]
          omega
        have hfresh' : ¬ s'.Stale ackPk := by
          simp only [Stale]
          omega
        rw [if_neg hfresh, if_neg hfresh']
        exact h.heard ackPk (s.answered ackPk) (.inl rfl)
  · have hconcerns' : ¬ s'.Concerns ackPk := by
      rw [Concerns, hconnected, hid]
      exact hconcerns
    rw [recvAck_other hconcerns, recvAck_other hconcerns', hconnected, hid]
    refine Alike.ite (fun _ => ⟨?_, h.greatest⟩) fun _ => h
    obtain ⟨seq, rwnd, current, past, acked, rfl, hcurrent, hpast⟩ := h.same
    exact ⟨seq, rwnd, current, past, acked, rfl, hcurrent, hpast⟩

/-- **No step tells managers apart that are alike.** -/
theorem Alike.step (h : s.Alike s') (e : Event) : (s.step e).Alike (s'.step e) := by
  by_cases hack : ∃ ackPk, e = .recvAck ackPk
  · obtain ⟨ackPk, rfl⟩ := hack
    have hholder : s'.holder = s.holder := by
      obtain ⟨seq, rwnd, current, past, acked, rfl, -, -⟩ := h.same
      rfl
    simp only [Job.step, hholder]
    split_ifs
    · exact h.recvAck ackPk
    · exact h
  · have hother : ∀ ackPk, e ≠ .recvAck ackPk := fun ackPk heq => hack ⟨ackPk, heq⟩
    refine ⟨h.same.step hother, ?_⟩
    have hafter := maxAcked_step s hother
    have hafter' := maxAcked_step s' hother
    have hhead := headPos_le_step s e
    have hsame : s'.holder = s.holder ∧ s'.sm.connected = s.sm.connected := by
      obtain ⟨seq, rwnd, current, past, acked, rfl, -, -⟩ := h.same
      exact ⟨rfl, rfl⟩
    rw [hsame.1, hsame.2] at hafter'
    split_ifs at hafter hafter'
    · exact .inl (hafter'.trans hafter.symm)
    · refine h.greatest.imp (fun heq => hafter'.trans (heq.trans hafter.symm)) ?_
      intro hbehind
      have hseq : (s.step e).sm.maxAckedSeq = s.sm.maxAckedSeq := congrArg Prod.fst hafter
      have hseq' : (s'.step e).sm.maxAckedSeq = s'.sm.maxAckedSeq := congrArg Prod.fst hafter'
      omega

theorem Alike.run (h : s.Alike s') (es : List Event) :
    (Runs.run Job.step s es).Alike (Runs.run Job.step s' es) := by
  induction es generalizing s s' with
  | nil => exact h
  | cons e es ih => exact ih (h.step e)

end Alike

end Job

end JobManager

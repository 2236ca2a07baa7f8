import Crest.StreamManagerInvariant

/-!
# Fidelity of a job's output across reconnects

One lemma per operation says that it keeps the invariant; `Inv.step` puts them
together for every undisturbed step.  The read loop and the sender loop come first, then
what a client asks for, then what is done step by step under the manager's lock.
-/

namespace JobManager

open StreamClient

namespace Job

theorem inv_initial (cwndSize : Int) {cirbufSize : Nat} (hsize : 0 < cirbufSize) :
    (initial cwndSize cirbufSize).Inv where
  holds := ⟨[], rfl, CirBuf.holds_makeCirBuf cirbufSize hsize true⟩
  eofPos_eq := fun h => by cases h
  connected_eq := rfl
  syncMode_eq := fun _ => rfl
  holder := trivial
  live := fun _ h => by cases h
  faithful := fun _ h => by cases h
  drained := fun _ p hstart hstop => by
    have htotal : (initial cwndSize cirbufSize).sm.buf.totalSize = 0 := rfl
    rw [htotal] at hstop
    omega
  terminalSent := fun _ h => by cases h
  notDone := fun h => by cases h
  notWaiting := fun h => by cases h

theorem signal_sender (s : Job) : s.signal.sender ≠ .waiting := by
  unfold signal
  split
  case isTrue _ => exact fun h => by cases h
  case isFalse hne => exact hne

theorem signal_done {s : Job} (hdone : s.signal.sender = .done) : s.sender = .done := by
  have hsender : (if s.sender = .waiting then .running else s.sender) = SenderLoop.done := hdone
  split at hsender
  case isTrue _ => cases hsender
  case isFalse _ => exact hsender

theorem holderOk_none {s s' : Job} (hholder : s.holder = none) : s'.HolderOk s.holder := by
  rw [hholder]
  trivial

theorem inv_ite {p : Prop} [Decidable p] {s s' : Job} (hs : p → s.Inv) (hs' : s'.Inv) :
    (if p then s else s').Inv := by
  split
  case isTrue hp => exact hs hp
  case isFalse _ => exact hs'

namespace Inv

variable {s : Job}

section

variable (h : s.Inv)
include h

theorem held {holder : Holder} (hholder : s.holder = some holder) :
    s.HolderOk (some holder) :=
  hholder ▸ h.holder

theorem signal (hholder : s.holder = none) :
    s.signal.Inv where
  holds := h.holds
  eofPos_eq := h.eofPos_eq
  connected_eq := h.connected_eq
  syncMode_eq := h.syncMode_eq
  holder := holderOk_none hholder
  live := h.live
  faithful := h.faithful
  drained := h.drained
  terminalSent := h.terminalSent
  notDone := fun hdone => h.notDone (signal_done hdone)
  notWaiting := fun hwaiting => absurd hwaiting s.signal_sender

theorem ptyRead (hreads : s.readsNext = true) (chunk : List UInt8) :
    Inv { s with unwritten := chunk, pty := s.pty ++ chunk } := by
  simp only [readsNext, Bool.and_eq_true, decide_eq_true_eq, Option.isNone_iff_eq_none] at hreads
  obtain ⟨⟨hunwritten, -⟩, hnone⟩ := hreads
  obtain ⟨written, hpty, hholds⟩ := h.holds
  rw [hunwritten, List.append_nil] at hpty
  refine { h with holds := ?_, eofPos_eq := ?_, holder := ?_, faithful := ?_ }
  · exact ⟨written, by show s.pty ++ chunk = _; rw [hpty], hholds⟩
  · intro hended
    have hended' : s.sm.terminalEvent.isSome = true := hended
    rw [hnone] at hended'
    cases hended'
  · have hok := h.holder
    show HolderOk { s with unwritten := chunk, pty := s.pty ++ chunk } s.holder
    cases hholder : s.holder with
    | none => trivial
    | some holder =>
      rw [hholder] at hok
      cases holder with
      | packet data =>
        obtain ⟨hconn, hsender, hne, hle, hdata⟩ := hok
        refine ⟨hconn, hsender, hne, hle, ?_⟩
        have hbound := le_of_take_drop hne hdata
        show data = ((s.pty ++ chunk).drop
          (s.sm.buf.headPos + s.sm.sentNotAcked).toNat).take data.length
        rw [take_drop_append hbound]
        exact hdata
      | _ => exact hok
  · intro c hc
    have hfaithful := h.faithful c hc
    rw [hnone] at hfaithful
    show c.Faithful (s.pty ++ chunk) s.sm.terminalEvent.isSome s.acked
    rw [hnone]
    exact hfaithful.ptyRead chunk

theorem ptyEnd (hholder : s.holder = none) (hreads : s.readsNext = true)
    (event : StreamTerminalEvent) :
    Inv { s with
      sm := { s.sm with eofPos := s.sm.buf.totalSize, terminalEvent := some event } }.signal := by
  simp only [readsNext, Bool.and_eq_true, decide_eq_true_eq, Option.isNone_iff_eq_none] at hreads
  obtain ⟨⟨hunwritten, -⟩, hnone⟩ := hreads
  obtain ⟨written, hpty, hholds⟩ := h.holds
  rw [hunwritten, List.append_nil] at hpty
  refine { h.signal hholder with
    eofPos_eq := ?_, holder := ?_, live := ?_, faithful := ?_, notWaiting := ?_ }
  · intro _
    refine ⟨hunwritten, ?_⟩
    show (s.sm.buf.totalSize : Int) = s.pty.length
    rw [hholds.totalSize_eq, hpty]
  · exact holderOk_none hholder
  · exact fun c hc => { h.live c hc with }
  · intro c hc
    have hfaithful := h.faithful c hc
    rw [hnone] at hfaithful
    exact hfaithful.ptyEnd
  · intro hwaiting
    exact absurd hwaiting (signal_sender _)

theorem write (hundisturbed : s.Undisturbed .write) (hdue : s.signalDue = false) :
    Inv { s with
      sm := { s.sm with buf := (s.sm.buf.writeAvailable s.unwritten).1 }
      unwritten := s.unwritten.drop (s.sm.buf.writeAvailable s.unwritten).2
      signalDue := 0 < (s.sm.buf.writeAvailable s.unwritten).2 } := by
  obtain ⟨written, hpty, hholds⟩ := h.holds
  obtain ⟨hle, hholds', hsync', hwindow', hlen', hcount', hsome', hhead'⟩ :=
    hholds.writeAvailable s.unwritten
  have hheadLe := s.sm.buf.headPos_le_writeAvailable s.unwritten
  generalize (s.sm.buf.writeAvailable s.unwritten).1 = buf' at *
  generalize (s.sm.buf.writeAvailable s.unwritten).2 = n at *
  have htotal := hholds.totalSize_eq
  have htotal' := hholds'.totalSize_eq
  rw [List.length_append, List.length_take] at htotal'
  have hconn : s.sm.connected = true → buf'.headPos = s.sm.buf.headPos :=
    fun hc => hhead' (Or.inl (h.syncMode_eq hc))
  refine { h with
    holds := ?_, eofPos_eq := ?_, syncMode_eq := ?_, holder := ?_, live := ?_, drained := ?_,
    notWaiting := ?_ }
  · refine ⟨written ++ s.unwritten.take n, ?_, hholds'⟩
    show s.pty = _ ++ s.unwritten.drop n
    rw [hpty, List.append_assoc, List.take_append_drop]
  · intro hended
    obtain ⟨hnil, heof⟩ := h.eofPos_eq hended
    refine ⟨?_, heof⟩
    show s.unwritten.drop n = []
    rw [hnil, List.drop_nil]
  · intro hc
    show buf'.syncMode = true
    rw [hsync']
    exact h.syncMode_eq hc
  · have hok := h.holder
    show HolderOk _ s.holder
    cases hholder : s.holder with
    | none => trivial
    | some holder =>
      rw [hholder] at hok
      cases holder with
      | connectSize req headPos =>
        obtain ⟨hc, hnonneg, hold, hlt⟩ := hok
        exact ⟨hc, hnonneg, le_trans hold hheadLe, hlt⟩
      | connectConsume req bytesToConsume =>
        obtain ⟨hc, hold⟩ := hok
        refine ⟨hc, ?_⟩
        show req.clientSeq ≤ buf'.headPos + bytesToConsume
        omega
      | connectHead req =>
        obtain ⟨hc, hold⟩ := hok
        exact ⟨hc, le_trans hold hheadLe⟩
      | connectFinish req headPos =>
        obtain ⟨hc, hold, hseq⟩ := hok
        simp only [Undisturbed, hholder, hdue, Bool.false_eq_true, false_or] at hundisturbed
        refine ⟨hc, ?_, hseq⟩
        show headPos = buf'.headPos
        rw [hhead' hundisturbed]
        exact hold
      | ackConsume ackPk ackedBytes =>
        obtain ⟨hc, hpos, hsent, hseq, hacked⟩ := hok
        refine ⟨hc, hpos, hsent, ?_, hacked⟩
        show ackPk.seq = buf'.headPos + ackedBytes
        rw [hconn hc]
        exact hseq
      | ackFinish ackPk ackedBytes => exact hok
      | peek peekSize =>
        obtain ⟨hc, hsender, hpos⟩ := hok
        exact ⟨hc, hsender, lt_of_lt_of_le hpos hcount'⟩
      | packet data =>
        obtain ⟨hc, hsender, hne, hlast, hdata⟩ := hok
        refine ⟨hc, hsender, hne, ?_, ?_⟩
        · show buf'.headPos + s.sm.sentNotAcked + data.length ≤ buf'.totalSize
          rw [hconn hc]
          omega
        · show data = (s.pty.drop (buf'.headPos + s.sm.sentNotAcked).toNat).take data.length
          rw [hconn hc]
          exact hdata
  · intro c hcur
    have hc : s.sm.connected = true := by
      rw [h.connected_eq]
      have hcur' : s.current = some c := hcur
      rw [hcur']
      rfl
    have hlive := h.live c hcur
    have hsent := hlive.sent_le
    refine ⟨hlive.streamId_eq, hlive.sent_nonneg, ?_, ?_, ?_⟩
    · show buf'.headPos + s.sm.sentNotAcked ≤ buf'.totalSize
      rw [hconn hc]
      omega
    · show Row _ _ _ (buf'.headPos + s.sm.sentNotAcked)
      rw [hconn hc]
      exact hlive.row
    · show Covered _ _ buf'.headPos
      rw [hconn hc]
      exact hlive.acked
  · intro hzero
    have hzero' : buf'.count = 0 := hzero
    show Covered s.acked 0 buf'.totalSize
    have hn : n = 0 := by
      by_contra hne
      have hsome := hsome' (by omega)
      omega
    have hsame : buf'.totalSize = s.sm.buf.totalSize := by omega
    rw [hsame]
    apply h.drained
    omega
  · intro hwaiting howes
    apply h.notWaiting hwaiting
    have hzero : buf'.count = 0 := howes.drained
    exact { howes with drained := by omega }

theorem setHolder (holder : Option Holder) (hok : s.HolderOk holder)
    (hidle : s.sender = .waiting → ¬ s.sm.OwesTerminal) :
    Inv { s with holder } := by
  refine { h with holder := ?_, notWaiting := ?_ }
  · cases holder with
    | none => trivial
    | some pc =>
      cases pc with
      | _ => exact hok
  · intro hwaiting howes
    exact absurd howes (hidle hwaiting)

theorem exists_current (hconn : s.sm.connected = true) :
    ∃ c, s.current = some c := by
  rw [h.connected_eq] at hconn
  exact Option.isSome_iff_exists.mp hconn

end

theorem not_owes (hconn : s.sm.connected = false) : ¬ s.sm.OwesTerminal := by
  intro howes
  have hc := howes.connected
  rw [hconn] at hc
  cases hc

theorem not_owes_of_holder_none (h : s.Inv) (hholder : s.holder = none)
    (hwaiting : s.sender = .waiting) :
    ¬ s.sm.OwesTerminal := by
  intro howes
  obtain ⟨_, _, heq, -⟩ := h.notWaiting hwaiting howes
  rw [hholder] at heq
  cases heq

theorem headPos_nonneg (h : s.Inv) : 0 ≤ s.sm.buf.headPos := by
  obtain ⟨_, -, hholds⟩ := h.holds
  rw [hholds.headPos_eq]
  omega

theorem connect (h : s.Inv) (req : ConnectRequest) :
    (s.connect req).Inv := by
  unfold Job.connect
  split
  case isTrue _ => exact h
  case isFalse _ =>
    split
    case isTrue _ => exact h
    case isFalse hconn =>
      have hdis : s.sm.connected = false := by simpa using hconn
      split
      case isTrue _ => exact h
      case isFalse _ =>
        split
        case isTrue hlt =>
          exact h.setHolder _ ⟨hdis, h.headPos_nonneg, le_refl _, hlt⟩ fun _ => not_owes hdis
        case isFalse hge =>
          exact h.setHolder _ ⟨hdis, rfl, by omega⟩ fun _ => not_owes hdis

theorem setWindow (h : s.Inv) (hholder : s.holder = none) (rwndSize windowSize : Int) :
    Inv { s with
      sm := { s.sm with rwndSize, buf := s.sm.buf.setEffectiveWindow true windowSize } } := by
  obtain ⟨written, hpty, hholds⟩ := h.holds
  have hset := (hholds.setEffectiveWindow_sync windowSize).1
  refine { h with
    holds := ⟨written, hpty, hset⟩, syncMode_eq := fun _ => rfl, holder := ?_, live := ?_,
    notWaiting := ?_ }
  · exact holderOk_none hholder
  · exact fun c hc => { h.live c hc with }
  · intro hwaiting howes
    apply h.notWaiting hwaiting
    exact { howes with }

theorem setRwndSize (h : s.Inv) (hholder : s.holder = none) (rwndSize : Int) :
    (s.setRwndSize rwndSize).Inv := by
  unfold Job.setRwndSize
  split
  case isTrue _ => exact h
  case isFalse _ =>
    split
    case isTrue _ => exact h
    case isFalse _ => exact (h.setWindow hholder _ _).signal hholder

variable {c : Connection}

section

variable (h : s.Inv)
include h

theorem faithful_current (hc : s.current = some c) :
    c.Faithful s.pty s.sm.terminalEvent.isSome s.acked := by
  apply h.faithful
  rw [hc]
  exact List.mem_append_right _ (List.mem_singleton.mpr rfl)

section

variable (hholder : s.holder = none)
include hholder

theorem addAck (seq maxAckedSeq maxAckedRwnd : Int) :
    Inv { s with
      sm := { s.sm with maxAckedSeq, maxAckedRwnd }
      current := s.current.map fun c => { c with acks := seq :: c.acks }
      acked := seq :: s.acked } := by
  refine { h with
    connected_eq := ?_, holder := ?_, live := ?_, faithful := ?_, drained := ?_,
    terminalSent := ?_, notWaiting := ?_ }
  · show s.sm.connected = (s.current.map _).isSome
    rw [Option.isSome_map, h.connected_eq]
  · exact holderOk_none hholder
  · intro c hc
    obtain ⟨c', hc', rfl⟩ := Option.map_eq_some_iff.mp hc
    exact { h.live c' hc' with acked := (h.live c' hc').acked.cons seq }
  · intro c hc
    rcases List.mem_append.mp hc with hpast | hcur
    · exact (h.faithful c (List.mem_append_left _ hpast)).cons_acked seq
    · obtain ⟨c', hc', rfl⟩ := Option.map_eq_some_iff.mp (Option.mem_toList.mp hcur)
      have hold := (h.faithful_current hc').cons_acked seq
      exact ⟨hold.start_nonneg, hold.row, hold.bytes, hold.terminal⟩
  · intro hzero
    exact (h.drained hzero).cons seq
  · intro hnot hsent
    obtain ⟨c, hc, hterminal⟩ := h.terminalSent hnot hsent
    refine ⟨{ c with acks := seq :: c.acks }, ?_, hterminal⟩
    show s.current.map _ = some { c with acks := seq :: c.acks }
    rw [hc]
    rfl
  · intro hwaiting howes
    apply h.notWaiting hwaiting
    exact { howes with }

theorem fin :
    Inv { s with sm := { s.sm with terminalEventAcked := true } }.signal := by
  have hinv : Inv { s with sm := { s.sm with terminalEventAcked := true } } := by
    refine { h with
      holder := ?_, live := ?_, terminalSent := ?_, notDone := fun _ => Or.inr rfl,
      notWaiting := ?_ }
    · exact holderOk_none hholder
    · exact fun c hc => { h.live c hc with }
    · intro hnot
      cases hnot
    · intro _ howes
      have hnot := howes.notAcked
      cases hnot
  exact hinv.signal hholder

theorem recvAck (ackPk : CommandStreamAckData) :
    (s.recvAck ackPk).Inv := by
  unfold Job.recvAck
  split
  case isTrue _ => exact h
  case isFalse hconn =>
    have hconn' : s.sm.connected = true := by
      by_contra hne
      apply hconn
      have hdis : s.sm.connected = false := by simpa using hne
      simp [hdis]
    split
    case isTrue _ => exact h.fin hholder
    case isFalse _ =>
      simp only
      split
      case isTrue _ => exact h.addAck hholder ackPk.seq s.sm.maxAckedSeq s.sm.maxAckedRwnd
      case isFalse _ =>
        have hack := h.addAck hholder ackPk.seq ackPk.seq ackPk.rwnd
        split
        case isTrue _ => exact hack
        case isFalse hge =>
          split
          case isTrue _ => exact hack
          case isFalse hsent =>
            have hidle := fun hwaiting => hack.not_owes_of_holder_none hholder hwaiting
            split
            case isTrue hpos =>
              refine hack.setHolder _ ⟨hconn', by omega, ?_, ?_, List.mem_cons_self, ?_⟩ hidle
              · show ((ackPk.seq - s.sm.buf.headPos).toNat : Int) ≤ s.sm.sentNotAcked
                omega
              · show ackPk.seq = s.sm.buf.headPos + (ackPk.seq - s.sm.buf.headPos).toNat
                omega
              · intro c hc
                obtain ⟨c', -, rfl⟩ := Option.map_eq_some_iff.mp hc
                exact List.mem_cons_self
            case isFalse _ => exact hack.setHolder _ hconn' hidle

theorem leave {buf : CirBuf} (hset : ∀ written, s.sm.buf.Holds written → buf.Holds written)
    (hsome : 0 < s.sm.buf.count → 0 < buf.count) :
    Inv { s with
      sm := { s.sm with
        connected := false
        sentNotAcked := 0
        maxAckedSeq := 0
        maxAckedRwnd := 0
        terminalEventSent := s.sm.terminalEventAcked && s.sm.terminalEventSent
        buf }
      past := s.past ++ s.current.toList
      current := none } := by
  obtain ⟨written, hpty, hholds⟩ := h.holds
  have hset' := hset written hholds
  refine { h with
    holds := ⟨written, hpty, hset'⟩, connected_eq := rfl, syncMode_eq := ?_, holder := ?_,
    live := ?_, faithful := ?_, drained := ?_, terminalSent := ?_, notWaiting := ?_ }
  · rintro ⟨⟩
  · exact holderOk_none hholder
  · intro c hc
    cases hc
  · intro c hc
    apply h.faithful
    simpa using hc
  · intro hzero
    have hzero' : buf.count = 0 := hzero
    show Covered s.acked 0 buf.totalSize
    rw [hset'.totalSize_eq, ← hholds.totalSize_eq]
    apply h.drained
    by_contra hne
    have hpos := hsome (by omega)
    omega
  · intro hnot hsent
    have hnot' : s.sm.terminalEventAcked = false := hnot
    have hsent' : (s.sm.terminalEventAcked && s.sm.terminalEventSent) = true := hsent
    rw [hnot'] at hsent'
    cases hsent'
  · intro _ howes
    exact absurd howes (not_owes rfl)

theorem clientDisconnected :
    s.clientDisconnected.Inv := by
  unfold Job.clientDisconnected
  split
  case isTrue _ => exact h
  case isFalse _ =>
    obtain ⟨written, -, hholds⟩ := h.holds
    have hcir : 0 < cirBufSize := by
      unfold cirBufSize
      omega
    have hleave := h.leave hholder
      (fun written hw => (hw.setEffectiveWindow_async hcir).1)
      (hholds.setEffectiveWindow_async hcir).2.1
    exact hleave.signal hholder

theorem close :
    Inv { s with sm := { s.sm with closed := true } }.signal := by
  have hinv : Inv { s with sm := { s.sm with closed := true } } := by
    refine { h with
      holder := ?_, live := ?_, notDone := fun _ => Or.inl rfl, notWaiting := ?_ }
    · exact holderOk_none hholder
    · exact fun c hc => { h.live c hc with }
    · intro _ howes
      have hnot := howes.notClosed
      cases hnot
  exact hinv.signal hholder

end

theorem sent :
    Inv { s with sender := .running } := by
  refine { h with holder := ?_, notDone := ?_, notWaiting := ?_ }
  · have hok := h.holder
    show HolderOk _ s.holder
    cases hholder : s.holder with
    | none => trivial
    | some holder =>
      rw [hholder] at hok
      cases holder with
      | peek peekSize => exact ⟨hok.1, rfl, hok.2.2⟩
      | packet data => exact ⟨hok.1, rfl, hok.2.2⟩
      | _ => exact hok
  · rintro ⟨⟩
  · rintro ⟨⟩

theorem wait (hidle : ¬ s.sm.OwesTerminal) :
    s.wait.Inv := by
  refine { h with holder := trivial, notDone := ?_, notWaiting := ?_ }
  · rintro ⟨⟩
  · intro _ howes
    exact absurd howes hidle

theorem finish (hholder : s.holder = none)
    (hover : s.sm.closed = true ∨ s.sm.terminalEventAcked = true) :
    Inv { s with sender := .done } := by
  refine { h with holder := ?_, notDone := fun _ => hover, notWaiting := ?_ }
  · exact holderOk_none hholder
  · rintro ⟨⟩

end

variable {event : StreamTerminalEvent}

variable (h : s.Inv)
include h

theorem addTerminal (hconn : s.sm.connected = true) (hzero : s.sm.buf.count = 0)
    (hevent : s.sm.terminalEvent = some event) :
    ({ s with sm := { s.sm with terminalEventSent := true } }.addPacket
      (s.sm.terminalPacket event)).Inv := by
  have hpk : (s.sm.terminalPacket event).data64 = [] ∧
      (s.sm.terminalPacket event).seq = s.sm.eofPos := by
    cases event with
    | eof | error _ => exact ⟨rfl, rfl⟩
  generalize s.sm.terminalPacket event = pk at *
  obtain ⟨hnil, hseq⟩ := hpk
  have hended : s.sm.terminalEvent.isSome = true := by rw [hevent]; rfl
  obtain ⟨hunwritten, heof⟩ := h.eofPos_eq hended
  obtain ⟨written, hpty, hholds⟩ := h.holds
  have htotal : s.sm.buf.totalSize = s.pty.length := by
    rw [hholds.totalSize_eq, hpty, hunwritten, List.append_nil]
  obtain ⟨c, hc⟩ := h.exists_current hconn
  refine { h with
    connected_eq := ?_, holder := trivial, live := ?_, faithful := ?_, terminalSent := ?_,
    notDone := ?_, notWaiting := ?_ }
  · show s.sm.connected = (s.current.map _).isSome
    rw [Option.isSome_map, h.connected_eq]
  · intro c' hc'
    obtain ⟨c'', hc'', rfl⟩ := Option.map_eq_some_iff.mp hc'
    have hlive := h.live c'' hc''
    refine ⟨hlive.streamId_eq, hlive.sent_nonneg, hlive.sent_le, ?_, hlive.acked⟩
    rw [Connection.dataPackets_terminal c'' hnil]
    exact hlive.row
  · intro c' hmem
    rcases List.mem_append.mp hmem with hpast | hcur
    · exact h.faithful c' (List.mem_append_left _ hpast)
    · obtain ⟨c'', hc'', rfl⟩ := Option.map_eq_some_iff.mp (Option.mem_toList.mp hcur)
      have hold := h.faithful_current hc''
      refine ⟨hold.start_nonneg, ?_, ?_, ?_⟩
      · rw [Connection.dataPackets_terminal c'' hnil]
        exact hold.row
      · rw [Connection.dataPackets_terminal c'' hnil]
        exact hold.bytes
      · intro pk' hpk' hnil'
        rcases List.mem_append.mp hpk' with hbefore | hnew
        · exact hold.terminal pk' hbefore hnil'
        · rw [List.mem_singleton.mp hnew]
          refine ⟨hended, hseq.trans heof, ?_⟩
          show Covered s.acked 0 s.pty.length
          rw [← htotal]
          exact h.drained hzero
  · intro _ _
    refine ⟨{ c with packets := c.packets ++ [pk] }, ?_, pk, ?_, hnil⟩
    · show s.current.map _ = _
      rw [hc]
      rfl
    · exact List.mem_append_right _ (List.mem_singleton.mpr rfl)
  · rintro ⟨⟩
  · rintro ⟨⟩

theorem prepareNextPacket (hholder : s.holder = none) (hrunning : s.sender = .running) :
    s.prepareNextPacket.Inv := by
  simp only [Job.prepareNextPacket]
  split
  case isTrue hover => exact h.finish hholder (by simpa using hover)
  case isFalse hopen =>
    split
    case isTrue hdis => exact h.wait (not_owes (by simpa using hdis))
    case isFalse hconn =>
      have hconn' : s.sm.connected = true := by simpa using hconn
      split
      case isTrue hzero =>
        split
        case h_1 event hevent =>
          split
          case isTrue hsent =>
            apply h.wait
            intro howes
            have hnot := howes.notSent
            rw [hsent] at hnot
            cases hnot
          case isFalse _ => exact h.addTerminal hconn' hzero hevent
        case h_2 hevent =>
          apply h.wait
          intro howes
          have hended := howes.ended
          rw [hevent] at hended
          cases hended
      case isFalse hsome =>
        split
        case isTrue _ => exact h.wait fun howes => hsome howes.drained
        case isFalse _ =>
          refine h.setHolder _ ⟨hconn', hrunning, by omega⟩ ?_
          intro hwaiting
          rw [hrunning] at hwaiting
          cases hwaiting

theorem connectConsume {req : ConnectRequest} {bytesToConsume : Nat}
    (hholder : s.holder = some (.connectConsume req bytesToConsume))
    (hundisturbed : s.Undisturbed .proceed) :
    (s.proceed (.connectConsume req bytesToConsume)).Inv := by
  obtain ⟨hdis, hseq⟩ := h.held hholder
  simp only [Undisturbed, hholder] at hundisturbed
  obtain ⟨written, hpty, hholds⟩ := h.holds
  by_cases hle : bytesToConsume ≤ s.sm.buf.count
  · obtain ⟨buf, hconsume, hbuf, hhead, hsync, hcount, -, -⟩ := hholds.consume hle
    simp only [Job.proceed, hconsume]
    refine { h with
      holds := ⟨written, hpty, hbuf⟩, syncMode_eq := ?_, holder := ?_, live := ?_,
      faithful := ?_, drained := ?_, notWaiting := ?_ }
    · intro hc
      show buf.syncMode = true
      rw [hsync]
      exact h.syncMode_eq hc
    · refine ⟨hdis, ?_⟩
      show req.clientSeq ≤ buf.headPos
      omega
    · intro c hc
      rw [h.connected_eq] at hdis
      have hcur : s.current = some c := hc
      rw [hcur] at hdis
      cases hdis
    · intro c hc
      exact (h.faithful c hc).cons_acked req.clientSeq
    · intro hzero
      have hzero' : buf.count = 0 := hzero
      have heq : req.clientSeq = s.sm.buf.totalSize := by
        simp only [CirBuf.headPos] at hundisturbed
        omega
      apply Covered.of_mem List.mem_cons_self
      show (buf.totalSize : Int) ≤ req.clientSeq
      rw [heq, hbuf.totalSize_eq, hholds.totalSize_eq]
    · intro _ howes
      exact absurd howes (not_owes hdis)
  · have hnone : s.sm.buf.consume bytesToConsume = none := if_pos (by omega)
    simp only [Job.proceed, hnone]
    exact h.setHolder none trivial fun _ => not_owes hdis

theorem connectFinish {req : ConnectRequest} {headPos : Int}
    (hholder : s.holder = some (.connectFinish req headPos)) :
    (s.proceed (.connectFinish req headPos)).Inv := by
  obtain ⟨hdis, hhead, hseq⟩ := h.held hholder
  obtain ⟨written, hpty, hholds⟩ := h.holds
  have hnone : s.current = none := by
    rw [h.connected_eq] at hdis
    simpa using hdis
  have hstart : (if headPos < req.clientSeq then req.clientSeq else headPos) =
      s.sm.buf.headPos := by
    rw [if_neg (by omega), hhead]
  simp only [Job.proceed, hstart]
  refine { h with
    holds := ⟨written, hpty, (hholds.setEffectiveWindow_sync _).1⟩, connected_eq := rfl,
    syncMode_eq := fun _ => rfl, holder := trivial, live := ?_, faithful := ?_,
    terminalSent := ?_, notDone := fun hdone => h.notDone (signal_done hdone),
    notWaiting := fun hwaiting => absurd hwaiting (signal_sender _) }
  · intro c hc
    cases hc
    have hle : s.sm.buf.headPos + 0 ≤ s.sm.buf.totalSize := by
      simp only [CirBuf.headPos]
      omega
    have hrow : s.sm.buf.headPos = s.sm.buf.headPos + 0 := by omega
    refine ⟨rfl, le_refl _, hle, hrow, ?_⟩
    intro p hp hlt
    have hp' : s.sm.buf.headPos ≤ p := hp
    have hlt' : p < s.sm.buf.headPos := hlt
    omega
  · intro c hc
    rcases List.mem_append.mp hc with hpast | hcur
    · exact h.faithful c (List.mem_append_left _ hpast)
    · have hceq := List.mem_singleton.mp hcur
      rw [hceq]
      refine ⟨h.headPos_nonneg, ⟨_, rfl⟩, ?_, ?_⟩
      · intro pk hpk
        cases hpk
      · intro pk hpk
        cases hpk
  · intro hnot hsent
    obtain ⟨c, hc, -⟩ := h.terminalSent hnot hsent
    rw [hnone] at hc
    cases hc

theorem ackConsume {ackPk : CommandStreamAckData} {ackedBytes : Nat}
    (hholder : s.holder = some (.ackConsume ackPk ackedBytes)) :
    (s.proceed (.ackConsume ackPk ackedBytes)).Inv := by
  obtain ⟨hconn, hpos, hsent, hseq, hacked, hacks⟩ := h.held hholder
  obtain ⟨written, hpty, hholds⟩ := h.holds
  obtain ⟨c, hc⟩ := h.exists_current hconn
  have hsentLe := (h.live c hc).sent_le
  have hle : ackedBytes ≤ s.sm.buf.count := by
    simp only [CirBuf.headPos] at hsentLe
    omega
  obtain ⟨buf, hconsume, hbuf, hhead, hsync, hcount, -, -⟩ := hholds.consume hle
  have htotal : buf.totalSize = s.sm.buf.totalSize := by
    rw [hbuf.totalSize_eq, hholds.totalSize_eq]
  simp only [Job.proceed, hconsume]
  refine { h with
    holds := ⟨written, hpty, hbuf⟩, syncMode_eq := ?_, holder := hconn, live := ?_,
    drained := ?_, notWaiting := ?_ }
  · intro hc
    show buf.syncMode = true
    rw [hsync]
    exact h.syncMode_eq hc
  · intro c' hc'
    have hlive := h.live c' hc'
    have hsum : buf.headPos + (s.sm.sentNotAcked - ackedBytes) =
        s.sm.buf.headPos + s.sm.sentNotAcked := by omega
    refine ⟨hlive.streamId_eq, ?_, ?_, ?_, ?_⟩
    · show 0 ≤ s.sm.sentNotAcked - ackedBytes
      omega
    · show buf.headPos + (s.sm.sentNotAcked - ackedBytes) ≤ buf.totalSize
      rw [hsum, htotal]
      exact hlive.sent_le
    · show Row _ _ _ (buf.headPos + (s.sm.sentNotAcked - ackedBytes))
      rw [hsum]
      exact hlive.row
    · apply Covered.of_mem (hacks c' hc')
      show buf.headPos ≤ ackPk.seq
      omega
  · intro hzero
    have hzero' : buf.count = 0 := hzero
    apply Covered.of_mem hacked
    show (buf.totalSize : Int) ≤ ackPk.seq
    simp only [CirBuf.headPos] at hseq
    omega
  · intro _ _
    exact ⟨ackPk, ackedBytes, rfl, hpos⟩

theorem ackFinish {ackPk : CommandStreamAckData} {ackedBytes : Nat}
    (hholder : s.holder = some (.ackFinish ackPk ackedBytes)) :
    (s.proceed (.ackFinish ackPk ackedBytes)).Inv := by
  have hconn : s.sm.connected = true := h.held hholder
  obtain ⟨written, hpty, hholds⟩ := h.holds
  have hset := hholds.setEffectiveWindow_sync
    (StreamManager.effectiveWindow s.sm.cwndSize ackPk.rwnd)
  simp only [Job.proceed]
  split
  case isTrue _ =>
    refine { h with
      holds := ⟨written, hpty, hset.1⟩, syncMode_eq := fun _ => rfl, holder := trivial,
      live := ?_, notDone := fun hdone => h.notDone (signal_done hdone),
      notWaiting := fun hwaiting => absurd hwaiting (signal_sender _) }
    exact fun c hc => { h.live c hc with }
  case isFalse hquiet =>
    refine { h with
      holds := ⟨written, hpty, hset.1⟩, syncMode_eq := fun _ => rfl, holder := trivial,
      live := ?_, notWaiting := ?_ }
    · exact fun c hc => { h.live c hc with }
    · intro hwaiting howes
      obtain ⟨ackPk', ackedBytes', heq, hpos⟩ := h.notWaiting hwaiting
        ⟨hconn, howes.notClosed, howes.notAcked, howes.drained, howes.ended, howes.notSent⟩
      rw [hholder] at heq
      cases heq
      omega

theorem peek {peekSize : Nat} (hholder : s.holder = some (.peek peekSize)) :
    (s.proceed (.peek peekSize)).Inv := by
  obtain ⟨hconn, hrunning, hpos⟩ := h.held hholder
  obtain ⟨written, hpty, hholds⟩ := h.holds
  obtain ⟨c, hc⟩ := h.exists_current hconn
  have hlive := h.live c hc
  have hsent := hlive.sent_nonneg
  have hpeek := hholds.peekDataAt s.sm.sentNotAcked.toNat peekSize
  have hat : written.length - s.sm.buf.count + s.sm.sentNotAcked.toNat =
      (s.sm.buf.headPos + s.sm.sentNotAcked).toNat := by
    rw [hholds.headPos_eq]
    omega
  rw [hat] at hpeek
  simp only [Job.proceed]
  generalize s.sm.buf.peekDataAt s.sm.sentNotAcked.toNat peekSize = data at *
  split
  case isTrue _ =>
    apply h.wait
    intro howes
    have hzero := howes.drained
    omega
  case isFalse hne =>
    have hpart : data = (written.drop (s.sm.buf.headPos + s.sm.sentNotAcked).toNat).take
        data.length := by
      rw [hpeek, List.length_take, List.take_eq_take_iff]
      omega
    have hle := le_of_take_drop hne hpart
    apply h.setHolder
    · refine ⟨hconn, hrunning, hne, ?_, ?_⟩
      · rw [hholds.totalSize_eq]
        omega
      · rw [hpty, take_drop_append hle]
        exact hpart
    · intro hwaiting
      rw [hrunning] at hwaiting
      cases hwaiting

theorem packet {data : List UInt8} (hholder : s.holder = some (.packet data)) :
    (s.proceed (.packet data)).Inv := by
  obtain ⟨hconn, -, hne, hle, hdata⟩ := h.held hholder
  have hhead := h.headPos_nonneg
  have hencoded : Base64.toBase64 data ≠ [] := fun hnil => hne (toBase64_eq_nil hnil)
  simp only [Job.proceed]
  generalize hpk :
    ({ id := s.sm.streamId
       seq := s.sm.buf.headPos + s.sm.sentNotAcked
       data64 := Base64.toBase64 data } : CommandStreamData) = pk
  have hpayload : payload pk = data := by
    rw [← hpk, payload, decodeString_toBase64]
    rfl
  have hdata64 : pk.data64 ≠ [] := by
    rw [← hpk]
    exact hencoded
  have hpart : payload pk = (s.pty.drop pk.seq.toNat).take (payload pk).length := by
    rw [hpayload, ← hpk]
    exact hdata
  have hnext (c : Connection) (hc : s.current = some c) :
      Row c.streamId (s.sm.buf.headPos + s.sm.sentNotAcked) [pk]
        (s.sm.buf.headPos + (s.sm.sentNotAcked + data.length)) := by
    have hid := (h.live c hc).streamId_eq
    refine ⟨⟨?_, ?_, ?_, data, hne, ?_⟩, ?_, ?_⟩
    · rw [← hpk, hid]
    · rw [← hpk]
    · rw [← hpk]
    · rw [← hpk]
    · rw [← hpk]
    · rw [hpayload]
      show _ = _
      omega
  refine { h with
    connected_eq := ?_, holder := trivial, live := ?_, faithful := ?_, terminalSent := ?_,
    notDone := ?_, notWaiting := ?_ }
  · show s.sm.connected = (s.current.map _).isSome
    rw [Option.isSome_map, h.connected_eq]
  · intro c' hc'
    obtain ⟨c, hc, rfl⟩ := Option.map_eq_some_iff.mp hc'
    have hlive := h.live c hc
    have hnonneg := hlive.sent_nonneg
    refine ⟨hlive.streamId_eq, ?_, ?_, ?_, hlive.acked⟩
    · show 0 ≤ s.sm.sentNotAcked + data.length
      omega
    · show s.sm.buf.headPos + (s.sm.sentNotAcked + data.length) ≤ s.sm.buf.totalSize
      omega
    · rw [Connection.dataPackets_data c hdata64]
      exact hlive.row.append (hnext c hc)
  · intro c' hmem
    rcases List.mem_append.mp hmem with hpast | hcur
    · exact h.faithful c' (List.mem_append_left _ hpast)
    · obtain ⟨c, hc, rfl⟩ := Option.map_eq_some_iff.mp (Option.mem_toList.mp hcur)
      have hold := h.faithful_current hc
      have hrow := (h.live c hc).row.append (hnext c hc)
      rw [← Connection.dataPackets_data c hdata64] at hrow
      refine ⟨hold.start_nonneg, ⟨_, hrow⟩, ?_, ?_⟩
      · rw [Connection.dataPackets_data c hdata64]
        intro pk' hpk'
        rcases List.mem_append.mp hpk' with hbefore | hnew
        · exact hold.bytes pk' hbefore
        · rw [List.mem_singleton.mp hnew]
          exact hpart
      · intro pk' hpk' hnil'
        rcases List.mem_append.mp hpk' with hbefore | hnew
        · exact hold.terminal pk' hbefore hnil'
        · rw [List.mem_singleton.mp hnew] at hnil'
          exact absurd hnil' hdata64
  · intro hnot hsent
    obtain ⟨c, hc, pk', hpk', hnil'⟩ := h.terminalSent hnot hsent
    refine ⟨{ c with packets := c.packets ++ [pk] }, ?_, pk', List.mem_append_left _ hpk', hnil'⟩
    show s.current.map _ = _
    rw [hc]
    rfl
  · rintro ⟨⟩
  · rintro ⟨⟩

theorem proceed {holder : Holder} (hholder : s.holder = some holder)
    (hundisturbed : s.Undisturbed .proceed) :
    (s.proceed holder).Inv := by
  have hok := h.held hholder
  cases holder with
  | connectSize req headPos =>
    obtain ⟨hdis, hnonneg, hle, hlt⟩ := hok
    simp only [Job.proceed]
    split
    case isTrue _ => exact h.setHolder none trivial fun _ => not_owes hdis
    case isFalse _ =>
      apply h.setHolder _ _ fun _ => not_owes hdis
      refine ⟨hdis, ?_⟩
      omega
  | connectConsume req bytesToConsume => exact h.connectConsume hholder hundisturbed
  | connectHead req =>
    obtain ⟨hdis, hle⟩ := hok
    exact h.setHolder _ ⟨hdis, rfl, hle⟩ fun _ => not_owes hdis
  | connectFinish req headPos => exact h.connectFinish hholder
  | ackConsume ackPk ackedBytes => exact h.ackConsume hholder
  | ackFinish ackPk ackedBytes => exact h.ackFinish hholder
  | peek peekSize => exact h.peek hholder
  | packet data => exact h.packet hholder

/-- **Every undisturbed step keeps the invariant.** -/
theorem step (e : Event) (hundisturbed : s.Undisturbed e) : (s.step e).Inv := by
  cases e with
  | ptyRead chunk => exact inv_ite (fun hreads => h.ptyRead hreads chunk) h
  | write =>
    simp only [Job.step]
    split
    case isTrue _ => exact h
    case isFalse hdue => exact h.write hundisturbed (by simpa using hdue)
  | signal => exact inv_ite (fun hfree => { h.signal hfree.1 with }) h
  | ptyEnd event => exact inv_ite (fun hfree => h.ptyEnd hfree.1 hfree.2 event) h
  | connect req => exact inv_ite (fun _ => h.connect req) h
  | recvAck ackPk => exact inv_ite (fun hfree => h.recvAck hfree ackPk) h
  | setRwndSize rwndSize => exact inv_ite (fun hfree => h.setRwndSize hfree rwndSize) h
  | disconnect => exact inv_ite (fun hfree => h.clientDisconnected hfree) h
  | close => exact inv_ite (fun hfree => h.close hfree) h
  | prepare => exact inv_ite (fun hfree => h.prepareNextPacket hfree.1 hfree.2) h
  | sent => exact inv_ite (fun _ => h.sent) h
  | proceed =>
    simp only [Job.step]
    split
    case h_1 _ => exact h
    case h_2 holder hholder => exact h.proceed hholder hundisturbed

theorem resend_of_free (hholder : s.holder = none) (howes : s.sm.OwesTerminal)
    (hc : s.current = some c) (hevent : s.sm.terminalEvent = some event) :
    (Runs.run Job.step s [.sent, .prepare]).current =
      some { c with packets := c.packets ++ [s.sm.terminalPacket event] } := by
  have hprepare : ∀ s' : Job, s'.sm = s.sm → s'.current = s.current → s'.holder = none →
      s'.sender = .running →
      (s'.step .prepare).current =
        some { c with packets := c.packets ++ [s.sm.terminalPacket event] } := by
    intro s' hsm hcur hfree hrunning
    have hstep : s'.step .prepare =
        { s' with sm := { s'.sm with terminalEventSent := true } }.addPacket
          (s'.sm.terminalPacket event) := by
      simp only [Job.step, hfree, hrunning, Job.prepareNextPacket, hsm, howes.notClosed,
        howes.notAcked, howes.connected, howes.drained, howes.notSent, hevent, and_self,
        Bool.or_self, Bool.not_true, Bool.false_eq_true, ite_true, ite_false]
    rw [hstep]
    show s'.current.map _ = _
    rw [hcur, hc, hsm]
    rfl
  rw [Runs.run_cons, Runs.run_cons, Runs.run_nil]
  cases hsender : s.sender with
  | running =>
    have hsent : s.step .sent = s := by simp [Job.step, hsender]
    rw [hsent]
    exact hprepare s rfl rfl hholder hsender
  | sending =>
    have hsent : s.step .sent = { s with sender := .running } := by simp [Job.step, hsender]
    rw [hsent]
    exact hprepare _ rfl rfl hholder rfl
  | waiting => exact absurd howes (h.not_owes_of_holder_none hholder hsender)
  | done =>
    have hover := h.notDone hsender
    rw [howes.notClosed, howes.notAcked] at hover
    rcases hover with hclosed | hacked
    · cases hclosed
    · cases hacked

theorem holder_of_drained (hconn : s.sm.connected = true) (hzero : s.sm.buf.count = 0) :
    s.holder = none ∨ ∃ ackPk ackedBytes, s.holder = some (.ackFinish ackPk ackedBytes) := by
  have hok := h.holder
  cases hholder : s.holder with
  | none => exact Or.inl rfl
  | some holder =>
    rw [hholder] at hok
    cases holder with
    | connectSize _ _ | connectConsume _ _ | connectHead _ | connectFinish _ _ =>
      have hdis : s.sm.connected = false := hok.1
      rw [hconn] at hdis
      cases hdis
    | ackConsume ackPk ackedBytes =>
      obtain ⟨-, hpos, hsent, -⟩ := hok
      obtain ⟨c, hc⟩ := h.exists_current hconn
      have hle := (h.live c hc).sent_le
      simp only [CirBuf.headPos] at hle
      omega
    | ackFinish ackPk ackedBytes => exact Or.inr ⟨ackPk, ackedBytes, rfl⟩
    | peek peekSize =>
      have hpos := hok.2.2
      omega
    | packet data =>
      obtain ⟨-, -, hne, hle, -⟩ := hok
      obtain ⟨c, hc⟩ := h.exists_current hconn
      have hsent := (h.live c hc).sent_nonneg
      have hpos := List.length_pos_of_ne_nil hne
      simp only [CirBuf.headPos] at hle
      omega

theorem resend (howes : s.sm.OwesTerminal) (hc : s.current = some c)
    (hevent : s.sm.terminalEvent = some event) :
    (Runs.run Job.step s [.proceed, .sent, .prepare]).current =
      some { c with packets := c.packets ++ [s.sm.terminalPacket event] } := by
  rw [Runs.run_cons]
  rcases h.holder_of_drained howes.connected howes.drained with
    hholder | ⟨ackPk, ackedBytes, hholder⟩
  · have hproceed : s.step .proceed = s := by simp only [Job.step, hholder]
    rw [hproceed]
    exact h.resend_of_free hholder howes hc hevent
  · have hproceed : s.step .proceed = s.proceed (.ackFinish ackPk ackedBytes) := by
      simp only [Job.step, hholder]
    have hinv := h.ackFinish hholder
    rw [hproceed]
    have hsame : (s.proceed (.ackFinish ackPk ackedBytes)).holder = none ∧
        (s.proceed (.ackFinish ackPk ackedBytes)).current = s.current ∧
        (s.proceed (.ackFinish ackPk ackedBytes)).sm =
          { s.sm with
            rwndSize := ackPk.rwnd
            buf := s.sm.buf.setEffectiveWindow true
              (StreamManager.effectiveWindow s.sm.cwndSize ackPk.rwnd) } := by
      simp only [Job.proceed]
      split <;> exact ⟨rfl, rfl, rfl⟩
    obtain ⟨hfree, hcur, hsm⟩ := hsame
    have hpacket : (s.proceed (.ackFinish ackPk ackedBytes)).sm.terminalPacket event =
        s.sm.terminalPacket event := by
      rw [hsm]
      rfl
    rw [← hpacket]
    apply hinv.resend_of_free hfree _ (hcur.trans hc)
    · rw [hsm]
      exact hevent
    · rw [hsm]
      exact { howes with }

theorem fidelity : s.Fidelity where
  faithful := h.faithful
  stored := by
    obtain ⟨written, hpty, hholds⟩ := h.holds
    refine ⟨written, hpty, ?_⟩
    rw [hholds.contents_eq, hholds.headPos_eq, Int.toNat_natCast]
  kept := fun c hc => (h.live c hc).acked
  resent := by
    intro c event hc hevent hopen hnot hzero
    by_cases hsent : s.sm.terminalEventSent = true
    · obtain ⟨c', hc', hterminal⟩ := h.terminalSent hnot hsent
      rw [hc] at hc'
      cases hc'
      exact Or.inl hterminal
    · have hconn : s.sm.connected = true := by rw [h.connected_eq, hc]; rfl
      have hended : s.sm.terminalEvent.isSome = true := by rw [hevent]; rfl
      exact Or.inr (h.resend ⟨hconn, hopen, hnot, hzero, hended, by simpa using hsent⟩ hc hevent)

end Inv

/-- **Fidelity across reconnects.**  Whatever the order of the steps of the read loop, of
the sender loop and of the clients, and however often clients come and go: as long as no
output pushes the head of the buffer on between the time `ClientConnected` asks for it and
the time it relies on it, every packet is the output at its position, the packets of a
connection follow one another from the position the client was told, nothing that it was
not sent or did not acknowledge is dropped, and it gets the end only after all else, and
again whenever it connects before it has it. -/
theorem output_is_faithful (cwndSize : Int) {cirbufSize : Nat} (hsize : 0 < cirbufSize)
    (es : List Event)
    (hundisturbed : Runs.Guarded step Undisturbed (initial cwndSize cirbufSize) es) :
    (Runs.run step (initial cwndSize cirbufSize) es).Fidelity :=
  (Runs.guarded_invariant step Inv Undisturbed (fun _ e h hok => h.step e hok)
    (inv_initial cwndSize hsize) es hundisturbed).fidelity

/-- A client gets three bytes and goes, the output ends, another client goes on from the
second byte, acknowledges the rest and gets the end. -/
def goesOn : List Event :=
  [.connect { streamId := "s1", rwndSize := 4, clientSeq := 0 }, .proceed, .ptyRead [1, 2, 3],
    .write, .signal, .prepare, .proceed, .proceed, .sent, .prepare, .proceed, .disconnect,
    .ptyEnd .eof, .connect { streamId := "s2", rwndSize := 4, clientSeq := 1 }, .proceed,
    .proceed, .proceed, .proceed, .prepare, .proceed, .proceed, .sent, .prepare, .proceed,
    .recvAck { id := "s2", seq := 3, rwnd := 4 }, .proceed, .proceed, .prepare]

/-- Both clients get what was written. -/
theorem output_is_faithful_goesOn : (Runs.run step (initial 4 4) goesOn).Fidelity :=
  output_is_faithful 4 (by decide) goesOn (by decide +kernel)

/-- The buffer is full when a client connects, and output comes between the time
`ClientConnected` asks for the head and the time it sets the window. -/
def overtaken : List Event :=
  [.connect { streamId := "s1", rwndSize := 4, clientSeq := 0 }, .proceed, .disconnect,
    .ptyRead [1, 2, 3, 4], .write, .signal,
    .connect { streamId := "s2", rwndSize := 4, clientSeq := 0 }, .ptyRead [5], .write, .proceed,
    .prepare, .proceed, .proceed]

/-- The client is told that the output goes on at position 0, and its first packet is at
position 1. -/
theorem overtaken_connection_has_gap :
    (Runs.run step (initial 4 4) overtaken).current =
      some { streamId := "s2", startSeq := 0, packets :=
        [{ id := "s2", seq := 1, data64 := Base64.toBase64 [2, 3, 4, 5] }] } ∧
    ¬ (Runs.run step (initial 4 4) overtaken).Fidelity := by
  have hcur : (Runs.run step (initial 4 4) overtaken).current =
      some { streamId := "s2", startSeq := 0, packets :=
        [{ id := "s2", seq := 1, data64 := Base64.toBase64 [2, 3, 4, 5] }] } := by
    decide +kernel
  refine ⟨hcur, ?_⟩
  intro hfidelity
  have hfaithful := hfidelity.faithful _ (List.mem_append_right _ (Option.mem_toList.mpr hcur))
  obtain ⟨stop, -, hseq, -⟩ := hfaithful.row
  cases hseq

end Job

end JobManager

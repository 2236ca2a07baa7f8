import Mathlib.Data.Int.Interval
import Crest.StreamLinkFlow

/-!
# Delivery and flow control of a stream

The two invariants hold after every run.  What `Read` has returned is then the
beginning of what `Write` accepted, and all that was sent when `Read` reports the end;
no more is on its way than the window allows; and when nothing is on its way to an
open writer whose reader has nothing left to return, the writer has the whole window.
-/

namespace StreamClient

namespace Link

variable {id : String} {window : Int} {s : Link}

theorem Flow.carry {s' : Link} (h : Flow id window s) (hwriter : s'.writer = s.writer)
    (hacks : ∀ ack, ack ∈ s'.acks ↔ ack ∈ s.acks)
    (hreturned : s.returned.length ≤ s'.returned.length)
    (hreadWindow : s'.reader.readWindow = s.reader.readWindow)
    (hnextSeq : s'.reader.nextSeq = s.reader.nextSeq)
    (hclosed : s'.reader.closed = s.reader.closed)
    (hlast : s'.reader.lastRwndSent = s.reader.lastRwndSent)
    (hbuffer : s'.reader.buffer.length ≤ s.reader.buffer.length)
    (hempty : s'.reader.buffer = [] → s.reader.buffer = []) :
    Flow id window s' := by
  have hopen : s'.isOpen = s.isOpen := by rw [isOpen, isOpen, hwriter]
  have hwithin := h.within
  refine
    { readWindow := hreadWindow.trans h.readWindow
      ackId := fun ack hack => h.ackId ack ((hacks ack).mp hack)
      within := ?_
      canceled := ?_
      cancelSent := ?_
      room := ?_
      newest := ?_ }
  · rw [hwriter]
    omega
  · rw [hwriter, hopen]
    exact h.canceled
  · intro hc ho
    obtain ⟨ack, hack, hcancel⟩ := h.cancelSent (hclosed.symm.trans hc) (hopen.symm.trans ho)
    exact ⟨ack, (hacks ack).mpr hack, hcancel⟩
  · intro ho
    have hr := h.room (hopen.symm.trans ho)
    have hroom := hr.room
    refine
      { unacked := by rw [hwriter, hr.unacked]
        ackedLe := by rw [hwriter, hnextSeq]; exact hr.ackedLe
        room := by rw [hwriter]; omega
        notFin := fun ack hack => hr.notFin ack ((hacks ack).mp hack)
        acks := ?_ }
    intro ack hack hcancel
    rw [hnextSeq]
    obtain ⟨hpos, hle, hsum⟩ := hr.acks ack ((hacks ack).mp hack) hcancel
    exact ⟨hpos, hle, by omega⟩
  · intro ho hc
    have hn := h.newest (hopen.symm.trans ho) (hclosed.symm.trans hc)
    have hannounced := hn.announced
    refine
      { notCancel := fun ack hack => hn.notCancel ack ((hacks ack).mp hack)
        acks := ?_
        acked := by rw [hwriter, hnextSeq, hlast]; exact hn.acked
        counted := by rw [hwriter]; exact hn.counted
        announced := by rw [hlast]; omega
        whole := by rw [hlast]; exact fun hnil => hn.whole (hempty hnil)
        newest := ?_ }
    · rw [hnextSeq, hlast]
      exact fun ack hack => hn.acks ack ((hacks ack).mp hack)
    · rw [hwriter, hnextSeq, hlast]
      refine hn.newest.imp_right ?_
      rintro ⟨ack, hack, hrest⟩
      exact ⟨ack, (hacks ack).mpr hack, hrest⟩

section

variable (h : Flow id window s) (hd : Delivered id s)
include h hd

theorem Flow.recv_data (index : Nat) :
    Flow id window (s.step (.recvData index)) := by
  have hd' := hd.step (.recvData index)
  simp only [step] at hd' ⊢
  split
  case h_1 => exact h
  case h_2 pk hindex =>
    simp only [hindex] at hd'
    obtain ⟨got, pending, hto⟩ := hd
    have hpkWay : pk ∈ s.data ++ s.reader.oooPackets :=
      List.mem_append_left _ (List.mem_of_getElem? hindex)
    have hreceived := hto.received hpkWay
    generalize s.reader.recvData pk = result at hreceived hd'
    cases hreceived with
    | ignored hwhy =>
      exact h.carry rfl (by simp [afterAck]) le_rfl rfl rfl rfl rfl le_rfl fun hnil => hnil
    | early hlt =>
      have hadd : ∃ ooo, s.reader.addOOOPacketLocked pk = { s.reader with oooPackets := ooo } := by
        simp only [Reader.addOOOPacketLocked]
        split
        · exact ⟨s.reader.oooPackets, rfl⟩
        · exact ⟨_, rfl⟩
      obtain ⟨ooo, hooo⟩ := hadd
      simp only [hooo]
      exact h.carry rfl (by simp [afterAck]) le_rfl rfl rfl rfl rfl le_rfl fun hnil => hnil
    | broken hclosing =>
      refine Flow.of_not_open h.readWindow ?_ h.within
        (isOpen_of_closed (hto.closed_of_closing hpkWay hclosing))
      intro ack hack
      simp only [afterAck, Reader.sendAckLocked, List.mem_append, List.mem_singleton] at hack
      rcases hack with hmem | rfl
      · exact h.ackId ack hmem
      · exact hto.readerId
    | moved halive taken rest ooo eof hpending hmoves hnot hgain =>
      by_cases hclosed : s.writer.closed = true
      · refine Flow.of_not_open h.readWindow ?_ h.within (isOpen_of_closed hclosed)
        intro ack hack
        simp only [afterAck, Reader.sendAckLocked, List.mem_append, List.mem_singleton] at hack
        rcases hack with hmem | rfl
        · exact h.ackId ack hmem
        · exact hto.readerId
      · -- the writer has not ended the stream, so the reader has more bytes than before
        have hnotClosing : ∀ q ∈ pk :: s.reader.oooPackets,
            ¬ ClosingPacket id s.writer.nextSeq q := by
          intro q hq hclosing
          apply hclosed
          refine hto.closed_of_closing ?_ hclosing
          cases hq with
          | head => exact hpkWay
          | tail _ hmem => exact List.mem_append_right _ hmem
        have heof : eof = false := by
          by_contra hne
          obtain ⟨-, q, hq, hclosing, -⟩ := hmoves.ended (by simpa using hne)
          exact hnotClosing q hq hclosing
        have hgain : taken ≠ [] :=
          hgain.resolve_right (hnotClosing pk (.head _))
        have hlonger : 0 < (payloads taken).length := by
          obtain ⟨mid, htaken, -⟩ := (hpending ▸ hto.pendingRow).split
          cases taken with
          | nil => exact absurd rfl hgain
          | cons first others =>
            have hpos := htaken.1.payload_pos
            simp only [payloads, List.flatMap_cons, List.length_append]
            omega
        subst heof
        obtain ⟨hpos, hle⟩ := hd'.position
        have hannounced := h.announce (s.reader.took taken ooo false) []
          (s.data.eraseIdx index) hto.readerId (by rw [List.append_nil]; exact hpos) hle
          h.readWindow rfl (.inl (by
            show s.reader.nextSeq < s.reader.nextSeq + _
            omega))
        simp only [List.append_nil] at hannounced
        exact hannounced

theorem Flow.read (len : Nat) :
    Flow id window (s.step (.read len)) := by
  have hd' := hd.step (.read len)
  obtain ⟨hposBefore, -⟩ := hd.position
  obtain ⟨got, pending, hto⟩ := hd
  rcases s.reader.read_cases len with hnone | ⟨result, hfixed, hresult⟩ |
      ⟨bytes, buffer, hsplit, hbytes, ⟨hresult, hne⟩ | hresult⟩
  · simpa only [step, hnone] using h
  · have hsame : s.step (.read len) = s := by
      simp only [step, hresult]
      cases result with
      | bytes data =>
        obtain rfl := hfixed data rfl
        simp [afterAck]
      | error _ | eof => simp [afterAck]
    rwa [hsame]
  · simp only [step, hresult]
    refine h.carry rfl ?_ ?_ rfl rfl rfl rfl ?_ ?_
    · simp [afterAck]
    · simp
    · simp [afterAck, hsplit]
    · intro hnil
      exact absurd hnil hne
  · simp only [step, hresult] at hd' ⊢
    obtain ⟨hpos, hle⟩ := hd'.position
    have hlen := congrArg List.length hsplit
    rw [List.length_append] at hlen
    have hannounced := h.announce { s.reader with buffer } bytes s.data hto.readerId hpos hle
      h.readWindow rfl (.inr ⟨rfl, by
        show 0 < s.reader.nextSeq
        omega, by
        show buffer.length < s.reader.buffer.length
        omega⟩)
    exact hannounced

/-- **Flow control.**  Every step keeps the window. -/
theorem Flow.step (e : Event) :
    Flow id window (s.step e) := by
  cases e with
  | write p =>
    rcases s.writer.write_cases p with ⟨hopen, err, hwrite⟩ | ⟨hopen, hwrite⟩
    · simpa [Link.step, hwrite, hopen, afterSend] using h
    · have haccept : Flow id window
          { s with
            writer := { s.writer with buffer := s.writer.buffer ++ p }
            accepted := s.accepted ++ p } :=
        { h with
          room := fun ho => { h.room ho with }
          newest := fun ho hc => { h.newest ho hc with } }
      have hsent := Flow.sends
        (Writer.continueWrite_sends { s.writer with buffer := s.writer.buffer ++ p }) rfl haccept
      simp only [Link.step, hwrite, hopen, ite_true]
      exact
        { hsent with
          room := fun ho => { hsent.room ho with }
          newest := fun ho hc => { hsent.newest ho hc with } }
  | wake =>
    simp only [Link.step]
    split
    case isTrue _ => exact h
    case isFalse _ =>
      have hsent := Flow.sends (Writer.continueWrite_sends s.writer) rfl h
      exact
        { hsent with
          room := fun ho => { hsent.room ho with }
          newest := fun ho hc => { hsent.newest ho hc with } }
  | closeWriter err => exact h.close_writer err
  | recvAck index => exact h.recv_ack hd index
  | dupAck index =>
    simp only [Link.step]
    split
    case h_1 => exact h
    case h_2 ackPk hindex =>
      have hack : ackPk ∈ s.acks := List.mem_of_getElem? hindex
      refine h.carry rfl ?_ le_rfl rfl rfl rfl rfl le_rfl fun hnil => hnil
      intro ack
      simp only [List.mem_append, List.mem_singleton, or_iff_left_iff_imp]
      rintro rfl
      exact hack
  | recvData index => exact h.recv_data hd index
  | dupData index =>
    simp only [Link.step]
    split
    case h_1 => exact h
    case h_2 =>
      exact h.carry rfl (fun _ => Iff.rfl) le_rfl rfl rfl rfl rfl le_rfl fun hnil => hnil
  | read len => exact h.read hd len
  | closeReader => exact h.close_reader hd

end

theorem initial_invariant (id : String) (window : Int) (hwindow : 0 ≤ window) :
    Delivered id (initial id window) ∧ Flow id window (initial id window) := by
  constructor
  · refine ⟨[], [], ?_⟩
    constructor <;> simp [initial, newWriter, newReader, Row, payloads, sentBytes]
  · constructor
    · rfl
    · simp [initial]
    · simpa [initial, newWriter] using hwindow
    · simp [initial, newWriter]
    · simp [initial, newReader]
    · intro _
      constructor <;> simp [initial, newWriter, newReader]
    · intro _ _
      constructor <;> simp [initial, newWriter, newReader]
      exact hwindow

theorem run_invariant (id : String) (window : Int) (hwindow : 0 ≤ window) (events : List Event) :
    Delivered id (Runs.run step (initial id window) events) ∧
      Flow id window (Runs.run step (initial id window) events) := by
  apply Runs.run_invariant step fun s => Delivered id s ∧ Flow id window s
  · intro s e h
    exact ⟨h.1.step e, h.2.step h.1 e⟩
  · exact initial_invariant id window hwindow

theorem read_eof {r reader : Reader} {len : Nat} {acks : List CommandStreamAckData}
    (h : r.read len = some (.eof, reader, acks)) :
    r.buffer = [] ∧ r.eof = true := by
  simp only [Reader.read] at h
  split at h
  · cases h
  · split at h
    · cases h
    · split at h
      · cases h
      · split at h
        case isTrue hend => exact hend
        case isFalse _ => split_ifs at h <;> cases h

theorem Delivered.outstanding_between (h : Delivered id s) {position : Int}
    (hposition : position ∈ s.outstanding) :
    s.reader.nextSeq ≤ position ∧ position < s.writer.nextSeq := by
  obtain ⟨got, pending, hto⟩ := h
  simp only [outstanding, positions, Finset.mem_filter, Finset.mem_biUnion, List.mem_toFinset,
    List.mem_map, List.mem_range] at hposition
  obtain ⟨⟨pk, hpk, i, hi, heq⟩, hge⟩ := hposition
  refine ⟨hge, ?_⟩
  rcases hto.onWay pk hpk with hsent | ⟨-, hclosing⟩
  · rw [hto.sent] at hsent
    have hstop := ((hto.gotRow.append hto.pendingRow).mem_bounds hsent).2.2
    omega
  · have hnil : payload pk = [] := by
      rw [payload, hclosing.data_eq]
      exact congrArg (Option.getD · []) (decodeString_toBase64 [])
    simp [hnil] at hi

theorem Delivered.returned_prefix (h : Delivered id s) : s.returned <+: s.accepted := by
  obtain ⟨got, pending, hto⟩ := h
  refine ⟨s.reader.buffer ++ payloads pending ++ s.writer.buffer, ?_⟩
  rw [← List.append_assoc, ← List.append_assoc, hto.bytes, hto.accepted, sentBytes, hto.sent,
    payloads, payloads, payloads, List.flatMap_append]

theorem Delivered.end_reported (h : Delivered id s) {reader : Reader} {len : Nat}
    {acks : List CommandStreamAckData} (hread : s.reader.read len = some (.eof, reader, acks)) :
    s.writer.closed = true ∧ s.returned = s.sentBytes := by
  obtain ⟨hnil, heof⟩ := read_eof hread
  obtain ⟨got, pending, hto⟩ := h
  obtain ⟨hclosed, rfl⟩ := hto.ended heof
  refine ⟨hclosed, ?_⟩
  have hbytes := hto.bytes
  have hsent := hto.sent
  rw [hnil, List.append_nil] at hbytes
  rw [List.append_nil] at hsent
  rw [sentBytes, hsent]
  exact hbytes

theorem Flow.held_le (h : Flow id window s) (hd : Delivered id s) :
    s.reader.buffer.length + s.outstanding.card ≤ window := by
  obtain ⟨hpos, hle⟩ := hd.position
  have hwithin := h.within
  have hsubset : s.outstanding ⊆ Finset.Ico s.reader.nextSeq s.writer.nextSeq := by
    intro position hposition
    exact Finset.mem_Ico.mpr (hd.outstanding_between hposition)
  have hcard := Finset.card_le_card hsubset
  rw [Int.card_Ico] at hcard
  omega

theorem Delivered.reached (h : Delivered id s) (halive : s.alive = true) (hdata : s.data = []) :
    s.reader.nextSeq = s.writer.nextSeq := by
  obtain ⟨got, pending, hto⟩ := h
  have hrow := hto.pendingRow
  cases pending with
  | nil => exact hrow
  | cons first rest =>
    -- the first packet it misses would wait at the reader, but only later ones do
    have hmem := hto.covered halive first (.head _)
    rw [hdata, List.nil_append] at hmem
    have hearly := hto.early first hmem
    have hfirst := hrow.2.1
    omega

theorem Flow.not_stalled (h : Flow id window s) (hd : Delivered id s) (hdata : s.data = [])
    (hacks : s.acks = []) (hbuffer : s.reader.buffer = []) (hopen : s.writer.isOpen = true) :
    s.writer.availWindow = window := by
  have hreader : s.reader.closed = false := by
    by_contra hne
    obtain ⟨ack, hack, -⟩ := h.cancelSent (by simpa using hne) hopen
    rw [hacks] at hack
    cases hack
  have hwriter : s.writer.closed = false := by
    simp only [Writer.isOpen, Bool.and_eq_true, Bool.not_eq_true'] at hopen
    exact hopen.1
  have halive : s.alive = true := by
    obtain ⟨got, pending, hto⟩ := hd
    have heof : s.reader.eof = false := by
      by_contra hne
      have hclosed := (hto.ended (by simpa using hne)).1
      simp [hwriter] at hclosed
    have herr : s.reader.err = none := by
      by_contra hne
      have hclosed := hto.broken hne
      simp [hwriter, hreader] at hclosed
    simp [alive, hreader, Reader.done, heof, herr]
  have hreached := hd.reached halive hdata
  have hunacked := (h.room hopen).unacked
  have hnewest := h.newest hopen hreader
  have hwhole := hnewest.whole hbuffer
  rcases hnewest.newest with ⟨hacked, hcount⟩ | ⟨ack, hack, -⟩
  · rw [Writer.availWindow]
    omega
  · rw [hacks] at hack
    cases hack

/-- **A stream delivers in order, within the window, and does not stall.**  After any
run the bytes returned are the beginning of the bytes accepted; the end is reported
only when the writer is closed and all that was sent was returned; what the reader
holds and what is on its way fit into the window; and an open writer has the whole
window when nothing is on its way and the reader holds nothing. -/
theorem delivery_and_flow_control (id : String) (window : Int) (hwindow : 0 < window)
    (events : List Event) :
    let s := Runs.run step (initial id window) events
    s.returned <+: s.accepted ∧
    (∀ len reader acks, s.reader.read len = some (.eof, reader, acks) →
      s.writer.closed = true ∧ s.returned = s.sentBytes) ∧
    s.reader.buffer.length + s.outstanding.card ≤ window ∧
    s.writer.nextSeq ≤ s.returned.length + window ∧
    (s.data = [] → s.acks = [] → s.reader.buffer = [] → s.writer.isOpen = true →
      s.writer.availWindow = window) := by
  obtain ⟨hdelivered, hflow⟩ := run_invariant id window hwindow.le events
  refine ⟨hdelivered.returned_prefix, ?_, hflow.held_le hdelivered, hflow.within, ?_⟩
  · intro len reader acks hread
    exact hdelivered.end_reported hread
  · intro hdata hacks hbuffer hopen
    exact hflow.not_stalled hdelivered hdata hacks hbuffer hopen

/-- Six bytes over a window of four: two packets, one doubled, and the end. -/
theorem delivery_and_flow_control_six :
    let s := Runs.run step (initial "s" 4)
      [.write [1, 2, 3, 4, 5, 6], .dupData 0, .recvData 0, .read 3, .recvAck 1, .wake,
        .closeWriter none, .recvData 1, .recvData 1, .recvData 0, .read 9]
    (0 : Int) < 4 ∧ s.returned = [1, 2, 3, 4, 5, 6] ∧ s.returned <+: s.accepted := by
  refine ⟨by decide, by decide +kernel, ?_⟩
  exact (delivery_and_flow_control "s" 4 (by decide)
    [.write [1, 2, 3, 4, 5, 6], .dupData 0, .recvData 0, .read 3, .recvAck 1, .wake,
      .closeWriter none, .recvData 1, .recvData 1, .recvData 0, .read 9]).1

end Link

end StreamClient

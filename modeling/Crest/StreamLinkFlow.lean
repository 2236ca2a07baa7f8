import Crest.StreamLinkDelivery

/-!
# The window is respected and comes back

An acknowledgement says how far the reader is and how much room it has.  `Flow` says
that the writer never counts on more room than was announced, whichever of the
acknowledgements it has seen, and that the newest one was either seen by the writer or
is still on its way.  Every step keeps this.
-/

namespace StreamClient

namespace Link

/-- Whether the writer accepts bytes. -/
def isOpen (s : Link) : Bool := s.writer.isOpen

/-- What the writer counts on is room the reader has. -/
structure Room (window : Int) (s : Link) : Prop where
  unacked : s.writer.sentNotAcked = s.writer.nextSeq - s.writer.maxAckedSeq
  ackedLe : 0 ≤ s.writer.maxAckedSeq ∧ s.writer.maxAckedSeq ≤ s.reader.nextSeq
  room : s.writer.maxAckedSeq + s.writer.readWindow ≤ s.returned.length + window
  notFin : ∀ ack ∈ s.acks, ack.fin = false
  acks : ∀ ack ∈ s.acks, ack.cancel = false →
    0 < ack.seq ∧ ack.seq ≤ s.reader.nextSeq ∧
      ack.seq + ack.rwnd ≤ s.returned.length + window

/-- Where the newest announcement of the reader is. -/
structure Newest (window : Int) (s : Link) : Prop where
  notCancel : ∀ ack ∈ s.acks, ack.cancel = false
  acks : ∀ ack ∈ s.acks, ack.seq = s.reader.nextSeq → ack.rwnd ≤ s.reader.lastRwndSent
  acked : s.writer.maxAckedSeq = s.reader.nextSeq →
    s.writer.maxAckedRwnd ≤ s.reader.lastRwndSent
  counted : 0 < s.writer.maxAckedSeq → s.writer.readWindow = s.writer.maxAckedRwnd
  announced : s.reader.lastRwndSent ≤ window - s.reader.buffer.length
  whole : s.reader.buffer = [] → s.reader.lastRwndSent = window
  newest :
    (s.writer.maxAckedSeq = s.reader.nextSeq ∧
      s.writer.readWindow = s.reader.lastRwndSent) ∨
    ∃ ack ∈ s.acks,
      ack.seq = s.reader.nextSeq ∧ ack.rwnd = s.reader.lastRwndSent ∧
      (s.writer.maxAckedSeq = s.reader.nextSeq →
        s.writer.maxAckedRwnd < s.reader.lastRwndSent)

/-- The window as both ends see it. -/
structure Flow (id : String) (window : Int) (s : Link) : Prop where
  readWindow : s.reader.readWindow = window
  ackId : ∀ ack ∈ s.acks, ack.id = id
  within : s.writer.nextSeq ≤ s.returned.length + window
  canceled : s.writer.canceled = true → s.isOpen = false
  cancelSent : s.reader.closed = true → s.isOpen = true → ∃ ack ∈ s.acks, ack.cancel = true
  room : s.isOpen = true → Room window s
  newest : s.isOpen = true → s.reader.closed = false → Newest window s

theorem Delivered.position {id : String} {s : Link} (h : Delivered id s) :
    s.reader.nextSeq = s.returned.length + s.reader.buffer.length ∧
      s.reader.nextSeq ≤ s.writer.nextSeq := by
  obtain ⟨got, pending, hto⟩ := h
  have hlen := hto.gotRow.length
  have hbytes := congrArg List.length hto.bytes
  rw [List.length_append] at hbytes
  have hle := hto.pendingRow.start_le
  refine ⟨?_, hle⟩
  omega

theorem isOpen_of_closed {s : Link} (h : s.writer.closed = true) : s.isOpen = false := by
  simp [isOpen, Writer.isOpen, h]

namespace Flow

variable {id : String} {window : Int} {s : Link}

theorem of_not_open (hreadWindow : s.reader.readWindow = window)
    (hackId : ∀ ack ∈ s.acks, ack.id = id)
    (hwithin : s.writer.nextSeq ≤ s.returned.length + window) (hopen : s.isOpen = false) :
    Flow id window s where
  readWindow := hreadWindow
  ackId := hackId
  within := hwithin
  canceled := fun _ => hopen
  cancelSent := fun _ h => by simp [hopen] at h
  room := fun h => by simp [hopen] at h
  newest := fun h => by simp [hopen] at h

theorem send_one (h : Flow id window s) {n : Nat} (hopen : s.isOpen = true)
    (hroom : (n : Int) ≤ s.writer.availWindow) :
    Flow id window (s.afterSend (s.writer.sendBytes n) [s.writer.nextPacket n]) := by
  have hr := h.room hopen
  have hunacked := hr.unacked
  have hcredit := hr.room
  simp only [Writer.availWindow] at hroom
  refine { h with within := ?_, room := ?_, newest := ?_ }
  · show s.writer.nextSeq + n ≤ s.returned.length + window
    omega
  · intro _
    refine { hr with unacked := ?_ }
    show s.writer.sentNotAcked + n = s.writer.nextSeq + n - s.writer.maxAckedSeq
    omega
  · intro _ hreader
    exact { h.newest hopen hreader with }

theorem sends {w w' : Writer} {packets : List CommandStreamData}
    (hsends : Writer.Sends w w' packets) (hw : s.writer = w) (h : Flow id window s) :
    Flow id window (s.afterSend w' packets) := by
  induction hsends generalizing s with
  | nil w =>
    have hsame : s.afterSend w [] = s := by simp [afterSend, ← hw]
    rwa [hsame]
  | cons hopen hpos hbuffer hroom hrest ih =>
    subst hw
    have hnext := ih (s := s.afterSend _ [_]) rfl (h.send_one hopen hroom)
    simpa only [afterSend, List.append_assoc, List.singleton_append] using hnext

theorem close_writer (h : Flow id window s) (err : Option String) :
    Flow id window (s.step (.closeWriter err)) := by
  simp only [step, Writer.closeWithError]
  split
  case isTrue _ => simpa using h
  case isFalse _ =>
    exact of_not_open h.readWindow h.ackId h.within (isOpen_of_closed rfl)

theorem close_reader (h : Flow id window s) (hd : Delivered id s) :
    Flow id window (s.step .closeReader) := by
  simp only [step, Reader.close]
  split
  case isTrue _ => simpa [afterAck] using h
  case isFalse hreader =>
    obtain ⟨got, pending, hto⟩ := hd
    refine { h with ackId := ?_, cancelSent := ?_, room := ?_, newest := ?_ }
    · intro ack hack
      simp only [afterAck, Reader.sendAckLocked, List.mem_append, List.mem_singleton] at hack
      rcases hack with hmem | rfl
      · exact h.ackId ack hmem
      · exact hto.readerId
    · intro _ _
      exact ⟨_, List.mem_append_right _ (List.mem_singleton_self _), rfl⟩
    · intro hopen
      have hr := h.room hopen
      refine { hr with notFin := ?_, acks := ?_ }
      · intro ack hack
        simp only [afterAck, Reader.sendAckLocked, List.mem_append, List.mem_singleton] at hack
        rcases hack with hmem | rfl
        · exact hr.notFin ack hmem
        · rfl
      · intro ack hack hcancel
        simp only [afterAck, Reader.sendAckLocked, List.mem_append, List.mem_singleton] at hack
        rcases hack with hmem | rfl
        · exact hr.acks ack hmem hcancel
        · cases hcancel
    · intro _ hclosed
      cases hclosed

theorem recvAck_ordinary (w : Writer) {ackPk : CommandStreamAckData} (hid : ackPk.id = w.id)
    (hopen : w.isOpen = true) (hfin : ackPk.fin = false) (hcancel : ackPk.cancel = false) :
    ((ackPk.seq < w.maxAckedSeq ∨
        ackPk.seq = w.maxAckedSeq ∧ ackPk.rwnd ≤ w.maxAckedRwnd) ∧ w.recvAck ackPk = w) ∨
    ((w.maxAckedSeq < ackPk.seq ∨
        ackPk.seq = w.maxAckedSeq ∧ w.maxAckedRwnd < ackPk.rwnd) ∧
      w.recvAck ackPk =
        { w with
          maxAckedSeq := ackPk.seq
          maxAckedRwnd := ackPk.rwnd
          readWindow := ackPk.rwnd
          sentNotAcked :=
            if w.nextSeq - w.sentNotAcked < ackPk.seq then
              if w.sentNotAcked - (ackPk.seq - (w.nextSeq - w.sentNotAcked)) < 0 then 0
              else w.sentNotAcked - (ackPk.seq - (w.nextSeq - w.sentNotAcked))
            else w.sentNotAcked }) := by
  have hclosed : w.closed = false := by
    simp only [Writer.isOpen, Bool.and_eq_true, Bool.not_eq_true'] at hopen
    exact hopen.1
  by_cases hstale : ackPk.seq < w.maxAckedSeq ∨
      ackPk.seq = w.maxAckedSeq ∧ ackPk.rwnd ≤ w.maxAckedRwnd
  · exact .inl ⟨hstale, by simp [Writer.recvAck, hid, hfin, hcancel, hstale]⟩
  · refine .inr ⟨by omega, ?_⟩
    simp only [Writer.recvAck, hid, ne_eq, not_true_eq_false, ite_false, hfin, hcancel,
      Bool.false_and, Bool.false_eq_true, hstale, hclosed]
    split <;> rfl

theorem isOpen_recvAck (w : Writer) (ackPk : CommandStreamAckData)
    (h : (w.recvAck ackPk).isOpen = true) :
    w.isOpen = true := by
  simp only [Writer.recvAck, Writer.isOpen] at h ⊢
  split_ifs at h <;> simp_all

theorem recv_ack (h : Flow id window s) (hd : Delivered id s) (index : Nat) :
    Flow id window (s.step (.recvAck index)) := by
  simp only [step]
  split
  case h_1 => exact h
  case h_2 ackPk hindex =>
    have hack : ackPk ∈ s.acks := List.mem_of_getElem? hindex
    have hsub : ∀ a ∈ s.acks.eraseIdx index, a ∈ s.acks :=
      fun a ha => List.mem_of_mem_eraseIdx ha
    have hackId : ∀ a ∈ s.acks.eraseIdx index, a.id = id := fun a ha => h.ackId a (hsub a ha)
    obtain ⟨hpos, hle⟩ := hd.position
    obtain ⟨got, pending, hto⟩ := hd
    have hid : ackPk.id = s.writer.id := (h.ackId ackPk hack).trans hto.writerId.symm
    have hwithin : (s.writer.recvAck ackPk).nextSeq ≤ s.returned.length + window := by
      rw [(s.writer.recvAck_same ackPk).2.1]
      exact h.within
    by_cases hopen' : (s.writer.recvAck ackPk).isOpen = true
    case neg => exact of_not_open h.readWindow hackId hwithin (by simpa [isOpen] using hopen')
    case pos =>
      have hopen : s.isOpen = true := isOpen_recvAck _ _ hopen'
      have hr := h.room hopen
      have hfin := hr.notFin ackPk hack
      have hcanceled : s.writer.canceled = false := by
        by_contra hne
        simp [h.canceled (by simpa using hne)] at hopen
      have hcancel : ackPk.cancel = false := by
        by_contra hne
        have hcancel : ackPk.cancel = true := by simpa using hne
        simp only [Writer.recvAck, hid, ne_eq, not_true_eq_false, ite_false, hfin, hcancel,
          hcanceled, Bool.not_false, Bool.and_true, Bool.false_eq_true, ite_true,
          Writer.isOpen] at hopen'
        split at hopen' <;> simp_all
      obtain ⟨hackPos, hackLe, hackRoom⟩ := hr.acks ackPk hack hcancel
      have hunacked := hr.unacked
      have hacked := hr.ackedLe
      have hcancelSent : s.reader.closed = true →
          ∃ a ∈ s.acks.eraseIdx index, a.cancel = true := by
        intro hclosed
        obtain ⟨a, ha, hac⟩ := h.cancelSent hclosed hopen
        refine ⟨a, mem_eraseIdx_of_ne hindex ha ?_, hac⟩
        rintro rfl
        simp [hcancel] at hac
      rcases recvAck_ordinary s.writer hid hopen hfin hcancel with ⟨hstale, hsame⟩ | ⟨hnew, hsame⟩
      · rw [hsame]
        refine
          { h with
            ackId := hackId
            cancelSent := fun hclosed _ => hcancelSent hclosed
            room := ?_
            newest := ?_ }
        · intro _
          exact
            { hr with
              notFin := fun a ha => hr.notFin a (hsub a ha)
              acks := fun a ha => hr.acks a (hsub a ha) }
        · intro _ hreader
          have hn := h.newest hopen hreader
          refine
            { hn with
              notCancel := fun a ha => hn.notCancel a (hsub a ha)
              acks := fun a ha => hn.acks a (hsub a ha)
              newest := ?_ }
          refine hn.newest.imp_right ?_
          rintro ⟨a, ha, hseq, hrwnd, hlt⟩
          refine ⟨a, mem_eraseIdx_of_ne hindex ha ?_, hseq, hrwnd, hlt⟩
          rintro rfl
          show False
          omega
      · rw [hsame] at hwithin ⊢
        refine
          { readWindow := h.readWindow
            ackId := hackId
            within := hwithin
            canceled := fun hc => by simp [hcanceled] at hc
            cancelSent := fun hclosed _ => hcancelSent hclosed
            room := ?_
            newest := ?_ }
        · intro _
          refine
            { unacked := ?_
              ackedLe := ⟨hackPos.le, hackLe⟩
              room := hackRoom
              notFin := fun a ha => hr.notFin a (hsub a ha)
              acks := fun a ha => hr.acks a (hsub a ha) }
          show (if _ then _ else _) = s.writer.nextSeq - ackPk.seq
          split
          · rw [if_neg (by omega)]
            omega
          · omega
        · intro _ hreader
          have hn := h.newest hopen hreader
          have hrwnd := hn.acks ackPk hack
          refine
            { notCancel := fun a ha => hn.notCancel a (hsub a ha)
              acks := fun a ha => hn.acks a (hsub a ha)
              acked := hrwnd
              counted := fun _ => rfl
              announced := hn.announced
              whole := hn.whole
              newest := ?_ }
          by_cases hlatest : ackPk.seq = s.reader.nextSeq ∧ ackPk.rwnd = s.reader.lastRwndSent
          · exact .inl hlatest
          · right
            rcases hn.newest with ⟨hseq, hcount⟩ | ⟨a, ha, hseq, hrw, hlt⟩
            · -- the writer had seen the newest one, so this one is not newer
              have hcounted := hn.counted
              omega
            · refine ⟨a, mem_eraseIdx_of_ne hindex ha ?_, hseq, hrw, ?_⟩
              · rintro rfl
                exact hlatest ⟨hseq, hrw⟩
              · intro heq
                have heq' : ackPk.seq = s.reader.nextSeq := heq
                show ackPk.rwnd < s.reader.lastRwndSent
                have hle := hrwnd heq'
                omega

theorem announce (reader : Reader) (bytes : List UInt8) (data : List CommandStreamData)
    (h : Flow id window s) (hid : reader.id = id)
    (hpos : reader.nextSeq = (s.returned ++ bytes).length + reader.buffer.length)
    (hle : reader.nextSeq ≤ s.writer.nextSeq) (hwindow : reader.readWindow = window)
    (hclosed : reader.closed = s.reader.closed)
    (hposition : s.reader.nextSeq < reader.nextSeq ∨
      s.reader.nextSeq = reader.nextSeq ∧ 0 < reader.nextSeq ∧
        reader.buffer.length < s.reader.buffer.length) :
    Flow id window
      { s with
        reader := (reader.sendAckLocked false false "").1
        acks := s.acks ++ (reader.sendAckLocked false false "").2
        data := data
        returned := s.returned ++ bytes } := by
  have hlen : (s.returned ++ bytes).length = s.returned.length + bytes.length :=
    List.length_append
  have hwithin := h.within
  have hrwnd : reader.rwnd = window - reader.buffer.length := by
    rw [Reader.rwnd, hwindow]
    apply if_neg
    omega
  have hmem : ∀ a ∈ s.acks ++ (reader.sendAckLocked false false "").2,
      a ∈ s.acks ∨ a = ⟨reader.id, reader.nextSeq, false, false, reader.rwnd, ""⟩ := by
    intro a ha
    simpa [Reader.sendAckLocked] using ha
  refine
    { readWindow := hwindow
      ackId := ?_
      within := ?_
      canceled := h.canceled
      cancelSent := ?_
      room := ?_
      newest := ?_ }
  · intro a ha
    rcases hmem a ha with hold | rfl
    · exact h.ackId a hold
    · exact hid
  · show s.writer.nextSeq ≤ ((s.returned ++ bytes).length : Int) + window
    omega
  · intro hc hopen
    obtain ⟨a, ha, hcancel⟩ := h.cancelSent (hclosed.symm.trans hc) hopen
    exact ⟨a, List.mem_append_left _ ha, hcancel⟩
  · intro hopen
    have hr := h.room hopen
    have hacked := hr.ackedLe
    have hroom := hr.room
    refine
      { unacked := hr.unacked
        ackedLe := ⟨hacked.1, ?_⟩
        room := ?_
        notFin := ?_
        acks := ?_ }
    · show s.writer.maxAckedSeq ≤ reader.nextSeq
      omega
    · show s.writer.maxAckedSeq + s.writer.readWindow ≤
        ((s.returned ++ bytes).length : Int) + window
      omega
    · intro a ha
      rcases hmem a ha with hold | rfl
      · exact hr.notFin a hold
      · rfl
    · intro a ha hcancel
      show 0 < a.seq ∧ a.seq ≤ reader.nextSeq ∧
        a.seq + a.rwnd ≤ ((s.returned ++ bytes).length : Int) + window
      rcases hmem a ha with hold | rfl
      · obtain ⟨hfirst, hsecond, hthird⟩ := hr.acks a hold hcancel
        omega
      · simp only [hrwnd]
        omega
  · intro hopen hc
    have hn := h.newest hopen (hclosed.symm.trans hc)
    have hr := h.room hopen
    have hacked := hr.ackedLe
    have hannounced := hn.announced
    refine
      { notCancel := ?_
        acks := ?_
        acked := ?_
        counted := hn.counted
        announced := ?_
        whole := ?_
        newest := ?_ }
    · intro a ha
      rcases hmem a ha with hold | rfl
      · exact hn.notCancel a hold
      · rfl
    · intro a ha hseq
      replace hseq : a.seq = reader.nextSeq := hseq
      show a.rwnd ≤ reader.rwnd
      rcases hmem a ha with hold | rfl
      · have hbound := (hr.acks a hold (hn.notCancel a hold)).2.1
        have hold' := hn.acks a hold
        omega
      · exact le_refl _
    · intro hseq
      replace hseq : s.writer.maxAckedSeq = reader.nextSeq := hseq
      show s.writer.maxAckedRwnd ≤ reader.rwnd
      have hold := hn.acked
      omega
    · show reader.rwnd ≤ window - reader.buffer.length
      omega
    · intro hnil
      replace hnil : reader.buffer = [] := hnil
      show reader.rwnd = window
      simp [hrwnd, hnil]
    · refine .inr ⟨_, List.mem_append_right _ (List.mem_singleton_self _), rfl, rfl, ?_⟩
      intro hseq
      replace hseq : s.writer.maxAckedSeq = reader.nextSeq := hseq
      show s.writer.maxAckedRwnd < reader.rwnd
      have hold := hn.acked
      omega

end Flow

end Link

end StreamClient

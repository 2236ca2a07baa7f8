import Crest.StreamLinkReceive

/-!
# Nothing is lost, doubled or reordered

`Delivered` says how far the bytes have come: the packets sent are a row, the reader
has the first part of it, and what it returned and still holds are the bytes of this
part.  While the reader takes bytes, every packet of the rest is on its way or waits
at the reader.  Every step keeps this.
-/

namespace StreamClient

open Base64

namespace Writer

/-- The packet with the next `n` bytes. -/
def nextPacket (w : Writer) (n : Nat) : CommandStreamData :=
  { id := w.id, seq := w.nextSeq, data64 := toBase64 (w.buffer.take n) }

/-- The writer after it sent `n` bytes. -/
def sendBytes (w : Writer) (n : Nat) : Writer :=
  { w with
    buffer := w.buffer.drop n
    nextSeq := w.nextSeq + n
    sentNotAcked := w.sentNotAcked + n }

/-- The writer sends some packets, each within the window. -/
inductive Sends : Writer → Writer → List CommandStreamData → Prop
  | nil (w : Writer) : Sends w w []
  | cons {w w' : Writer} {packets : List CommandStreamData} {n : Nat}
      (hopen : w.isOpen = true)
      (hpos : 0 < n)
      (hbuffer : n ≤ w.buffer.length)
      (hroom : (n : Int) ≤ w.availWindow)
      (hrest : Sends (w.sendBytes n) w' packets) :
      Sends w w' (w.nextPacket n :: packets)

theorem trySendDataLocked_cases (w : Writer) (hbuffer : w.buffer ≠ []) :
    (w.availWindow ≤ 0 ∧ w.trySendDataLocked = (w, [], false)) ∨
    (∃ n, 0 < n ∧ n ≤ w.buffer.length ∧ (n : Int) ≤ w.availWindow ∧
      w.trySendDataLocked = (w.sendBytes n, [w.nextPacket n], true)) := by
  have hlen := List.length_pos_of_ne_nil hbuffer
  by_cases hroom : w.availWindow ≤ 0
  · exact .inl ⟨hroom, by simp [trySendDataLocked, hroom]⟩
  · have hsend : ∀ toSend : Nat, 0 < toSend →
        toSend = (if w.availWindow < w.buffer.length then w.availWindow.toNat
          else w.buffer.length) →
        w.trySendDataLocked = (w.sendBytes toSend, [w.nextPacket toSend], true) := by
      intro toSend hpos heq
      simp only [trySendDataLocked, if_neg hroom, ← heq, hpos, decide_true]
      rfl
    right
    by_cases hless : w.availWindow < w.buffer.length
    · refine ⟨w.availWindow.toNat, by omega, by omega, by omega, hsend _ (by omega) ?_⟩
      rw [if_pos hless]
    · refine ⟨w.buffer.length, hlen, le_rfl, by omega, hsend _ hlen ?_⟩
      rw [if_neg hless]

theorem writeLoop_sends (fuel : Nat) (w : Writer) :
    Sends w (writeLoop fuel w).1 (writeLoop fuel w).2.1 := by
  induction fuel generalizing w with
  | zero => exact .nil w
  | succ fuel ih =>
    unfold writeLoop
    split
    case isTrue _ => exact .nil w
    case isFalse hbuffer =>
      split
      case isTrue _ => exact .nil w
      case isFalse hclosed =>
        cases herr : w.err with
        | some err => exact .nil w
        | none =>
          have hopen : w.isOpen = true := by simp [isOpen, hclosed, herr]
          rcases w.trySendDataLocked_cases hbuffer with ⟨-, hnone⟩ | ⟨n, hpos, hle, hroom, hsome⟩
          · simp only [hnone]
            exact .nil w
          · simp only [hsome]
            exact .cons hopen hpos hle hroom (ih _)

theorem continueWrite_sends (w : Writer) : Sends w (continueWrite w).1 (continueWrite w).2.1 :=
  writeLoop_sends _ w

theorem write_cases (w : Writer) (p : List UInt8) :
    (w.isOpen = false ∧ ∃ err, w.write p = (w, [], .error err)) ∨
    (w.isOpen = true ∧ w.write p = continueWrite { w with buffer := w.buffer ++ p }) := by
  by_cases hclosed : w.closed
  · exact .inl ⟨by simp [isOpen, hclosed], .closedPipe, by simp [write, hclosed]⟩
  · cases herr : w.err with
    | some err => exact .inl ⟨by simp [isOpen, herr], err, by simp [write, hclosed, herr]⟩
    | none => exact .inr ⟨by simp [isOpen, hclosed, herr], by simp [write, hclosed, herr]⟩

theorem recvAck_same (w : Writer) (ackPk : CommandStreamAckData) :
    (w.recvAck ackPk).id = w.id ∧ (w.recvAck ackPk).nextSeq = w.nextSeq ∧
      (w.recvAck ackPk).buffer = w.buffer ∧ (w.recvAck ackPk).closed = w.closed := by
  simp only [recvAck]
  split_ifs <;> simp

theorem nextPacket_data (w : Writer) {n : Nat} (hpos : 0 < n) (hbuffer : n ≤ w.buffer.length) :
    DataPacket w.id (w.nextPacket n) ∧ payload (w.nextPacket n) = w.buffer.take n := by
  refine ⟨⟨rfl, rfl, rfl, w.buffer.take n, ?_, rfl⟩, ?_⟩
  · apply List.ne_nil_of_length_pos
    rw [List.length_take]
    omega
  · simp [payload, nextPacket]

end Writer

namespace Reader

theorem read_cases (r : Reader) (len : Nat) :
    r.read len = none ∨
    (∃ result, (∀ data, result = .bytes data → data = []) ∧
      r.read len = some (result, r, [])) ∨
    (∃ bytes buffer, r.buffer = bytes ++ buffer ∧ 0 < bytes.length ∧
      (r.read len = some (.bytes bytes, { r with buffer }, []) ∧ buffer ≠ [] ∨
        r.read len = some (.bytes bytes,
          (sendAckLocked { r with buffer } false false "").1,
          (sendAckLocked { r with buffer } false false "").2))) := by
  unfold read
  split
  case isTrue _ => exact .inl rfl
  case isFalse _ =>
    right
    split
    case isTrue _ => exact .inl ⟨_, by simp, rfl⟩
    case isFalse _ =>
      split
      case h_1 err _ => exact .inl ⟨_, by simp, rfl⟩
      case h_2 _ =>
        split
        case isTrue _ => exact .inl ⟨_, by simp, rfl⟩
        case isFalse _ =>
          simp only
          split
          case isTrue hzero =>
            left
            have htake := List.eq_nil_of_length_eq_zero hzero
            have hdrop : r.buffer.drop len = r.buffer := by
              have happend := List.take_append_drop len r.buffer
              rwa [htake, List.nil_append] at happend
            rw [htake, hdrop]
            exact ⟨.bytes [], by simp, rfl⟩
          case isFalse hzero =>
            right
            refine ⟨r.buffer.take len, r.buffer.drop len,
              (List.take_append_drop len r.buffer).symm, by omega, ?_⟩
            split
            case isTrue _ => exact .inr rfl
            case isFalse hquiet =>
              refine .inl ⟨rfl, ?_⟩
              intro hnil
              exact hquiet (.inl (by simp [hnil]))

end Reader

namespace Link

/-- Whether the reader still takes bytes. -/
def alive (s : Link) : Bool := !s.reader.closed && !s.reader.done

/-- How far the bytes have come: the reader has the packets `got` and not yet the
packets `pending`. -/
structure DeliveredTo (id : String) (s : Link) (got pending : List CommandStreamData) :
    Prop where
  writerId : s.writer.id = id
  readerId : s.reader.id = id
  sent : s.sent = got ++ pending
  gotRow : Row id 0 got s.reader.nextSeq
  pendingRow : Row id s.reader.nextSeq pending s.writer.nextSeq
  bytes : s.returned ++ s.reader.buffer = payloads got
  accepted : s.accepted = s.sentBytes ++ s.writer.buffer
  onWay : ∀ pk ∈ s.data ++ s.reader.oooPackets,
    pk ∈ s.sent ∨ s.writer.closed = true ∧ ClosingPacket id s.writer.nextSeq pk
  early : ∀ pk ∈ s.reader.oooPackets, s.reader.nextSeq < pk.seq
  distinct : s.reader.oooPackets.Pairwise fun left right => left.seq ≠ right.seq
  covered : s.alive = true → ∀ pk ∈ pending, pk ∈ s.data ++ s.reader.oooPackets
  ended : s.reader.eof = true → s.writer.closed = true ∧ pending = []
  broken : s.reader.err ≠ none → s.reader.closed = true ∨ s.writer.closed = true

/-- The bytes have come some way. -/
def Delivered (id : String) (s : Link) : Prop := ∃ got pending, DeliveredTo id s got pending

namespace DeliveredTo

variable {id : String} {s : Link} {got pending : List CommandStreamData}

variable (h : DeliveredTo id s got pending)
include h

theorem send_one {n : Nat}
    (hopen : s.writer.isOpen = true) (hpos : 0 < n) (hbuffer : n ≤ s.writer.buffer.length) :
    DeliveredTo id (s.afterSend (s.writer.sendBytes n) [s.writer.nextPacket n]) got
      (pending ++ [s.writer.nextPacket n]) := by
  obtain ⟨hdata, hpayload⟩ := s.writer.nextPacket_data hpos hbuffer
  have hclosed : s.writer.closed = false := by
    simp only [Writer.isOpen, Bool.and_eq_true, Bool.not_eq_true'] at hopen
    exact hopen.1
  have hlen : (payload (s.writer.nextPacket n)).length = n := by
    rw [hpayload, List.length_take]
    omega
  refine
    { writerId := h.writerId
      readerId := h.readerId
      sent := ?_
      gotRow := h.gotRow
      pendingRow := ?_
      bytes := h.bytes
      accepted := ?_
      onWay := ?_
      early := h.early
      distinct := h.distinct
      covered := ?_
      ended := ?_
      broken := h.broken }
  · simp [afterSend, h.sent]
  · refine h.pendingRow.append ⟨h.writerId ▸ hdata, rfl, ?_⟩
    show s.writer.nextSeq + _ = s.writer.nextSeq + n
    rw [hlen]
  · simp only [afterSend, sentBytes, payloads, List.flatMap_append, List.flatMap_cons,
      List.flatMap_nil, List.append_nil, hpayload, Writer.sendBytes, List.append_assoc,
      List.take_append_drop]
    exact h.accepted
  · intro pk hpk
    simp only [afterSend, List.append_assoc, List.mem_append, List.mem_singleton] at hpk ⊢
    rcases hpk with hmem | heq | hmem
    · rcases h.onWay pk (by simp [hmem]) with hsent | ⟨hend, -⟩
      · exact .inl (.inl hsent)
      · simp [hclosed] at hend
    · exact .inl (.inr heq)
    · rcases h.onWay pk (by simp [hmem]) with hsent | ⟨hend, -⟩
      · exact .inl (.inl hsent)
      · simp [hclosed] at hend
  · intro halive pk hpk
    have hcovered := h.covered halive
    simp only [afterSend, List.mem_append, List.mem_singleton] at hpk hcovered ⊢
    rcases hpk with hmem | heq
    · rcases hcovered pk hmem with hdata | hooo
      · exact .inl (.inl hdata)
      · exact .inr hooo
    · exact .inl (.inr heq)
  · intro heof
    have hend := (h.ended heof).1
    simp [hclosed] at hend

theorem accept (p : List UInt8) :
    DeliveredTo id
      { s with
        writer := { s.writer with buffer := s.writer.buffer ++ p }
        accepted := s.accepted ++ p } got pending := by
  refine { h with accepted := ?_ }
  simp only [h.accepted, sentBytes, List.append_assoc]

theorem close_writer (err : Option String) :
    DeliveredTo id (s.step (.closeWriter err)) got pending := by
  simp only [step, Writer.closeWithError]
  split
  case isTrue hclosed => simpa using h
  case isFalse hopen =>
    refine { h with onWay := ?_, covered := ?_, ended := ?_, broken := ?_ }
    · intro pk hpk
      simp only [List.mem_append, List.mem_singleton] at hpk
      rcases hpk with (hmem | heq) | hmem
      · rcases h.onWay pk (by simp [hmem]) with hsent | ⟨hclosed, -⟩
        · exact .inl hsent
        · exact absurd hclosed hopen
      · refine .inr ⟨rfl, ?_⟩
        rw [heq]
        cases err <;> exact ⟨h.writerId, rfl, rfl⟩
      · rcases h.onWay pk (by simp [hmem]) with hsent | ⟨hclosed, -⟩
        · exact .inl hsent
        · exact absurd hclosed hopen
    · intro halive pk hpk
      have hcovered := h.covered halive pk hpk
      simp only [List.mem_append] at hcovered ⊢
      rcases hcovered with hdata | hooo
      · exact .inl (.inl hdata)
      · exact .inr hooo
    · intro heof
      exact ⟨rfl, (h.ended heof).2⟩
    · intro _
      exact .inr rfl

theorem recv_ack (ackPk : CommandStreamAckData) (acks : List CommandStreamAckData) :
    DeliveredTo id { s with writer := s.writer.recvAck ackPk, acks } got pending := by
  obtain ⟨hid, hseq, hbuffer, hclosed⟩ := s.writer.recvAck_same ackPk
  refine
    { h with
      writerId := hid.trans h.writerId
      pendingRow := ?_
      accepted := ?_
      onWay := ?_
      ended := ?_
      broken := ?_ }
  · simpa only [hseq] using h.pendingRow
  · rw [hbuffer]
    exact h.accepted
  · simpa only [hseq, hclosed] using h.onWay
  · simpa only [hclosed] using h.ended
  · simpa only [hclosed] using h.broken

theorem close_reader :
    DeliveredTo id (s.step .closeReader) got pending := by
  simp only [step, Reader.close]
  split
  case isTrue hclosed => simpa [afterAck] using h
  case isFalse hopen =>
    refine { h with covered := ?_, broken := ?_ }
    · intro halive
      simp [alive, afterAck, Reader.sendAckLocked] at halive
    · intro _
      exact .inl rfl

end DeliveredTo

variable {s : Link}

theorem Delivered.sends {id : String} {w w' : Writer} {packets : List CommandStreamData}
    (hsends : Writer.Sends w w' packets) (hw : s.writer = w) (h : Delivered id s) :
    Delivered id (s.afterSend w' packets) := by
  induction hsends generalizing s with
  | nil w => simpa [afterSend, ← hw] using h
  | cons hopen hpos hbuffer hroom hrest ih =>
    subst hw
    obtain ⟨got, pending, hto⟩ := h
    have hnext := ih (s := s.afterSend _ [_]) rfl ⟨got, _, hto.send_one hopen hpos hbuffer⟩
    simpa only [afterSend, List.append_assoc, List.singleton_append] using hnext

variable {pk : CommandStreamData}

theorem Delivered.dup_data {id : String} (h : Delivered id s) (hpk : pk ∈ s.data) :
    Delivered id { s with data := s.data ++ [pk] } := by
  obtain ⟨got, pending, hto⟩ := h
  refine ⟨got, pending, { hto with onWay := ?_, covered := ?_ }⟩
  · intro q hq
    apply hto.onWay
    simp only [List.mem_append, List.mem_singleton] at hq ⊢
    rcases hq with (hmem | rfl) | hmem
    · exact .inl hmem
    · exact .inl hpk
    · exact .inr hmem
  · intro halive q hq
    have hcovered := hto.covered halive q hq
    simp only [List.mem_append] at hcovered ⊢
    rcases hcovered with hdata | hooo
    · exact .inl (.inl hdata)
    · exact .inr hooo

theorem mem_eraseIdx_of_ne {α : Type*} {l : List α} {index : Nat} {a b : α}
    (hindex : l[index]? = some a) (hb : b ∈ l) (hne : b ≠ a) :
    b ∈ l.eraseIdx index := by
  obtain ⟨i, hi⟩ := List.mem_iff_getElem?.mp hb
  refine List.mem_eraseIdx_iff_getElem?.mpr ⟨i, ?_, hi⟩
  intro heq
  apply hne
  rw [heq, hindex] at hi
  exact (Option.some.inj hi).symm

variable {got : List CommandStreamData}

theorem DeliveredTo.expected {id : String} {pending : List CommandStreamData}
    (h : DeliveredTo id s got pending) (hpk : pk ∈ s.data ++ s.reader.oooPackets) :
    pk ∈ pending ∨ ClosingPacket id s.writer.nextSeq pk ∨
      DataPacket id pk ∧ pk.seq < s.reader.nextSeq := by
  rcases h.onWay pk hpk with hsent | ⟨-, hclosing⟩
  · rw [h.sent, List.mem_append] at hsent
    rcases hsent with hgot | hpending
    · obtain ⟨hdata, -, hstop⟩ := h.gotRow.mem_bounds hgot
      have hpos := hdata.payload_pos
      exact .inr (.inr ⟨hdata, by omega⟩)
    · exact .inl hpending
  · exact .inr (.inl hclosing)

theorem DeliveredTo.early_expected {id : String} {pending : List CommandStreamData}
    (h : DeliveredTo id s got pending) (hpk : pk ∈ s.reader.oooPackets) :
    pk ∈ pending ∨ ClosingPacket id s.writer.nextSeq pk := by
  rcases h.expected (List.mem_append_right _ hpk) with hmem | hclosing | ⟨-, hlt⟩
  · exact .inl hmem
  · exact .inr hclosing
  · have hearly := h.early pk hpk
    omega

theorem DeliveredTo.closed_of_closing {id : String} {pending : List CommandStreamData}
    (h : DeliveredTo id s got pending) (hpk : pk ∈ s.data ++ s.reader.oooPackets)
    (hclosing : ClosingPacket id s.writer.nextSeq pk) :
    s.writer.closed = true := by
  rcases h.onWay pk hpk with hsent | ⟨hclosed, -⟩
  · rw [h.sent] at hsent
    obtain ⟨hdata, -⟩ := (h.gotRow.append h.pendingRow).mem_bounds hsent
    exact absurd hclosing.data_eq hdata.decode.1
  · exact hclosed

theorem DeliveredTo.received {id : String} {pending : List CommandStreamData}
    (h : DeliveredTo id s got pending) (hpk : pk ∈ s.data ++ s.reader.oooPackets) :
    Reader.Received id s.writer.nextSeq s.reader pending pk (s.reader.recvData pk) :=
  s.reader.recvData_received h.readerId h.pendingRow (h.expected hpk)
    (fun _ hq => h.early_expected hq) h.early h.distinct

theorem Delivered.recv_data {id : String} (h : Delivered id s) (index : Nat) :
    Delivered id (s.step (.recvData index)) := by
  simp only [step]
  split
  case h_1 => exact h
  case h_2 pk hindex =>
    obtain ⟨got, pending, hto⟩ := h
    have hpk : pk ∈ s.data := List.mem_of_getElem? hindex
    have hpkWay : pk ∈ s.data ++ s.reader.oooPackets := List.mem_append_left _ hpk
    have herase : ∀ q ∈ s.data, q ≠ pk → q ∈ s.data.eraseIdx index :=
      fun q hq hne => mem_eraseIdx_of_ne hindex hq hne
    have hsub : ∀ q ∈ s.data.eraseIdx index, q ∈ s.data :=
      fun q hq => List.mem_of_mem_eraseIdx hq
    have hreceived := hto.received hpkWay
    generalize s.reader.recvData pk = result at hreceived
    cases hreceived with
    | ignored hwhy =>
      refine ⟨got, pending, { hto with onWay := ?_, covered := ?_ }⟩
      · intro q hq
        apply hto.onWay
        simp only [afterAck, List.mem_append] at hq ⊢
        exact hq.imp_left (hsub q)
      · intro halive q hq
        have halive' : s.alive = true := halive
        have hcovered := hto.covered halive q hq
        simp only [afterAck, List.mem_append] at hcovered ⊢
        refine hcovered.imp_left fun hdata => herase q hdata ?_
        rintro rfl
        have hge := (hto.pendingRow.mem_bounds hq).2.1
        simp only [alive, Bool.and_eq_true, Bool.not_eq_true'] at halive'
        rcases hwhy with hclosed | hdone | hlt
        · simp [halive'.1] at hclosed
        · simp [halive'.2] at hdone
        · omega
    | broken hclosing =>
      refine ⟨got, pending, { hto with onWay := ?_, covered := ?_, broken := ?_ }⟩
      · intro q hq
        apply hto.onWay
        simp only [afterAck, Reader.sendAckLocked, List.mem_append] at hq ⊢
        exact hq.imp_left (hsub q)
      · intro halive
        simp [alive, afterAck, Reader.sendAckLocked, Reader.done] at halive
      · intro _
        exact .inr (hto.closed_of_closing hpkWay hclosing)
    | early hlt =>
      by_cases hknown : s.reader.oooPackets.any fun q => q.seq = pk.seq
      · have hadd : s.reader.addOOOPacketLocked pk = s.reader := by
          simp only [Reader.addOOOPacketLocked, hknown, ite_true]
        rw [hadd]
        refine ⟨got, pending, { hto with onWay := ?_, covered := ?_ }⟩
        · intro q hq
          apply hto.onWay
          simp only [afterAck, List.mem_append] at hq ⊢
          exact hq.imp_left (hsub q)
        · intro halive q hq
          have hcovered := hto.covered halive q hq
          simp only [afterAck, List.mem_append] at hcovered ⊢
          by_cases heq : q = pk
          · -- the early packet at this position is the same one
            subst heq
            obtain ⟨other, hother, hseq⟩ := List.any_eq_true.mp hknown
            have hseq := of_decide_eq_true hseq
            rcases hto.early_expected hother with hmem | hclosing
            · have hsame := hto.pendingRow.eq_of_seq hmem hq hseq
              exact .inr (hsame ▸ hother)
            · obtain ⟨hdata, -, hstop⟩ := hto.pendingRow.mem_bounds hq
              have hpos := hdata.payload_pos
              have hlast := hclosing.seq_eq
              omega
          · exact hcovered.imp_left fun hdata => herase q hdata heq
      · have hadd : s.reader.addOOOPacketLocked pk =
            { s.reader with oooPackets := s.reader.oooPackets ++ [pk] } := by
          simp only [Reader.addOOOPacketLocked, hknown, ite_false, Bool.false_eq_true]
        rw [hadd]
        refine ⟨got, pending,
          { hto with onWay := ?_, early := ?_, distinct := ?_, covered := ?_ }⟩
        · intro q hq
          apply hto.onWay
          simp only [afterAck, List.mem_append, List.mem_singleton] at hq ⊢
          rcases hq with hdata | hmem | rfl
          · exact .inl (hsub q hdata)
          · exact .inr hmem
          · exact .inl hpk
        · intro q hq
          simp only [afterAck, List.mem_append, List.mem_singleton] at hq
          rcases hq with hmem | rfl
          · exact hto.early q hmem
          · exact hlt
        · refine List.pairwise_append.mpr ⟨hto.distinct, List.pairwise_singleton _ _, ?_⟩
          intro q hq q' hq' hseq
          rw [List.mem_singleton.mp hq'] at hseq
          exact hknown (List.any_eq_true.mpr ⟨q, hq, decide_eq_true hseq⟩)
        · intro halive q hq
          have hcovered := hto.covered halive q hq
          simp only [afterAck, List.mem_append, List.mem_singleton] at hcovered ⊢
          by_cases heq : q = pk
          · exact .inr (.inr heq)
          · rcases hcovered with hdata | hmem
            · exact .inl (herase q hdata heq)
            · exact .inr (.inl hmem)
    | moved halive taken rest ooo eof hpending hmoves hnot hgain =>
      obtain ⟨mid, htaken, hrest⟩ := (hpending ▸ hto.pendingRow).split
      have hmid := htaken.length
      rw [hmid] at htaken hrest
      have hway : ∀ q ∈ pk :: s.reader.oooPackets, q ∈ s.data ++ s.reader.oooPackets := by
        intro q hq
        cases hq with
        | head => exact hpkWay
        | tail _ hmem => exact List.mem_append_right _ hmem
      refine ⟨got ++ taken, rest,
        { writerId := hto.writerId
          readerId := hto.readerId
          sent := ?_
          gotRow := ?_
          pendingRow := ?_
          bytes := ?_
          accepted := hto.accepted
          onWay := ?_
          early := ?_
          distinct := hmoves.distinct
          covered := ?_
          ended := ?_
          broken := hto.broken }⟩
      · simp only [afterAck, hto.sent, hpending, List.append_assoc]
      · exact hto.gotRow.append htaken
      · exact hrest
      · simp only [afterAck, Reader.sendAckLocked, Reader.took, ← List.append_assoc, hto.bytes,
          payloads, List.flatMap_append]
      · intro q hq
        apply hto.onWay
        simp only [afterAck, Reader.sendAckLocked, Reader.took, List.mem_append] at hq ⊢
        rcases hq with hdata | hmem
        · exact .inl (hsub q hdata)
        · cases (hmoves.early q hmem).1 with
          | head => exact .inl hpk
          | tail _ hmem' => exact .inr hmem'
      · intro q hq
        exact (hmoves.early q hq).2
      · intro halive' q hq
        have heof : eof = false := by
          simp only [alive, afterAck, Reader.sendAckLocked, Reader.took, Reader.done,
            Bool.and_eq_true, Bool.not_eq_true', Bool.or_eq_false_iff] at halive'
          exact halive'.2.1
        have hbefore : s.alive = true := by simp [alive, halive.1, halive.2]
        have hcovered := hto.covered hbefore q (hpending ▸ List.mem_append_right _ hq)
        simp only [afterAck, Reader.sendAckLocked, Reader.took, List.mem_append] at hcovered ⊢
        rcases hcovered with hdata | hmem
        · refine .inl (herase q hdata ?_)
          rintro rfl
          exact hnot hq
        · exact .inr (hmoves.kept heof q (.tail _ hmem) hq)
      · intro heof
        obtain ⟨hnil, q, hq, hclosing, -⟩ := hmoves.ended heof
        exact ⟨hto.closed_of_closing (hway q hq) hclosing, hnil⟩

theorem Delivered.read {id : String} (h : Delivered id s) (len : Nat) :
    Delivered id (s.step (.read len)) := by
  obtain ⟨got, pending, hto⟩ := h
  rcases s.reader.read_cases len with hnone | ⟨result, hfixed, hresult⟩ |
      ⟨bytes, buffer, hsplit, -, ⟨hresult, -⟩ | hresult⟩
  · simpa only [step, hnone] using ⟨got, pending, hto⟩
  · refine ⟨got, pending, ?_⟩
    cases result with
    | bytes data =>
      obtain rfl := hfixed data rfl
      simpa only [step, hresult, afterAck, List.append_nil] using hto
    | error _ | eof => simpa only [step, hresult, afterAck, List.append_nil] using hto
  all_goals
    have hbytes := hto.bytes
    rw [hsplit, ← List.append_assoc] at hbytes
    refine ⟨got, pending, ?_⟩
    simp only [step, hresult]
    exact { hto with bytes := hbytes }

/-- **Delivery.**  Every step keeps what was delivered. -/
theorem Delivered.step {id : String} (h : Delivered id s) (e : Event) :
    Delivered id (s.step e) := by
  cases e with
  | write p =>
    rcases s.writer.write_cases p with ⟨hopen, err, hwrite⟩ | ⟨hopen, hwrite⟩
    · simpa [Link.step, hwrite, hopen, afterSend] using h
    · obtain ⟨got, pending, hto⟩ := h
      obtain ⟨got', pending', hto'⟩ := Delivered.sends
        (Writer.continueWrite_sends { s.writer with buffer := s.writer.buffer ++ p }) rfl
        ⟨got, pending, hto.accept p⟩
      simp only [Link.step, hwrite, hopen, ite_true]
      exact ⟨got', pending', { hto' with }⟩
  | wake =>
    simp only [Link.step]
    split
    case isTrue _ => exact h
    case isFalse _ =>
      obtain ⟨got, pending, hto⟩ := h.sends (Writer.continueWrite_sends s.writer) rfl
      exact ⟨got, pending, { hto with }⟩
  | closeWriter err =>
    obtain ⟨got, pending, hto⟩ := h
    exact ⟨got, pending, hto.close_writer err⟩
  | recvAck index =>
    obtain ⟨got, pending, hto⟩ := h
    simp only [Link.step]
    split
    case h_1 => exact ⟨got, pending, hto⟩
    case h_2 ackPk _ => exact ⟨got, pending, hto.recv_ack ackPk _⟩
  | dupAck index =>
    obtain ⟨got, pending, hto⟩ := h
    simp only [Link.step]
    split
    case h_1 => exact ⟨got, pending, hto⟩
    case h_2 => exact ⟨got, pending, { hto with }⟩
  | recvData index => exact h.recv_data index
  | dupData index =>
    simp only [Link.step]
    split
    case h_1 => exact h
    case h_2 pk hindex => exact h.dup_data (List.mem_of_getElem? hindex)
  | read len => exact h.read len
  | closeReader =>
    obtain ⟨got, pending, hto⟩ := h
    exact ⟨got, pending, hto.close_reader⟩

end Link

end StreamClient

import Crest.StreamManager

/-!
# What the manager of a job's output keeps true

A connection is faithful if its packets with bytes are the output from `startSeq` on,
without a gap, and a packet without bytes stands for the end of an output that was
acknowledged altogether.  Beside the faithfulness of all the connections the invariant
says where the buffer is: the connected client was sent everything between the start
of the connection and `sentNotAcked` bytes after the buffer's head, and the head passes
a position only when it was acknowledged.

One thing breaks this: output that pushes the head on after `ClientConnected` has asked
for it.  `Undisturbed` rules it out, and every other step keeps the invariant.
-/

namespace JobManager

open StreamClient

theorem take_drop_append {l : List UInt8} {i n : Nat} (hle : i + n ≤ l.length)
    (more : List UInt8) :
    ((l ++ more).drop i).take n = (l.drop i).take n := by
  rw [List.drop_append_of_le_length (by omega),
    List.take_append_of_le_length (by rw [List.length_drop]; omega)]

theorem le_of_take_drop {l data : List UInt8} {i : Nat} (hne : data ≠ [])
    (heq : data = (l.drop i).take data.length) : i + data.length ≤ l.length := by
  have hpos := List.length_pos_of_ne_nil hne
  have hlen := congrArg List.length heq
  rw [List.length_take, List.length_drop] at hlen
  omega

/-- Every position from `start` on and before `stop` was acknowledged: an
acknowledgement is for everything before it. -/
def Covered (acked : List Int) (start stop : Int) : Prop :=
  ∀ p : Int, start ≤ p → p < stop → ∃ a ∈ acked, p < a

namespace Covered

variable {acked : List Int} {start stop : Int}

theorem of_mem {a : Int} (ha : a ∈ acked) (hle : stop ≤ a) : Covered acked start stop := by
  intro p _ hp
  exact ⟨a, ha, by omega⟩

theorem cons (h : Covered acked start stop) (a : Int) : Covered (a :: acked) start stop := by
  intro p hstart hstop
  obtain ⟨b, hb, hlt⟩ := h p hstart hstop
  exact ⟨b, List.mem_cons_of_mem a hb, hlt⟩

end Covered

namespace Connection

/-- The packets with bytes. -/
def dataPackets (c : Connection) : List CommandStreamData :=
  c.packets.filter fun pk => decide (pk.data64 ≠ [])

theorem dataPackets_terminal (c : Connection) {pk : CommandStreamData} (hnil : pk.data64 = []) :
    dataPackets { c with packets := c.packets ++ [pk] } = c.dataPackets := by
  simp [dataPackets, hnil]

theorem dataPackets_data (c : Connection) {pk : CommandStreamData} (hdata : pk.data64 ≠ []) :
    dataPackets { c with packets := c.packets ++ [pk] } = c.dataPackets ++ [pk] := by
  simp [dataPackets, hdata]

/-- Whether the client was given a packet that ends the stream. -/
def HasTerminal (c : Connection) : Prop := ∃ pk ∈ c.packets, pk.data64 = []

/-- The client was given the output from `startSeq` on, and the end only if the output
has ended and all of it was acknowledged. -/
structure Faithful (c : Connection) (pty : List UInt8) (ended : Bool) (acked : List Int) :
    Prop where
  start_nonneg : 0 ≤ c.startSeq
  row : ∃ stop, Row c.streamId c.startSeq c.dataPackets stop
  bytes : ∀ pk ∈ c.dataPackets,
    payload pk = (pty.drop pk.seq.toNat).take (payload pk).length
  terminal : ∀ pk ∈ c.packets, pk.data64 = [] →
    ended = true ∧ pk.seq = pty.length ∧ Covered acked 0 pty.length

namespace Faithful

variable {c : Connection} {pty : List UInt8} {ended : Bool} {acked : List Int}

theorem bound (h : c.Faithful pty ended acked) {pk : CommandStreamData}
    (hpk : pk ∈ c.dataPackets) :
    0 ≤ pk.seq ∧ pk.seq + (payload pk).length ≤ pty.length := by
  obtain ⟨stop, hrow⟩ := h.row
  have hstart := h.start_nonneg
  obtain ⟨hdata, hle, -⟩ := hrow.mem_bounds hpk
  have hpos := hdata.payload_pos
  have hlen := le_of_take_drop (List.ne_nil_of_length_pos hpos) (h.bytes pk hpk)
  omega

theorem ptyRead (h : c.Faithful pty false acked) (chunk : List UInt8) :
    c.Faithful (pty ++ chunk) false acked := by
  refine ⟨h.start_nonneg, h.row, ?_, ?_⟩
  · intro pk hpk
    have hbound := h.bound hpk
    rw [take_drop_append (by omega)]
    exact h.bytes pk hpk
  · intro pk hpk hnil
    have hended := (h.terminal pk hpk hnil).1
    cases hended

theorem ptyEnd (h : c.Faithful pty false acked) : c.Faithful pty true acked := by
  refine ⟨h.start_nonneg, h.row, h.bytes, ?_⟩
  intro pk hpk hnil
  have hended := (h.terminal pk hpk hnil).1
  cases hended

theorem cons_acked (h : c.Faithful pty ended acked) (a : Int) :
    c.Faithful pty ended (a :: acked) := by
  refine ⟨h.start_nonneg, h.row, h.bytes, ?_⟩
  intro pk hpk hnil
  obtain ⟨hended, hseq, hcovered⟩ := h.terminal pk hpk hnil
  exact ⟨hended, hseq, hcovered.cons a⟩

end Faithful

/-- Where the connection of the connected client is. -/
structure Live (c : Connection) (sm : StreamManager) : Prop where
  streamId_eq : c.streamId = sm.streamId
  sent_nonneg : 0 ≤ sm.sentNotAcked
  sent_le : sm.buf.headPos + sm.sentNotAcked ≤ sm.buf.totalSize
  row : Row c.streamId c.startSeq c.dataPackets (sm.buf.headPos + sm.sentNotAcked)
  acked : Covered c.acks c.startSeq sm.buf.headPos

end Connection

/-- The connected client acknowledged everything and was not sent the end. -/
structure StreamManager.OwesTerminal (sm : StreamManager) : Prop where
  connected : sm.connected = true
  notClosed : sm.closed = false
  notAcked : sm.terminalEventAcked = false
  drained : sm.buf.count = 0
  ended : sm.terminalEvent.isSome = true
  notSent : sm.terminalEventSent = false

namespace Job

/-- What holds where the holder of the lock is. -/
def HolderOk (s : Job) : Option Holder → Prop
  | none => True
  | some (.connectSize req headPos) =>
    s.sm.connected = false ∧ 0 ≤ headPos ∧ headPos ≤ s.sm.buf.headPos ∧
      headPos < req.clientSeq
  | some (.connectConsume req bytesToConsume) =>
    s.sm.connected = false ∧ req.clientSeq ≤ s.sm.buf.headPos + bytesToConsume
  | some (.connectHead req) => s.sm.connected = false ∧ req.clientSeq ≤ s.sm.buf.headPos
  | some (.connectFinish req headPos) =>
    s.sm.connected = false ∧ headPos = s.sm.buf.headPos ∧ req.clientSeq ≤ headPos
  | some (.ackConsume ackPk ackedBytes) =>
    s.sm.connected = true ∧ 0 < ackedBytes ∧ ackedBytes ≤ s.sm.sentNotAcked ∧
      ackPk.seq = s.sm.buf.headPos + ackedBytes ∧ ackPk.seq ∈ s.acked ∧
      ∀ c, s.current = some c → ackPk.seq ∈ c.acks
  | some (.ackFinish _ _) => s.sm.connected = true
  | some (.peek _) => s.sm.connected = true ∧ s.sender = .running ∧ 0 < s.sm.buf.count
  | some (.packet data) =>
    s.sm.connected = true ∧ s.sender = .running ∧ data ≠ [] ∧
      s.sm.buf.headPos + s.sm.sentNotAcked + data.length ≤ s.sm.buf.totalSize ∧
      data = (s.pty.drop (s.sm.buf.headPos + s.sm.sentNotAcked).toNat).take data.length

/-- The invariant. -/
structure Inv (s : Job) : Prop where
  holds : ∃ written, s.pty = written ++ s.unwritten ∧ s.sm.buf.Holds written
  eofPos_eq : s.sm.terminalEvent.isSome = true →
    s.unwritten = [] ∧ s.sm.eofPos = s.pty.length
  connected_eq : s.sm.connected = s.current.isSome
  syncMode_eq : s.sm.connected = true → s.sm.buf.syncMode = true
  holder : s.HolderOk s.holder
  live : ∀ c, s.current = some c → c.Live s.sm
  faithful : ∀ c ∈ s.past ++ s.current.toList,
    c.Faithful s.pty s.sm.terminalEvent.isSome s.acked
  drained : s.sm.buf.count = 0 → Covered s.acked 0 s.sm.buf.totalSize
  terminalSent : s.sm.terminalEventAcked = false → s.sm.terminalEventSent = true →
    ∃ c, s.current = some c ∧ c.HasTerminal
  notDone : s.sender = .done → s.sm.closed = true ∨ s.sm.terminalEventAcked = true
  notWaiting : s.sender = .waiting → s.sm.OwesTerminal →
    ∃ ackPk ackedBytes, s.holder = some (.ackFinish ackPk ackedBytes) ∧ 0 < ackedBytes

/-- A step that does not push the buffer's head on while `ClientConnected` relies on it:
it does not consume all that is left behind a head that has moved, and nothing is
written past the window between its last look at the head and `SetEffectiveWindow`. -/
def Undisturbed (s : Job) (e : Event) : Prop :=
  match s.holder, e with
  | some (.connectConsume req bytesToConsume), .proceed =>
    req.clientSeq = s.sm.buf.headPos + bytesToConsume ∨ bytesToConsume < s.sm.buf.count
  | some (.connectFinish _ _), .write =>
    s.signalDue = true ∨ s.sm.buf.syncMode = true ∨
      s.sm.buf.count + s.unwritten.length ≤ s.sm.buf.windowSize
  | _, _ => True

instance (s : Job) (e : Event) : Decidable (s.Undisturbed e) := by
  unfold Undisturbed
  split <;> infer_instance

/-- What clients may rely on. -/
structure Fidelity (s : Job) : Prop where
  /-- The packets of every connection are the output, up to its end. -/
  faithful : ∀ c ∈ s.past ++ s.current.toList,
    c.Faithful s.pty s.sm.terminalEvent.isSome s.acked
  /-- The buffer has all that was written from its head on. -/
  stored : ∃ written, s.pty = written ++ s.unwritten ∧
    s.sm.buf.contents = written.drop s.sm.buf.headPos.toNat
  /-- What is before the head was acknowledged, or was there before the connection. -/
  kept : ∀ c, s.current = some c → Covered c.acks c.startSeq s.sm.buf.headPos
  /-- When all is acknowledged and the client has not got the end, the sender loop sends
  it next. -/
  resent : ∀ c event, s.current = some c → s.sm.terminalEvent = some event →
    s.sm.closed = false → s.sm.terminalEventAcked = false → s.sm.buf.count = 0 →
    c.HasTerminal ∨
      (Runs.run step s [.proceed, .sent, .prepare]).current =
        some { c with packets := c.packets ++ [s.sm.terminalPacket event] }

end Job

end JobManager

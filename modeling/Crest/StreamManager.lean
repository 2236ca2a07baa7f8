import Crest.CirBuf
import Crest.StreamLinkPackets

/-!
# The output of a job

A stream manager keeps the output of a job in a circular buffer and sends it to
whichever client is connected.  Its state is guarded by one lock and the buffer by
another: the read loop writes to the buffer without holding the manager's lock.  What
runs under the manager's lock is therefore cut into steps where it uses the buffer, and
the read loop may write between any two of them.

Beside the state the bytes read so far are recorded, what was acknowledged, and for
every connection where it starts and the packets given to its sender.
-/

namespace JobManager

open StreamClient

def cirBufSize : Int := 2 * 1024 * 1024

def maxPacketSize : Int := 4 * 1024

inductive StreamTerminalEvent
  | eof
  | error (err : String)
  deriving DecidableEq, Repr

/-- `StreamManager`.  The sender of a connected client is the connection it belongs
to. -/
structure StreamManager where
  streamId : String := ""
  buf : CirBuf
  terminalEvent : Option StreamTerminalEvent := none
  eofPos : Int := -1
  /-- The most bytes that may be sent and not acknowledged. -/
  cwndSize : Int
  rwndSize : Int
  connected : Bool := false
  /-- How many bytes were sent and not acknowledged. -/
  sentNotAcked : Int := 0
  terminalEventSent : Bool := false
  maxAckedSeq : Int := 0
  maxAckedRwnd : Int := 0
  terminalEventAcked : Bool := false
  closed : Bool := false
  deriving DecidableEq, Repr

def makeStreamManagerWithSizes (cwndSize : Int) (cirbufSize : Nat) : StreamManager :=
  { buf := makeCirBuf cirbufSize true, cwndSize, rwndSize := cwndSize }

/-- The arguments of `ClientConnected`. -/
structure ConnectRequest where
  streamId : String
  /-- Whether a sender was given. -/
  hasSender : Bool := true
  rwndSize : Int
  /-- The position the client wants to go on from. -/
  clientSeq : Int
  deriving DecidableEq, Repr

/-- Who holds the manager's lock, and what it does next. -/
inductive Holder
  /-- `ClientConnected` is about to ask for the size. -/
  | connectSize (req : ConnectRequest) (headPos : Int)
  /-- `ClientConnected` is about to consume. -/
  | connectConsume (req : ConnectRequest) (bytesToConsume : Nat)
  /-- `ClientConnected` is about to ask for the head again. -/
  | connectHead (req : ConnectRequest)
  /-- `ClientConnected` is about to set the window. -/
  | connectFinish (req : ConnectRequest) (headPos : Int)
  /-- `RecvAck` is about to consume. -/
  | ackConsume (ackPk : CommandStreamAckData) (ackedBytes : Nat)
  /-- `RecvAck` is about to set the window. -/
  | ackFinish (ackPk : CommandStreamAckData) (ackedBytes : Nat)
  /-- `prepareNextPacket` is about to read from the buffer. -/
  | peek (peekSize : Nat)
  /-- `prepareNextPacket` is about to ask for the head. -/
  | packet (data : List UInt8)
  deriving DecidableEq, Repr

/-- The sender loop. -/
inductive SenderLoop
  /-- It is about to prepare a packet, or does so. -/
  | running
  /-- It waits for a signal. -/
  | waiting
  /-- It is giving a packet to the sender of the client. -/
  | sending
  /-- It has ended. -/
  | done
  deriving DecidableEq, Repr

/-- One connection of a client. -/
structure Connection where
  streamId : String
  startSeq : Int
  packets : List CommandStreamData := []
  acks : List Int := []
  deriving DecidableEq, Repr

/-- A manager at work. -/
structure Job where
  sm : StreamManager
  holder : Option Holder := none
  sender : SenderLoop := .running
  /-- What the read loop has read and not written yet. -/
  unwritten : List UInt8 := []
  signalDue : Bool := false
  pty : List UInt8 := []
  current : Option Connection := none
  past : List Connection := []
  /-- The positions clients acknowledged, also by asking for what comes after. -/
  acked : List Int := []
  deriving DecidableEq, Repr

/-- A new manager at work. -/
def Job.initial (cwndSize : Int) (cirbufSize : Nat) : Job :=
  { sm := makeStreamManagerWithSizes cwndSize cirbufSize }

namespace StreamManager

/-- The smaller one of the two windows. -/
def effectiveWindow (cwndSize rwndSize : Int) : Int :=
  if rwndSize < cwndSize then rwndSize else cwndSize

/-- `prepareTerminalPacket`: the packet. -/
def terminalPacket (sm : StreamManager) (event : StreamTerminalEvent) : CommandStreamData :=
  match event with
  | .eof => { id := sm.streamId, seq := sm.eofPos, eof := true }
  | .error err => { id := sm.streamId, seq := sm.eofPos, error := err }

end StreamManager

namespace Job

def signal (s : Job) : Job :=
  { s with sender := if s.sender = .waiting then .running else s.sender }

/-- `drainCond.Wait`, which gives the lock back. -/
def wait (s : Job) : Job := { s with holder := none, sender := .waiting }

/-- A packet for the client. -/
def addPacket (s : Job) (pk : CommandStreamData) : Job :=
  { s with
    holder := none
    sender := .sending
    current := s.current.map fun c => { c with packets := c.packets ++ [pk] } }

/-- `ClientConnected` up to its first use of the buffer's head. -/
def connect (s : Job) (req : ConnectRequest) : Job :=
  if s.sm.closed || s.sm.terminalEventAcked then s
  else if s.sm.connected then s
  else if !req.hasSender then s
  else if s.sm.buf.headPos < req.clientSeq then
    { s with holder := some (.connectSize req s.sm.buf.headPos) }
  else { s with holder := some (.connectFinish req s.sm.buf.headPos) }

/-- `RecvAck` up to its first use of the buffer that changes it. -/
def recvAck (s : Job) (ackPk : CommandStreamAckData) : Job :=
  if !s.sm.connected || ackPk.id ≠ s.sm.streamId then s
  else if ackPk.fin then { s with sm := { s.sm with terminalEventAcked := true } }.signal
  else
    let s := { s with
      current := s.current.map fun c => { c with acks := ackPk.seq :: c.acks }
      acked := ackPk.seq :: s.acked }
    if ackPk.seq < s.sm.maxAckedSeq ∨
        (ackPk.seq = s.sm.maxAckedSeq ∧ ackPk.rwnd ≤ s.sm.maxAckedRwnd) then s
    else
      let sm := { s.sm with maxAckedSeq := ackPk.seq, maxAckedRwnd := ackPk.rwnd }
      let headPos := s.sm.buf.headPos
      if ackPk.seq < headPos then { s with sm }
      else if s.sm.sentNotAcked < ackPk.seq - headPos then { s with sm }
      else if 0 < ackPk.seq - headPos then
        { s with sm, holder := some (.ackConsume ackPk (ackPk.seq - headPos).toNat) }
      else { s with sm, holder := some (.ackFinish ackPk 0) }

def setRwndSize (s : Job) (rwndSize : Int) : Job :=
  if rwndSize < 0 then s
  else if !s.sm.connected then s
  else
    { s with
      sm := { s.sm with
        rwndSize
        buf := s.sm.buf.setEffectiveWindow true
          (StreamManager.effectiveWindow s.sm.cwndSize rwndSize) } }.signal

def clientDisconnected (s : Job) : Job :=
  if !s.sm.connected then s
  else
    { s with
      sm := { s.sm with
        connected := false
        sentNotAcked := 0
        maxAckedSeq := 0
        maxAckedRwnd := 0
        terminalEventSent := s.sm.terminalEventAcked && s.sm.terminalEventSent
        buf := s.sm.buf.setEffectiveWindow false cirBufSize }
      past := s.past ++ s.current.toList
      current := none }.signal

/-- `prepareNextPacket` up to the point where it waits, has the end to send, or is
about to read from the buffer. -/
def prepareNextPacket (s : Job) : Job :=
  let available := s.sm.buf.count
  if s.sm.closed || s.sm.terminalEventAcked then { s with sender := .done }
  else if !s.sm.connected then s.wait
  else if available = 0 then
    match s.sm.terminalEvent with
    | some event =>
      if s.sm.terminalEventSent then s.wait
      else
        { s with sm := { s.sm with terminalEventSent := true } }.addPacket
          (s.sm.terminalPacket event)
    | none => s.wait
  else
    let effectiveRwnd := StreamManager.effectiveWindow s.sm.rwndSize s.sm.cwndSize
    let availableToSend := effectiveRwnd - s.sm.sentNotAcked
    if availableToSend ≤ 0 then s.wait
    else
      let peekSize := if maxPacketSize < availableToSend then maxPacketSize else availableToSend
      let peekSize := if (available : Int) < peekSize then (available : Int) else peekSize
      { s with holder := some (.peek peekSize.toNat) }

/-- The next step of whoever holds the lock. -/
def proceed (s : Job) : Holder → Job
  | .connectSize req headPos =>
    let bytesToConsume := (req.clientSeq - headPos).toNat
    if s.sm.buf.count < bytesToConsume then { s with holder := none }
    else { s with holder := some (.connectConsume req bytesToConsume) }
  | .connectConsume req bytesToConsume =>
    match s.sm.buf.consume bytesToConsume with
    | none => { s with holder := none }
    | some buf =>
      { s with
        sm := { s.sm with buf }
        holder := some (.connectHead req)
        acked := req.clientSeq :: s.acked }
  | .connectHead req => { s with holder := some (.connectFinish req s.sm.buf.headPos) }
  | .connectFinish req headPos =>
    { s with
      sm := { s.sm with
        streamId := req.streamId
        connected := true
        rwndSize := req.rwndSize
        sentNotAcked := 0
        buf := s.sm.buf.setEffectiveWindow true
          (StreamManager.effectiveWindow s.sm.cwndSize req.rwndSize) }
      holder := none
      current := some
        { streamId := req.streamId
          startSeq := if headPos < req.clientSeq then req.clientSeq else headPos } }.signal
  | .ackConsume ackPk ackedBytes =>
    match s.sm.buf.consume ackedBytes with
    | none => { s with holder := none }
    | some buf =>
      { s with
        sm := { s.sm with buf, sentNotAcked := s.sm.sentNotAcked - ackedBytes }
        holder := some (.ackFinish ackPk ackedBytes) }
  | .ackFinish ackPk ackedBytes =>
    let s' := { s with
      sm := { s.sm with
        rwndSize := ackPk.rwnd
        buf := s.sm.buf.setEffectiveWindow true
          (StreamManager.effectiveWindow s.sm.cwndSize ackPk.rwnd) }
      holder := none }
    if s.sm.rwndSize < ackPk.rwnd ∨ 0 < ackedBytes then s'.signal else s'
  | .peek peekSize =>
    let data := s.sm.buf.peekDataAt s.sm.sentNotAcked.toNat peekSize
    if data = [] then s.wait else { s with holder := some (.packet data) }
  | .packet data =>
    { s with sm := { s.sm with sentNotAcked := s.sm.sentNotAcked + data.length } }.addPacket
      { id := s.sm.streamId
        seq := s.sm.buf.headPos + s.sm.sentNotAcked
        data64 := Base64.toBase64 data }

/-- What can happen next. -/
inductive Event
  /-- The read loop reads some output. -/
  | ptyRead (chunk : List UInt8)
  /-- The read loop writes what it has read, as far as the buffer takes it. -/
  | write
  /-- The read loop signals. -/
  | signal
  /-- The output ends. -/
  | ptyEnd (event : StreamTerminalEvent)
  /-- `ClientConnected` starts. -/
  | connect (req : ConnectRequest)
  /-- `RecvAck` starts. -/
  | recvAck (ackPk : CommandStreamAckData)
  /-- `SetRwndSize`. -/
  | setRwndSize (rwndSize : Int)
  /-- `ClientDisconnected`. -/
  | disconnect
  /-- `Close`. -/
  | close
  /-- The sender loop prepares a packet. -/
  | prepare
  /-- The sender loop has given the packet to the sender of the client. -/
  | sent
  /-- Whoever holds the lock goes on. -/
  | proceed
  deriving DecidableEq, Repr

/-- Whether the read loop is about to read. -/
def readsNext (s : Job) : Bool :=
  s.unwritten = [] && !s.signalDue && s.sm.terminalEvent.isNone

/-- One step; an event that is not possible changes nothing. -/
def step (s : Job) : Event → Job
  | .ptyRead chunk =>
    if s.readsNext then { s with unwritten := chunk, pty := s.pty ++ chunk } else s
  | .write =>
    if s.signalDue then s
    else
      let (buf, written) := s.sm.buf.writeAvailable s.unwritten
      { s with
        sm := { s.sm with buf }
        unwritten := s.unwritten.drop written
        signalDue := 0 < written }
  | .signal =>
    if s.holder = none ∧ s.signalDue = true then { s with signalDue := false }.signal else s
  | .ptyEnd event =>
    if s.holder = none ∧ s.readsNext = true then
      { s with
        sm := { s.sm with eofPos := s.sm.buf.totalSize, terminalEvent := some event } }.signal
    else s
  | .connect req => if s.holder = none then s.connect req else s
  | .recvAck ackPk => if s.holder = none then s.recvAck ackPk else s
  | .setRwndSize rwndSize => if s.holder = none then s.setRwndSize rwndSize else s
  | .disconnect => if s.holder = none then s.clientDisconnected else s
  | .close =>
    if s.holder = none then { s with sm := { s.sm with closed := true } }.signal else s
  | .prepare =>
    if s.holder = none ∧ s.sender = .running then s.prepareNextPacket else s
  | .sent => if s.sender = .sending then { s with sender := .running } else s
  | .proceed =>
    match s.holder with
    | none => s
    | some holder => s.proceed holder

end Job

end JobManager

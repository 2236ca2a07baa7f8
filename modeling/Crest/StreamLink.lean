import Mathlib.Data.Finset.Union
import Crest.Runs
import Crest.StreamWriter

/-!
# A writer and a reader over a network

The two ends are joined by two channels, one for packets and one for
acknowledgements.  A channel holds what is on its way in any order; whatever is on
its way may arrive next, and may be doubled, but is not lost.  The bytes accepted by
`Write`, the packets that carried bytes and the bytes returned by `Read` are recorded
beside the two ends.
-/

namespace StreamClient

/-- The bytes of a packet. -/
def payload (pk : CommandStreamData) : List UInt8 := (decodeString pk.data64).getD []

/-- The bytes of some packets, one packet after the other. -/
def payloads (pks : List CommandStreamData) : List UInt8 := pks.flatMap payload

/-- The two ends, the two channels and what happened so far. -/
structure Link where
  writer : Writer
  reader : Reader
  /-- How many calls of `Write` wait for room. -/
  waiting : Nat := 0
  data : List CommandStreamData := []
  acks : List CommandStreamAckData := []
  accepted : List UInt8 := []
  /-- The packets with bytes that were sent, first to last. -/
  sent : List CommandStreamData := []
  returned : List UInt8 := []
  deriving DecidableEq, Repr

namespace Link

/-- A new stream whose two ends agree on the window. -/
def initial (id : String) (window : Int) : Link :=
  { writer := newWriter id window, reader := newReader id window }

/-- What can happen next.  A number picks one of the packets on their way. -/
inductive Event
  | write (p : List UInt8)
  | wake
  | closeWriter (err : Option String)
  | recvAck (index : Nat)
  | dupAck (index : Nat)
  | recvData (index : Nat)
  | dupData (index : Nat)
  | read (len : Nat)
  | closeReader
  deriving DecidableEq, Repr

/-- What the writer did under its lock is on its way. -/
def afterSend (s : Link) (writer : Writer) (packets : List CommandStreamData) : Link :=
  { s with writer, data := s.data ++ packets, sent := s.sent ++ packets }

/-- What the reader did under its lock is on its way. -/
def afterAck (s : Link) (reader : Reader) (acks : List CommandStreamAckData) : Link :=
  { s with reader, acks := s.acks ++ acks }

/-- One step of the two ends or of a channel. -/
def step (s : Link) : Event → Link
  | .write p =>
    let (writer, packets, result) := s.writer.write p
    { s.afterSend writer packets with
      accepted := if s.writer.isOpen then s.accepted ++ p else s.accepted
      waiting := if result = .waiting then s.waiting + 1 else s.waiting }
  | .wake =>
    if s.waiting = 0 then s
    else
      let (writer, packets, result) := s.writer.continueWrite
      { s.afterSend writer packets with
        waiting := if result = .waiting then s.waiting else s.waiting - 1 }
  | .closeWriter err =>
    let (writer, packets) := s.writer.closeWithError err
    { s with writer, data := s.data ++ packets }
  | .recvAck index =>
    match s.acks[index]? with
    | none => s
    | some ackPk => { s with writer := s.writer.recvAck ackPk, acks := s.acks.eraseIdx index }
  | .dupAck index =>
    match s.acks[index]? with
    | none => s
    | some ackPk => { s with acks := s.acks ++ [ackPk] }
  | .recvData index =>
    match s.data[index]? with
    | none => s
    | some dataPk =>
      let (reader, acks) := s.reader.recvData dataPk
      { s.afterAck reader acks with data := s.data.eraseIdx index }
  | .dupData index =>
    match s.data[index]? with
    | none => s
    | some dataPk => { s with data := s.data ++ [dataPk] }
  | .read len =>
    match s.reader.read len with
    | none => s
    | some (.bytes bytes, reader, acks) =>
      { s.afterAck reader acks with returned := s.returned ++ bytes }
    | some (_, reader, acks) => s.afterAck reader acks
  | .closeReader =>
    let (reader, acks) := s.reader.close
    s.afterAck reader acks

/-- The bytes that were sent. -/
def sentBytes (s : Link) : List UInt8 := payloads s.sent

/-- The positions of a packet's bytes. -/
def positions (pk : CommandStreamData) : Finset Int :=
  ((List.range (payload pk).length).map fun i : Nat => pk.seq + i).toFinset

/-- The positions of the bytes that are on their way to the reader, or wait there
for earlier ones. -/
def outstanding (s : Link) : Finset Int :=
  ((s.data ++ s.reader.oooPackets).toFinset.biUnion positions).filter (s.reader.nextSeq ≤ ·)

end Link

end StreamClient

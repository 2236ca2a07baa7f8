import Crest.StreamReader

/-!
# The writing end of a stream

A writer cuts what it is given into numbered packets and sends no more than the
window allows.  A call of `Write` that finds no room waits; it goes on when an
acknowledgement has come in.  All the functions here run under the writer's lock.
-/

namespace StreamClient

/-- `Writer`.  The sender of packets is the result of the functions. -/
structure Writer where
  id : String
  readWindow : Int
  nextSeq : Int := 0
  buffer : List UInt8 := []
  /-- How many bytes were sent and not acknowledged. -/
  sentNotAcked : Int := 0
  maxAckedSeq : Int := 0
  maxAckedRwnd : Int := 0
  finAcked : Bool := false
  canceled : Bool := false
  /-- Why nothing more is accepted. -/
  err : Option StreamError := none
  closed : Bool := false
  deriving DecidableEq, Repr

def newWriter (id : String) (readWindow : Int) : Writer := { id, readWindow }

namespace Writer

def recvAck (w : Writer) (ackPk : CommandStreamAckData) : Writer :=
  if ackPk.id ≠ w.id then w
  else if ackPk.fin then { w with finAcked := true, maxAckedSeq := ackPk.seq }
  else if ackPk.cancel && !w.canceled then
    if w.closed then { w with canceled := true }
    else { w with canceled := true, err := some .cancelled }
  else if ackPk.seq < w.maxAckedSeq ∨
      (ackPk.seq = w.maxAckedSeq ∧ ackPk.rwnd ≤ w.maxAckedRwnd) then w
  else
    let w := { w with maxAckedSeq := ackPk.seq, maxAckedRwnd := ackPk.rwnd }
    if w.closed then w
    else
      let unacked := w.nextSeq - w.sentNotAcked
      if unacked < ackPk.seq then
        let sentNotAcked := w.sentNotAcked - (ackPk.seq - unacked)
        { w with
          sentNotAcked := if sentNotAcked < 0 then 0 else sentNotAcked
          readWindow := ackPk.rwnd }
      else { w with readWindow := ackPk.rwnd }

/-- `readWindow - sentNotAcked`. -/
def availWindow (w : Writer) : Int := w.readWindow - w.sentNotAcked

/-- `trySendDataLocked`: the packet, if there is room for one, and whether it has
any bytes. -/
def trySendDataLocked (w : Writer) : Writer × List CommandStreamData × Bool :=
  if w.availWindow ≤ 0 then (w, [], false)
  else
    let toSend :=
      if w.availWindow < w.buffer.length then w.availWindow.toNat else w.buffer.length
    ({ w with
        buffer := w.buffer.drop toSend
        nextSeq := w.nextSeq + toSend
        sentNotAcked := w.sentNotAcked + toSend },
      [{ id := w.id, seq := w.nextSeq, data64 := Base64.toBase64 (w.buffer.take toSend) }],
      0 < toSend)

/-- How a round of the loop of `Write` ends. -/
inductive WriteResult
  | written
  | error (err : StreamError)
  | waiting
  deriving DecidableEq, Repr

/-- The loop of `Write` until it returns or waits.  Every packet takes a byte, so
one round more than there are bytes is enough. -/
def writeLoop : Nat → Writer → Writer × List CommandStreamData × WriteResult
  | 0, w => (w, [], .waiting)
  | fuel + 1, w =>
    if w.buffer = [] then (w, [], .written)
    else if w.closed then (w, [], .error .closedPipe)
    else
      match w.err with
      | some err => (w, [], .error err)
      | none =>
        match w.trySendDataLocked with
        | (w', packets, true) =>
          let (w'', packets', result) := writeLoop fuel w'
          (w'', packets ++ packets', result)
        | (w', packets, false) => (w', packets, .waiting)

/-- A call of `Write` that goes on. -/
def continueWrite (w : Writer) : Writer × List CommandStreamData × WriteResult :=
  writeLoop (w.buffer.length + 1) w

/-- Whether `Write` accepts bytes. -/
def isOpen (w : Writer) : Bool := !w.closed && w.err.isNone

/-- `Write` up to the point where it returns or waits. -/
def write (w : Writer) (p : List UInt8) : Writer × List CommandStreamData × WriteResult :=
  if w.closed then (w, [], .error .closedPipe)
  else
    match w.err with
    | some err => (w, [], .error err)
    | none => continueWrite { w with buffer := w.buffer ++ p }

/-- `CloseWithError`; no error and `io.EOF` end the stream. -/
def closeWithError (w : Writer) (err : Option String) : Writer × List CommandStreamData :=
  if w.closed then (w, [])
  else
    let packet : CommandStreamData :=
      match err with
      | none => { id := w.id, seq := w.nextSeq, eof := true }
      | some message => { id := w.id, seq := w.nextSeq, error := message }
    ({ w with closed := true, err := w.err.or (some .closedPipe) }, [packet])

end Writer

end StreamClient

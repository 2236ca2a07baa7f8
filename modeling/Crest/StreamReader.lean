import Mathlib.Data.List.Sort
import Crest.Base64

/-!
# The reading end of a stream

A reader collects numbered packets into a buffer.  A packet that comes too early
waits, one that comes again is dropped, and whatever moves the reader on is
acknowledged with the position reached and the room left in the window.  All the
functions here run under the reader's lock.
-/

namespace StreamClient

structure CommandStreamData where
  id : String
  seq : Int
  data64 : JsString := []
  eof : Bool := false
  /-- Why the stream broke off; empty if it did not. -/
  error : String := ""
  deriving DecidableEq, Repr

structure CommandStreamAckData where
  id : String
  /-- The position up to which everything arrived. -/
  seq : Int
  fin : Bool := false
  cancel : Bool := false
  rwnd : Int
  error : String := ""
  deriving DecidableEq, Repr

/-- The errors of the two ends. -/
inductive StreamError
  | closedPipe
  | stream (message : String)
  | base64Decode
  | cancelled
  deriving DecidableEq, Repr

/-- `Reader`.  The sender of acknowledgements is the result of the functions. -/
structure Reader where
  id : String
  /-- The room for bytes that were not read yet. -/
  readWindow : Int
  nextSeq : Int := 0
  buffer : List UInt8 := []
  eof : Bool := false
  err : Option StreamError := none
  closed : Bool := false
  lastRwndSent : Int
  /-- Packets that came too early. -/
  oooPackets : List CommandStreamData := []
  deriving DecidableEq, Repr

def newReader (id : String) (readWindow : Int) : Reader :=
  { id, readWindow, lastRwndSent := readWindow }

def decodeString (text : JsString) : Option (List UInt8) :=
  if Base64.matchesPattern text then some (Base64.fromBase64 text) else none

@[simp] theorem decodeString_toBase64 (bytes : List UInt8) :
    decodeString (Base64.toBase64 bytes) = some bytes := by
  simp [decodeString, Base64.matchesPattern_toBase64]

namespace Reader

/-- The room left in the window. -/
def rwnd (r : Reader) : Int :=
  if r.readWindow - r.buffer.length < 0 then 0 else r.readWindow - r.buffer.length

def sendAckLocked (r : Reader) (fin cancel : Bool) (errStr : String) :
    Reader × List CommandStreamAckData :=
  ({ r with lastRwndSent := r.rwnd },
    [{ id := r.id, seq := r.nextSeq, fin, cancel, rwnd := r.rwnd, error := errStr }])

def recvDataOrderedLocked (r : Reader) (dataPk : CommandStreamData) :
    Reader × List CommandStreamAckData :=
  if dataPk.data64 = [] then ({ r with eof := r.eof || dataPk.eof }, [])
  else
    match decodeString dataPk.data64 with
    | none => sendAckLocked { r with err := some .base64Decode } false true "base64 decode error"
    | some data =>
      ({ r with
          buffer := r.buffer ++ data
          nextSeq := r.nextSeq + data.length
          eof := r.eof || dataPk.eof }, [])

/-- `addOOOPacketLocked`: one packet for each position. -/
def addOOOPacketLocked (r : Reader) (dataPk : CommandStreamData) : Reader :=
  if r.oooPackets.any fun pkt => pkt.seq = dataPk.seq then r
  else { r with oooPackets := r.oooPackets ++ [dataPk] }

/-- Whether nothing more is taken in. -/
def done (r : Reader) : Bool := r.eof || r.err.isSome

/-- The loop over the waiting packets. -/
def processSortedPackets (r : Reader) :
    List CommandStreamData → Reader × List CommandStreamAckData
  | [] => ({ r with oooPackets := [] }, [])
  | pkt :: rest =>
    if r.done then ({ r with oooPackets := [] }, [])
    else if pkt.seq ≠ r.nextSeq then ({ r with oooPackets := pkt :: rest }, [])
    else
      let (r', acks) := r.recvDataOrderedLocked pkt
      let (r'', acks') := processSortedPackets r' rest
      (r'', acks ++ acks')

def processOOOPacketsLocked (r : Reader) : Reader × List CommandStreamAckData :=
  r.processSortedPackets (r.oooPackets.mergeSort fun left right => left.seq ≤ right.seq)

def recvData (r : Reader) (dataPk : CommandStreamData) : Reader × List CommandStreamAckData :=
  if r.closed || r.done then (r, [])
  else if dataPk.id ≠ r.id then (r, [])
  else if dataPk.error ≠ "" then
    sendAckLocked { r with err := some (.stream dataPk.error) } true false ""
  else if dataPk.seq < r.nextSeq then (r, [])
  else if r.nextSeq < dataPk.seq then (r.addOOOPacketLocked dataPk, [])
  else
    let (r₁, acks₁) := r.recvDataOrderedLocked dataPk
    let (r₂, acks₂) := r₁.processOOOPacketsLocked
    let (r₃, acks₃) := r₂.sendAckLocked r₂.eof false ""
    (r₃, acks₁ ++ acks₂ ++ acks₃)

/-- What a call of `Read` returns. -/
inductive ReadResult
  | error (err : StreamError)
  | eof
  | bytes (data : List UInt8)
  deriving DecidableEq, Repr

/-- `Read` with room for `len` bytes: the result, the reader and the
acknowledgements; `none` while it waits. -/
def read (r : Reader) (len : Nat) :
    Option (ReadResult × Reader × List CommandStreamAckData) :=
  if r.buffer = [] ∧ r.done = false ∧ r.closed = false then none
  else if r.closed then some (.error .closedPipe, r, [])
  else
    match r.err with
    | some err => some (.error err, r, [])
    | none =>
      if r.buffer = [] ∧ r.eof = true then some (.eof, r, [])
      else
        let data := r.buffer.take len
        let r' := { r with buffer := r.buffer.drop len }
        if data.length = 0 then some (.bytes data, r', [])
        else if r'.buffer.length = 0 ∨
            r'.readWindow.tdiv 5 ≤ r'.rwnd - r'.lastRwndSent then
          let (r'', acks) := r'.sendAckLocked false false ""
          some (.bytes data, r'', acks)
        else some (.bytes data, r', [])

def close (r : Reader) : Reader × List CommandStreamAckData :=
  if r.closed then (r, [])
  else
    sendAckLocked { r with closed := true, err := r.err.or (some .closedPipe) } false true ""

end Reader

end StreamClient

import Mathlib.Data.Prod.Lex
import Crest.JsMap
import Crest.SliceSort

/-!
# The quick reorder queue

Producers queue items with a session id and a sequence number; a reader takes data from a
bounded channel.  An item that carries the next expected number is sent at once, a later
one waits in the buffer until the gap before it is filled or its timeout has passed, an
older one is sent at once.  Sessions are ordered by the wall clock at which they were
first seen, and a new session first flushes the buffer.

Every operation runs under one lock, so a state is what is seen between two of them.
The four fields at the end of the state are histories that the code does not keep: the
items sent on the channel, the data read from it, the items accepted without an error, and
whether a send ever met a full channel.
-/

/-- An item waiting in the buffer. -/
structure QueuedItem (α : Type*) where
  sessionId : String
  seqNum : Int64
  data : α
  timestamp : Int
deriving DecidableEq

/-- The queue, its channel and the histories. -/
structure QuickReorderQueue (α : Type*) where
  /-- The wall clock in milliseconds at which a session was first seen. -/
  sessionOrder : JsMap String Int
  currentSessionId : String
  nextSeqNum : Int64
  buffer : List (QueuedItem α)
  outCh : List α
  cap : Nat
  timeout : Int
  timer : Option Int
  closed : Bool
  /-- History: the items sent, in order. -/
  sent : List (QueuedItem α)
  /-- History: the data received from the channel, in order. -/
  received : List α
  /-- History: the items accepted without an error. -/
  accepted : List (QueuedItem α)
  /-- History: a send met a full channel. -/
  blocked : Bool

namespace QuickReorderQueue

variable {α : Type*}

/-- `MakeQuickReorderQueue`. -/
def make (bufSize : Nat) (timeout : Int) : QuickReorderQueue α where
  sessionOrder := JsMap.empty
  currentSessionId := ""
  nextSeqNum := 1
  buffer := []
  outCh := []
  cap := bufSize
  timeout := timeout
  timer := none
  closed := false
  sent := []
  received := []
  accepted := []
  blocked := false

/-- `q.outCh <- item.data`. -/
def send (q : QuickReorderQueue α) (item : QueuedItem α) : QuickReorderQueue α :=
  { q with
    outCh := q.outCh ++ [item.data]
    sent := q.sent ++ [item]
    blocked := q.blocked || decide (q.cap ≤ q.outCh.length) }

/-- `<-q.outCh`: the reader takes the oldest datum, if there is one. -/
def receive (q : QuickReorderQueue α) : QuickReorderQueue α :=
  match q.outCh with
  | [] => q
  | x :: rest => { q with outCh := rest, received := q.received ++ [x] }

/-- The order of a session; one never seen counts as zero. -/
def order (q : QuickReorderQueue α) (sessionId : String) : Int :=
  (q.sessionOrder.get sessionId).getD 0

/-- `cmpSessionSeq_withlock`. -/
def cmpSessionSeq (q : QuickReorderQueue α) (session1 : String) (seq1 : Int64)
    (session2 : String) (seq2 : Int64) : Int :=
  let ts1 := q.order session1
  let ts2 := q.order session2
  if ts1 < ts2 then -1
  else if ts1 > ts2 then 1
  else if seq1 < seq2 then -1
  else if seq1 > seq2 then 1
  else 0

variable (sorter : SliceSort (QueuedItem α))

/-- The buffer as `sortBuffer_withlock` leaves it. -/
def sortedBuffer (q : QuickReorderQueue α) : List (QueuedItem α) :=
  sorter.sort
    (fun a b => decide (q.cmpSessionSeq a.sessionId a.seqNum b.sessionId b.seqNum < 0))
    q.buffer

/-- `flushBuffer_withlock`: everything buffered is sent in order and the timer stops. -/
def flushBuffer (q : QuickReorderQueue α) : QuickReorderQueue α :=
  if q.buffer = [] then q
  else { (q.sortedBuffer sorter).foldl send q with buffer := [], timer := none }

/-- `ensureSessionTs_withlock`: a session not seen before becomes the current one. -/
def ensureSessionTs (q : QuickReorderQueue α) (sessionId : String) (ts : Int) :
    QuickReorderQueue α :=
  if sessionId = "" then q
  else if q.sessionOrder.has sessionId then q
  else
    { flushBuffer sorter { q with sessionOrder := q.sessionOrder.set sessionId ts } with
      currentSessionId := sessionId
      nextSeqNum := 1 }

/-- The loop of `processBuffer_withlock` over the sorted buffer. -/
def drain (q : QuickReorderQueue α) : List (QueuedItem α) → QuickReorderQueue α
  | [] => { q with buffer := [] }
  | item :: rest =>
    if item.sessionId = q.currentSessionId ∧ item.seqNum = q.nextSeqNum then
      drain { q.send item with nextSeqNum := q.nextSeqNum + 1 } rest
    else { q with buffer := item :: rest }

/-- `processBuffer_withlock`. -/
def processBuffer (q : QuickReorderQueue α) : QuickReorderQueue α :=
  if q.buffer = [] then q else q.drain (q.sortedBuffer sorter)

/-- `ensureTimer_withlock`: an armed timer stays as it is. -/
def ensureTimer (q : QuickReorderQueue α) (now : Int) : QuickReorderQueue α :=
  match q.timer with
  | some _ => q
  | none => { q with timer := some (now + q.timeout) }

/-- What `QueueItem` does once the item has passed its two checks. -/
def placeItem (q : QuickReorderQueue α) (item : QueuedItem α) : QuickReorderQueue α :=
  let cmp := q.cmpSessionSeq item.sessionId item.seqNum q.currentSessionId q.nextSeqNum
  if cmp < 0 ∨ item.seqNum = 0 ∨ item.sessionId = "" then q.send item
  else if cmp = 0 then
    processBuffer sorter { q.send item with nextSeqNum := q.nextSeqNum + 1 }
  else ensureTimer { q with buffer := q.buffer ++ [item] } item.timestamp

/-- `QueueItem`.  `ts` is the wall clock and `now` the time at which it runs. -/
def queueItem (q : QuickReorderQueue α) (sessionId : String) (seqNum : Int64) (data : α)
    (ts now : Int) : Except String Unit × QuickReorderQueue α :=
  if q.closed then (.error "ReorderQueue is closed, cannot queue new item", q)
  else if q.cap ≤ q.buffer.length + q.outCh.length then
    (.error ("queue is full, cannot accept new items, cap: " ++ toString q.cap), q)
  else
    let item : QueuedItem α := { sessionId, seqNum, data, timestamp := now }
    let q := placeItem sorter (q.ensureSessionTs sorter sessionId ts) item
    (.ok (), { q with accepted := q.accepted ++ [item] })

/-- Whether an item's timeout has passed. -/
def timedOut (q : QuickReorderQueue α) (now : Int) (item : QueuedItem α) : Prop :=
  q.timeout ≤ now - item.timestamp

instance (q : QuickReorderQueue α) (now : Int) (item : QueuedItem α) :
    Decidable (q.timedOut now item) := inferInstanceAs (Decidable (_ ≤ _))

/-- The last position of the list that holds an item whose timeout has passed. -/
def highestTimedOutIdx (q : QuickReorderQueue α) (now : Int) :
    List (QueuedItem α) → Option Nat
  | [] => none
  | item :: rest =>
    match highestTimedOutIdx q now rest with
    | some i => some (i + 1)
    | none => if q.timedOut now item then some 0 else none

/-- Sending one item of the timed-out stretch, which moves the expected number past it. -/
def sendTimedOut (q : QuickReorderQueue α) (item : QueuedItem α) : QuickReorderQueue α :=
  let q := q.send item
  if item.sessionId = q.currentSessionId ∧ q.nextSeqNum ≤ item.seqNum then
    { q with nextSeqNum := item.seqNum + 1 }
  else q

/-- The timer that `onTimeout` arms for the items it leaves in the buffer. -/
def rearm (q : QuickReorderQueue α) (now : Int) : QuickReorderQueue α :=
  match q.buffer with
  | [] => q
  | first :: rest =>
    let oldestTime := rest.foldl (fun t item => min t item.timestamp) first.timestamp
    { q with timer := some (now + max 0 (q.timeout - (now - oldestTime))) }

/-- The items up to the last timed-out one are sent; the others stay. -/
def sendTimedOutItems (q : QuickReorderQueue α) (now : Int) : QuickReorderQueue α :=
  let buffer := q.sortedBuffer sorter
  match q.highestTimedOutIdx now buffer with
  | none => { q with buffer := buffer }
  | some i =>
    { (buffer.take (i + 1)).foldl sendTimedOut q with buffer := buffer.drop (i + 1) }

def onTimeout (q : QuickReorderQueue α) (now : Int) : QuickReorderQueue α :=
  if q.closed then q
  else if q.buffer = [] then { q with timer := none }
  else rearm (sendTimedOutItems sorter { q with timer := none } now) now

def close (q : QuickReorderQueue α) : QuickReorderQueue α :=
  if q.closed then q else { q with closed := true, timer := none }

/-- What can happen to the queue, in one piece under its lock.  A timer that was stopped
after it fired still runs its function, so a timeout may come at any time. -/
inductive Event (α : Type*) where
  | queueItem (sessionId : String) (seqNum : Int64) (data : α) (ts now : Int)
  | onTimeout (now : Int)
  | close
  | receive

def step (q : QuickReorderQueue α) : Event α → QuickReorderQueue α
  | .queueItem sessionId seqNum data ts now =>
    (q.queueItem sorter sessionId seqNum data ts now).2
  | .onTimeout now => q.onTimeout sorter now
  | .close => q.close
  | .receive => q.receive

end QuickReorderQueue

import Crest.CirBuf
import Crest.Runs

/-!
# The circular buffer is a queue of bytes

A queue keeps all bytes that were ever written and the place of the first one that was not
taken from it.  The circular buffer has only as many cells as it was made with, three counters
that go round, and a window that may shrink below what there is; still every call answers what
the queue answers.

A writer that finds the buffer full gets a channel.  The channel is closed as soon as there may
be room again.
-/

namespace JobManager

namespace CirBuf

/-- A call of the buffer. -/
inductive Call
  | writeAvailable (data : List UInt8)
  | peekDataAt (offset len : Nat)
  | consume (numBytes : Nat)
  | setEffectiveWindow (syncMode : Bool) (windowSize : Int)
deriving DecidableEq, Repr

/-- What a call returns. -/
inductive Reply
  /-- So many bytes were written; the writer waits if it got a channel. -/
  | wrote (written : Nat) (waits : Bool)
  | peeked (data : List UInt8)
  /-- Whether there were enough bytes. -/
  | consumed (isEnough : Bool)
  | windowSet
deriving DecidableEq, Repr

section Queue

/-- A queue of bytes with a window: all that was ever written, and how much of it is gone. -/
@[ext]
structure ByteQueue where
  written : List UInt8 := []
  head : Nat := 0
  capacity : Nat
  syncMode : Bool
  windowSize : Nat
deriving DecidableEq, Repr

namespace ByteQueue

/-- How many bytes the queue has. -/
def length (q : ByteQueue) : Nat := q.written.length - q.head

def empty (capacity : Nat) (syncMode : Bool) : ByteQueue :=
  { capacity := capacity, syncMode := syncMode, windowSize := capacity }

/-- The bytes that are taken: in sync mode those the window has room for, else all. -/
def taken (q : ByteQueue) (data : List UInt8) : List UInt8 :=
  if q.syncMode then data.take (q.windowSize - q.length) else data

/-- The place of the first byte when no more than the window is kept. -/
def truncated (q : ByteQueue) : Nat := max q.head (q.written.length - q.windowSize)

/-- Writing at the end; outside sync mode the oldest bytes go. -/
def write (q : ByteQueue) (data : List UInt8) : ByteQueue :=
  let next := { q with written := q.written ++ q.taken data }
  if q.syncMode then next else { next with head := next.truncated }

/-- Another window; outside sync mode the oldest bytes go. -/
def setWindow (q : ByteQueue) (syncMode : Bool) (windowSize : Nat) : ByteQueue :=
  let next := { q with syncMode := syncMode, windowSize := min windowSize q.capacity }
  if syncMode then next else { next with head := next.truncated }

/-- What a call makes of the queue, and what it returns. -/
def perform (q : ByteQueue) : Call → ByteQueue × Reply
  | .writeAvailable data =>
    (q.write data, .wrote (q.taken data).length (q.taken data = [] ∧ data ≠ []))
  | .peekDataAt offset len => (q, .peeked ((q.written.drop (q.head + offset)).take len))
  | .consume numBytes =>
    if numBytes ≤ q.length then ({ q with head := q.head + numBytes }, .consumed true)
    else (q, .consumed false)
  | .setEffectiveWindow syncMode windowSize =>
    (q.setWindow syncMode windowSize.toNat, .windowSet)

/-- The queue after a call. -/
def step (q : ByteQueue) (call : Call) : ByteQueue := (q.perform call).1

/-- One byte is written. -/
def push (q : ByteQueue) (b : UInt8) : ByteQueue :=
  { q with
    written := q.written ++ [b]
    head := if q.length < q.windowSize then q.head else q.head + 1 }

theorem length_push {q : ByteQueue} (hhead : q.head ≤ q.written.length) (b : UInt8) :
    (q.push b).length = if q.length < q.windowSize then q.length + 1 else q.length := by
  have hlen : q.length = q.written.length - q.head := rfl
  show (q.written ++ [b]).length - (if q.length < q.windowSize then q.head else q.head + 1) = _
  rw [List.length_append, List.length_singleton]
  split_ifs <;> omega

end ByteQueue

end Queue

section Writers

/-- A buffer with the channels its writers wait for. -/
structure Shared where
  cb : CirBuf
  waiterChan : Option Nat := none
  channels : Nat := 0
  closed : List Nat := []
deriving DecidableEq, Repr

namespace Shared

/-- A new buffer. -/
def make (maxSize : Nat) (initSyncMode : Bool) : Shared :=
  { cb := makeCirBuf maxSize initSyncMode }

def tryWakeWriter (s : Shared) : Shared :=
  match s.waiterChan with
  | some waiterCh => { s with waiterChan := none, closed := waiterCh :: s.closed }
  | none => s

/-- A call; it panics where a second writer would have to wait. -/
def perform (s : Shared) : Call → Option (Shared × Reply)
  | .writeAvailable data =>
    let (cb, written) := s.cb.writeAvailable data
    if written = 0 ∧ data ≠ [] then
      match s.waiterChan with
      | some _ => none
      | none =>
        some ({ s with waiterChan := some s.channels, channels := s.channels + 1 },
          .wrote 0 true)
    else some ({ s with cb := cb }, .wrote written false)
  | .peekDataAt offset len => some (s, .peeked (s.cb.peekDataAt offset len))
  | .consume numBytes =>
    match s.cb.consume numBytes with
    | none => some (s, .consumed false)
    | some cb => some ({ s with cb := cb }.tryWakeWriter, .consumed true)
  | .setEffectiveWindow syncMode windowSize =>
    let cb := s.cb.setEffectiveWindow syncMode windowSize
    let next := { s with cb := cb }
    if s.cb.syncMode && (decide (s.cb.windowSize < cb.windowSize) || !syncMode) then
      some (next.tryWakeWriter, .windowSet)
    else some (next, .windowSet)

/-- The buffer after a call. -/
def step (s : Shared) (call : Call) : Shared := ((s.perform call).map Prod.fst).getD s

/-- A call has no negative window, and no second writer waits. -/
def Allowed (s : Shared) : Call → Prop
  | .writeAvailable data => s.waiterChan.isSome = true → s.cb.isBlocked = true → data = []
  | .setEffectiveWindow _ windowSize => 0 ≤ windowSize
  | .peekDataAt _ _ | .consume _ => True

instance (s : Shared) : ∀ call, Decidable (s.Allowed call)
  | .writeAvailable data =>
    inferInstanceAs (Decidable (s.waiterChan.isSome = true → s.cb.isBlocked = true → data = []))
  | .setEffectiveWindow _ windowSize => inferInstanceAs (Decidable (0 ≤ windowSize))
  | .peekDataAt _ _ | .consume _ => inferInstanceAs (Decidable True)

end Shared

end Writers

section Refinement

/-- The buffer has the bytes of the queue. -/
structure Refines (cb : CirBuf) (q : ByteQueue) : Prop where
  capacity : cb.buf.length = q.capacity
  readPos_lt : cb.readPos < q.capacity
  writePos_eq : cb.writePos = (cb.readPos + cb.count) % q.capacity
  count_eq : cb.count = q.length
  totalSize_eq : cb.totalSize = q.written.length
  syncMode_eq : cb.syncMode = q.syncMode
  windowSize_eq : cb.windowSize = q.windowSize
  head_le : q.head ≤ q.written.length
  length_le : q.length ≤ q.capacity
  windowSize_le : q.windowSize ≤ q.capacity
  async : q.syncMode = false → q.length ≤ q.windowSize
  contents_eq : cb.contents = q.written.drop q.head

variable {cb : CirBuf} {q : ByteQueue}

theorem refines_make {maxSize : Nat} (hmax : 0 < maxSize) (initSyncMode : Bool) :
    (makeCirBuf maxSize initSyncMode).Refines (ByteQueue.empty maxSize initSyncMode) := by
  constructor <;> simp [makeCirBuf, ByteQueue.empty, ByteQueue.length, contents, Ring.ring, hmax]

namespace Refines

theorem holds (h : cb.Refines q) (hkeeps : q.syncMode = true ∨ 0 < q.windowSize) :
    cb.Holds q.written := by
  have hcount := h.count_eq
  have hhead := h.head_le
  have hlength := h.length_le
  have hwindow := h.windowSize_eq
  have hcapacity := h.windowSize_le
  simp only [ByteQueue.length] at hcount hlength
  refine ⟨?_, ?_, ?_, ?_, ?_, h.totalSize_eq, ?_, ?_⟩
  · rw [h.capacity]
    exact h.readPos_lt
  · rw [h.capacity]
    exact h.writePos_eq
  · rw [h.capacity]
    omega
  · rw [h.capacity]
    omega
  · intro hasync
    rw [h.syncMode_eq] at hasync
    have hfits := h.async hasync
    rcases hkeeps with hsync | hpos
    · rw [hasync] at hsync
      cases hsync
    · simp only [ByteQueue.length] at hfits
      omega
  · omega
  · rw [h.contents_eq]
    congr 1
    omega

end Refines

theorem Holds.refines {written : List UInt8} (h : cb.Holds written) {next : ByteQueue}
    (hwritten : next.written = written) (hcapacity : cb.buf.length = next.capacity)
    (hcount : cb.count = next.length) (hhead : next.head ≤ next.written.length)
    (hsync : cb.syncMode = next.syncMode) (hwindow : cb.windowSize = next.windowSize) :
    cb.Refines next := by
  subst hwritten
  have hread := h.readPos_lt
  have hle := h.count_le
  have hwindowLe := h.window_le
  have hsame : next.written.length - cb.count = next.head := by
    rw [hcount, ByteQueue.length]
    omega
  refine ⟨hcapacity, by omega, ?_, hcount, h.totalSize_eq, hsync, hwindow, hhead, by omega,
    by omega, ?_, ?_⟩
  · rw [← hcapacity]
    exact h.writePos_eq
  · intro hasync
    have hfits := (h.asyncWindow (hsync.trans hasync)).2
    omega
  · rw [h.contents_eq, hsame]

namespace Refines

theorem isBlocked_eq (h : cb.Refines q) :
    cb.isBlocked = (q.syncMode && decide (q.windowSize ≤ q.length)) := by
  simp only [isBlocked, h.syncMode_eq, h.windowSize_eq, h.count_eq, Int.ofNat_le]

theorem push (h : cb.Refines q) (hfree : cb.isBlocked = false) (b : UInt8) :
    (cb.writeByte b).Refines (q.push b) := by
  have hcount := h.count_eq
  have hhead := h.head_le
  have hcapacity := h.capacity
  have hread := h.readPos_lt
  have hroom : (cb.count : Int) < cb.windowSize ↔ q.length < q.windowSize := by
    rw [h.windowSize_eq, hcount, Int.ofNat_lt]
  have hsame : (cb.writeByte b).buf.length = q.capacity := by
    rw [CirBuf.writeByte, List.length_set, hcapacity]
  have hlength : (cb.writeByte b).count = (q.push b).length := by
    simp only [CirBuf.writeByte, hroom]
    rw [ByteQueue.length_push hhead, hcount]
  have hheadLe : (q.push b).head ≤ (q.push b).written.length := by
    simp only [ByteQueue.push, List.length_append, List.length_singleton]
    split_ifs <;> omega
  by_cases hkeeps : q.syncMode = true ∨ 0 < q.windowSize
  · exact ((h.holds hkeeps).writeByte hfree b).refines rfl hsame hlength hheadLe h.syncMode_eq
      h.windowSize_eq
  · -- nothing is kept, so the byte goes at once
    obtain ⟨hasync, hnone⟩ := not_or.mp hkeeps
    have hzero : q.windowSize = 0 := Nat.eq_zero_of_not_pos hnone
    have hempty : q.length = 0 := by
      have hfits := h.async (by simpa using hasync)
      omega
    have hnoRoom : ¬ (cb.count : Int) < cb.windowSize := by
      rw [hroom]
      omega
    have hnoCount : (cb.writeByte b).count = 0 := by
      show (if (cb.count : Int) < cb.windowSize then cb.count + 1 else cb.count) = 0
      rw [if_neg hnoRoom, hcount, hempty]
    refine ⟨hsame, ?_, ?_, hlength, ?_, h.syncMode_eq, h.windowSize_eq, hheadLe, by omega,
      h.windowSize_le, ?_, ?_⟩
    · rw [CirBuf.writeByte, if_neg hnoRoom, hcapacity]
      exact Nat.mod_lt _ (by omega)
    · rw [hnoCount, Nat.add_zero]
      simp only [CirBuf.writeByte, if_neg hnoRoom, hcapacity]
      show (cb.writePos + 1) % q.capacity = (cb.readPos + 1) % q.capacity % q.capacity
      rw [h.writePos_eq, hcount, hempty, Nat.add_zero, Nat.mod_mod, Nat.mod_add_mod]
    · show cb.totalSize + 1 = (q.written ++ [b]).length
      rw [h.totalSize_eq, List.length_append, List.length_singleton]
    · intro _
      omega
    · rw [contents, hnoCount, List.drop_eq_nil_of_le]
      · rfl
      · rw [hlength, ByteQueue.length] at hnoCount
        omega

end Refines

namespace ByteQueue

@[simp] theorem written_write (q : ByteQueue) (data : List UInt8) :
    (q.write data).written = q.written ++ q.taken data := by
  unfold write
  split_ifs <;> rfl

@[simp] theorem capacity_write (q : ByteQueue) (data : List UInt8) :
    (q.write data).capacity = q.capacity := by
  unfold write
  split_ifs <;> rfl

@[simp] theorem syncMode_write (q : ByteQueue) (data : List UInt8) :
    (q.write data).syncMode = q.syncMode := by
  unfold write
  split_ifs <;> rfl

@[simp] theorem windowSize_write (q : ByteQueue) (data : List UInt8) :
    (q.write data).windowSize = q.windowSize := by
  unfold write
  split_ifs <;> rfl

theorem head_write (q : ByteQueue) (data : List UInt8) :
    (q.write data).head =
      if q.syncMode then q.head
      else max q.head (q.written.length + (q.taken data).length - q.windowSize) := by
  unfold write
  split_ifs with hsync
  · rfl
  · show max q.head ((q.written ++ q.taken data).length - q.windowSize) = _
    rw [List.length_append]

theorem write_nil (hasync : q.syncMode = false → q.length ≤ q.windowSize) : q.write [] = q := by
  have htaken : q.taken [] = [] := by
    rw [taken, List.take_nil, ite_self]
  simp only [write, htaken, List.append_nil, truncated]
  split_ifs with hsync
  · rfl
  · have hfits := hasync (by simpa using hsync)
    rw [length] at hfits
    have hhead : max q.head (q.written.length - q.windowSize) = q.head := by omega
    rw [hhead]

section

variable (hsync : q.syncMode = true) (hfull : q.windowSize ≤ q.length)
include hsync hfull

theorem taken_blocked (data : List UInt8) :
    q.taken data = [] := by
  rw [taken, if_pos hsync, Nat.sub_eq_zero_of_le hfull, List.take_zero]

theorem write_blocked (data : List UInt8) :
    q.write data = q := by
  simp only [write, taken_blocked hsync hfull, List.append_nil, if_pos hsync]

end

variable (hfree : q.syncMode = true → q.length < q.windowSize) (hhead : q.head ≤ q.written.length)
include hfree hhead

theorem taken_cons (b : UInt8) (rest : List UInt8) :
    q.taken (b :: rest) = b :: (q.push b).taken rest := by
  have hmode : (q.push b).syncMode = q.syncMode := rfl
  have hwindow : (q.push b).windowSize = q.windowSize := rfl
  rw [taken, taken, hmode, hwindow, length_push hhead]
  split_ifs with hsync hroom
  · obtain ⟨n, hn⟩ : ∃ n, q.windowSize - q.length = n + 1 :=
      ⟨q.windowSize - q.length - 1, by omega⟩
    have hrest : q.windowSize - (q.length + 1) = n := by omega
    rw [hn, hrest, List.take_succ_cons]
  · exact absurd (hfree hsync) hroom
  · rfl

theorem write_cons
    (hasync : q.syncMode = false → q.length ≤ q.windowSize) (b : UInt8) (rest : List UInt8) :
    q.write (b :: rest) = (q.push b).write rest := by
  have htaken := taken_cons hfree hhead b rest
  have hlen : q.length = q.written.length - q.head := rfl
  have hpushed : (q.push b).head = if q.length < q.windowSize then q.head else q.head + 1 := rfl
  have hwritten : (q.push b).written.length = q.written.length + 1 := by
    show (q.written ++ [b]).length = _
    rw [List.length_append, List.length_singleton]
  have hmode : (q.push b).syncMode = q.syncMode := rfl
  have hwindow : (q.push b).windowSize = q.windowSize := rfl
  ext1
  · rw [written_write, written_write, htaken]
    show _ = q.written ++ [b] ++ _
    rw [List.append_assoc, List.singleton_append]
  · rw [head_write, head_write, htaken, List.length_cons, hpushed, hwritten, hmode, hwindow]
    cases hsync : q.syncMode with
    | true =>
      have hroom := hfree hsync
      simp only [if_true]
      rw [if_pos hroom]
    | false =>
      have hfits := hasync hsync
      simp only [Bool.false_eq_true, if_false]
      split_ifs <;> omega
  · rw [capacity_write, capacity_write]
    rfl
  · rw [syncMode_write, syncMode_write]
    rfl
  · rw [windowSize_write, windowSize_write]
    rfl

end ByteQueue

namespace Refines

variable (h : cb.Refines q)
include h

theorem lt_of_not_blocked (hfree : ¬ cb.isBlocked = true) :
    q.syncMode = true → q.length < q.windowSize := by
  intro hsync
  rw [h.isBlocked_eq, hsync, Bool.true_and, decide_eq_true_iff] at hfree
  omega

/-- **The buffer takes what the queue takes.** -/
theorem writeAvailable (data : List UInt8) :
    (cb.writeAvailable data).2 = (q.taken data).length ∧
      (cb.writeAvailable data).1.Refines (q.write data) := by
  induction data generalizing cb q with
  | nil =>
    rw [ByteQueue.write_nil h.async, ByteQueue.taken, List.take_nil, ite_self]
    exact ⟨rfl, h⟩
  | cons b rest ih =>
    rw [CirBuf.writeAvailable]
    by_cases hblocked : cb.isBlocked = true
    · rw [if_pos hblocked]
      rw [h.isBlocked_eq, Bool.and_eq_true, decide_eq_true_iff] at hblocked
      rw [ByteQueue.write_blocked hblocked.1 hblocked.2,
        ByteQueue.taken_blocked hblocked.1 hblocked.2]
      exact ⟨rfl, h⟩
    · rw [if_neg hblocked]
      obtain ⟨htaken, hrefines⟩ := ih (h.push (Bool.eq_false_of_not_eq_true hblocked) b)
      have hfree := h.lt_of_not_blocked hblocked
      rw [ByteQueue.taken_cons hfree h.head_le, List.length_cons,
        ByteQueue.write_cons hfree h.head_le h.async]
      exact ⟨congrArg (· + 1) htaken, hrefines⟩

theorem peekDataAt (offset len : Nat) :
    cb.peekDataAt offset len = (q.written.drop (q.head + offset)).take len := by
  have hcount := h.count_eq
  have hhead := h.head_le
  have hlen : q.length = q.written.length - q.head := rfl
  by_cases hkeeps : q.syncMode = true ∨ 0 < q.windowSize
  · rw [(h.holds hkeeps).peekDataAt]
    congr 2
    omega
  · obtain ⟨hasync, hnone⟩ := not_or.mp hkeeps
    have hfits := h.async (by simpa using hasync)
    rw [CirBuf.peekDataAt, if_pos (.inl (by omega)), List.drop_eq_nil_of_le (by omega),
      List.take_nil]

theorem consume {numBytes : Nat} (hle : numBytes ≤ q.length) :
    ∃ next, cb.consume numBytes = some next ∧
      next.Refines { q with head := q.head + numBytes } := by
  have hcount := h.count_eq
  have hhead := h.head_le
  have hread := h.readPos_lt
  have hcapacity := h.capacity
  have hfits := h.length_le
  have hlen : q.length = q.written.length - q.head := rfl
  have hrest : ({ q with head := q.head + numBytes } : ByteQueue).length =
      q.length - numBytes := by
    show q.written.length - (q.head + numBytes) = _
    omega
  refine ⟨_, if_neg (by omega), ?_⟩
  refine ⟨hcapacity, ?_, ?_, ?_, h.totalSize_eq, h.syncMode_eq, h.windowSize_eq, ?_, ?_,
    h.windowSize_le, ?_, ?_⟩
  · show (cb.readPos + numBytes) % cb.buf.length < q.capacity
    rw [hcapacity]
    exact Nat.mod_lt _ (by omega)
  · show cb.writePos = ((cb.readPos + numBytes) % cb.buf.length + (cb.count - numBytes)) %
      q.capacity
    rw [h.writePos_eq, hcapacity, Nat.mod_add_mod]
    congr 1
    omega
  · rw [hrest, ← hcount]
  · show q.head + numBytes ≤ q.written.length
    omega
  · rw [hrest]
    show _ ≤ q.capacity
    omega
  · intro hasync
    have hwindow := h.async hasync
    rw [hrest]
    show _ ≤ q.windowSize
    omega
  · show Ring.ring cb.buf ((cb.readPos + numBytes) % cb.buf.length) (cb.count - numBytes) =
      q.written.drop (q.head + numBytes)
    have hcontents := h.contents_eq
    rw [← Ring.drop_ring cb.buf (by omega) (by omega), ← List.drop_drop, ← hcontents]
    rfl

theorem consume_none {numBytes : Nat} (hlt : q.length < numBytes) :
    cb.consume numBytes = none := by
  have hcount := h.count_eq
  rw [CirBuf.consume, if_pos (by omega)]

theorem setEffectiveWindow (syncMode : Bool) {windowSize : Int} (hwindow : 0 ≤ windowSize) :
    (cb.setEffectiveWindow syncMode windowSize).Refines
      (q.setWindow syncMode windowSize.toNat) := by
  have hcount := h.count_eq
  have hhead := h.head_le
  have hread := h.readPos_lt
  have hcapacity := h.capacity
  have hfits := h.length_le
  have hlen : q.length = q.written.length - q.head := rfl
  obtain ⟨window, hwin⟩ : ∃ window : Nat, window = min windowSize.toNat q.capacity := ⟨_, rfl⟩
  have hcap : (if (cb.buf.length : Int) < windowSize then (cb.buf.length : Int) else windowSize) =
      (window : Int) := by
    split_ifs <;> omega
  simp only [CirBuf.setEffectiveWindow, ByteQueue.setWindow, hcap, ← hwin]
  by_cases hmany : (!syncMode && decide ((window : Int) < cb.count)) = true
  · -- the oldest bytes go
    rw [if_pos hmany]
    rw [Bool.and_eq_true, Bool.not_eq_true', decide_eq_true_iff] at hmany
    obtain ⟨rfl, hmore⟩ := hmany
    have htrunc : max q.head (q.written.length - window) = q.written.length - window := by omega
    have hrest : q.written.length - (q.written.length - window) = window := by omega
    have hcut : ((cb.count : Int) - window).toNat = cb.count - window := by omega
    simp only [Bool.false_eq_true, if_false, ByteQueue.truncated, htrunc, hcut, Int.toNat_natCast]
    refine ⟨hcapacity, ?_, ?_, ?_, h.totalSize_eq, rfl, rfl, Nat.sub_le _ _, ?_, ?_, ?_, ?_⟩
    · show (cb.readPos + (cb.count - window)) % cb.buf.length < q.capacity
      rw [hcapacity]
      exact Nat.mod_lt _ (by omega)
    · show cb.writePos = ((cb.readPos + (cb.count - window)) % cb.buf.length + window) % q.capacity
      rw [h.writePos_eq, hcapacity, Nat.mod_add_mod]
      congr 1
      omega
    · exact hrest.symm
    · show q.written.length - (q.written.length - window) ≤ q.capacity
      omega
    · show window ≤ q.capacity
      omega
    · intro _
      show q.written.length - (q.written.length - window) ≤ window
      omega
    · show Ring.ring cb.buf ((cb.readPos + (cb.count - window)) % cb.buf.length) window =
        q.written.drop (q.written.length - window)
      have hcontents := h.contents_eq
      have hdrop := @Ring.drop_ring _ _ cb.buf cb.readPos (by omega) (cb.count - window) cb.count
        (by omega)
      have hkept : cb.count - (cb.count - window) = window := by omega
      have hplace : q.head + (cb.count - window) = q.written.length - window := by omega
      rw [hkept] at hdrop
      rw [← hdrop, ← hplace, ← List.drop_drop, ← hcontents]
      rfl
  · rw [if_neg hmany]
    have hfitsNew : syncMode = false → q.length ≤ window := by
      intro hasync
      rw [hasync, Bool.not_false, Bool.true_and, decide_eq_true_iff] at hmany
      omega
    have hsame : (if syncMode = true then
        ({ q with syncMode := syncMode, windowSize := window } : ByteQueue)
        else
          { q with
            syncMode := syncMode
            windowSize := window
            head := ({ q with syncMode := syncMode, windowSize := window } :
              ByteQueue).truncated }) =
        { q with syncMode := syncMode, windowSize := window } := by
      split_ifs with hsync
      · rfl
      · have hle := hfitsNew (Bool.eq_false_of_not_eq_true hsync)
        have hplace : max q.head (q.written.length - window) = q.head := by omega
        simp only [ByteQueue.truncated, hplace]
    rw [hsame]
    exact ⟨hcapacity, hread, h.writePos_eq, hcount, h.totalSize_eq, rfl, rfl, hhead, hfits,
      (by show window ≤ q.capacity; omega), hfitsNew, h.contents_eq⟩

theorem headPos_eq : cb.headPos = q.head := by
  have hcount := h.count_eq
  have htotal := h.totalSize_eq
  have hhead := h.head_le
  have hlen : q.length = q.written.length - q.head := rfl
  rw [headPos]
  omega

end Refines

end Refinement

section Waiting

variable {s : Shared} {q : ByteQueue}

theorem writeAvailable_zero {cb : CirBuf} {data : List UInt8}
    (hnone : (cb.writeAvailable data).2 = 0) (hsome : data ≠ []) :
    cb.isBlocked = true := by
  cases data with
  | nil => exact absurd rfl hsome
  | cons b rest =>
    by_contra hfree
    rw [CirBuf.writeAvailable, if_neg hfree] at hnone
    exact Nat.succ_ne_zero _ hnone

theorem writeAvailable_blocked {cb : CirBuf} (hblocked : cb.isBlocked = true)
    (data : List UInt8) :
    cb.writeAvailable data = (cb, 0) := by
  cases data with
  | nil => rfl
  | cons b rest => rw [CirBuf.writeAvailable, if_pos hblocked]

/-- The buffer has the bytes of the queue, and who waits does so for good reason. -/
structure Shared.Inv (s : Shared) (q : ByteQueue) : Prop where
  refines : s.cb.Refines q
  waits : s.waiterChan.isSome = true → s.cb.isBlocked = true
  channels : ∀ waiterCh < s.channels, waiterCh ∈ s.closed ∨ s.waiterChan = some waiterCh

theorem Shared.Inv.tryWakeWriter {next : CirBuf} (hrefines : next.Refines q)
    (hchannels : ∀ waiterCh < s.channels, waiterCh ∈ s.closed ∨ s.waiterChan = some waiterCh) :
    Shared.Inv { s with cb := next }.tryWakeWriter q := by
  cases hwaiter : s.waiterChan with
  | none =>
    simp only [Shared.tryWakeWriter]
    refine ⟨hrefines, ?_, ?_⟩
    · intro hsome
      cases hsome
    · intro waiterCh hlt
      have hold := hchannels waiterCh hlt
      rw [hwaiter] at hold
      exact hold
  | some waiting =>
    simp only [Shared.tryWakeWriter]
    refine ⟨hrefines, ?_, ?_⟩
    · intro hsome
      cases hsome
    · intro waiterCh hlt
      rcases hchannels waiterCh hlt with hclosed | hsame
      · exact .inl (List.mem_cons_of_mem _ hclosed)
      · rw [hwaiter] at hsame
        cases hsame
        exact .inl List.mem_cons_self

/-- **A call answers what the queue answers.** -/
theorem Shared.Inv.perform (h : s.Inv q) {call : Call} (hallowed : s.Allowed call) :
    ∃ next, s.perform call = some (next, (q.perform call).2) ∧ next.Inv (q.step call) := by
  have hrefines := h.refines
  cases call with
  | writeAvailable data =>
    obtain ⟨htaken, hwritten⟩ := hrefines.writeAvailable data
    have hnone : (s.cb.writeAvailable data).2 = 0 ↔ q.taken data = [] := by
      rw [htaken, List.length_eq_zero_iff]
    by_cases hwait : q.taken data = [] ∧ data ≠ []
    · have hblocked := writeAvailable_zero (hnone.mpr hwait.1) hwait.2
      have hfree : s.waiterChan = none := by
        cases hwaiter : s.waiterChan with
        | none => rfl
        | some waiting => exact absurd (hallowed (by rw [hwaiter]; rfl) hblocked) hwait.2
      have hsame := writeAvailable_blocked hblocked data
      rw [hsame] at hwritten
      refine ⟨{ s with waiterChan := some s.channels, channels := s.channels + 1 }, ?_,
        hwritten, fun _ => hblocked, ?_⟩
      · simp only [Shared.perform, ByteQueue.perform, hsame, hfree, hwait, ne_eq,
          not_false_eq_true, and_self, if_true, List.length_nil, decide_true]
      · intro waiterCh hlt
        rcases Nat.lt_succ_iff_lt_or_eq.mp hlt with hold | rfl
        · refine .inl ((h.channels waiterCh hold).resolve_right ?_)
          rw [hfree]
          intro hsome
          cases hsome
        · exact .inr rfl
    · have hgoes : ¬ ((s.cb.writeAvailable data).2 = 0 ∧ data ≠ []) := by
        rw [hnone]
        exact hwait
      refine ⟨{ s with cb := (s.cb.writeAvailable data).1 }, ?_, hwritten, ?_, h.channels⟩
      · simp only [Shared.perform, ByteQueue.perform]
        rw [if_neg hgoes, decide_eq_false hwait, htaken]
      · intro hwaiter
        have hblocked := h.waits hwaiter
        have hempty := hallowed hwaiter hblocked
        show (s.cb.writeAvailable data).1.isBlocked = true
        rw [writeAvailable_blocked hblocked data]
        exact hblocked
  | peekDataAt offset len =>
    refine ⟨s, ?_, h⟩
    rw [Shared.perform, hrefines.peekDataAt offset len]
    rfl
  | consume numBytes =>
    simp only [Shared.perform, ByteQueue.perform, ByteQueue.step]
    by_cases hle : numBytes ≤ q.length
    · obtain ⟨next, hnext, hconsumed⟩ := hrefines.consume hle
      rw [hnext, if_pos hle]
      exact ⟨_, rfl, Shared.Inv.tryWakeWriter hconsumed h.channels⟩
    · rw [hrefines.consume_none (Nat.lt_of_not_le hle), if_neg hle]
      exact ⟨s, rfl, h⟩
  | setEffectiveWindow syncMode windowSize =>
    have hset := hrefines.setEffectiveWindow syncMode hallowed
    simp only [Shared.perform, ByteQueue.perform, ByteQueue.step]
    split_ifs with hwakes
    · exact ⟨_, rfl, Shared.Inv.tryWakeWriter hset h.channels⟩
    · refine ⟨_, rfl, hset, ?_, h.channels⟩
      intro hwaiter
      have hblocked := h.waits hwaiter
      rw [hrefines.isBlocked_eq, Bool.and_eq_true, decide_eq_true_iff] at hblocked
      obtain ⟨hsync, hfull⟩ := hblocked
      simp only [hrefines.syncMode_eq, hsync, Bool.true_and, Bool.or_eq_true,
        decide_eq_true_eq, Bool.not_eq_true', not_or, Bool.not_eq_false,
        hrefines.windowSize_eq, hset.windowSize_eq] at hwakes
      obtain ⟨hsmaller, rfl⟩ := hwakes
      have hwindow : (q.setWindow true windowSize.toNat).windowSize ≤ q.windowSize := by
        omega
      show (s.cb.setEffectiveWindow true windowSize).isBlocked = true
      rw [hset.isBlocked_eq, Bool.and_eq_true, decide_eq_true_iff]
      exact ⟨rfl, Nat.le_trans hwindow hfull⟩

/-- The bytes that a call has written, from what it returns. -/
def Call.bytes : Call → Reply → List UInt8
  | .writeAvailable data, .wrote written _ => data.take written
  | _, _ => []

/-- What a call does. -/
structure Answers (s : Shared) (q : ByteQueue) (call : Call) : Prop where
  /-- The call answers what the queue answers. -/
  performed : s.perform call = some (s.step call, (q.perform call).2)
  /-- What the call has written is at the end of the history. -/
  history : (q.step call).written = q.written ++ call.bytes (q.perform call).2
  /-- The oldest byte does not come back. -/
  head : s.cb.headPos ≤ (s.step call).cb.headPos
  /-- Bytes go by `Consume`, or outside sync mode, where the last ones in the window stay. -/
  kept : (s.step call).cb.headPos ≠ s.cb.headPos →
    (∃ numBytes, call = .consume numBytes ∧
      (s.step call).cb.headPos = s.cb.headPos + numBytes) ∨
    (((∃ data, call = .writeAvailable data) ∨
        ∃ windowSize, call = .setEffectiveWindow false windowSize) ∧
      (s.step call).cb.syncMode = false ∧
      (s.step call).cb.headPos =
        (s.step call).cb.totalSize - (s.step call).cb.windowSize)

/-- The buffer is a queue of all bytes that were written, of at most `maxSize` bytes. -/
structure IsQueue (maxSize : Nat) (s : Shared) (q : ByteQueue) : Prop where
  total : s.cb.totalSize = q.written.length
  head : s.cb.headPos = q.head
  length_nonneg : 0 ≤ s.cb.totalSize - s.cb.headPos
  length_le : s.cb.totalSize - s.cb.headPos ≤ maxSize
  peek : ∀ offset len,
    s.cb.peekDataAt offset len = (q.written.drop (q.head + offset)).take len
  async : s.cb.syncMode = false → s.cb.totalSize - s.cb.headPos ≤ s.cb.windowSize
  /-- Whoever still waits would write nothing. -/
  waits : ∀ waiterCh < s.channels, waiterCh ∉ s.closed →
    ∀ data, (s.cb.writeAvailable data).2 = 0
  answers : ∀ call, s.Allowed call → Answers s q call

namespace ByteQueue

theorem taken_eq_take (q : ByteQueue) (data : List UInt8) :
    data.take (q.taken data).length = q.taken data := by
  unfold taken
  split_ifs
  · rw [List.length_take, List.take_eq_take_iff]
    omega
  · exact List.take_length

theorem written_step (q : ByteQueue) (call : Call) :
    (q.step call).written = q.written ++ call.bytes (q.perform call).2 := by
  cases call with
  | writeAvailable data =>
    show (q.write data).written = q.written ++ data.take (q.taken data).length
    rw [written_write, taken_eq_take]
  | peekDataAt offset len => exact (List.append_nil _).symm
  | consume numBytes =>
    simp only [step, perform]
    split_ifs <;> exact (List.append_nil _).symm
  | setEffectiveWindow syncMode windowSize =>
    refine Eq.trans ?_ (List.append_nil _).symm
    simp only [step, perform, setWindow]
    split_ifs <;> rfl

theorem head_step (q : ByteQueue) (call : Call) :
    q.head ≤ (q.step call).head ∧
      ((q.step call).head ≠ q.head →
        (∃ numBytes, call = .consume numBytes ∧ (q.step call).head = q.head + numBytes) ∨
        (((∃ data, call = .writeAvailable data) ∨
            ∃ windowSize, call = .setEffectiveWindow false windowSize) ∧
          (q.step call).syncMode = false ∧
          (q.step call).head = (q.step call).written.length - (q.step call).windowSize)) := by
  cases call with
  | writeAvailable data =>
    show q.head ≤ (q.write data).head ∧ ((q.write data).head ≠ q.head → _ ∨ (_ ∧
      (q.write data).syncMode = false ∧
      (q.write data).head = (q.write data).written.length - (q.write data).windowSize))
    rw [head_write, written_write, windowSize_write, syncMode_write, List.length_append]
    split_ifs with hsync
    · exact ⟨Nat.le_refl _, fun hne => absurd rfl hne⟩
    · refine ⟨Nat.le_max_left _ _, fun hne => .inr ⟨.inl ⟨data, rfl⟩, ?_, ?_⟩⟩
      · exact Bool.eq_false_of_not_eq_true hsync
      · omega
  | peekDataAt offset len => exact ⟨Nat.le_refl _, fun hne => absurd rfl hne⟩
  | consume numBytes =>
    simp only [step, perform]
    split_ifs
    · exact ⟨Nat.le_add_right _ _, fun _ => .inl ⟨numBytes, rfl, rfl⟩⟩
    · exact ⟨Nat.le_refl _, fun hne => absurd rfl hne⟩
  | setEffectiveWindow syncMode windowSize =>
    cases syncMode with
    | true => exact ⟨Nat.le_refl _, fun hne => absurd rfl hne⟩
    | false =>
      refine ⟨Nat.le_max_left _ _, fun hne => .inr ⟨.inr ⟨windowSize, rfl⟩, rfl, ?_⟩⟩
      have hmax : (q.step (.setEffectiveWindow false windowSize)).head =
          max q.head (q.written.length - min windowSize.toNat q.capacity) := rfl
      show (q.step (.setEffectiveWindow false windowSize)).head =
        q.written.length - min windowSize.toNat q.capacity
      omega

end ByteQueue

theorem Shared.Inv.step (h : s.Inv q) {call : Call} (hallowed : s.Allowed call) :
    (s.step call).Inv (q.step call) := by
  obtain ⟨next, hnext, hinv⟩ := h.perform hallowed
  rw [Shared.step, hnext]
  exact hinv

theorem Shared.Inv.answers (h : s.Inv q) {call : Call} (hallowed : s.Allowed call) :
    Answers s q call := by
  obtain ⟨next, hnext, hinv⟩ := h.perform hallowed
  have hstep : s.step call = next := by
    rw [Shared.step, hnext]
    rfl
  obtain ⟨hle, hkept⟩ := q.head_step call
  have hbefore := h.refines.headPos_eq
  have hafter := hinv.refines.headPos_eq
  refine ⟨by rw [hstep, hnext], q.written_step call, ?_, ?_⟩
  · rw [hstep, hbefore, hafter]
    omega
  · rw [hstep, hbefore, hafter, hinv.refines.syncMode_eq, hinv.refines.totalSize_eq,
      hinv.refines.windowSize_eq]
    intro hne
    rcases hkept (by omega) with ⟨numBytes, hcall, hhead⟩ | ⟨hcall, hasync, hhead⟩
    · exact .inl ⟨numBytes, hcall, by omega⟩
    · have hfits := hinv.refines.head_le
      refine .inr ⟨hcall, hasync, ?_⟩
      have hwindow := hinv.refines.async hasync
      rw [ByteQueue.length] at hwindow
      omega

theorem Shared.Inv.isQueue (h : s.Inv q) : IsQueue q.capacity s q := by
  have hhead := h.refines.headPos_eq
  have htotal := h.refines.totalSize_eq
  have hle := h.refines.head_le
  have hfits := h.refines.length_le
  have hlen : q.length = q.written.length - q.head := rfl
  refine ⟨htotal, hhead, by omega, by omega, h.refines.peekDataAt, ?_, ?_,
    fun call hallowed => h.answers hallowed⟩
  · intro hasync
    have hwindow := h.refines.async (h.refines.syncMode_eq.symm.trans hasync)
    rw [h.refines.windowSize_eq]
    omega
  · intro waiterCh hlt hopen data
    have hwaits := (h.channels waiterCh hlt).resolve_left hopen
    rw [writeAvailable_blocked (h.waits (by rw [hwaits]; rfl))]

theorem Shared.Inv.run (h : s.Inv q) (calls : List Call)
    (hallowed : Runs.Guarded Shared.step Shared.Allowed s calls) :
    (Runs.run Shared.step s calls).Inv (Runs.run ByteQueue.step q calls) := by
  induction calls generalizing s q with
  | nil => exact h
  | cons call calls ih => exact ih (h.step hallowed.1) hallowed.2

theorem ByteQueue.capacity_run (q : ByteQueue) (calls : List Call) :
    (Runs.run ByteQueue.step q calls).capacity = q.capacity := by
  refine Runs.run_invariant ByteQueue.step (fun next => next.capacity = q.capacity) ?_ rfl calls
  intro next call hsame
  rw [← hsame]
  cases call with
  | writeAvailable data => exact ByteQueue.capacity_write next data
  | peekDataAt offset len => rfl
  | consume numBytes =>
    simp only [ByteQueue.step, ByteQueue.perform]
    split_ifs <;> rfl
  | setEffectiveWindow syncMode windowSize =>
    simp only [ByteQueue.step, ByteQueue.perform, ByteQueue.setWindow]
    split_ifs <;> rfl

/-- **The circular buffer is a queue of bytes**, after every sequence of calls without negative
windows in which no second writer waits. -/
theorem cirBuf_isQueue
    {maxSize : Nat} (hmax : 0 < maxSize) (initSyncMode : Bool) (calls : List Call)
    (hallowed : Runs.Guarded Shared.step Shared.Allowed (Shared.make maxSize initSyncMode) calls) :
    IsQueue maxSize (Runs.run Shared.step (Shared.make maxSize initSyncMode) calls)
      (Runs.run ByteQueue.step (ByteQueue.empty maxSize initSyncMode) calls) := by
  have hstart : (Shared.make maxSize initSyncMode).Inv (ByteQueue.empty maxSize initSyncMode) := by
    refine ⟨refines_make hmax initSyncMode, ?_, ?_⟩
    · intro hwaiter
      cases hwaiter
    · intro waiterCh hlt
      exact absurd hlt (Nat.not_lt_zero _)
  have hqueue := (hstart.run calls hallowed).isQueue
  rw [ByteQueue.capacity_run] at hqueue
  exact hqueue

/-- The window of a buffer of three cells shrinks below what there is while a writer waits, and
the buffer is drained outside sync mode. -/
def shrinking : List Call :=
  [.writeAvailable [1, 2, 3, 4], .writeAvailable [4], .setEffectiveWindow true 1,
    .peekDataAt 1 2, .consume 1, .setEffectiveWindow false 2, .writeAvailable [4, 5, 6],
    .setEffectiveWindow false 0, .writeAvailable [7]]

theorem cirBuf_isQueue_shrinking :
    IsQueue 3 (Runs.run Shared.step (Shared.make 3 true) shrinking)
      (Runs.run ByteQueue.step (ByteQueue.empty 3 true) shrinking) :=
  cirBuf_isQueue (by decide) true shrinking (by decide)

end Waiting

end CirBuf

end JobManager

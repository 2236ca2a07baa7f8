import Crest.Ring

/-!
# The circular buffer of a job's output

The buffer keeps the last bytes written to it.  In sync mode it takes no more bytes
than its window has room for; in async mode it takes all and forgets the oldest.  All
the functions here run under the buffer's lock.

`Holds` says what a buffer that was given the bytes `written` has: the last `count` of
them.  Every operation keeps this.
-/

namespace JobManager

open Ring

structure CirBuf where
  buf : List UInt8
  readPos : Nat := 0
  writePos : Nat := 0
  count : Nat := 0
  totalSize : Nat := 0
  /-- Whether a full buffer takes no more bytes. -/
  syncMode : Bool
  windowSize : Int
  deriving DecidableEq, Repr

def makeCirBuf (maxSize : Nat) (initSyncMode : Bool) : CirBuf :=
  { buf := List.replicate maxSize 0, syncMode := initSyncMode, windowSize := maxSize }

namespace CirBuf

def setEffectiveWindow (cb : CirBuf) (syncMode : Bool) (windowSize : Int) : CirBuf :=
  let windowSize := if (cb.buf.length : Int) < windowSize then (cb.buf.length : Int) else windowSize
  if !syncMode && windowSize < cb.count then
    { cb with
      windowSize
      syncMode
      readPos := (cb.readPos + (cb.count - windowSize).toNat) % cb.buf.length
      count := windowSize.toNat }
  else { cb with windowSize, syncMode }

/-- One byte of `WriteAvailable`. -/
def writeByte (cb : CirBuf) (b : UInt8) : CirBuf :=
  { cb with
    buf := cb.buf.set cb.writePos b
    writePos := (cb.writePos + 1) % cb.buf.length
    count := if cb.count < cb.windowSize then cb.count + 1 else cb.count
    readPos := if cb.count < cb.windowSize then cb.readPos else (cb.readPos + 1) % cb.buf.length
    totalSize := cb.totalSize + 1 }

/-- Whether the next byte has to wait. -/
def isBlocked (cb : CirBuf) : Bool := cb.syncMode && cb.windowSize ≤ cb.count

/-- `WriteAvailable`: the buffer and how many bytes it took. -/
def writeAvailable (cb : CirBuf) : List UInt8 → CirBuf × Nat
  | [] => (cb, 0)
  | b :: rest =>
    if cb.isBlocked then (cb, 0)
    else
      let (cb', written) := (cb.writeByte b).writeAvailable rest
      (cb', written + 1)

/-- `PeekDataAt` for at most `len` bytes. -/
def peekDataAt (cb : CirBuf) (offset len : Nat) : List UInt8 :=
  if cb.count = 0 ∨ cb.count ≤ offset then []
  else
    ring cb.buf ((cb.readPos + offset) % cb.buf.length)
      (if len < cb.count - offset then len else cb.count - offset)

/-- `Consume`, unless there are too few bytes. -/
def consume (cb : CirBuf) (numBytes : Nat) : Option CirBuf :=
  if cb.count < numBytes then none
  else
    some { cb with
      readPos := (cb.readPos + numBytes) % cb.buf.length
      count := cb.count - numBytes }

def headPos (cb : CirBuf) : Int := cb.totalSize - cb.count

theorem headPos_le_writeAvailable (cb : CirBuf) (data : List UInt8) :
    cb.headPos ≤ (cb.writeAvailable data).1.headPos := by
  induction data generalizing cb with
  | nil => exact le_refl _
  | cons b rest ih =>
    unfold writeAvailable
    split
    case isTrue _ => exact le_refl _
    case isFalse _ =>
      have hbyte : cb.headPos ≤ (cb.writeByte b).headPos := by
        simp only [headPos, writeByte]
        split <;> omega
      exact le_trans hbyte (ih (cb.writeByte b))

/-- The bytes there are, oldest first. -/
def contents (cb : CirBuf) : List UInt8 := ring cb.buf cb.readPos cb.count

/-- The buffer was given `written` and has the last `count` bytes of it. -/
structure Holds (cb : CirBuf) (written : List UInt8) : Prop where
  readPos_lt : cb.readPos < cb.buf.length
  writePos_eq : cb.writePos = (cb.readPos + cb.count) % cb.buf.length
  count_le : cb.count ≤ cb.buf.length
  window_le : cb.windowSize ≤ cb.buf.length
  asyncWindow : cb.syncMode = false → 0 < cb.windowSize ∧ cb.count ≤ cb.windowSize
  totalSize_eq : cb.totalSize = written.length
  count_le_total : cb.count ≤ written.length
  contents_eq : cb.contents = written.drop (written.length - cb.count)

theorem holds_makeCirBuf (maxSize : Nat) (hmax : 0 < maxSize) (initSyncMode : Bool) :
    (makeCirBuf maxSize initSyncMode).Holds [] := by
  constructor <;> simp [makeCirBuf, contents, ring, hmax]

namespace Holds

variable {cb : CirBuf} {written : List UInt8}

variable (h : cb.Holds written)
include h

theorem headPos_eq :
    cb.headPos = (written.length - cb.count : Nat) := by
  have htotal := h.totalSize_eq
  have hcount := h.count_le_total
  rw [headPos]
  omega

theorem writeByte (hfree : cb.isBlocked = false) (b : UInt8) :
    (cb.writeByte b).Holds (written ++ [b]) := by
  have hread := h.readPos_lt
  have hcount := h.count_le
  have hwindow := h.window_le
  have htotal := h.count_le_total
  have hcontents := h.contents_eq
  by_cases hroom : (cb.count : Int) < cb.windowSize
  · -- there is room, so there is a free cell
    have hlt : cb.count < cb.buf.length := by omega
    constructor
    · simpa [CirBuf.writeByte, hroom] using hread
    · simp only [CirBuf.writeByte, hroom, ite_true, List.length_set, h.writePos_eq,
        Nat.mod_add_mod, Nat.add_assoc]
    · simp only [CirBuf.writeByte, hroom, ite_true, List.length_set]
      omega
    · simpa only [CirBuf.writeByte, List.length_set] using hwindow
    · intro hasync
      have hold := h.asyncWindow hasync
      simp only [CirBuf.writeByte, hroom, ite_true]
      omega
    · simp [CirBuf.writeByte, h.totalSize_eq]
    · simp only [CirBuf.writeByte, hroom, ite_true, List.length_append, List.length_singleton]
      omega
    · have hpush := ring_push cb.buf hread hlt b
      simp only [contents] at hcontents
      simp only [CirBuf.writeByte, hroom, ite_true, contents, h.writePos_eq, hpush, hcontents,
        List.length_append, List.length_singleton]
      rw [Nat.add_sub_add_right, List.drop_append_of_le_length (by omega)]
  · -- the window is full: only async mode gets here, and the oldest byte goes
    have hasync : cb.syncMode = false := by
      by_contra hne
      have hsync : cb.syncMode = true := by simpa using hne
      simp only [isBlocked, hsync, Bool.true_and, decide_eq_false_iff_not] at hfree
      omega
    obtain ⟨hpos, hle⟩ := h.asyncWindow hasync
    have hnext : (cb.readPos + 1) % cb.buf.length < cb.buf.length := Nat.mod_lt _ (by omega)
    constructor
    · simpa [CirBuf.writeByte, hroom] using hnext
    · simp only [CirBuf.writeByte, hroom, ite_false, List.length_set, h.writePos_eq,
        Nat.mod_add_mod, Nat.add_right_comm]
    · simpa only [CirBuf.writeByte, hroom, ite_false, List.length_set] using hcount
    · simpa only [CirBuf.writeByte, List.length_set] using hwindow
    · intro _
      simpa only [CirBuf.writeByte, hroom, ite_false] using And.intro hpos hle
    · simp [CirBuf.writeByte, h.totalSize_eq]
    · simp only [CirBuf.writeByte, hroom, ite_false, List.length_append, List.length_singleton]
      omega
    · have hwritten : (written ++ [b]).drop ((written ++ [b]).length - cb.count) =
          (cb.contents.drop 1) ++ [b] := by
        rw [hcontents, List.drop_drop, List.length_append, List.length_singleton,
          List.drop_append_of_le_length (by omega)]
        congr 2
        omega
      simp only [CirBuf.writeByte, hroom, ite_false, contents, hwritten, h.writePos_eq]
      by_cases hfull : cb.count = cb.buf.length
      · rw [hfull, Nat.add_mod_right, Nat.mod_eq_of_lt hread]
        exact ring_overwrite cb.buf hread b
      · have hpush := ring_push cb.buf hread (n := cb.count) (by omega) b
        have hread' : cb.readPos <
            (cb.buf.set ((cb.readPos + cb.count) % cb.buf.length) b).length := by
          rw [List.length_set]
          exact hread
        have hdrop := drop_ring _ hread' (show 1 ≤ cb.count + 1 by omega)
        rw [hpush, List.length_set, Nat.add_sub_cancel,
          List.drop_append_of_le_length (by rw [length_ring]; omega)] at hdrop
        exact hdrop.symm

theorem writeAvailable (data : List UInt8) :
    (cb.writeAvailable data).2 ≤ data.length ∧
    (cb.writeAvailable data).1.Holds (written ++ data.take (cb.writeAvailable data).2) ∧
    (cb.writeAvailable data).1.syncMode = cb.syncMode ∧
    (cb.writeAvailable data).1.windowSize = cb.windowSize ∧
    (cb.writeAvailable data).1.buf.length = cb.buf.length ∧
    cb.count ≤ (cb.writeAvailable data).1.count ∧
    (0 < (cb.writeAvailable data).2 → 0 < (cb.writeAvailable data).1.count) ∧
    (cb.syncMode = true ∨ cb.count + data.length ≤ cb.windowSize →
      (cb.writeAvailable data).1.headPos = cb.headPos) := by
  induction data generalizing cb written with
  | nil => simpa [CirBuf.writeAvailable] using h
  | cons b rest ih =>
    unfold CirBuf.writeAvailable
    by_cases hblocked : cb.isBlocked = true
    · simpa [hblocked] using h
    · simp only [hblocked, Bool.false_eq_true, ite_false]
      have hbyte := h.writeByte (by simpa using hblocked) b
      obtain ⟨hle, hholds, hsync, hwindow, hlen, hcount, -, hhead⟩ := ih hbyte
      have hsome : 0 < (cb.writeByte b).count := by
        simp only [CirBuf.writeByte]
        split
        case isTrue _ => omega
        case isFalse hfull =>
          have hasync : cb.syncMode = false := by
            by_contra hne
            have hsyncMode : cb.syncMode = true := by simpa using hne
            simp only [isBlocked, hsyncMode, Bool.true_and, decide_eq_true_eq] at hblocked
            omega
          have hold := h.asyncWindow hasync
          omega
      have hgrows : cb.count ≤ (cb.writeByte b).count := by
        simp only [CirBuf.writeByte]
        split <;> omega
      refine ⟨by simp; omega, ?_, ?_, ?_, ?_, by omega, fun _ => by omega, ?_⟩
      · simpa using hholds
      · rw [hsync]
        rfl
      · rw [hwindow]
        rfl
      · rw [hlen]
        simp [CirBuf.writeByte]
      · intro hstay
        have hroom : (cb.count : Int) < cb.windowSize := by
          rcases hstay with hsyncMode | hfits
          · simp only [isBlocked, hsyncMode, Bool.true_and, decide_eq_true_eq] at hblocked
            omega
          · simp only [List.length_cons] at hfits
            omega
        rw [hhead]
        · simp only [CirBuf.writeByte, headPos, hroom, ite_true]
          omega
        · refine hstay.imp (fun hs => hs) ?_
          intro hfits
          simp only [CirBuf.writeByte, hroom, ite_true, List.length_cons] at hfits ⊢
          omega

theorem consume {numBytes : Nat} (hle : numBytes ≤ cb.count) :
    ∃ cb', cb.consume numBytes = some cb' ∧ cb'.Holds written ∧
      cb'.headPos = cb.headPos + numBytes ∧ cb'.syncMode = cb.syncMode ∧
      cb'.count = cb.count - numBytes ∧ cb'.windowSize = cb.windowSize ∧
      cb'.buf.length = cb.buf.length := by
  have hread := h.readPos_lt
  have htotal := h.count_le_total
  refine ⟨_, if_neg (by omega), ?_, ?_, rfl, rfl, rfl, rfl⟩
  · constructor
    · exact Nat.mod_lt _ (by omega)
    · show cb.writePos = ((cb.readPos + numBytes) % cb.buf.length + (cb.count - numBytes)) %
        cb.buf.length
      rw [h.writePos_eq, Nat.mod_add_mod]
      congr 1
      omega
    · show cb.count - numBytes ≤ cb.buf.length
      have hcount := h.count_le
      omega
    · exact h.window_le
    · intro hasync
      have hold := h.asyncWindow hasync
      refine ⟨hold.1, ?_⟩
      show ((cb.count - numBytes : Nat) : Int) ≤ cb.windowSize
      omega
    · exact h.totalSize_eq
    · show cb.count - numBytes ≤ written.length
      omega
    · have hcontents := h.contents_eq
      show ring cb.buf ((cb.readPos + numBytes) % cb.buf.length) (cb.count - numBytes) = _
      rw [← drop_ring cb.buf hread hle]
      show cb.contents.drop numBytes = written.drop (written.length - (cb.count - numBytes))
      rw [hcontents, List.drop_drop]
      congr 1
      omega
  · show (cb.totalSize : Int) - (cb.count - numBytes : Nat) = cb.headPos + numBytes
    rw [headPos]
    omega

theorem setEffectiveWindow_sync (windowSize : Int) :
    (cb.setEffectiveWindow true windowSize).Holds written ∧
      (cb.setEffectiveWindow true windowSize).headPos = cb.headPos ∧
      (cb.setEffectiveWindow true windowSize).syncMode = true ∧
      (cb.setEffectiveWindow true windowSize).count = cb.count ∧
      (cb.setEffectiveWindow true windowSize).buf.length = cb.buf.length := by
  refine ⟨?_, rfl, rfl, rfl, rfl⟩
  constructor
  · exact h.readPos_lt
  · exact h.writePos_eq
  · exact h.count_le
  · show (if (cb.buf.length : Int) < windowSize then (cb.buf.length : Int) else windowSize) ≤
      cb.buf.length
    split <;> omega
  · intro hasync
    cases hasync
  · exact h.totalSize_eq
  · exact h.count_le_total
  · exact h.contents_eq

theorem setEffectiveWindow_async {windowSize : Int} (hpos : 0 < windowSize) :
    (cb.setEffectiveWindow false windowSize).Holds written ∧
      (0 < cb.count → 0 < (cb.setEffectiveWindow false windowSize).count) ∧
      (cb.setEffectiveWindow false windowSize).buf.length = cb.buf.length := by
  have hread := h.readPos_lt
  have htotal := h.count_le_total
  have hcontents := h.contents_eq
  have hwindow : ∃ window : Int, window =
      (if (cb.buf.length : Int) < windowSize then (cb.buf.length : Int) else windowSize) ∧
      0 < window ∧ window ≤ cb.buf.length := by
    refine ⟨_, rfl, ?_⟩
    split <;> omega
  obtain ⟨window, heq, hwpos, hwle⟩ := hwindow
  by_cases hmany : window < cb.count
  · have hset : cb.setEffectiveWindow false windowSize =
        { cb with
          windowSize := window
          syncMode := false
          readPos := (cb.readPos + (cb.count - window).toNat) % cb.buf.length
          count := window.toNat } := by
      simp only [CirBuf.setEffectiveWindow, ← heq, Bool.not_false, Bool.true_and, hmany,
        decide_true, ite_true]
    rw [hset]
    refine ⟨?_, fun _ => by show 0 < window.toNat; omega, rfl⟩
    constructor
    · exact Nat.mod_lt _ (by omega)
    · show cb.writePos = ((cb.readPos + (cb.count - window).toNat) % cb.buf.length +
        window.toNat) % cb.buf.length
      rw [h.writePos_eq, Nat.mod_add_mod]
      congr 1
      omega
    · show window.toNat ≤ cb.buf.length
      omega
    · exact hwle
    · intro _
      refine ⟨hwpos, ?_⟩
      show (window.toNat : Int) ≤ window
      omega
    · exact h.totalSize_eq
    · show window.toNat ≤ written.length
      omega
    · show ring cb.buf ((cb.readPos + (cb.count - window).toNat) % cb.buf.length)
        window.toNat = _
      have hdrop := drop_ring cb.buf hread (m := (cb.count - window).toNat) (n := cb.count)
        (by omega)
      have hrest : cb.count - (cb.count - window).toNat = window.toNat := by omega
      rw [hrest] at hdrop
      rw [← hdrop]
      show cb.contents.drop _ = written.drop (written.length - window.toNat)
      rw [hcontents, List.drop_drop]
      congr 1
      omega
  · have hset : cb.setEffectiveWindow false windowSize =
        { cb with windowSize := window, syncMode := false } := by
      simp only [CirBuf.setEffectiveWindow, ← heq, Bool.not_false, Bool.true_and, hmany,
        decide_false, Bool.false_eq_true, ite_false]
    rw [hset]
    refine ⟨{ h with window_le := hwle, asyncWindow := ?_ }, fun hc => hc, rfl⟩
    intro _
    refine ⟨hwpos, ?_⟩
    show (cb.count : Int) ≤ window
    omega

theorem peekDataAt (offset len : Nat) :
    cb.peekDataAt offset len =
      ((written.drop (written.length - cb.count + offset)).take len) := by
  have hread := h.readPos_lt
  have htotal := h.count_le_total
  have hcontents := h.contents_eq
  unfold CirBuf.peekDataAt
  split
  case isTrue hnone =>
    rw [List.drop_eq_nil_of_le (by omega), List.take_nil]
  case isFalse hsome =>
    have hrest : ring cb.buf ((cb.readPos + offset) % cb.buf.length) (cb.count - offset) =
        written.drop (written.length - cb.count + offset) := by
      rw [← drop_ring cb.buf hread (by omega), ← List.drop_drop, ← hcontents]
      rfl
    have hposLt : (cb.readPos + offset) % cb.buf.length < cb.buf.length :=
      Nat.mod_lt _ (by omega)
    split
    case isTrue hless => rw [← hrest, take_ring cb.buf hposLt (by omega)]
    case isFalse hmore =>
      rw [← hrest, List.take_of_length_le]
      rw [length_ring]
      omega

end Holds

end CirBuf

end JobManager

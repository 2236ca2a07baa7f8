import Crest.Runs
import Mathlib.Data.List.Induction

/-!
# The ring that keeps a hidden terminal's output

While a terminal has no renderer its output goes into a `DormantRing`: bytes
are copied into blocks of a fixed size, the oldest whole blocks are dropped
when the cap is passed, and `drain` writes what is left, after a notice when
something was dropped.  `Layout` relates a ring to the bytes pushed since the
last drain.  How many blocks are gone depends on the number of those bytes
alone (`droppedBlocks`), so the way they were split into chunks cannot be seen.

After an overflow `drain` is to resume at the next line.  It looks for the end
of the cut line in the first retained block only; `replays_iff` says when that
is enough.
-/

namespace Dormant

/-- The bounds a ring is made with. -/
structure Bounds where
  byteCap : Nat
  blockSize : Nat
  blockSize_pos : 0 < blockSize

def LF : UInt8 := 0x0a

/-- The notice that stands in for dropped output. -/
def OverflowNotice : List UInt8 :=
  "\r\n\x1b[0m\x1b[2m[crest: some output was dropped while this tab was hidden]\x1b[0m\r\n".toUTF8.toList

structure DormantRing where
  blocks : List (List UInt8) := []
  head : Nat := 0
  tailLen : Nat := 0
  total : Nat := 0
  overflowed : Bool := false
deriving DecidableEq, Repr

variable (bounds : Bounds)

/-- The block the next bytes go into: a new one when there is none yet or the
last is full. -/
def openTail (ring : DormantRing) : DormantRing :=
  if ring.blocks.length = ring.head ∨
      ring.tailLen = (ring.blocks.getLast?.getD []).length then
    { ring with
      blocks := ring.blocks ++ [List.replicate bounds.blockSize 0]
      tailLen := 0 }
  else ring

/-- `tail.set(bytes, tailLen)`, with the counters that follow it. -/
def store (bytes : List UInt8) (ring : DormantRing) : DormantRing :=
  let tail := ring.blocks.getLast?.getD []
  { ring with
    blocks := ring.blocks.dropLast ++
      [tail.take ring.tailLen ++ bytes ++ tail.drop (ring.tailLen + bytes.length)]
    tailLen := ring.tailLen + bytes.length
    total := ring.total + bytes.length }

/-- The inner loop of `push`: the oldest block goes while the cap is passed
and another block is left. -/
def dropOldest : Nat → DormantRing → DormantRing
  | 0, ring => ring
  | fuel + 1, ring =>
    if bounds.byteCap < ring.total ∧ 1 < ring.blocks.length - ring.head then
      dropOldest fuel
        { ring with
          total := ring.total - (ring.blocks[ring.head]?.getD []).length
          head := ring.head + 1
          overflowed := true }
    else ring

/-- The outer loop of `push`.  Every round takes at least one byte. -/
def fill : Nat → List UInt8 → DormantRing → DormantRing
  | 0, _, ring => ring
  | fuel + 1, bytes, ring =>
    if bytes = [] then ring
    else
      let ring := openTail bounds ring
      let n := min ((ring.blocks.getLast?.getD []).length - ring.tailLen) bytes.length
      let ring := store (bytes.take n) ring
      fill fuel (bytes.drop n) (dropOldest bounds ring.blocks.length ring)

/-- The lazy removal of the dropped blocks. -/
def compact (ring : DormantRing) : DormantRing :=
  if 16 < ring.head ∧ ring.blocks.length < 2 * ring.head then
    { ring with blocks := ring.blocks.drop ring.head, head := 0 }
  else ring

def push (bytes : List UInt8) (ring : DormantRing) : DormantRing :=
  compact (fill bounds bytes.length bytes ring)

/-- The place after the first line feed, the start when there is none. -/
def afterLine (bytes : List UInt8) : Nat :=
  match bytes.idxOf? LF with
  | some lf => lf + 1
  | none => 0

/-- How much of the first block `drain` leaves out. -/
def skip (ring : DormantRing) : Nat :=
  match ring.blocks.drop ring.head with
  | [] => 0
  | first :: rest =>
    let firstLen := if rest = [] then ring.tailLen else first.length
    if ring.overflowed then afterLine (first.take firstLen) else 0

/-- The loop of `drain` over the retained blocks: `start` is not 0 in the
first round only, and the last block ends at `tailLen`. -/
def written (tailLen : Nat) : Nat → List (List UInt8) → List (List UInt8)
  | _, [] => []
  | start, block :: rest =>
    let len := if rest = [] then tailLen else block.length
    (if start < len then [(block.take len).drop start] else []) ++ written tailLen 0 rest

/-- What `drain` hands to its callback, and the ring it leaves. -/
def drain (ring : DormantRing) : List (List UInt8) × DormantRing :=
  ((if ring.overflowed ∧ ring.blocks.drop ring.head ≠ [] then [OverflowNotice] else []) ++
    written ring.tailLen (skip ring) (ring.blocks.drop ring.head), {})

def byteLength (ring : DormantRing) : Nat := ring.total

/-- The bytes a ring holds. -/
def retained (ring : DormantRing) : List UInt8 :=
  (written ring.tailLen 0 (ring.blocks.drop ring.head)).flatten

/-- The data bytes of a drain: what follows the notice. -/
def drained (ring : DormantRing) : List UInt8 :=
  ((drain ring).1.drop (if ring.overflowed then 1 else 0)).flatten

/-! ## Dropping blocks -/

/-- The number of blocks that are gone once `count` bytes were pushed. -/
def droppedBlocks (count : Nat) : Nat :=
  (count - max bounds.byteCap bounds.blockSize + (bounds.blockSize - 1)) / bounds.blockSize

theorem lt_droppedBlocks {dropped count : Nat} :
    dropped < droppedBlocks bounds count ↔
      dropped * bounds.blockSize + max bounds.byteCap bounds.blockSize < count := by
  have hpos := bounds.blockSize_pos
  rw [droppedBlocks, ← Nat.succ_le_iff, Nat.le_div_iff_mul_le hpos, Nat.succ_mul]
  omega

theorem droppedBlocks_zero : droppedBlocks bounds 0 = 0 := by
  have hpos := bounds.blockSize_pos
  rw [droppedBlocks, Nat.zero_sub, Nat.zero_add]
  exact Nat.div_eq_of_lt (by omega)

theorem droppedBlocks_mono {count more : Nat} (h : count ≤ more) :
    droppedBlocks bounds count ≤ droppedBlocks bounds more := by
  by_contra hlt
  have hmore := (lt_droppedBlocks bounds).mp (Nat.not_le.mp hlt)
  exact absurd ((lt_droppedBlocks bounds).mpr (Nat.lt_of_lt_of_le hmore h)) (Nat.lt_irrefl _)

/-- A ring that holds all of `pushed` but its first `dropped` blocks. -/
structure Layout (pushed : List UInt8) (dropped : Nat) (ring : DormantRing)
    (front full : List (List UInt8)) (tail : List UInt8) : Prop where
  blocks : ring.blocks = front ++ full ++ [tail]
  head : ring.head = front.length
  full_length : ∀ block ∈ full, block.length = bounds.blockSize
  tail_length : tail.length = bounds.blockSize
  tailLen_le : ring.tailLen ≤ bounds.blockSize
  total : ring.total = full.length * bounds.blockSize + ring.tailLen
  held : pushed.drop (dropped * bounds.blockSize) = full.flatten ++ tail.take ring.tailLen
  count : pushed.length = dropped * bounds.blockSize + ring.total
  overflowed : ring.overflowed = decide (0 < dropped)

/-- A ring after pushes: a new one, or one from which as much is gone as the
number of bytes asks for. -/
def Holds (pushed : List UInt8) (ring : DormantRing) : Prop :=
  (pushed = [] ∧ ring = {}) ∨ 0 < ring.tailLen ∧ ∃ front full tail,
    Layout bounds pushed (droppedBlocks bounds pushed.length) ring front full tail

variable {bounds}

section Layouts

variable {pushed : List UInt8} {dropped : Nat} {ring : DormantRing}
  {front full : List (List UInt8)} {tail : List UInt8}

theorem Layout.drop_block {block : List UInt8}
    (h : Layout bounds pushed dropped ring front (block :: full) tail) :
    Layout bounds pushed (dropped + 1)
      { ring with
        total := ring.total - (ring.blocks[ring.head]?.getD []).length
        head := ring.head + 1
        overflowed := true }
      (front ++ [block]) full tail := by
  have hblock := h.full_length block List.mem_cons_self
  have hat : ring.blocks[ring.head]?.getD [] = block := by
    simp [h.blocks, h.head]
  have htotal := h.total
  have hcount := h.count
  rw [List.length_cons, Nat.succ_mul] at htotal
  refine ⟨?_, ?_, fun other hother => h.full_length other (List.mem_cons_of_mem _ hother),
    h.tail_length, h.tailLen_le, ?_, ?_, ?_, by simp⟩
  · simp [h.blocks]
  · simp [h.head]
  · simp only [hat, hblock]
    omega
  · have hheld := h.held
    rw [Nat.succ_mul, ← List.drop_drop, hheld]
    simp [← hblock]
  · simp only [hat, hblock, Nat.succ_mul]
    omega

theorem Layout.dropOldest (h : Layout bounds pushed dropped ring front full tail)
    (hpos : 0 < ring.tailLen) (hle : dropped ≤ droppedBlocks bounds pushed.length)
    (fuel : Nat) (hfuel : full.length ≤ fuel) :
    Holds bounds pushed (dropOldest bounds fuel ring) := by
  have hstay : ¬ dropped < droppedBlocks bounds pushed.length →
      Holds bounds pushed ring := by
    intro hnot
    rw [Holds, ← Nat.le_antisymm hle (Nat.not_lt.mp hnot)]
    exact .inr ⟨hpos, front, full, tail, h⟩
  have hcount := h.count
  have htotal := h.total
  have htail := h.tailLen_le
  induction fuel generalizing dropped ring front full with
  | zero =>
    have hnone : full = [] := List.eq_nil_of_length_eq_zero (Nat.le_zero.mp hfuel)
    subst hnone
    refine hstay ?_
    rw [lt_droppedBlocks]
    simp only [List.length_nil, Nat.zero_mul] at htotal
    omega
  | succ fuel ih =>
    have hleft : ring.blocks.length - ring.head = full.length + 1 := by
      rw [h.blocks, h.head]
      simp only [List.length_append, List.length_singleton]
      omega
    rw [Dormant.dropOldest]
    split
    case isTrue hcond =>
      cases full with
      | nil => simp [hleft] at hcond
      | cons block full =>
        rw [List.length_cons, Nat.succ_mul] at htotal
        have hmore : dropped < droppedBlocks bounds pushed.length := by
          rw [lt_droppedBlocks]
          have := hcond.1
          omega
        have hnext := h.drop_block
        refine ih hnext hpos hmore (Nat.le_of_succ_le_succ hfuel) ?_ hnext.count hnext.total htail
        intro hnot
        rw [Holds, ← Nat.le_antisymm hmore (Nat.not_lt.mp hnot)]
        exact .inr ⟨hpos, _, _, _, hnext⟩
    case isFalse hcond =>
      refine hstay ?_
      rw [lt_droppedBlocks]
      cases full with
      | nil =>
        simp only [List.length_nil, Nat.zero_mul] at htotal
        omega
      | cons block full =>
        have : ring.total ≤ bounds.byteCap := by
          by_contra hcap
          exact hcond ⟨Nat.not_le.mp hcap, by simp [hleft]⟩
        omega

theorem Holds.openTail (h : Holds bounds pushed ring) :
    (openTail bounds ring).tailLen < bounds.blockSize ∧ ∃ front full tail,
      Layout bounds pushed (droppedBlocks bounds pushed.length) (openTail bounds ring)
        front full tail := by
  have hsize := bounds.blockSize_pos
  rcases h with ⟨rfl, rfl⟩ | ⟨hpos, front, full, tail, h⟩
  · refine ⟨by simpa [Dormant.openTail] using hsize,
      [], [], List.replicate bounds.blockSize 0, ?_⟩
    simp only [List.length_nil, droppedBlocks_zero]
    constructor <;> simp [Dormant.openTail]
  · have hlast : (ring.blocks.getLast?.getD []).length = bounds.blockSize := by
      rw [h.blocks, List.getLast?_concat, Option.getD_some, h.tail_length]
    have hmore : ring.blocks.length ≠ ring.head := by
      rw [h.blocks, h.head]
      simp only [List.length_append, List.length_singleton]
      omega
    rw [Dormant.openTail, hlast]
    split
    case isTrue hfull =>
      have hend : ring.tailLen = bounds.blockSize := hfull.resolve_left hmore
      refine ⟨hsize, front, full ++ [tail], List.replicate bounds.blockSize 0, ?_⟩
      have htotal := h.total
      refine ⟨by simp [h.blocks], h.head, ?_, by simp, Nat.zero_le _, ?_, ?_, h.count,
        h.overflowed⟩
      · intro block hblock
        rcases List.mem_append.mp hblock with hblock | hblock
        · exact h.full_length block hblock
        · rw [List.mem_singleton.mp hblock, h.tail_length]
      · simp only [List.length_append, List.length_singleton, Nat.succ_mul]
        omega
      · rw [h.held, hend, ← h.tail_length]
        simp
    case isFalse hroom =>
      refine ⟨?_, front, full, tail, h⟩
      exact Nat.lt_of_le_of_ne h.tailLen_le fun hend => hroom (.inr hend)

theorem Layout.store (h : Layout bounds pushed dropped ring front full tail)
    (bytes : List UInt8) (hfit : ring.tailLen + bytes.length ≤ bounds.blockSize) :
    ∃ tail, Layout bounds (pushed ++ bytes) dropped (store bytes ring) front full tail := by
  have htotal := h.total
  have hcount := h.count
  have hlast : ring.blocks.getLast?.getD [] = tail := by
    rw [h.blocks, List.getLast?_concat, Option.getD_some]
  have hinit : ring.blocks.dropLast = front ++ full := by
    rw [h.blocks, List.dropLast_concat]
  have htake : (tail.take ring.tailLen).length = ring.tailLen := by
    rw [List.length_take, h.tail_length, Nat.min_eq_left h.tailLen_le]
  refine ⟨tail.take ring.tailLen ++ bytes ++ tail.drop (ring.tailLen + bytes.length), ?_⟩
  refine ⟨by simp only [Dormant.store, hlast, hinit], h.head, h.full_length, ?_, hfit, ?_, ?_,
    ?_, h.overflowed⟩
  · simp only [List.length_append, htake, List.length_drop, h.tail_length]
    omega
  · simp only [Dormant.store]
    omega
  · have hwhole : ring.tailLen + bytes.length =
        (tail.take ring.tailLen ++ bytes).length := by
      rw [List.length_append, htake]
    simp only [Dormant.store]
    rw [List.drop_append_of_le_length (by omega), h.held, hwhole, List.take_left',
      List.append_assoc]
    rfl
  · simp only [Dormant.store, List.length_append]
    omega

variable (h : Holds bounds pushed ring)
include h

theorem Holds.fill {fuel : Nat} {bytes : List UInt8} (hfuel : bytes.length ≤ fuel) :
    Holds bounds (pushed ++ bytes) (fill bounds fuel bytes ring) := by
  induction fuel generalizing pushed bytes ring with
  | zero =>
    have hnone : bytes = [] := List.eq_nil_of_length_eq_zero (Nat.le_zero.mp hfuel)
    simpa [hnone, Dormant.fill] using h
  | succ fuel ih =>
    rw [Dormant.fill]
    split
    case isTrue hnone => simpa [hnone] using h
    case isFalse hsome =>
      obtain ⟨hroom, front, full, tail, hopened⟩ := h.openTail
      have hlast : ((Dormant.openTail bounds ring).blocks.getLast?.getD []).length =
          bounds.blockSize := by
        rw [hopened.blocks, List.getLast?_concat, Option.getD_some, hopened.tail_length]
      have hsome' : 0 < bytes.length := List.length_pos_iff.mpr hsome
      simp only [hlast]
      generalize hn : min (bounds.blockSize - (Dormant.openTail bounds ring).tailLen)
        bytes.length = n
      have htake : (bytes.take n).length = n := by
        rw [List.length_take]
        omega
      obtain ⟨tail', hstored⟩ := hopened.store (bytes.take n) (by omega)
      have hdropped := hstored.dropOldest (by simp only [Dormant.store]; omega)
        (droppedBlocks_mono bounds (by simp))
        (Dormant.store (bytes.take n) (Dormant.openTail bounds ring)).blocks.length
        (by simp [hstored.blocks]; omega)
      have hless : (bytes.drop n).length ≤ fuel := by
        rw [List.length_drop]
        omega
      have hrest := ih hdropped hless
      rwa [List.append_assoc, List.take_append_drop] at hrest

theorem Holds.compact :
    Holds bounds pushed (compact ring) := by
  rw [Dormant.compact]
  split
  case isFalse => exact h
  case isTrue hcond =>
    rcases h with ⟨-, rfl⟩ | ⟨hpos, front, full, tail, h⟩
    · simp at hcond
    · refine .inr ⟨hpos, [], full, tail, ?_⟩
      refine ⟨?_, rfl, h.full_length, h.tail_length, h.tailLen_le, h.total, h.held, h.count,
        h.overflowed⟩
      rw [h.blocks, h.head, List.append_assoc, List.drop_left, List.nil_append]

/-- **A push adds its bytes.** -/
theorem Holds.push (bytes : List UInt8) :
    Holds bounds (pushed ++ bytes) (push bounds bytes ring) :=
  (h.fill (Nat.le_refl _)).compact

end Layouts

/-! ## Draining -/

theorem flatten_written {tailLen start : Nat} {block : List UInt8} {rest : List (List UInt8)} :
    (written tailLen start (block :: rest)).flatten =
      (block.take (if rest = [] then tailLen else block.length)).drop start ++
        (written tailLen 0 rest).flatten := by
  rw [written, List.flatten_append]
  generalize (if rest = [] then tailLen else block.length) = len
  congr 1
  by_cases hsome : start < len
  · simp [hsome]
  · have hnone := List.drop_eq_nil_of_le
      (Nat.le_trans (List.length_take_le len block) (Nat.not_lt.mp hsome))
    simp [hsome, hnone]

/-- `out` begins directly after a line feed of `bytes`, and ends with it. -/
def AfterLineFeed (bytes out : List UInt8) : Prop := LF :: out <:+ bytes

/-- `out` is the longest part of `bytes` that begins after a line feed, and
all of `bytes` when there is none. -/
def Resumed (bytes out : List UInt8) : Prop :=
  (LF ∈ bytes → AfterLineFeed bytes out ∧
    ∀ other, AfterLineFeed bytes other → other.length ≤ out.length) ∧
  (LF ∉ bytes → out = bytes)

theorem afterLine_le (bytes : List UInt8) : afterLine bytes ≤ bytes.length := by
  rw [afterLine]
  cases hfound : bytes.idxOf? LF with
  | none => exact Nat.zero_le _
  | some lf =>
    obtain ⟨hlt, -⟩ := List.idxOf?_eq_some_iff.mp hfound
    exact hlt

theorem resumed_iff {bytes : List UInt8} {size : Nat} :
    Resumed bytes (bytes.drop (afterLine (bytes.take size))) ↔
      LF ∉ bytes ∨ LF ∈ bytes.take size := by
  rw [afterLine]
  cases hfound : (bytes.take size).idxOf? LF with
  | none =>
    have hnone : LF ∉ bytes.take size := List.idxOf?_eq_none_iff.mp hfound
    refine ⟨fun h => .inl fun hsome => ?_, fun h => ⟨fun hsome => ?_, fun _ => rfl⟩⟩
    · have hlength := (h.1 hsome).1.length_le
      simp only [List.drop_zero, List.length_cons] at hlength
      omega
    · exact absurd hsome (h.resolve_right hnone)
  | some lf =>
    obtain ⟨hlt, hat, hfirst⟩ := List.idxOf?_eq_some_iff.mp hfound
    have hmem : LF ∈ bytes.take size := hat ▸ List.getElem_mem hlt
    rw [List.length_take] at hlt
    have hlt' : lf < bytes.length := by omega
    refine ⟨fun _ => .inr hmem, fun _ => ⟨fun _ => ⟨?_, fun other hother => ?_⟩, fun hnone => ?_⟩⟩
    · rw [List.getElem_take] at hat
      rw [AfterLineFeed, ← hat, ← List.drop_eq_getElem_cons hlt']
      exact List.drop_suffix _ _
    · have hdrop := List.suffix_iff_eq_drop.mp hother
      have hlength := hother.length_le
      rw [List.length_cons] at hlength
      rw [List.length_cons, List.drop_eq_getElem_cons (by omega)] at hdrop
      by_contra hlonger
      simp only [List.length_drop] at hlonger
      have hbefore : bytes.length - (other.length + 1) < lf := by omega
      refine hfirst _ hbefore ?_
      rw [List.getElem_take]
      exact (List.cons.inj hdrop).1.symm
    · exact absurd (List.mem_of_mem_take hmem) hnone

section Drained

variable {pushed : List UInt8} {dropped : Nat} {ring : DormantRing}
  {front full : List (List UInt8)} {tail : List UInt8}

theorem Layout.retained (h : Layout bounds pushed dropped ring front full tail) :
    retained ring = pushed.drop (dropped * bounds.blockSize) := by
  rw [Dormant.retained, h.held, h.blocks, h.head, List.append_assoc, List.drop_left]
  clear h
  induction full with
  | nil =>
    rw [List.nil_append, flatten_written]
    simp [written]
  | cons block full ih => simp [flatten_written, ih]

theorem Layout.drained (h : Layout bounds pushed dropped ring front full tail) :
    drained ring = (Dormant.retained ring).drop
      (if 0 < dropped then afterLine ((Dormant.retained ring).take bounds.blockSize)
      else 0) := by
  obtain ⟨first, rest, hkept⟩ : ∃ first rest, full ++ [tail] = first :: rest :=
    List.exists_cons_of_ne_nil (by simp)
  have hblocks : ring.blocks.drop ring.head = first :: rest := by
    rw [h.blocks, h.head, List.append_assoc, List.drop_left, hkept]
  have hview : (Dormant.retained ring).take bounds.blockSize =
      first.take (if rest = [] then ring.tailLen else first.length) := by
    have htail := h.tailLen_le
    rw [h.retained, h.held]
    cases full with
    | nil =>
      obtain ⟨rfl, rfl⟩ := List.cons.inj hkept
      rw [if_pos rfl, List.flatten_nil, List.nil_append, List.take_take,
        Nat.min_eq_right h.tailLen_le]
    | cons block full =>
      obtain ⟨rfl, rfl⟩ := List.cons.inj hkept
      rw [if_neg (by simp), List.take_length, List.flatten_cons, List.append_assoc,
        List.take_left' (h.full_length _ List.mem_cons_self)]
  have hdata : Dormant.drained ring =
      (written ring.tailLen (skip ring) (first :: rest)).flatten := by
    rw [Dormant.drained, drain, hblocks]
    by_cases hover : ring.overflowed = true <;> simp [hover]
  have hskip : skip ring =
      if 0 < dropped then afterLine ((Dormant.retained ring).take bounds.blockSize) else 0 := by
    rw [skip, hblocks, h.overflowed, hview]
    simp
  have hsplit : Dormant.retained ring = (Dormant.retained ring).take bounds.blockSize ++
      (written ring.tailLen 0 rest).flatten := by
    rw [hview, Dormant.retained, hblocks, flatten_written, List.drop_zero]
  rw [hdata, flatten_written, ← hview, ← hskip]
  have hle : skip ring ≤ ((Dormant.retained ring).take bounds.blockSize).length := by
    rw [hskip]
    split
    · exact afterLine_le _
    · exact Nat.zero_le _
  rw [← List.drop_append_of_le_length hle, ← hsplit]

end Drained

/-! ## Runs -/

inductive Op where
  | push (bytes : List UInt8)
  | drain

variable (bounds) in
def step (ring : DormantRing) : Op → DormantRing
  | .push bytes => push bounds bytes ring
  | .drain => (drain ring).2

/-- The bytes pushed since the last drain. -/
def pending (ops : List Op) : List UInt8 :=
  Runs.run (fun pushed op => match op with | .push bytes => pushed ++ bytes | .drain => [])
    [] ops

variable (bounds) in
theorem holds_run (ops : List Op) :
    Holds bounds (pending ops) (Runs.run (step bounds) {} ops) := by
  induction ops using List.reverseRecOn with
  | nil => exact .inl ⟨rfl, rfl⟩
  | append_singleton ops op ih =>
    rw [pending, Runs.run_append, Runs.run_append]
    cases op with
    | push bytes => exact ih.push bytes
    | drain => exact .inl ⟨rfl, rfl⟩

variable (bounds) in
/-- What is to hold of a ring after `ops`, and of a drain there. -/
structure Replays (ops : List Op) (ring : DormantRing) : Prop where
  length : byteLength ring = (retained ring).length
  bounded : byteLength ring ≤ max bounds.byteCap bounds.blockSize
  newest : retained ring <:+ pending ops ∧
    min (pending ops).length (bounds.byteCap + 1 - bounds.blockSize) ≤ (retained ring).length
  overflowed : ring.overflowed = true ↔ retained ring ≠ pending ops
  notice : ∃ data, (drain ring).1 =
    (if retained ring = pending ops then [] else [OverflowNotice]) ++ data ∧
      data.flatten = drained ring
  drained : drained ring <:+ pending ops
  whole : retained ring = pending ops → Dormant.drained ring = pending ops
  resumed : retained ring ≠ pending ops → Resumed (retained ring) (Dormant.drained ring)
  chunks : ∀ ops', pending ops' = pending ops →
    Dormant.drained (Runs.run (step bounds) {} ops') = Dormant.drained ring
  fresh : (drain ring).2 = {}

variable (bounds) in
/-- Nothing was dropped, or the first line feed that is left, if any, is in
the first block that is left. -/
def LineInFirstBlock (pushed : List UInt8) : Prop :=
  let left := pushed.drop (droppedBlocks bounds pushed.length * bounds.blockSize)
  droppedBlocks bounds pushed.length = 0 ∨ LF ∉ left ∨ LF ∈ left.take bounds.blockSize

variable (bounds) in
/-- What a ring holds and what a drain writes, by the bytes pushed alone. -/
structure Read (pushed : List UInt8) (ring : DormantRing) : Prop where
  held : retained ring = pushed.drop (droppedBlocks bounds pushed.length * bounds.blockSize)
  size : ring.total = (retained ring).length
  flag : ring.overflowed = decide (0 < droppedBlocks bounds pushed.length)
  short : droppedBlocks bounds pushed.length * bounds.blockSize ≤ pushed.length
  data : drained ring = (retained ring).drop
    (if 0 < droppedBlocks bounds pushed.length then
      afterLine ((retained ring).take bounds.blockSize) else 0)

theorem Holds.read {pushed : List UInt8} {ring : DormantRing} (h : Holds bounds pushed ring) :
    Read bounds pushed ring := by
  rcases h with ⟨rfl, rfl⟩ | ⟨-, front, full, tail, h⟩
  · have hnone : droppedBlocks bounds 0 = 0 := droppedBlocks_zero bounds
    constructor <;> simp [hnone, retained, Dormant.drained, drain, skip, written]
  · have hcount := h.count
    refine ⟨h.retained, ?_, h.overflowed, by omega, h.drained⟩
    rw [h.retained, List.length_drop]
    omega

section Reads

variable {pushed : List UInt8} {ring : DormantRing} (h : Read bounds pushed ring)
include h

theorem Read.length : (retained ring).length =
    pushed.length - droppedBlocks bounds pushed.length * bounds.blockSize := by
  rw [h.held, List.length_drop]

theorem Read.whole_iff : retained ring = pushed ↔ droppedBlocks bounds pushed.length = 0 := by
  have hpos := bounds.blockSize_pos
  refine ⟨fun heq => ?_, fun hnone => by rw [h.held, hnone, Nat.zero_mul, List.drop_zero]⟩
  have hlength := h.length
  rw [heq] at hlength
  have hshort := h.short
  have hzero : droppedBlocks bounds pushed.length * bounds.blockSize = 0 := by omega
  exact (Nat.mul_eq_zero.mp hzero).resolve_right (by omega)

theorem Read.bounded :
    (retained ring).length ≤ max bounds.byteCap bounds.blockSize ∧
      (0 < droppedBlocks bounds pushed.length →
        max bounds.byteCap bounds.blockSize < (retained ring).length + bounds.blockSize) := by
  have hshort := h.short
  rw [h.length]
  constructor
  · have hstop := mt (lt_droppedBlocks bounds).mpr
      (Nat.lt_irrefl (droppedBlocks bounds pushed.length))
    omega
  · intro hsome
    obtain ⟨before, hbefore⟩ := Nat.exists_eq_succ_of_ne_zero (Nat.pos_iff_ne_zero.mp hsome)
    have hlast := (lt_droppedBlocks bounds).mp (hbefore ▸ Nat.lt_succ_self before)
    rw [hbefore, Nat.succ_mul] at hshort ⊢
    omega

theorem Read.notice : ∃ data,
    (drain ring).1 = (if retained ring = pushed then [] else [OverflowNotice]) ++ data ∧
      data.flatten = drained ring := by
  refine ⟨written ring.tailLen (skip ring) (ring.blocks.drop ring.head), ?_⟩
  by_cases hwhole : retained ring = pushed
  · have hquiet : ring.overflowed = false := by
      rw [h.flag, h.whole_iff.mp hwhole]
      rfl
    simp [drain, drained, hwhole, hquiet]
  · have hsome := Nat.pos_of_ne_zero (mt h.whole_iff.mpr hwhole)
    have hover : ring.overflowed = true := by rw [h.flag, decide_eq_true hsome]
    have hleft : ring.blocks.drop ring.head ≠ [] := by
      intro hnone
      have hlength := h.bounded.2 hsome
      rw [retained, hnone] at hlength
      simp only [written, List.flatten_nil, List.length_nil] at hlength
      omega
    simp [drain, drained, hwhole, hover, hleft]

theorem Read.resumed_iff (hwhole : retained ring ≠ pushed) :
    Resumed (retained ring) (drained ring) ↔ LineInFirstBlock bounds pushed := by
  have hsome := Nat.pos_of_ne_zero (mt h.whole_iff.mpr hwhole)
  rw [h.data, if_pos hsome, Dormant.resumed_iff, LineInFirstBlock, h.held]
  simp [Nat.pos_iff_ne_zero.mp hsome]

end Reads

/-- **A drain resumes at a line exactly when the cut line ends in the first
block that is left.**  Everything else holds after any pushes and drains. -/
theorem replays_iff (bounds : Bounds) (ops : List Op) :
    Replays bounds ops (Runs.run (step bounds) {} ops) ↔
      LineInFirstBlock bounds (pending ops) := by
  have h := (holds_run bounds ops).read
  generalize Runs.run (step bounds) {} ops = ring at h ⊢
  constructor
  · intro hreplays
    by_cases hwhole : retained ring = pending ops
    · exact .inl (h.whole_iff.mp hwhole)
    · exact (h.resumed_iff hwhole).mp (hreplays.resumed hwhole)
  · intro hline
    have hbounded := h.bounded
    have hlength := h.length
    have hover := h.flag
    refine ⟨h.size, by rw [byteLength, h.size]; exact hbounded.1, ⟨?_, ?_⟩, ?_, h.notice, ?_,
      ?_, fun hwhole => (h.resumed_iff hwhole).mpr hline, ?_, rfl⟩
    · exact h.held ▸ List.drop_suffix _ _
    · rcases Nat.eq_zero_or_pos (droppedBlocks bounds (pending ops).length) with hnone | hsome
      · rw [hnone] at hlength
        omega
      · have := hbounded.2 hsome
        omega
    · rw [hover, decide_eq_true_iff, Nat.pos_iff_ne_zero, Ne, Ne, h.whole_iff]
    · rw [h.data, h.held]
      exact (List.drop_suffix _ _).trans (List.drop_suffix _ _)
    · intro hwhole
      rw [h.data, hwhole, h.whole_iff.mp hwhole]
      rfl
    · intro ops' hops
      have h' := (holds_run bounds ops').read
      rw [h'.data, h'.held, h.data, h.held, hops]

/-- A line that is cut by the drop and ends in the second block left. -/
def cutLine : List Op := [.push [97, 97, 97, 97, 97, 97, 10]]

theorem cutLine_not_resumed :
    ¬ Replays ⟨4, 2, by decide⟩ cutLine (Runs.run (step ⟨4, 2, by decide⟩) {} cutLine) := by
  intro h
  have hover : retained (Runs.run (step ⟨4, 2, by decide⟩) {} cutLine) ≠ pending cutLine := by
    decide
  have hresumed := (h.resumed hover).1 (by decide)
  exact absurd hresumed.1.length_le (by decide)

end Dormant

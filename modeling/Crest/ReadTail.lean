import Mathlib.Data.List.DropRight

/-!
# The last lines of a file

A reader asks for some lines counted from the end of a file.  The code looks for them in ever larger
windows at that end, up to a limit on the bytes, and keeps the positions at which a window's lines
begin in a list that slides along while the window is read.  A window that does not begin with the
file gives up its first line, whole or not, so a line that begins where the largest window does is
out of reach.
-/

namespace Readutil

/-- A result of the 64-bit arithmetic. -/
def int64 (n : Int) : Int := n.bmod 18446744073709551616

inductive StopReason
  | none | bof | eof | readLimit
deriving DecidableEq

inductive Failure
  | panic
  | error (text : String)
deriving DecidableEq

/-- What `ReadString` returns for a newline, one line after the other. -/
def splitLines : List UInt8 → List (List UInt8)
  | [] => []
  | byte :: data =>
    if byte = 10 then [byte] :: splitLines data
    else
      match splitLines data with
      | [] => [[byte]]
      | line :: rest => (byte :: line) :: rest

/-- The loop of `ReadLines`. -/
def readLinesFrom (lineCount skipLines readLimit : Int) : List (List UInt8) →
    (lines : List (List UInt8)) → (bytesRead skippedLines : Int) → List (List UInt8) × StopReason
  | [], lines, _, _ => (lines, .eof)
  | line :: rest, lines, bytesRead, skippedLines =>
    let bytesRead := bytesRead + line.length
    if skippedLines < skipLines then
      if 0 < readLimit ∧ readLimit ≤ bytesRead then (lines, .readLimit)
      else readLinesFrom lineCount skipLines readLimit rest lines bytesRead (skippedLines + 1)
    else
      let lines := lines ++ [line]
      if 0 < lineCount ∧ lineCount ≤ lines.length then (lines, .none)
      else if 0 < readLimit ∧ readLimit ≤ bytesRead then (lines, .readLimit)
      else readLinesFrom lineCount skipLines readLimit rest lines bytesRead skippedLines

def readLines (data : List UInt8) (lineCount skipLines readLimit : Int) :
    List (List UInt8) × StopReason :=
  readLinesFrom lineCount skipLines readLimit (splitLines data) [] 0 0

/-- The loop of `ReadLastNLineOffsets`. -/
def offsetsFrom (maxLines : Int) : List (List UInt8) → (currentPos : Nat) → (offsets : List Nat) →
    (totalLines : Nat) → List Nat × Nat
  | [], _, offsets, totalLines => (offsets, totalLines)
  | line :: rest, currentPos, offsets, totalLines =>
    let currentPos := currentPos + line.length
    let offsets := offsets ++ [currentPos]
    offsetsFrom maxLines rest currentPos
      (if int64 (maxLines + 1) < offsets.length then offsets.tail else offsets) (totalLines + 1)

def readLastNLineOffsets (data : List UInt8) (maxLines : Int) (keepFirst : Bool) :
    List Nat × Nat :=
  let (offsets, totalLines) := offsetsFrom maxLines (splitLines data) 0
    (if keepFirst then [0] else []) (if keepFirst then 1 else 0)
  if 0 < offsets.length then (offsets.dropLast, totalLines - 1) else (offsets, totalLines)

/-- `readTailLinesInternal`, with `none` for an index out of range. -/
def readTailLinesInternal (data : List UInt8) (lineCount lineOffset : Int) (keepFirst : Bool) :
    Option (List (List UInt8) × Bool) :=
  let maxOffsets := int64 (lineCount + lineOffset)
  let (offsets, totalLines) := readLastNLineOffsets data maxOffsets keepFirst
  if totalLines ≤ lineOffset then some ([], false)
  else
    let linesToRead :=
      if totalLines - lineOffset < lineCount then totalLines - lineOffset else lineCount
    let startIdx := offsets.length - lineOffset - linesToRead
    let hasMore := decide (int64 (lineCount + lineOffset) < totalLines)
    if startIdx < 0 then none
    else
      offsets[startIdx.toNat]?.map fun offset =>
        ((readLines (data.drop offset) linesToRead 0 0).1, hasMore)

/-- The loop of `ReadTailLines`, with `none` when the fuel runs out. -/
def readTailLinesFrom (file : List UInt8) (lineCount lineOffset readLimit : Int) :
    (fuel : Nat) → (readBytes : Int) → Option (Except Failure (List (List UInt8) × StopReason))
  | 0, _ => none
  | fuel + 1, readBytes =>
    let fileSize : Int := file.length
    let behind := int64 (fileSize - readBytes)
    let startPos := if behind < 0 then 0 else behind
    let readBytes := if behind < 0 then fileSize else readBytes
    let window := (file.drop startPos.toNat).take readBytes.toNat
    match readTailLinesInternal window lineCount lineOffset (startPos = 0) with
    | none => some (.error .panic)
    | some (lines, hasMoreInWindow) =>
      if lines.length = lineCount then
        let hasMore := 0 < startPos || hasMoreInWindow
        some (.ok (lines, if hasMore then .none else .bof))
      else if readLimit ≤ readBytes ∨ fileSize ≤ readBytes then
        some (.ok (lines, if 0 < startPos then .readLimit else .bof))
      else
        let readBytes := int64 (readBytes * 2)
        readTailLinesFrom file lineCount lineOffset readLimit fuel
          (if readLimit < readBytes then readLimit else readBytes)

def readTailLines (fuel : Nat) (file : List UInt8) (lineCount lineOffset readLimit : Int) :
    Option (Except Failure (List (List UInt8) × StopReason)) :=
  if readLimit ≤ 0 then
    some (.error (.error
      ("ReadTailLines readLimit must be positive, got " ++ toString readLimit)))
  else
    readTailLinesFrom file lineCount lineOffset readLimit fuel
      (if readLimit < 1048576 then readLimit else 1048576)

/-! ## The intended end of a file -/

/-- The lines that lie within the last `bytes` bytes. -/
def linesWithin : List (List UInt8) → (bytes : Nat) → List (List UInt8)
  | [], _ => []
  | line :: rest, bytes =>
    if (line :: rest).flatten.length ≤ bytes then line :: rest else linesWithin rest bytes

/-- The last `lineCount` lines in front of the last `lineOffset` ones. -/
def tailOf (lines : List (List UInt8)) (lineCount lineOffset : Nat) : List (List UInt8) :=
  (lines.rdrop lineOffset).rtake lineCount

/-- The lines within reach: all of a file within the limit, and of a larger one those that lie
behind the first byte the limit allows. -/
def available (file : List UInt8) (readLimit : Nat) : List (List UInt8) :=
  linesWithin (splitLines file) (if file.length ≤ readLimit then readLimit else readLimit - 1)

/-- The lines to return, and why there are no more.  Only if they are fewer than asked for does the
limit count. -/
def fileTail (file : List UInt8) (lineCount lineOffset readLimit : Nat) :
    List (List UInt8) × StopReason :=
  let lines := tailOf (available file readLimit) lineCount lineOffset
  (lines,
    if lines.length = lineCount then
      if lineCount + lineOffset < (splitLines file).length then .none else .bof
    else if file.length ≤ readLimit then .bof else .readLimit)

theorem int64_of_lt {n : Int} (hlow : -9223372036854775808 ≤ n)
    (hhigh : n < 9223372036854775808) : int64 n = n :=
  Int.bmod_eq_of_le (by omega) (by omega)

section Ends

variable {α : Type*} {lines rest : List α} {lineCount lineOffset : Nat}

theorem rtake_of_suffix (h : rest <:+ lines) (hcount : lineCount ≤ rest.length) :
    lines.rtake lineCount = rest.rtake lineCount := by
  obtain ⟨front, rfl⟩ := h
  have hskip : front.length + rest.length - lineCount =
      front.length + (rest.length - lineCount) := by omega
  rw [List.rtake, List.length_append, hskip, List.drop_length_add_append, List.rtake]

theorem tailOf_of_suffix {lines rest : List (List UInt8)} (h : rest <:+ lines)
    (hcount : lineCount + lineOffset ≤ rest.length) :
    tailOf lines lineCount lineOffset = tailOf rest lineCount lineOffset := by
  obtain ⟨front, rfl⟩ := h
  have hkept : (front ++ rest).rdrop lineOffset = front ++ rest.rdrop lineOffset := by
    have hlength : front.length + rest.length - lineOffset =
        front.length + (rest.length - lineOffset) := by omega
    rw [List.rdrop, List.length_append, hlength, List.take_length_add_append, List.rdrop]
  rw [tailOf, hkept]
  refine rtake_of_suffix (List.suffix_append _ _) ?_
  rw [List.rdrop, List.length_take]
  omega

theorem length_tailOf (lines : List (List UInt8)) (lineCount lineOffset : Nat) :
    (tailOf lines lineCount lineOffset).length = min lineCount (lines.length - lineOffset) := by
  simp only [tailOf, List.rtake, List.rdrop, List.length_drop, List.length_take]
  omega

theorem tailOf_eq_take (lines : List (List UInt8)) (lineCount lineOffset : Nat) :
    tailOf lines lineCount lineOffset =
      (lines.drop (lines.length - lineOffset - min lineCount (lines.length - lineOffset))).take
        (min lineCount (lines.length - lineOffset)) := by
  rw [tailOf, List.rtake, List.rdrop, List.drop_take, List.length_take]
  congr 1 <;> [skip; congr 1] <;> omega

end Ends

/-! ## Lines -/

theorem splitLines_eq_nil {data : List UInt8} (h : splitLines data = []) : data = [] := by
  cases data with
  | nil => rfl
  | cons byte data =>
    rw [splitLines] at h
    split at h
    · cases h
    · split at h <;> cases h

theorem flatten_splitLines (data : List UInt8) : (splitLines data).flatten = data := by
  induction data with
  | nil => rfl
  | cons byte data ih =>
    rw [splitLines]
    split
    · rw [List.flatten_cons, ih, List.singleton_append]
    · split
      next hnil =>
        rw [splitLines_eq_nil hnil]
        rfl
      next line rest hcons =>
        rw [hcons] at ih
        rw [List.flatten_cons, List.cons_append, ← List.flatten_cons, ih]

theorem splitLines_drop_length {data line : List UInt8} {rest : List (List UInt8)}
    (h : splitLines data = line :: rest) : splitLines (data.drop line.length) = rest := by
  induction data generalizing line with
  | nil => cases h
  | cons byte data ih =>
    rw [splitLines] at h
    split at h
    · cases h
      rfl
    · split at h
      next hnil =>
        cases h
        rw [splitLines_eq_nil hnil]
        rfl
      next first others hcons =>
        cases h
        exact ih hcons

theorem splitLines_drop (data : List UInt8) (j : Nat) :
    splitLines (data.drop ((splitLines data).take j).flatten.length) = (splitLines data).drop j := by
  induction j generalizing data with
  | zero => simp
  | succ j ih =>
    cases hlines : splitLines data with
    | nil => simp [splitLines_eq_nil hlines, splitLines]
    | cons line rest =>
      have hrest := splitLines_drop_length hlines
      have hbehind := ih (data.drop line.length)
      rw [hrest, List.drop_drop] at hbehind
      rwa [List.take_succ_cons, List.flatten_cons, List.length_append, List.drop_succ_cons]

theorem tail_splitLines_cons (byte : UInt8) (data : List UInt8) :
    (splitLines (byte :: data)).tail = splitLines data ∨
      (splitLines (byte :: data)).tail = (splitLines data).tail := by
  rw [splitLines]
  split
  · exact Or.inl rfl
  · split
    next hnil => exact Or.inl hnil.symm
    next hcons => exact Or.inr (by rw [hcons]; rfl)

theorem tail_splitLines_drop_suffix (data : List UInt8) (pos : Nat) :
    (splitLines (data.drop pos)).tail <:+ (splitLines data).tail := by
  induction pos generalizing data with
  | zero => exact List.suffix_refl _
  | succ pos ih =>
    cases data with
    | nil => exact List.suffix_refl _
    | cons byte data =>
      refine (ih data).trans ?_
      rcases tail_splitLines_cons byte data with htail | htail
      · exact htail ▸ List.tail_suffix _
      · exact htail ▸ List.suffix_refl _

theorem linesWithin_of_le {lines : List (List UInt8)} {bytes : Nat}
    (h : lines.flatten.length ≤ bytes) : linesWithin lines bytes = lines := by
  cases lines with
  | nil => rfl
  | cons line rest => rw [linesWithin, if_pos h]

theorem linesWithin_of_lt {lines : List (List UInt8)} {bytes : Nat}
    (h : bytes < lines.flatten.length) : linesWithin lines bytes = linesWithin lines.tail bytes := by
  cases lines with
  | nil => rfl
  | cons line rest => rw [linesWithin, if_neg (Nat.not_le_of_lt h), List.tail_cons]

theorem tail_splitLines_drop {data : List UInt8} {pos : Nat} (h : pos < data.length) :
    (splitLines (data.drop pos)).tail = linesWithin (splitLines data) (data.length - pos - 1) := by
  induction data generalizing pos with
  | nil => cases h
  | cons byte data ih =>
    rw [linesWithin_of_lt (by rw [flatten_splitLines]; omega)]
    cases pos with
    | zero =>
      refine (linesWithin_of_le ?_).symm
      have hdata : (splitLines data).flatten.length = data.length := by rw [flatten_splitLines]
      rw [List.drop_zero, List.length_cons, Nat.sub_zero, Nat.add_sub_cancel, ← hdata]
      rcases tail_splitLines_cons byte data with htail | htail
      · rw [htail]
      · rw [htail]
        cases splitLines data <;> simp
    | succ pos =>
      have hpos : pos < data.length := by simpa using h
      rw [List.drop_succ_cons, ih hpos, List.length_cons, Nat.add_sub_add_right]
      rcases tail_splitLines_cons byte data with htail | htail
      · rw [htail]
      · rw [htail, linesWithin_of_lt (by rw [flatten_splitLines]; omega)]

/-! ## One window -/

theorem readLinesFrom_fst {lineCount : Nat} {lines found : List (List UInt8)}
    (h : found.length < lineCount) (bytesRead : Int) :
    (readLinesFrom lineCount 0 0 lines found bytesRead 0).1 =
      found ++ lines.take (lineCount - found.length) := by
  induction lines generalizing found bytesRead with
  | nil => simp [readLinesFrom]
  | cons line rest ih =>
    have hleft : lineCount - found.length = lineCount - (found ++ [line]).length + 1 := by
      rw [List.length_append, List.length_singleton]
      omega
    rw [hleft, List.take_succ_cons, List.append_cons]
    simp only [readLinesFrom, Int.lt_irrefl, if_false, false_and]
    split
    next hfull =>
      have hnone : lineCount - (found ++ [line]).length = 0 := by omega
      rw [hnone, List.take_zero, List.append_nil]
    next hmore => exact ih (by simp at hmore ⊢; omega) _

/-- The positions at which some lines end. -/
def ends : (pos : Nat) → List (List UInt8) → List Nat
  | _, [] => []
  | pos, line :: rest => (pos + line.length) :: ends (pos + line.length) rest

theorem length_ends (pos : Nat) (lines : List (List UInt8)) :
    (ends pos lines).length = lines.length := by
  induction lines generalizing pos with
  | nil => rfl
  | cons line rest ih => rw [ends, List.length_cons, ih, List.length_cons]

theorem getElem?_ends {pos j : Nat} {lines : List (List UInt8)} (h : j ≤ lines.length) :
    (pos :: ends pos lines)[j]? = some (pos + (lines.take j).flatten.length) := by
  induction j generalizing pos lines with
  | zero => simp
  | succ j ih =>
    cases lines with
    | nil => cases h
    | cons line rest =>
      rw [ends, List.getElem?_cons_succ, ih (Nat.le_of_succ_le_succ h), List.take_succ_cons,
        List.flatten_cons, List.length_append, Nat.add_assoc]

theorem offsetsFrom_eq {maxLines : Nat} (hmax : maxLines + 1 < 9223372036854775808)
    {lines : List (List UInt8)} {pos total : Nat} {offsets : List Nat}
    (h : offsets.length ≤ maxLines + 1) :
    offsetsFrom maxLines lines pos offsets total =
      ((offsets ++ ends pos lines).rtake (maxLines + 1), total + lines.length) := by
  induction lines generalizing pos total offsets with
  | nil => simp [offsetsFrom, ends, List.rtake, Nat.sub_eq_zero_of_le h]
  | cons line rest ih =>
    have hint : int64 ((maxLines : Int) + 1) = (maxLines + 1 : Nat) :=
      int64_of_lt (by omega) (by omega)
    simp only [offsetsFrom, hint, Int.ofNat_lt, ends, List.length_cons]
    rw [List.append_cons offsets _ (ends _ _), Nat.add_comm rest.length, ← Nat.add_assoc]
    generalize hslid : offsets ++ [pos + line.length] = slid
    have hlength : slid.length = offsets.length + 1 := by simp [← hslid]
    split
    next hfull =>
      have hsuffix : slid.tail ++ ends (pos + line.length) rest <:+
          slid ++ ends (pos + line.length) rest := by
        refine ⟨slid.take 1, ?_⟩
        rw [← List.append_assoc, ← List.drop_one, List.take_append_drop]
      rw [ih (by rw [List.length_tail]; omega)]
      rw [rtake_of_suffix hsuffix (by rw [List.length_append, List.length_tail]; omega)]
    next hroom => rw [ih (Nat.le_of_not_lt hroom)]

theorem readLastNLineOffsets_eq {maxLines : Nat} (hmax : maxLines + 1 < 9223372036854775808)
    (data : List UInt8) (keepFirst : Bool) :
    ∃ starts : List Nat, readLastNLineOffsets data maxLines keepFirst =
        (starts.rtake maxLines, starts.length) ∧
      starts.length = ((splitLines data).drop (if keepFirst then 0 else 1)).length ∧
      ∀ j < starts.length, starts[j]? =
        some ((splitLines data).take ((if keepFirst then 0 else 1) + j)).flatten.length := by
  generalize hskip : (if keepFirst then 0 else 1) = skip
  have hfound : (if keepFirst then [0] else []) ++ ends 0 (splitLines data) =
      (0 :: ends 0 (splitLines data)).drop skip := by
    rw [← hskip]
    cases keepFirst <;> rfl
  have htotal : (if keepFirst then 1 else 0) + (splitLines data).length =
      ((0 :: ends 0 (splitLines data)).drop skip).length := by
    rw [← hfound, List.length_append, length_ends]
    cases keepFirst <;> rfl
  have hstart : (if keepFirst then [0] else []).length ≤ maxLines + 1 := by
    cases keepFirst <;> simp
  refine ⟨((0 :: ends 0 (splitLines data)).drop skip).dropLast, ?_, ?_, fun j hj => ?_⟩
  · simp only [readLastNLineOffsets, offsetsFrom_eq hmax hstart, hfound, htotal]
    rcases List.eq_nil_or_concat ((0 :: ends 0 (splitLines data)).drop skip) with hnil | ⟨_, _, hcons⟩
    · simp [hnil]
    · simp [hcons, List.rtake_concat_succ]
  · simp [length_ends]
    omega
  · rw [List.length_dropLast, List.length_drop, List.length_cons, length_ends] at hj
    rw [List.getElem?_dropLast, List.length_drop, List.length_cons, length_ends, if_pos hj,
      List.getElem?_drop, getElem?_ends (by omega), Nat.zero_add]

theorem readTailLinesInternal_eq {lineCount lineOffset : Nat} (hcount : 0 < lineCount)
    (hmax : lineCount + lineOffset + 1 < 9223372036854775808) (data : List UInt8)
    (keepFirst : Bool) {lines : List (List UInt8)}
    (hlines : (splitLines data).drop (if keepFirst then 0 else 1) = lines) :
    readTailLinesInternal data lineCount lineOffset keepFirst =
      some (tailOf lines lineCount lineOffset, decide (lineCount + lineOffset < lines.length)) := by
  have hint : int64 ((lineCount : Int) + lineOffset) = (lineCount + lineOffset : Nat) :=
    int64_of_lt (by omega) (by omega)
  obtain ⟨starts, hoffsets, hlength, hstarts⟩ := readLastNLineOffsets_eq hmax data keepFirst
  rw [hlines] at hlength
  simp only [readTailLinesInternal, hint, hoffsets, Int.ofNat_le, Int.ofNat_lt, hlength]
  split
  next hfew =>
    have hnone : tailOf lines lineCount lineOffset = [] := by
      rw [← List.length_eq_zero_iff, length_tailOf]
      omega
    simp [hnone]
    omega
  next hmore =>
    have hread : (if (lines.length : Int) - lineOffset < lineCount then
        (lines.length : Int) - lineOffset else lineCount) =
        (min lineCount (lines.length - lineOffset) : Nat) := by
      split <;> omega
    rw [hread, tailOf_eq_take]
    generalize htake : min lineCount (lines.length - lineOffset) = take
    have hidx : ((starts.rtake (lineCount + lineOffset)).length : Int) - lineOffset - take =
        ((starts.rtake (lineCount + lineOffset)).length - lineOffset - take : Nat) := by
      simp only [List.rtake, List.length_drop]
      omega
    rw [hidx, if_neg (by omega), Int.toNat_natCast, List.rtake, List.getElem?_drop]
    have hplace : starts.length - (lineCount + lineOffset) +
        ((starts.drop (starts.length - (lineCount + lineOffset))).length - lineOffset - take) =
        lines.length - lineOffset - take := by
      rw [List.length_drop]
      omega
    rw [hplace, hstarts _ (by omega), Option.map_some, readLines,
      readLinesFrom_fst (by rw [List.length_nil]; omega), splitLines_drop, ← List.drop_drop, hlines]
    rfl

/-! ## Larger and larger windows -/

/-- The lines the window at a position shows. -/
def windowLines (file : List UInt8) (pos : Nat) : List (List UInt8) :=
  (splitLines (file.drop pos)).drop (if pos = 0 then 0 else 1)

section Windows

variable {file : List UInt8} {lineCount lineOffset readLimit pos : Nat}

theorem windowLines_zero (file : List UInt8) : windowLines file 0 = splitLines file := rfl

theorem windowLines_of_pos (h : 0 < pos) :
    windowLines file pos = (splitLines (file.drop pos)).tail := by
  rw [windowLines, if_neg (by omega), List.drop_one]

theorem windowLines_suffix (file : List UInt8) {pos' : Nat} (h : pos' ≤ pos) :
    windowLines file pos <:+ windowLines file pos' := by
  rcases Nat.eq_zero_or_pos pos' with rfl | hpos'
  · rw [windowLines_zero]
    rcases Nat.eq_zero_or_pos pos with rfl | hpos
    · exact List.suffix_refl _
    · rw [windowLines_of_pos hpos]
      exact (tail_splitLines_drop_suffix file pos).trans (List.tail_suffix _)
  · rw [windowLines_of_pos (by omega), windowLines_of_pos hpos', ← Nat.add_sub_cancel' h,
      ← List.drop_drop]
    exact tail_splitLines_drop_suffix _ _

theorem length_windowLines_lt (h : 0 < pos) (hfile : file ≠ []) :
    (windowLines file pos).length < (splitLines file).length := by
  rw [windowLines_of_pos h]
  refine (tail_splitLines_drop_suffix file pos).length_le.trans_lt ?_
  rw [List.length_tail]
  exact Nat.sub_one_lt fun hnone => hfile (splitLines_eq_nil (List.length_eq_zero_iff.mp hnone))

theorem available_eq (file : List UInt8) (h : 0 < readLimit) :
    available file readLimit = windowLines file (file.length - readLimit) := by
  rw [available]
  split
  next hle =>
    rw [Nat.sub_eq_zero_of_le hle, windowLines_zero,
      linesWithin_of_le (by rwa [flatten_splitLines])]
  next hlt =>
    rw [windowLines_of_pos (by omega), tail_splitLines_drop (by omega)]
    congr 1
    omega

variable (hcount : 0 < lineCount) (hmax : lineCount + lineOffset + 1 < 9223372036854775808)
  (hfile : file.length ≤ 4611686018427387904)

include hcount hmax hfile

/-- One window decides the result, or the next one is larger. -/
theorem readTailLinesFrom_succ {readBytes : Nat} (hpos : 0 < readBytes)
    (hle : readBytes ≤ readLimit) (hbytes : readBytes < 9223372036854775808) (fuel : Nat) :
    readTailLinesFrom file lineCount lineOffset readLimit (fuel + 1) readBytes =
        some (.ok (fileTail file lineCount lineOffset readLimit)) ∨
      readBytes < readLimit ∧ readBytes < file.length ∧
        readTailLinesFrom file lineCount lineOffset readLimit (fuel + 1) readBytes =
          readTailLinesFrom file lineCount lineOffset readLimit fuel
            (min (readBytes * 2) readLimit : Nat) := by
  have hbehind : int64 ((file.length : Int) - readBytes) = file.length - readBytes :=
    int64_of_lt (by omega) (by omega)
  have hstart : (if (file.length : Int) - readBytes < 0 then 0
      else (file.length : Int) - readBytes) = (file.length - readBytes : Nat) := by
    split <;> omega
  have hread : (if (file.length : Int) - readBytes < 0 then (file.length : Int) else readBytes) =
      (min readBytes file.length : Nat) := by
    split <;> omega
  generalize hp : file.length - readBytes = pos at hstart
  have hwindow : (file.drop pos).take (min readBytes file.length) = file.drop pos := by
    refine List.take_of_length_le ?_
    rw [List.length_drop]
    omega
  have hlines : (splitLines (file.drop pos)).drop (if decide ((pos : Int) = 0) then 0 else 1) =
      windowLines file pos := by
    simp [windowLines]
  simp only [readTailLinesFrom, hbehind, hstart, hread, Int.toNat_natCast, hwindow,
    readTailLinesInternal_eq hcount hmax _ _ hlines]
  by_cases hfull : (tailOf (windowLines file pos) lineCount lineOffset).length = lineCount
  · left
    have hreach : lineCount + lineOffset ≤ (windowLines file pos).length := by
      rw [length_tailOf] at hfull
      omega
    have hsuffix : windowLines file pos <:+ available file readLimit := by
      rw [available_eq file (by omega)]
      exact windowLines_suffix file (by omega)
    have hearlier : 0 < pos ∨ lineCount + lineOffset < (windowLines file pos).length ↔
        lineCount + lineOffset < (splitLines file).length := by
      rcases Nat.eq_zero_or_pos pos with rfl | hbehind
      · simp [windowLines_zero]
      · have hlt : (windowLines file pos).length < (splitLines file).length :=
          length_windowLines_lt hbehind (List.ne_nil_of_length_pos (by omega))
        omega
    rw [if_pos (Int.ofNat_inj.mpr hfull), fileTail, tailOf_of_suffix hsuffix hreach, if_pos hfull]
    simp only [Bool.or_eq_true, decide_eq_true_eq, Int.natCast_pos, hearlier]
  · rw [if_neg (mt Int.ofNat_inj.mp hfull)]
    by_cases hlast : readLimit ≤ readBytes ∨ file.length ≤ readBytes
    · left
      have hall : available file readLimit = windowLines file pos := by
        rw [available_eq file (by omega)]
        congr 1
        omega
      rw [if_pos (by omega), fileTail, hall, if_neg hfull]
      by_cases hwhole : file.length ≤ readLimit
      · rw [if_pos hwhole, if_neg (by omega)]
      · rw [if_neg hwhole, if_pos (by omega)]
    · right
      have hdouble : int64 ((min readBytes file.length : Nat) * 2) = (readBytes * 2 : Nat) := by
        rw [int64_of_lt (by omega) (by omega)]
        omega
      have hnext : (if (readLimit : Int) < (readBytes * 2 : Nat) then (readLimit : Int)
          else (readBytes * 2 : Nat)) = (min (readBytes * 2) readLimit : Nat) := by
        split <;> omega
      rw [if_neg (by omega), hdouble, hnext]
      exact ⟨by omega, by omega, rfl⟩

theorem readTailLinesFrom_eq {fuel readBytes : Nat} (hpos : 0 < readBytes)
    (hle : readBytes ≤ readLimit) (hbytes : readBytes < 9223372036854775808)
    (hfuel : file.length ≤ readBytes + fuel) :
    readTailLinesFrom file lineCount lineOffset readLimit (fuel + 1) readBytes =
      some (.ok (fileTail file lineCount lineOffset readLimit)) := by
  induction fuel generalizing readBytes with
  | zero =>
    rcases readTailLinesFrom_succ hcount hmax hfile hpos hle hbytes 0 with h | ⟨-, hlt, -⟩
    · exact h
    · omega
  | succ fuel ih =>
    rcases readTailLinesFrom_succ hcount hmax hfile hpos hle hbytes (fuel + 1) with
      h | ⟨hlimit, hlt, hnext⟩
    · exact h
    · rw [hnext]
      exact ih (by omega) (by omega) (by omega) (by omega)

end Windows

/-- **The last lines of a file.**  With enough fuel the reader returns the last lines within reach,
however many windows it takes; it gives no reason exactly if it found as many lines as asked for
and others stand in front of them. -/
theorem readTailLines_eq (file : List UInt8) (lineCount lineOffset readLimit fuel : Nat)
    (hcount : 0 < lineCount) (hlimit : 0 < readLimit)
    (hmax : lineCount + lineOffset + 1 < 9223372036854775808)
    (hfile : file.length ≤ 4611686018427387904) (hfuel : file.length < fuel) :
    readTailLines fuel file lineCount lineOffset readLimit =
      some (.ok (fileTail file lineCount lineOffset readLimit)) := by
  obtain ⟨fuel, rfl⟩ := Nat.exists_eq_add_one_of_ne_zero (Nat.ne_zero_of_lt hfuel)
  have hfirst : (if (readLimit : Int) < 1048576 then (readLimit : Int) else 1048576) =
      (min readLimit 1048576 : Nat) := by
    split <;> omega
  rw [readTailLines, if_neg (by omega), hfirst]
  exact readTailLinesFrom_eq hcount hmax hfile (by omega) (by omega) (by omega) (by omega)

theorem readTailLines_middle :
    readTailLines 6 [97, 10, 98, 10, 99] 1 1 4 = some (.ok ([[98, 10]], .none)) :=
  (readTailLines_eq [97, 10, 98, 10, 99] 1 1 4 6 (by decide) (by decide) (by decide) (by decide)
    (by decide)).trans (by decide)

/-- A line that begins where the largest window does is not returned although it lies within the
limit; where no line is left the reason names the limit; and a count too large for the arithmetic
is an index out of range. -/
theorem last_line_out_of_reach :
    readTailLines 9 [97, 10, 98, 10] 1 0 2 = some (.ok ([], .readLimit)) ∧
      tailOf (linesWithin (splitLines [97, 10, 98, 10]) 2) 1 0 = [[98, 10]] ∧
      readTailLines 9 [97, 97, 97, 10] 1 1 2 = some (.ok ([], .readLimit)) ∧
      tailOf (splitLines [97, 97, 97, 10]) 1 1 = [] ∧
      readTailLines 9 [97, 10, 98, 10] 9223372036854775807 1 9 = some (.error .panic) := by
  decide +kernel

theorem tailOf_add (lines : List (List UInt8)) (older newer offset : Nat) :
    tailOf lines (older + newer) offset =
      tailOf lines older (offset + newer) ++ tailOf lines newer offset := by
  have hkept : lines.rdrop (offset + newer) = (lines.rdrop offset).rdrop newer := by
    simp only [List.rdrop, List.take_take, List.length_take]
    congr 1
    omega
  simp only [tailOf, hkept]
  generalize lines.rdrop offset = lines
  have hlength : lines.length - (older + newer) ≤ (lines.take (lines.length - newer)).length := by
    rw [List.length_take]
    omega
  have hcut : (lines.take (lines.length - newer) ++ lines.drop (lines.length - newer)).drop
      (lines.length - (older + newer)) = _ := List.drop_append_of_le_length hlength
  rw [List.take_append_drop] at hcut
  rw [List.rtake, hcut, List.rtake, List.rtake, List.rdrop, List.length_take]
  congr 2
  omega

theorem fileTail_add (file : List UInt8) {older : Nat} (newer offset readLimit : Nat)
    (holder : 0 < older) :
    fileTail file (older + newer) offset readLimit =
      ((fileTail file older (offset + newer) readLimit).1 ++
          (fileTail file newer offset readLimit).1,
        (fileTail file older (offset + newer) readLimit).2) := by
  refine Prod.ext (tailOf_add _ _ _ _) ?_
  simp only [fileTail, length_tailOf]
  split_ifs <;> first | rfl | omega

/-- **Two pages are one larger page**: the lines before a page, asked for with an offset behind
it, and the page are the lines that are asked for together, with the reason of the first ones. -/
theorem readTailLines_pages (file : List UInt8) (older newer offset readLimit fuel : Nat)
    (holder : 0 < older) (hnewer : 0 < newer) (hlimit : 0 < readLimit)
    (hmax : older + newer + offset + 1 < 9223372036854775808)
    (hfile : file.length ≤ 4611686018427387904) (hfuel : file.length < fuel) :
    ∃ before page reason reason',
      readTailLines fuel file older (offset + newer : Nat) readLimit = some (.ok (before, reason)) ∧
      readTailLines fuel file newer offset readLimit = some (.ok (page, reason')) ∧
      readTailLines fuel file (older + newer : Nat) offset readLimit =
        some (.ok (before ++ page, reason)) := by
  obtain ⟨fuel, rfl⟩ := Nat.exists_eq_add_one_of_ne_zero (Nat.ne_zero_of_lt hfuel)
  have hfirst : (if (readLimit : Int) < 1048576 then (readLimit : Int) else 1048576) =
      (min readLimit 1048576 : Nat) := by
    split <;> omega
  have hread : ∀ lineCount lineOffset : Nat, 0 < lineCount →
      lineCount + lineOffset + 1 < 9223372036854775808 →
      readTailLines (fuel + 1) file lineCount lineOffset readLimit =
        some (.ok (fileTail file lineCount lineOffset readLimit)) := fun _ _ hcount hmax => by
    rw [readTailLines, if_neg (by omega), hfirst]
    exact readTailLinesFrom_eq hcount hmax hfile (by omega) (by omega) (by omega) (by omega)
  refine ⟨_, _, _, _, hread _ _ holder (by omega), hread _ _ hnewer (by omega), ?_⟩
  rw [hread _ _ (by omega) (by omega), fileTail_add file newer offset readLimit holder]
  rfl

theorem readTailLines_pages_small :
    ∃ before page reason reason',
      readTailLines 4 [10, 98, 10] 1 (0 + 1 : Nat) 3 = some (.ok (before, reason)) ∧
      readTailLines 4 [10, 98, 10] 1 0 3 = some (.ok (page, reason')) ∧
      readTailLines 4 [10, 98, 10] (1 + 1 : Nat) 0 3 = some (.ok (before ++ page, reason)) :=
  readTailLines_pages [10, 98, 10] 1 1 0 3 4 (by decide) (by decide) (by decide) (by decide)
    (by decide) (by decide)

end Readutil

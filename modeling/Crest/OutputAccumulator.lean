import Crest.TruncateTail

/-!
# A bounded tail of an output

The accumulator of a command's output keeps only an end of what was decoded.  It counts lines and
bytes as they come, and writes all that was received to a temporary file as soon as one of its
limits is exceeded.  The chunks of the output are decoded as a stream: a character may be cut
anywhere.
-/

namespace CommandOutput

open Truncate

section Decoder

/-- `TextDecoder`, with the state of its decoder of UTF-8. -/
structure TextDecoder where
  codePoint : Nat
  bytesSeen : Nat
  bytesNeeded : Nat
  lowerBoundary : Nat
  upperBoundary : Nat
  bomSeen : Bool
deriving DecidableEq, Repr

/-- `new TextDecoder()`. -/
def TextDecoder.make : TextDecoder := ⟨0, 0, 0, 0x80, 0xbf, false⟩

/-- The decoder behind a character, or behind bytes that are none. -/
def TextDecoder.reset (d : TextDecoder) : TextDecoder :=
  { d with codePoint := 0, bytesSeen := 0, bytesNeeded := 0, lowerBoundary := 0x80,
           upperBoundary := 0xbf }

/-- A character that was decoded; a byte order mark is left out if it is the first. -/
def TextDecoder.emit (d : TextDecoder) (c : Char) : TextDecoder × List Char :=
  ({ d with bomSeen := true }, if !d.bomSeen && c == Char.ofNat 0xfeff then [] else [c])

/-- The first byte of a character. -/
def TextDecoder.first (d : TextDecoder) (byte : UInt8) : TextDecoder × List Char :=
  let b := byte.toNat
  if b ≤ 0x7f then d.emit (Char.ofNat b)
  else if 0xc2 ≤ b ∧ b ≤ 0xdf then
    ({ d with bytesNeeded := 1, codePoint := b % 0x20 }, [])
  else if 0xe0 ≤ b ∧ b ≤ 0xef then
    ({ d with
        bytesNeeded := 2
        codePoint := b % 0x10
        lowerBoundary := if b = 0xe0 then 0xa0 else d.lowerBoundary
        upperBoundary := if b = 0xed then 0x9f else d.upperBoundary }, [])
  else if 0xf0 ≤ b ∧ b ≤ 0xf4 then
    ({ d with
        bytesNeeded := 3
        codePoint := b % 0x08
        lowerBoundary := if b = 0xf0 then 0x90 else d.lowerBoundary
        upperBoundary := if b = 0xf4 then 0x8f else d.upperBoundary }, [])
  else d.emit Encoding.replacement

/-- One byte.  A byte that does not continue a character begins the next one. -/
def TextDecoder.push (d : TextDecoder) (byte : UInt8) : TextDecoder × List Char :=
  let b := byte.toNat
  if d.bytesNeeded = 0 then d.first byte
  else if b < d.lowerBoundary ∨ d.upperBoundary < b then
    let replaced := d.reset.emit Encoding.replacement
    ((replaced.1.first byte).1, replaced.2 ++ (replaced.1.first byte).2)
  else
    let codePoint := d.codePoint * 0x40 + b % 0x40
    if d.bytesSeen + 1 = d.bytesNeeded then d.reset.emit (Char.ofNat codePoint)
    else
      ({ d with codePoint := codePoint, bytesSeen := d.bytesSeen + 1, lowerBoundary := 0x80,
                upperBoundary := 0xbf }, [])

/-- `decode(data, { stream: true })`. -/
def TextDecoder.decode (d : TextDecoder) : List UInt8 → TextDecoder × List Char
  | [] => (d, [])
  | byte :: bytes =>
    (((d.push byte).1.decode bytes).1, (d.push byte).2 ++ ((d.push byte).1.decode bytes).2)

/-- `decode()`, at the end. -/
def TextDecoder.flush (d : TextDecoder) : List Char :=
  if d.bytesNeeded = 0 then [] else (d.emit Encoding.replacement).2

theorem TextDecoder.decode_append (d : TextDecoder) (a b : List UInt8) :
    d.decode (a ++ b) =
      (((d.decode a).1.decode b).1, (d.decode a).2 ++ ((d.decode a).1.decode b).2) := by
  induction a generalizing d with
  | nil => rfl
  | cons byte a ih => simp only [List.cons_append, TextDecoder.decode, ih, List.append_assoc]

end Decoder

section Code

/-- `OutputAccumulator`.  A temporary file is what was written to it. -/
structure OutputAccumulator where
  maxLines : Nat
  maxBytes : Nat
  maxRollingBytes : Nat
  decoder : TextDecoder
  rawChunks : List (List UInt8)
  tailText : List Char
  tailBytes : Nat
  tailStartsAtLineBoundary : Bool
  totalRawBytes : Nat
  totalDecodedBytes : Nat
  completedLines : Nat
  totalLines : Nat
  currentLineBytes : Nat
  hasOpenLine : Bool
  finished : Bool
  tempFile : Option (List UInt8)
deriving DecidableEq, Repr

/-- The constructor. -/
def make (maxLines maxBytes : Nat) : OutputAccumulator where
  maxLines := maxLines
  maxBytes := maxBytes
  maxRollingBytes := max (maxBytes * 2) 1
  decoder := .make
  rawChunks := []
  tailText := []
  tailBytes := 0
  tailStartsAtLineBoundary := true
  totalRawBytes := 0
  totalDecodedBytes := 0
  completedLines := 0
  totalLines := 0
  currentLineBytes := 0
  hasOpenLine := false
  finished := false
  tempFile := none

namespace OutputAccumulator

def trimTail (acc : OutputAccumulator) : OutputAccumulator :=
  let buffer := encode acc.tailText
  if buffer.length ≤ acc.maxRollingBytes then { acc with tailBytes := buffer.length }
  else
    let kept := lastBytes buffer acc.maxRollingBytes
    let start := buffer.length - kept.length
    let tailText := Encoding.decodeUtf8 kept
    { acc with
        tailStartsAtLineBoundary :=
          if start = 0 then acc.tailStartsAtLineBoundary
          else buffer[start - 1]? == some 0x0a
        tailText := tailText
        tailBytes := byteLength tailText }

/-- The lines that `appendDecodedText` counts. -/
def countLines (acc : OutputAccumulator) (text : List Char) : OutputAccumulator :=
  let newlines := text.count '\n'
  let tail := (text.reverse.takeWhile (· ≠ '\n')).reverse
  let completedLines := acc.completedLines + newlines
  let hasOpenLine := if newlines = 0 then true else decide (0 < tail.length)
  { acc with
      currentLineBytes :=
        if newlines = 0 then acc.currentLineBytes + byteLength text else byteLength tail
      completedLines := completedLines
      hasOpenLine := hasOpenLine
      totalLines := completedLines + if hasOpenLine then 1 else 0 }

def appendDecodedText (acc : OutputAccumulator) (text : List Char) : OutputAccumulator :=
  if text = [] then acc
  else
    let bytes := byteLength text
    let acc := { acc with
      totalDecodedBytes := acc.totalDecodedBytes + bytes
      tailText := acc.tailText ++ text
      tailBytes := acc.tailBytes + bytes }
    let acc := if acc.maxRollingBytes * 2 < acc.tailBytes then acc.trimTail else acc
    acc.countLines text

def getSnapshotText (acc : OutputAccumulator) : List Char :=
  if acc.tailStartsAtLineBoundary then acc.tailText
  else
    match acc.tailText.dropWhile (· ≠ '\n') with
    | [] => acc.tailText
    | _ :: rest => rest

def shouldUseTempFile (acc : OutputAccumulator) : Bool :=
  decide (acc.maxBytes < acc.totalRawBytes) || decide (acc.maxBytes < acc.totalDecodedBytes) ||
    decide (acc.maxLines < acc.totalLines)

def ensureTempFile (acc : OutputAccumulator) : OutputAccumulator :=
  if acc.tempFile.isSome then acc
  else { acc with tempFile := some acc.rawChunks.flatten, rawChunks := [] }

/-- The end of `append`: a chunk is written to the temporary file, or kept for it. -/
def store (acc : OutputAccumulator) (data : List UInt8) : OutputAccumulator :=
  if acc.tempFile.isSome || acc.shouldUseTempFile then
    let acc := acc.ensureTempFile
    { acc with tempFile := acc.tempFile.map (· ++ data) }
  else if 0 < data.length then { acc with rawChunks := acc.rawChunks ++ [data] }
  else acc

def append (acc : OutputAccumulator) (data : List UInt8) :
    Except JsString OutputAccumulator :=
  if acc.finished then .error (js "Cannot append to a finished output accumulator")
  else
    let decoded := acc.decoder.decode data
    let acc := { acc with
      totalRawBytes := acc.totalRawBytes + data.length
      decoder := decoded.1 }
    .ok ((acc.appendDecodedText decoded.2).store data)

def finish (acc : OutputAccumulator) : OutputAccumulator :=
  if acc.finished then acc
  else
    let acc := ({ acc with finished := true, decoder := .make }).appendDecodedText acc.decoder.flush
    if acc.shouldUseTempFile then acc.ensureTempFile else acc

/-- `OutputSnapshot`; of the path of the full output, whether there is one. -/
structure OutputSnapshot where
  content : List Char
  truncation : TruncationResult
  fullOutput : Bool
deriving DecidableEq, Repr

def snapshot (acc : OutputAccumulator) (persistIfTruncated : Bool) :
    OutputSnapshot × OutputAccumulator :=
  let tailTruncation := truncateTail acc.getSnapshotText acc.maxLines acc.maxBytes
  let truncated :=
    decide (acc.maxLines < acc.totalLines) || decide (acc.maxBytes < acc.totalDecodedBytes)
  let truncatedBy :=
    if truncated then
      some (tailTruncation.truncatedBy.getD
        (if acc.maxBytes < acc.totalDecodedBytes then .bytes else .lines))
    else none
  let truncation := { tailTruncation with
    truncated := truncated
    truncatedBy := truncatedBy
    totalLines := acc.totalLines
    totalBytes := acc.totalDecodedBytes
    maxLines := acc.maxLines
    maxBytes := acc.maxBytes }
  let acc := if persistIfTruncated && truncated then acc.ensureTempFile else acc
  (⟨truncation.content, truncation, acc.tempFile.isSome⟩, acc)

end OutputAccumulator

/-- The accumulators that are reached, with the chunks that they have received. -/
inductive Reached (maxLines maxBytes : Nat) : List (List UInt8) → OutputAccumulator → Prop
  | make : Reached maxLines maxBytes [] (make maxLines maxBytes)
  | append {chunks : List (List UInt8)} {acc acc' : OutputAccumulator} {data : List UInt8}
      (h : Reached maxLines maxBytes chunks acc)
      (happend : acc.append data = .ok acc') :
      Reached maxLines maxBytes (chunks ++ [data]) acc'
  | finish {chunks : List (List UInt8)} {acc : OutputAccumulator}
      (h : Reached maxLines maxBytes chunks acc) :
      Reached maxLines maxBytes chunks acc.finish
  | snapshot {chunks : List (List UInt8)} {acc : OutputAccumulator}
      (h : Reached maxLines maxBytes chunks acc)
      (persistIfTruncated : Bool) :
      Reached maxLines maxBytes chunks (acc.snapshot persistIfTruncated).2

/-- The decoding of all chunks. -/
def decoding (chunks : List (List UInt8)) (finished : Bool) : List Char :=
  let decoded := TextDecoder.make.decode chunks.flatten
  decoded.2 ++ if finished then decoded.1.flush else []

end Code

end CommandOutput

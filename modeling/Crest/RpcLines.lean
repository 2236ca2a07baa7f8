import Crest.GoStrings

/-!
# Messages in lines

On a stream a message of the RPC protocol is a line.  The stream comes in reads of any
length, and a line that is too long is dropped.  Where messages share the stream with other
output they are packets: lines with a mark in front, which the writer begins on a new line.
-/

namespace RpcLines

open GoStrings (text)

abbrev Bytes := List UInt8

/-! ## Code -/

def maxLineLength : Nat := 64 * 1024 * 1024

structure LineBuf where
  buf : Bytes := []
  inLongLine : Bool := false

/-- `streamToLines_processBuf`, with the lines that `lineFn` gets. -/
def processBuf (lineBuf : LineBuf) : Bytes → LineBuf × List Bytes
  | [] => (lineBuf, [])
  | b :: readBuf =>
    match (b :: readBuf).idxOf? 0x0a with
    | none =>
      if lineBuf.inLongLine ∨ maxLineLength < lineBuf.buf.length + (b :: readBuf).length then
        (⟨[], true⟩, [])
      else (⟨lineBuf.buf ++ b :: readBuf, lineBuf.inLongLine⟩, [])
    | some nlIdx =>
      let line := lineBuf.buf ++ (b :: readBuf).take nlIdx
      let (last, lines) := processBuf {} ((b :: readBuf).drop (nlIdx + 1))
      (last,
        if ¬ lineBuf.inLongLine ∧ lineBuf.buf.length + nlIdx ≤ maxLineLength then line :: lines
        else lines)
termination_by readBuf => readBuf.length
decreasing_by
  rw [List.drop_succ_cons, List.length_drop, List.length_cons]
  omega

/-- `StreamToLines`, with what the calls of `Read` return. -/
def streamToLines : LineBuf → List Bytes → LineBuf × List Bytes
  | lineBuf, [] => (lineBuf, [])
  | lineBuf, readBuf :: reads =>
    let (lineBuf, lines) := processBuf lineBuf readBuf
    let (last, more) := streamToLines lineBuf reads
    (last, lines ++ more)

def adaptStreamToMsgCh (reads : List Bytes) : List Bytes := (streamToLines {} reads).2

def adaptOutputChToStream (outputCh : List Bytes) : Bytes :=
  outputCh.flatMap (· ++ [0x0a])

def writePacket (packet : Bytes) : Except String Bytes :=
  if packet.length < 2 then .ok []
  else if packet.head? ≠ some 0x7b ∨ packet.getLast? ≠ some 0x7d then
    .error "invalid packet, must start with '\x7b' and end with '\x7d'"
  else .ok (text "\n##N" ++ packet ++ [0x0a])

/-- What goes into `packetCh` or into `rawCh`. -/
inductive Received
  | packet (msgBytes : Bytes)
  | raw (line : Bytes)
deriving DecidableEq, Repr

def parseLine (line : Bytes) : Option Received :=
  if line.length ≤ 1 then none
  else if (text "##N\x7b").isPrefixOf line ∧ line.getLast? = some 0x7d then
    some (.packet (line.drop 3))
  else some (.raw line)

def parseWithLinesChan (input : List Bytes) : List Received := input.filterMap parseLine

/-! ## Lines -/

/-- The lines of a stream of which some bytes of a line were read, and what stands behind the
last newline. -/
def lines : (line : Bytes) → Bytes → List Bytes × Bytes
  | line, [] => ([], line)
  | line, b :: s =>
    if b = 0x0a then (line :: (lines [] s).1, (lines [] s).2) else lines (line ++ [b]) s

def short (line : Bytes) : Bool := line.length ≤ maxLineLength

/-- The buffer behind some bytes of a line. -/
def bufOf (line : Bytes) : LineBuf := if short line then ⟨line, false⟩ else ⟨[], true⟩

section Lines

variable {line front s : Bytes}

theorem lines_append (line s t : Bytes) :
    lines line (s ++ t) =
      ((lines line s).1 ++ (lines (lines line s).2 t).1, (lines (lines line s).2 t).2) := by
  induction s generalizing line with
  | nil => rfl
  | cons b s ih => by_cases hb : b = 0x0a <;> simp [lines, hb, ih]

theorem lines_of_not_mem (h : 0x0a ∉ front) : lines line front = ([], line ++ front) := by
  induction front generalizing line with
  | nil => simp [lines]
  | cons b front ih =>
    rw [List.mem_cons, not_or] at h
    simp [lines, Ne.symm h.1, ih h.2]

theorem lines_cut (h : 0x0a ∉ front) (s : Bytes) :
    lines line (front ++ 0x0a :: s) = ((line ++ front) :: (lines [] s).1, (lines [] s).2) := by
  rw [lines_append, lines_of_not_mem h]
  simp [lines]

example : lines [] [97, 10] = ([[97]], []) := by decide +kernel

theorem split_of_idxOf? {nlIdx : Nat} (h : s.idxOf? 0x0a = some nlIdx) :
    s = s.take nlIdx ++ 0x0a :: s.drop (nlIdx + 1) ∧ 0x0a ∉ s.take nlIdx := by
  obtain ⟨hlt, hget, hbefore⟩ := List.idxOf?_eq_some_iff.mp h
  constructor
  · rw [← hget, ← List.drop_eq_getElem_cons hlt, List.take_append_drop]
  · intro hmem
    obtain ⟨j, hj, heq⟩ := List.mem_take_iff_getElem.mp hmem
    exact hbefore j (by omega) heq

theorem processBuf_eq (line readBuf : Bytes) :
    processBuf (bufOf line) readBuf =
      (bufOf (lines line readBuf).2, (lines line readBuf).1.filter short) := by
  induction hlength : readBuf.length using Nat.strong_induction_on generalizing line readBuf with
  | h n ih =>
    cases readBuf with
    | nil => simp [processBuf, lines]
    | cons b readBuf =>
      rw [processBuf]
      cases hidx : (b :: readBuf).idxOf? 0x0a with
      | none =>
        rw [lines_of_not_mem (List.idxOf?_eq_none_iff.mp hidx)]
        simp only [bufOf, short, List.length_append]
        grind
      | some nlIdx =>
        obtain ⟨hsplit, hfront⟩ := split_of_idxOf? hidx
        have hlt := (List.idxOf?_eq_some_iff.mp hidx).1
        have hrest : processBuf {} ((b :: readBuf).drop (nlIdx + 1)) = _ :=
          ih _ (by rw [List.length_drop]; omega) [] _ rfl
        have hlines := @lines_cut line _ hfront ((b :: readBuf).drop (nlIdx + 1))
        rw [← hsplit] at hlines
        rw [hlines]
        simp only [hrest, bufOf, short, List.filter_cons, List.length_append, List.length_take]
        grind

theorem streamToLines_eq (line : Bytes) (reads : List Bytes) :
    streamToLines (bufOf line) reads =
      (bufOf (lines line reads.flatten).2, (lines line reads.flatten).1.filter short) := by
  induction reads generalizing line with
  | nil => rfl
  | cons readBuf reads ih =>
    simp [streamToLines, processBuf_eq, ih, lines_append]

theorem lines_messages (msgs : List Bytes) (h : ∀ msg ∈ msgs, 0x0a ∉ msg) :
    lines [] (adaptOutputChToStream msgs) = (msgs, []) := by
  induction msgs with
  | nil => rfl
  | cons msg msgs ih =>
    rw [List.forall_mem_cons] at h
    rw [adaptOutputChToStream, List.flatMap_cons, List.append_assoc, List.singleton_append,
      lines_cut h.1]
    exact congrArg (fun found => (msg :: found.1, found.2)) (ih h.2)

end Lines

/-- **Messages come out of a stream as they went in**, however it is cut into reads: all of
them in order, but for those that are too long for the reader. -/
theorem messages_received (msgs reads : List Bytes) (hmsgs : ∀ msg ∈ msgs, 0x0a ∉ msg)
    (hreads : reads.flatten = adaptOutputChToStream msgs) :
    adaptStreamToMsgCh reads = msgs.filter short := by
  have h := streamToLines_eq [] reads
  rw [hreads, lines_messages msgs hmsgs] at h
  exact congrArg Prod.snd h

theorem messages_received_cut :
    adaptStreamToMsgCh [[97], [10, 98], [10]] = [[97], [98]].filter short :=
  messages_received [[97], [98]] [[97], [10, 98], [10]] (by decide) rfl

theorem writePacket_ok {packet frame : Bytes} (h : writePacket packet = .ok frame)
    (hlength : 2 ≤ packet.length) :
    frame = 0x0a :: (text "##N" ++ packet) ++ [0x0a] ∧
      parseLine (text "##N" ++ packet) = some (.packet packet) := by
  unfold writePacket at h
  rw [if_neg (by omega)] at h
  split at h
  · cases h
  rename_i hbraces
  obtain ⟨hfirst, hlast⟩ := not_or.mp hbraces
  obtain ⟨rest, rfl⟩ := List.head?_eq_some_iff.mp (not_not.mp hfirst)
  refine ⟨(Except.ok.inj h).symm, ?_⟩
  rw [parseLine, if_neg (by simp [text]), if_pos]
  · rfl
  · exact ⟨by simp [text], by simpa [text] using hlast⟩

/-- Output of others, and a packet behind it. -/
structure Sent where
  output : Bytes
  packet : Bytes
  frame : Bytes

/-- **Packets come out of a stream that they share with other output**, however it is cut into
reads: all of them and in order, between what is made of the lines of the output.  A line
that the output leaves open ends where a packet begins. -/
theorem packets_received (sent : List Sent) (output : Bytes) (reads : List Bytes)
    (hsent : ∀ x ∈ sent, writePacket x.packet = .ok x.frame ∧ 2 ≤ x.packet.length ∧
      0x0a ∉ x.packet ∧ x.packet.length + 3 ≤ maxLineLength)
    (hreads : reads.flatten = (sent.flatMap fun x => x.output ++ x.frame) ++ output) :
    parseWithLinesChan (streamToLines {} reads).2 =
      (sent.flatMap fun x =>
        parseWithLinesChan ((lines [] (x.output ++ [0x0a])).1.filter short) ++
          [.packet x.packet]) ++
      parseWithLinesChan ((lines [] output).1.filter short) := by
  have h : streamToLines {} reads = _ := streamToLines_eq [] reads
  rw [h, hreads]
  clear h hreads
  induction sent with
  | nil => rfl
  | cons x sent ih =>
    rw [List.forall_mem_cons] at hsent
    obtain ⟨⟨hframe, hlength, hnewline, hshort⟩, hsent⟩ := hsent
    obtain ⟨hframe, hparse⟩ := writePacket_ok hframe hlength
    have hline : short (text "##N" ++ x.packet) = true := by simp [short, text]; omega
    have hopen : (lines [] (x.output ++ [0x0a])).2 = [] := by simp [lines_append, lines]
    have hmark : 0x0a ∉ text "##N" ++ x.packet := by simp [text, hnewline]
    have hsplit : (x :: sent).flatMap (fun x => x.output ++ x.frame) ++ output =
        (x.output ++ [0x0a]) ++ ((text "##N" ++ x.packet) ++
          0x0a :: (sent.flatMap (fun x => x.output ++ x.frame) ++ output)) := by
      simp [hframe]
    rw [hsplit, lines_append, hopen, lines_cut hmark, List.flatMap_cons, List.append_assoc,
      ← ih hsent]
    simp [parseWithLinesChan, hline, hparse]

theorem packets_received_raw :
    parseWithLinesChan (streamToLines {} [text "ab\n##N\x7b", text "\x7d\n"]).2 =
      [.raw (text "ab"), .packet (text "\x7b\x7d")] :=
  packets_received [⟨text "ab", text "\x7b\x7d", text "\n##N\x7b\x7d\n"⟩] [] _ (by decide) rfl

end RpcLines

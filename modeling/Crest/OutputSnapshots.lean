import Mathlib.Data.List.TakeWhile
import Crest.OutputAccumulator

/-!
# The snapshots of a bounded tail

What the accumulator counts is what there is in the whole output.  The tail that it keeps is an end
of the output, and once bytes were dropped, more than twice as many as a snapshot shows.  So a
snapshot shows what the whole output would, except where the tail begins inside a line: that line is
left out, and what follows it may be within the limits although the output is not.
-/

namespace CommandOutput

open Truncate OutputAccumulator

section Counting

theorem length_splitLinesForCounting (text : List Char) :
    (splitLinesForCounting text).length =
      text.count '\n' + if text ≠ [] ∧ text.getLast? ≠ some '\n' then 1 else 0 := by
  have hsplit : ∀ s : List Char, (s.splitOn '\n').length = s.count '\n' + 1 := by
    intro s
    induction s with
    | nil => rfl
    | cons c s ih =>
      have hrule := List.splitOnP_cons_eq_if_modifyHead (p := (· == '\n')) c s
      rw [List.splitOn, hrule, List.count_cons]
      split
      · rw [List.length_cons]
        exact congrArg (· + 1) ih
      · rw [List.length_modifyHead, Nat.add_zero]
        exact ih
  by_cases hne : text = []
  · rw [hne]
    rfl
  · by_cases hlast : text.getLast? = some '\n'
    · rw [splitLinesForCounting, if_neg hne, if_pos hlast, List.length_dropLast, hsplit,
        if_neg (by simp [hlast])]
      rfl
    · rw [splitLinesForCounting, if_neg hne, if_neg hlast, hsplit, if_pos ⟨hne, hlast⟩]

/-- What is counted is what there is. -/
structure Counted (text : List Char) (acc : OutputAccumulator) : Prop where
  decodedBytes : acc.totalDecodedBytes = byteLength text
  completedLines : acc.completedLines = text.count '\n'
  hasOpenLine : acc.hasOpenLine = decide (text ≠ [] ∧ text.getLast? ≠ some '\n')
  totalLines : acc.totalLines = (splitLinesForCounting text).length

theorem open_eq {text : List Char} (hne : text ≠ []) :
    (if text.count '\n' = 0 then true
      else decide (0 < (text.reverse.takeWhile (· ≠ '\n')).reverse.length)) =
      decide (text.getLast? ≠ some '\n') := by
  obtain ⟨front, c, rfl⟩ := (List.eq_nil_or_concat' text).resolve_left hne
  rw [List.getLast?_concat, List.reverse_append, List.reverse_singleton, List.singleton_append,
    List.takeWhile_cons]
  by_cases hc : c = '\n'
  · subst hc
    simp
  · have hdecide : decide (c ≠ '\n') = true := decide_eq_true hc
    rw [hdecide]
    simp [hc]

theorem Counted.countLines {text more : List Char} {acc acc' : OutputAccumulator}
    (h : Counted text acc) (hmore : more ≠ [])
    (hbytes : acc'.totalDecodedBytes = acc.totalDecodedBytes + byteLength more)
    (hlines : acc'.completedLines = acc.completedLines) :
    Counted (text ++ more) (acc'.countLines more) := by
  have hlast : (text ++ more).getLast? = more.getLast? := by
    obtain ⟨front, c, rfl⟩ := (List.eq_nil_or_concat' more).resolve_left hmore
    rw [← List.append_assoc, List.getLast?_concat, List.getLast?_concat]
  have hne : text ++ more ≠ [] := by simp [hmore]
  have hopen : (acc'.countLines more).hasOpenLine =
      decide (text ++ more ≠ [] ∧ (text ++ more).getLast? ≠ some '\n') := by
    rw [hlast]
    simp only [hne, ne_eq, not_false_eq_true, true_and]
    exact open_eq hmore
  have hcompleted : (acc'.countLines more).completedLines = (text ++ more).count '\n' := by
    rw [List.count_append, ← h.completedLines, ← hlines]
    rfl
  refine ⟨?_, hcompleted, hopen, ?_⟩
  · rw [byteLength_append, ← h.decodedBytes]
    exact hbytes
  · have htotal : (acc'.countLines more).totalLines =
        (acc'.countLines more).completedLines +
          if (acc'.countLines more).hasOpenLine then 1 else 0 := rfl
    rw [htotal, hopen, hcompleted, length_splitLinesForCounting]
    simp only [decide_eq_true_eq]

end Counting

section Tails

/-- The tail is the text, or an end of it with more bytes than are kept in front of its first
byte's character. -/
structure Tailed (text : List Char) (acc : OutputAccumulator) : Prop where
  rolling : acc.maxRollingBytes = max (acc.maxBytes * 2) 1
  tailBytes : acc.tailBytes = byteLength acc.tailText
  kept : (acc.tailText = text ∧ acc.tailStartsAtLineBoundary = true) ∨
    ∃ a c, text = a ++ c :: acc.tailText ∧
      acc.maxRollingBytes < byteLength (c :: acc.tailText) ∧
      acc.tailStartsAtLineBoundary = decide (c = '\n')

theorem getLast?_encodeChar (c : Char) :
    ((String.utf8EncodeChar c).getLast? == some 0x0a) = decide (c = '\n') := by
  by_cases hc : c = '\n'
  · subst hc
    decide
  · rw [decide_eq_false hc, beq_eq_false_iff_ne]
    intro hlast
    obtain ⟨first, more, hbytes, -, hmore⟩ := encodeChar_bytes c
    rw [hbytes] at hlast
    cases hend : more.getLast? with
    | none =>
      rw [List.getLast?_eq_none_iff] at hend
      subst hend
      obtain rfl : first = 0x0a := by simpa using hlast
      -- a character of one byte is read back from it
      have hread := Encoding.decodeUtf8_encodeChar c []
      rw [hbytes] at hread
      have hten : Encoding.decodeUtf8 ([0x0a] ++ []) = ['\n'] := by decide
      rw [hten, Encoding.decodeUtf8] at hread
      exact hc (List.cons.inj hread).1.symm
    | some last =>
      rw [List.getLast?_cons, hend] at hlast
      obtain rfl : last = 0x0a := by simpa using hlast
      have := hmore _ (List.mem_of_getLast? hend)
      exact absurd this (by decide)

theorem trimTail_kept {acc : OutputAccumulator}
    (hlong : acc.maxRollingBytes < byteLength acc.tailText) :
    ∃ a c b, acc.tailText = a ++ c :: b ∧ acc.trimTail.tailText = b ∧
      acc.trimTail.tailBytes = byteLength b ∧ acc.maxRollingBytes < byteLength (c :: b) ∧
      acc.trimTail.tailStartsAtLineBoundary = decide (c = '\n') := by
  obtain ⟨a, c, b, htail, hfits, hover⟩ := exists_end hlong
  refine ⟨a, c, b, htail, ?_⟩
  have hlength : (encode acc.tailText).length = byteLength acc.tailText := rfl
  have hlast := lastBytes_encode (a := a) hfits hover
  rw [← htail] at hlast
  have hread : Encoding.decodeUtf8 (encode b) = b := Encoding.decodeUtf8_flatMap b
  have hsize : byteLength acc.tailText = (encode a).length + (c.utf8Size + byteLength b) := by
    rw [htail, byteLength_append, byteLength_cons]
    rfl
  have hpos := Char.utf8Size_pos c
  rw [trimTail]
  dsimp only
  rw [if_neg (by omega), hlast, hread]
  refine ⟨rfl, rfl, hover, ?_⟩
  have hstart : (encode acc.tailText).length - (encode b).length =
      (encode a).length + c.utf8Size := by
    have hb : (encode b).length = byteLength b := rfl
    omega
  dsimp only
  rw [hstart, if_neg (by omega), ← getLast?_encodeChar]
  congr 1
  rw [htail, encode_append, encode_cons, List.getElem?_append_right (by omega),
    List.getElem?_append_left (by rw [String.length_utf8EncodeChar]; omega),
    List.getLast?_eq_getElem?, String.length_utf8EncodeChar]
  congr 1
  omega

theorem Tailed.append {text more : List Char} {acc : OutputAccumulator}
    (h : Tailed text acc) (hrolling : 0 < acc.maxRollingBytes) :
    Tailed (text ++ more)
      (let acc := { acc with
        totalDecodedBytes := acc.totalDecodedBytes + byteLength more
        tailText := acc.tailText ++ more
        tailBytes := acc.tailBytes + byteLength more }
      if acc.maxRollingBytes * 2 < acc.tailBytes then acc.trimTail else acc) := by
  dsimp only
  split
  · rename_i hlong
    rw [h.tailBytes, ← byteLength_append] at hlong
    obtain ⟨a, c, b, htail, htext, hbytes, hover, hboundary⟩ :=
      @trimTail_kept { acc with
        totalDecodedBytes := acc.totalDecodedBytes + byteLength more
        tailText := acc.tailText ++ more
        tailBytes := acc.tailBytes + byteLength more } (by
          show acc.maxRollingBytes < byteLength (acc.tailText ++ more)
          omega)
    have hend : ∃ front, text ++ more = front ++ c :: b := by
      rcases h.kept with ⟨hall, -⟩ | ⟨front, d, hall, -, -⟩
      · exact ⟨a, by rw [← hall]; exact htail⟩
      · refine ⟨front ++ d :: a, ?_⟩
        have htail' : acc.tailText ++ more = a ++ c :: b := htail
        rw [hall, List.append_assoc, List.cons_append, htail', List.append_assoc,
          List.cons_append]
    obtain ⟨front, hfront⟩ := hend
    have hsame : ∀ acc : OutputAccumulator, acc.trimTail.maxRollingBytes = acc.maxRollingBytes ∧
        acc.trimTail.maxBytes = acc.maxBytes := by
      intro acc
      unfold trimTail
      dsimp only
      split <;> exact ⟨rfl, rfl⟩
    refine ⟨?_, ?_, Or.inr ⟨front, c, ?_, ?_, hboundary⟩⟩
    · rw [(hsame _).1, (hsame _).2]
      exact h.rolling
    · rw [hbytes, htext]
    · rw [htext]
      exact hfront
    · rw [htext, (hsame _).1]
      exact hover
  · refine ⟨h.rolling, ?_, ?_⟩
    · rw [byteLength_append, ← h.tailBytes]
    · rcases h.kept with ⟨hall, hboundary⟩ | ⟨a, c, hall, hover, hboundary⟩
      · exact Or.inl ⟨by rw [← hall], hboundary⟩
      · refine Or.inr ⟨a, c, ?_, ?_, hboundary⟩
        · rw [hall, List.append_assoc, List.cons_append]
        · rw [← List.cons_append, byteLength_append]
          exact Nat.lt_of_lt_of_le hover (Nat.le_add_right _ _)

end Tails

section Reaching

variable {maxLines maxBytes : Nat}

/-- What is known of an accumulator that has received chunks. -/
structure Follows (maxLines maxBytes : Nat) (chunks : List (List UInt8))
    (acc : OutputAccumulator) : Prop where
  maxLines : acc.maxLines = maxLines
  maxBytes : acc.maxBytes = maxBytes
  decoder : acc.finished = false → acc.decoder = (TextDecoder.make.decode chunks.flatten).1
  rawBytes : acc.totalRawBytes = chunks.flatten.length
  counted : Counted (decoding chunks acc.finished) acc
  tailed : Tailed (decoding chunks acc.finished) acc
  stored : acc.tempFile = some chunks.flatten ∨
    (acc.tempFile = none ∧ acc.rawChunks.flatten = chunks.flatten)
  exceeded : acc.shouldUseTempFile = true → acc.tempFile.isSome = true

theorem appendDecodedText_spec {text more : List Char} {acc : OutputAccumulator}
    (hcounted : Counted text acc) (htailed : Tailed text acc) :
    Counted (text ++ more) (acc.appendDecodedText more) ∧
      Tailed (text ++ more) (acc.appendDecodedText more) ∧
      (acc.appendDecodedText more).maxLines = acc.maxLines ∧
      (acc.appendDecodedText more).maxBytes = acc.maxBytes ∧
      (acc.appendDecodedText more).decoder = acc.decoder ∧
      (acc.appendDecodedText more).finished = acc.finished ∧
      (acc.appendDecodedText more).totalRawBytes = acc.totalRawBytes ∧
      (acc.appendDecodedText more).tempFile = acc.tempFile ∧
      (acc.appendDecodedText more).rawChunks = acc.rawChunks := by
  by_cases hmore : more = []
  · rw [appendDecodedText, if_pos hmore, hmore, List.append_nil]
    exact ⟨hcounted, htailed, rfl, rfl, rfl, rfl, rfl, rfl, rfl⟩
  · have hrolling : 0 < acc.maxRollingBytes := by
      rw [htailed.rolling]
      exact Nat.lt_of_lt_of_le Nat.zero_lt_one (Nat.le_max_right _ _)
    have htail := @Tailed.append text more acc htailed hrolling
    rw [appendDecodedText, if_neg hmore]
    dsimp only at htail ⊢
    have htrim : ∀ acc : OutputAccumulator,
        acc.trimTail.maxLines = acc.maxLines ∧ acc.trimTail.maxBytes = acc.maxBytes ∧
        acc.trimTail.decoder = acc.decoder ∧ acc.trimTail.finished = acc.finished ∧
        acc.trimTail.totalRawBytes = acc.totalRawBytes ∧ acc.trimTail.tempFile = acc.tempFile ∧
        acc.trimTail.rawChunks = acc.rawChunks ∧
        acc.trimTail.totalDecodedBytes = acc.totalDecodedBytes ∧
        acc.trimTail.completedLines = acc.completedLines := by
      intro acc
      unfold trimTail
      dsimp only
      split <;> exact ⟨rfl, rfl, rfl, rfl, rfl, rfl, rfl, rfl, rfl⟩
    split at htail
    · rename_i hlong
      rw [if_pos hlong]
      obtain ⟨hlines, hbytes, hdecoder, hfinished, hraw, htemp, hchunks, hdecoded, hcompleted⟩ :=
        htrim { acc with
          totalDecodedBytes := acc.totalDecodedBytes + byteLength more
          tailText := acc.tailText ++ more
          tailBytes := acc.tailBytes + byteLength more }
      exact ⟨hcounted.countLines hmore hdecoded hcompleted,
        ⟨htail.rolling, htail.tailBytes, htail.kept⟩,
        hlines, hbytes, hdecoder, hfinished, hraw, htemp, hchunks⟩
    · rename_i hlong
      rw [if_neg hlong]
      exact ⟨hcounted.countLines hmore rfl rfl, ⟨htail.rolling, htail.tailBytes, htail.kept⟩,
        rfl, rfl, rfl, rfl, rfl, rfl, rfl⟩

/-- What the fields other than the file's are. -/
structure SameText (acc acc' : OutputAccumulator) : Prop where
  maxLines : acc'.maxLines = acc.maxLines
  maxBytes : acc'.maxBytes = acc.maxBytes
  maxRollingBytes : acc'.maxRollingBytes = acc.maxRollingBytes
  decoder : acc'.decoder = acc.decoder
  tailText : acc'.tailText = acc.tailText
  tailBytes : acc'.tailBytes = acc.tailBytes
  boundary : acc'.tailStartsAtLineBoundary = acc.tailStartsAtLineBoundary
  rawBytes : acc'.totalRawBytes = acc.totalRawBytes
  decodedBytes : acc'.totalDecodedBytes = acc.totalDecodedBytes
  completedLines : acc'.completedLines = acc.completedLines
  totalLines : acc'.totalLines = acc.totalLines
  hasOpenLine : acc'.hasOpenLine = acc.hasOpenLine
  finished : acc'.finished = acc.finished

theorem SameText.shouldUseTempFile {acc acc' : OutputAccumulator} (h : SameText acc acc') :
    acc'.shouldUseTempFile = acc.shouldUseTempFile := by
  rw [OutputAccumulator.shouldUseTempFile, OutputAccumulator.shouldUseTempFile, h.maxBytes,
    h.maxLines, h.rawBytes, h.decodedBytes, h.totalLines]

theorem SameText.counted {text : List Char} {acc acc' : OutputAccumulator}
    (h : SameText acc acc') (hcounted : Counted text acc) :
    Counted text acc' := by
  refine ⟨?_, ?_, ?_, ?_⟩
  · rw [h.decodedBytes, hcounted.decodedBytes]
  · rw [h.completedLines, hcounted.completedLines]
  · rw [h.hasOpenLine, hcounted.hasOpenLine]
  · rw [h.totalLines, hcounted.totalLines]

theorem SameText.tailed {text : List Char} {acc acc' : OutputAccumulator}
    (h : SameText acc acc') (htailed : Tailed text acc) :
    Tailed text acc' := by
  refine ⟨?_, ?_, ?_⟩
  · rw [h.maxRollingBytes, h.maxBytes, htailed.rolling]
  · rw [h.tailBytes, h.tailText, htailed.tailBytes]
  · rw [h.maxRollingBytes, h.tailText, h.boundary]
    exact htailed.kept

theorem ensureTempFile_spec {acc : OutputAccumulator} {bytes : List UInt8}
    (h : acc.tempFile = some bytes ∨ (acc.tempFile = none ∧ acc.rawChunks.flatten = bytes)) :
    SameText acc acc.ensureTempFile ∧ acc.ensureTempFile.tempFile = some bytes := by
  unfold ensureTempFile
  rcases h with hfile | ⟨hnone, hchunks⟩
  · rw [if_pos (by rw [hfile]; rfl)]
    exact ⟨⟨rfl, rfl, rfl, rfl, rfl, rfl, rfl, rfl, rfl, rfl, rfl, rfl, rfl⟩, hfile⟩
  · rw [if_neg (by rw [hnone]; exact Bool.false_ne_true)]
    exact ⟨⟨rfl, rfl, rfl, rfl, rfl, rfl, rfl, rfl, rfl, rfl, rfl, rfl, rfl⟩, by rw [← hchunks]⟩

theorem store_spec {acc : OutputAccumulator} {bytes : List UInt8}
    (h : acc.tempFile = some bytes ∨ (acc.tempFile = none ∧ acc.rawChunks.flatten = bytes))
    (data : List UInt8) :
    SameText acc (acc.store data) ∧
      ((acc.store data).tempFile = some (bytes ++ data) ∨
        ((acc.store data).tempFile = none ∧ (acc.store data).rawChunks.flatten = bytes ++ data)) ∧
      (acc.shouldUseTempFile = true → (acc.store data).tempFile.isSome = true) := by
  unfold store
  cases hneeds : acc.tempFile.isSome || acc.shouldUseTempFile with
  | true =>
    rw [if_pos rfl]
    obtain ⟨hsame, hfile⟩ := ensureTempFile_spec h
    dsimp only
    rw [hfile]
    exact ⟨⟨hsame.maxLines, hsame.maxBytes, hsame.maxRollingBytes, hsame.decoder,
      hsame.tailText, hsame.tailBytes, hsame.boundary, hsame.rawBytes, hsame.decodedBytes,
      hsame.completedLines, hsame.totalLines, hsame.hasOpenLine, hsame.finished⟩,
      Or.inl rfl, fun _ => rfl⟩
  | false =>
    obtain ⟨hnone, hlimits⟩ := Bool.or_eq_false_iff.mp hneeds
    rw [if_neg Bool.false_ne_true]
    have htemp : acc.tempFile = none := Option.isNone_iff_eq_none.mp (by simpa using hnone)
    have hkept : acc.rawChunks.flatten = bytes := by
      rcases h with hfile | ⟨-, hkept⟩
      · rw [htemp] at hfile
        cases hfile
      · exact hkept
    split
    · refine ⟨⟨rfl, rfl, rfl, rfl, rfl, rfl, rfl, rfl, rfl, rfl, rfl, rfl, rfl⟩,
        Or.inr ⟨htemp, ?_⟩, ?_⟩
      · simp [hkept]
      · intro hneeds
        rw [hlimits] at hneeds
        cases hneeds
    · rename_i hempty
      obtain rfl := List.length_eq_zero_iff.mp (Nat.eq_zero_of_not_pos hempty)
      refine ⟨⟨rfl, rfl, rfl, rfl, rfl, rfl, rfl, rfl, rfl, rfl, rfl, rfl, rfl⟩,
        Or.inr ⟨htemp, by rw [List.append_nil]; exact hkept⟩, ?_⟩
      intro hneeds
      rw [hlimits] at hneeds
      cases hneeds

/-- **An accumulator follows the chunks that it has received.** -/
theorem Reached.follows {chunks : List (List UInt8)} {acc : OutputAccumulator}
    (h : Reached maxLines maxBytes chunks acc) :
    Follows maxLines maxBytes chunks acc := by
  induction h with
  | make =>
    refine ⟨rfl, rfl, fun _ => rfl, rfl, ⟨rfl, rfl, rfl, rfl⟩, ⟨rfl, rfl, Or.inl ⟨rfl, rfl⟩⟩,
      Or.inr ⟨rfl, rfl⟩, ?_⟩
    intro hneeds
    simp [shouldUseTempFile, CommandOutput.make] at hneeds
  | @append chunks acc acc' data _ happend ih =>
    unfold OutputAccumulator.append at happend
    cases hfinished : acc.finished with
    | true =>
      rw [if_pos hfinished] at happend
      cases happend
    | false =>
      rw [if_neg (by rw [hfinished]; exact Bool.false_ne_true)] at happend
      obtain rfl := Except.ok.inj happend
      have hdecoder := ih.decoder hfinished
      have htext : decoding (chunks ++ [data]) false =
          decoding chunks false ++ (acc.decoder.decode data).2 := by
        rw [hdecoder]
        simp [decoding, TextDecoder.decode_append]
      have hcounted := ih.counted
      have htailed := ih.tailed
      rw [hfinished] at hcounted htailed
      generalize hreceived : ({ acc with
        totalRawBytes := acc.totalRawBytes + data.length
        decoder := (acc.decoder.decode data).1 } : OutputAccumulator) = received
      have hcounted' : Counted (decoding chunks false) received := by
        rw [← hreceived]
        exact ⟨hcounted.decodedBytes, hcounted.completedLines, hcounted.hasOpenLine,
          hcounted.totalLines⟩
      have htailed' : Tailed (decoding chunks false) received := by
        rw [← hreceived]
        exact ⟨htailed.rolling, htailed.tailBytes, htailed.kept⟩
      obtain ⟨hcount, htail, hlines, hbytes, hdecoder', hfinished', hraw, htemp, hkept⟩ :=
        @appendDecodedText_spec _ (acc.decoder.decode data).2 _ hcounted' htailed'
      obtain ⟨hsame, hstored, hneeds⟩ := @store_spec
        (received.appendDecodedText (acc.decoder.decode data).2) chunks.flatten (by
          rw [htemp, hkept, ← hreceived]
          exact ih.stored) data
      have hopen : received.finished = false := by
        rw [← hreceived]
        exact hfinished
      have hflatten : (chunks ++ [data]).flatten = chunks.flatten ++ data := by simp
      refine ⟨?_, ?_, ?_, ?_, ?_, ?_, ?_, ?_⟩
      · rw [hsame.maxLines, hlines, ← hreceived]
        exact ih.maxLines
      · rw [hsame.maxBytes, hbytes, ← hreceived]
        exact ih.maxBytes
      · intro _
        rw [hsame.decoder, hdecoder', ← hreceived, hflatten, TextDecoder.decode_append,
          ← hdecoder]
      · rw [hsame.rawBytes, hraw, ← hreceived, hflatten, List.length_append, ← ih.rawBytes]
      · rw [hsame.finished, hfinished', hopen, htext]
        exact hsame.counted hcount
      · rw [hsame.finished, hfinished', hopen, htext]
        exact hsame.tailed htail
      · rw [hflatten]
        exact hstored
      · rw [hsame.shouldUseTempFile]
        exact hneeds
  | @finish chunks acc _ ih =>
    unfold OutputAccumulator.finish
    cases hfinished : acc.finished with
    | true =>
      rw [if_pos rfl]
      exact ih
    | false =>
      rw [if_neg Bool.false_ne_true]
      dsimp only
      have hcounted := ih.counted
      have htailed := ih.tailed
      rw [hfinished] at hcounted htailed
      generalize hended : ({ acc with finished := true, decoder := .make } :
        OutputAccumulator) = ended
      have hcounted' : Counted (decoding chunks false) ended := by
        rw [← hended]
        exact ⟨hcounted.decodedBytes, hcounted.completedLines, hcounted.hasOpenLine,
          hcounted.totalLines⟩
      have htailed' : Tailed (decoding chunks false) ended := by
        rw [← hended]
        exact ⟨htailed.rolling, htailed.tailBytes, htailed.kept⟩
      have htext : decoding chunks true = decoding chunks false ++ acc.decoder.flush := by
        rw [ih.decoder hfinished]
        simp [decoding]
      obtain ⟨hcount, htail, hlines, hbytes, -, hfinished', hraw, htemp, hkept⟩ :=
        @appendDecodedText_spec _ acc.decoder.flush _ hcounted' htailed'
      have hopen : (ended.appendDecodedText acc.decoder.flush).finished = true := by
        rw [hfinished', ← hended]
      have hstored : (ended.appendDecodedText acc.decoder.flush).tempFile =
            some chunks.flatten ∨
          ((ended.appendDecodedText acc.decoder.flush).tempFile = none ∧
            (ended.appendDecodedText acc.decoder.flush).rawChunks.flatten =
              chunks.flatten) := by
        rw [htemp, hkept, ← hended]
        exact ih.stored
      split
      · obtain ⟨hsame, hfile⟩ := ensureTempFile_spec hstored
        refine ⟨?_, ?_, ?_, ?_, ?_, ?_, Or.inl hfile, fun _ => by rw [hfile]; rfl⟩
        · rw [hsame.maxLines, hlines, ← hended]
          exact ih.maxLines
        · rw [hsame.maxBytes, hbytes, ← hended]
          exact ih.maxBytes
        · intro hnot
          rw [hsame.finished, hopen] at hnot
          cases hnot
        · rw [hsame.rawBytes, hraw, ← hended]
          exact ih.rawBytes
        · rw [hsame.finished, hopen, htext]
          exact hsame.counted hcount
        · rw [hsame.finished, hopen, htext]
          exact hsame.tailed htail
      · rename_i hlimits
        refine ⟨?_, ?_, ?_, ?_, ?_, ?_, hstored, fun hneeds => absurd hneeds hlimits⟩
        · rw [hlines, ← hended]
          exact ih.maxLines
        · rw [hbytes, ← hended]
          exact ih.maxBytes
        · intro hnot
          rw [hopen] at hnot
          cases hnot
        · rw [hraw, ← hended]
          exact ih.rawBytes
        · rw [hopen, htext]
          exact hcount
        · rw [hopen, htext]
          exact htail
  | @snapshot chunks acc _ persistIfTruncated ih =>
    unfold OutputAccumulator.snapshot
    dsimp only
    split
    · obtain ⟨hsame, hfile⟩ := ensureTempFile_spec ih.stored
      refine ⟨?_, ?_, ?_, ?_, ?_, ?_, Or.inl hfile, fun _ => by rw [hfile]; rfl⟩
      · rw [hsame.maxLines, ih.maxLines]
      · rw [hsame.maxBytes, ih.maxBytes]
      · rw [hsame.finished, hsame.decoder]
        exact ih.decoder
      · rw [hsame.rawBytes, ih.rawBytes]
      · rw [hsame.finished]
        exact hsame.counted ih.counted
      · rw [hsame.finished]
        exact hsame.tailed ih.tailed
    · exact ih

end Reaching

section Snapshots

variable {maxLines maxBytes : Nat}

/-- Whether a snapshot loses the end of the output: the tail begins inside a line, and what is behind
that line's end is nothing, or lines within the limits with a line feed at their end. -/
def OutputAccumulator.losesEnd (acc : OutputAccumulator) : Bool :=
  !acc.tailStartsAtLineBoundary &&
    match acc.tailText.dropWhile (· ≠ '\n') with
    | [] => false
    | [_] =>
      (acc.tailText.takeWhile (· ≠ '\n')).getLast?.any fun c => decide (c.utf8Size ≤ acc.maxBytes)
    | _ :: rest => fits rest acc.maxLines acc.maxBytes && rest.getLast? == some '\n'

/-- What a snapshot says about the output is what the whole output says. -/
structure Agrees (snapshot : OutputSnapshot) (whole : TruncationResult) : Prop where
  content : snapshot.content = whole.content
  truncated : snapshot.truncation.truncated = whole.truncated
  totalLines : snapshot.truncation.totalLines = whole.totalLines
  totalBytes : snapshot.truncation.totalBytes = whole.totalBytes

theorem content_iff {text : List Char} {acc : OutputAccumulator} (hlines : 0 < acc.maxLines)
    (hbytes : 0 < acc.maxBytes) (h : Tailed text acc) :
    (truncateTail acc.getSnapshotText acc.maxLines acc.maxBytes).content =
        (truncateTail text acc.maxLines acc.maxBytes).content ↔
      acc.losesEnd = false := by
  have hrolling : acc.maxBytes * 2 ≤ acc.maxRollingBytes := by
    rw [h.rolling]
    exact Nat.le_max_left _ _
  rcases h.kept with ⟨hall, hboundary⟩ | ⟨a, c, hall, hover, hboundary⟩
  · rw [getSnapshotText, if_pos hboundary, hall, losesEnd, hboundary]
    simp
  · by_cases hc : c = '\n'
    · subst hc
      rw [decide_eq_true rfl] at hboundary
      rw [byteLength_cons] at hover
      have hone : Char.utf8Size '\n' = 1 := rfl
      rw [getSnapshotText, if_pos hboundary, hall, losesEnd, hboundary,
        content_of_lines hbytes (by omega)]
      simp
    · rw [decide_eq_false hc] at hboundary
      rw [getSnapshotText, if_neg (by rw [hboundary]; exact Bool.false_ne_true), losesEnd,
        hboundary, Bool.not_false, Bool.true_and]
      have hsplit := List.takeWhile_append_dropWhile (p := fun d => decide (d ≠ '\n'))
        (l := acc.tailText)
      have hpart : '\n' ∉ c :: acc.tailText.takeWhile (· ≠ '\n') := by
        intro hmem
        rcases List.mem_cons.mp hmem with heq | hmem
        · exact hc heq.symm
        · have := List.mem_takeWhile_imp hmem
          simp at this
      have hfirst : ∀ d rest, acc.tailText.dropWhile (· ≠ '\n') = d :: rest → d = '\n' := by
        intro d rest hdrop
        have := List.head?_dropWhile_not (fun d => decide (d ≠ '\n')) acc.tailText
        rw [hdrop] at this
        simpa using this
      generalize acc.tailText.takeWhile (· ≠ '\n') = part at hsplit hpart ⊢
      cases hdrop : acc.tailText.dropWhile (· ≠ '\n') with
      | nil =>
        rw [hdrop, List.append_nil] at hsplit
        rw [← hsplit] at hover
        rw [hall, ← hsplit]
        simp only [iff_true]
        exact (content_of_lastLine hlines hpart (by omega)).symm
      | cons d rest =>
        obtain rfl := hfirst d rest hdrop
        rw [hdrop] at hsplit
        rw [← hsplit] at hover hall
        rw [hall]
        cases rest with
        | nil =>
          dsimp only
          have hlong : 2 * acc.maxBytes ≤ byteLength (c :: part) := by
            rw [← List.cons_append, byteLength_append, byteLength_cons '\n'] at hover
            have hone : Char.utf8Size '\n' = 1 := rfl
            rw [byteLength_nil] at hover
            omega
          have hempty : (truncateTail [] acc.maxLines acc.maxBytes).content = [] := rfl
          rw [hempty, eq_comm, content_of_endedLine hlines hbytes hpart hlong]
          cases part.getLast? with
          | none | some _ => simp
        | cons e rest =>
          dsimp only
          rw [eq_comm, content_of_endedLines hbytes (List.cons_ne_nil _ _) hpart (by omega)]
          rw [Bool.and_eq_false_iff, not_and_or, beq_eq_false_iff_ne, Bool.not_eq_true]

/-- **A snapshot agrees with the whole output exactly if it does not lose its end, and the file of
an output that was finished and exceeded a limit holds all chunks.** -/
theorem snapshot_agrees_iff
    {chunks : List (List UInt8)} {acc : OutputAccumulator} (hlines : 0 < maxLines)
    (hbytes : 0 < maxBytes) (h : Reached maxLines maxBytes chunks acc)
    (persistIfTruncated : Bool) :
    (Agrees (acc.snapshot persistIfTruncated).1
        (truncateTail (decoding chunks acc.finished) maxLines maxBytes) ↔
      acc.losesEnd = false) ∧
    (acc.finished = true →
      maxBytes < chunks.flatten.length ∨ maxBytes < byteLength (decoding chunks true) ∨
        maxLines < (splitLinesForCounting (decoding chunks true)).length →
      acc.tempFile = some chunks.flatten) := by
  have hfollows := h.follows
  obtain ⟨rfl, rfl⟩ : acc.maxLines = maxLines ∧ acc.maxBytes = maxBytes :=
    ⟨hfollows.maxLines, hfollows.maxBytes⟩
  have hiff := content_iff hlines hbytes hfollows.tailed
  refine ⟨?_, ?_⟩
  · constructor
    · intro hagrees
      exact hiff.mp hagrees.content
    · intro hkeeps
      have hwhole : ∀ text,
          (truncateTail text acc.maxLines acc.maxBytes).truncated =
              !fits text acc.maxLines acc.maxBytes ∧
            (truncateTail text acc.maxLines acc.maxBytes).totalLines =
              (splitLinesForCounting text).length ∧
            (truncateTail text acc.maxLines acc.maxBytes).totalBytes = byteLength text := by
        intro text
        unfold truncateTail
        dsimp only
        split
        · rename_i hfits
          rw [hfits]
          exact ⟨rfl, rfl, rfl⟩
        · rename_i hfits
          rw [Bool.eq_false_iff.mpr hfits]
          exact ⟨rfl, rfl, rfl⟩
      obtain ⟨htruncated, htotalLines, htotalBytes⟩ := hwhole (decoding chunks acc.finished)
      refine ⟨hiff.mpr hkeeps, ?_, ?_, ?_⟩
      · rw [htruncated, fits, ← hfollows.counted.totalLines, ← hfollows.counted.decodedBytes]
        show (decide (acc.maxLines < acc.totalLines) ||
          decide (acc.maxBytes < acc.totalDecodedBytes)) = _
        rw [Bool.not_and, ← decide_not, ← decide_not]
        simp only [Nat.not_le]
      · rw [htotalLines]
        exact hfollows.counted.totalLines
      · rw [htotalBytes]
        exact hfollows.counted.decodedBytes
  · intro hfinished hexceeded
    have hcounted := hfollows.counted
    rw [hfinished] at hcounted
    have hneeds : acc.shouldUseTempFile = true := by
      rw [shouldUseTempFile, hfollows.rawBytes, hcounted.decodedBytes, hcounted.totalLines]
      simpa [or_assoc] using hexceeded
    have hsome := hfollows.exceeded hneeds
    rcases hfollows.stored with hfile | ⟨hnone, -⟩
    · exact hfile
    · rw [hnone] at hsome
      cases hsome

/-- A line that is too long and has ended: the whole output shows its last character, and the
snapshot nothing. -/
theorem snapshot_loses_line :
    ∃ chunks acc, Reached 5 1 chunks acc ∧
      ¬ Agrees (acc.snapshot false).1 (truncateTail (decoding chunks acc.finished) 5 1) := by
  refine ⟨[[0x61, 0x62, 0x63, 0x64, 0x65, 0x0a]], _, .append .make rfl, ?_⟩
  intro h
  exact absurd h.content (by decide +kernel)

/-- A character that is cut, in an output that exceeds the limit of bytes. -/
theorem snapshot_agrees_cut :
    ∃ acc, Reached 5 1 [[0x61, 0xc3], [0xa9]] acc ∧
      Agrees (acc.snapshot true).1 (truncateTail (decoding [[0x61, 0xc3], [0xa9]] true) 5 1) ∧
      acc.tempFile = some [0x61, 0xc3, 0xa9] := by
  have hreached : Reached 5 1 [[0x61, 0xc3], [0xa9]] _ := .finish (.append (.append .make rfl) rfl)
  obtain ⟨hagrees, hfile⟩ := snapshot_agrees_iff (by decide) (by decide) hreached true
  exact ⟨_, hreached, hagrees.mpr (by decide +kernel), hfile rfl (Or.inl (by decide))⟩

end Snapshots

end CommandOutput

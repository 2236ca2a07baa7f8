import Crest.Utf8

/-!
# The end of an output

The output of a command is shown by its last lines, as many as two limits allow, one on the lines
and one on the bytes.  A last line that is too long is shown by its last bytes, from the beginning
of a character on.  A text that was decoded is the list of its characters.
-/

namespace Truncate

/-- The bytes of a text. -/
def encode (text : List Char) : List UInt8 := text.flatMap String.utf8EncodeChar

/-- `Buffer.byteLength(text, "utf-8")`. -/
def byteLength (text : List Char) : Nat := (encode text).length

/-- `(byte & 0xc0) === 0x80`. -/
def isContinuation (byte : UInt8) : Bool := byte &&& 0xc0 == 0x80

/-- The last bytes of a buffer, from the beginning of a character on. -/
def lastBytes (buffer : List UInt8) (maxBytes : Nat) : List UInt8 :=
  (buffer.drop (buffer.length - maxBytes)).dropWhile isContinuation

def truncateStringToBytesFromEnd (text : List Char) (maxBytes : Nat) : List Char :=
  if byteLength text ≤ maxBytes then text
  else Encoding.decodeUtf8 (lastBytes (encode text) maxBytes)

def splitLinesForCounting (content : List Char) : List (List Char) :=
  if content = [] then []
  else if content.getLast? = some '\n' then (content.splitOn '\n').dropLast
  else content.splitOn '\n'

/-- `lines.join("\n")`. -/
def joinLines (lines : List (List Char)) : List Char := List.intercalate ['\n'] lines

/-- The limit that was hit. -/
inductive TruncatedBy
  | lines
  | bytes
deriving DecidableEq, Repr

/-- What the loop of `truncateTail` has gathered. -/
structure Gathered where
  outputLinesArr : List (List Char)
  outputBytesCount : Nat
  truncatedBy : TruncatedBy
  lastLinePartial : Bool
deriving DecidableEq, Repr

/-- The loop of `truncateTail`, over the lines from the last one on. -/
def gather (maxLines maxBytes : Nat) :
    List (List Char) → List (List Char) → Nat → Gathered
  | [], out, bytes => ⟨out, bytes, .lines, false⟩
  | line :: rest, out, bytes =>
    if maxLines ≤ out.length then ⟨out, bytes, .lines, false⟩
    else
      let lineBytes := byteLength line + if 0 < out.length then 1 else 0
      if maxBytes < bytes + lineBytes then
        if out = [] then
          let truncatedLine := truncateStringToBytesFromEnd line maxBytes
          ⟨[truncatedLine], byteLength truncatedLine, .bytes, true⟩
        else ⟨out, bytes, .bytes, false⟩
      else gather maxLines maxBytes rest (line :: out) (bytes + lineBytes)

structure TruncationResult where
  content : List Char
  truncated : Bool
  truncatedBy : Option TruncatedBy
  totalLines : Nat
  totalBytes : Nat
  outputLines : Nat
  outputBytes : Nat
  lastLinePartial : Bool
  firstLineExceedsLimit : Bool
  maxLines : Nat
  maxBytes : Nat
deriving DecidableEq, Repr

/-- Whether a text is within both limits. -/
def fits (content : List Char) (maxLines maxBytes : Nat) : Bool :=
  decide ((splitLinesForCounting content).length ≤ maxLines) &&
    decide (byteLength content ≤ maxBytes)

def truncateTail (content : List Char) (maxLines maxBytes : Nat) : TruncationResult :=
  let totalBytes := byteLength content
  let lines := splitLinesForCounting content
  let totalLines := lines.length
  if fits content maxLines maxBytes then
    { content := content
      truncated := false
      truncatedBy := none
      totalLines := totalLines
      totalBytes := totalBytes
      outputLines := totalLines
      outputBytes := totalBytes
      lastLinePartial := false
      firstLineExceedsLimit := false
      maxLines := maxLines
      maxBytes := maxBytes }
  else
    let gathered := gather maxLines maxBytes lines.reverse [] 0
    let outputContent := joinLines gathered.outputLinesArr
    { content := outputContent
      truncated := true
      truncatedBy :=
        some (if maxLines ≤ gathered.outputLinesArr.length ∧ gathered.outputBytesCount ≤ maxBytes
          then .lines else gathered.truncatedBy)
      totalLines := totalLines
      totalBytes := totalBytes
      outputLines := gathered.outputLinesArr.length
      outputBytes := byteLength outputContent
      lastLinePartial := gathered.lastLinePartial
      firstLineExceedsLimit := false
      maxLines := maxLines
      maxBytes := maxBytes }

section Bytes

@[simp] theorem encode_cons (c : Char) (text : List Char) :
    encode (c :: text) = String.utf8EncodeChar c ++ encode text := rfl

@[simp] theorem encode_append (a b : List Char) : encode (a ++ b) = encode a ++ encode b :=
  List.flatMap_append

@[simp] theorem byteLength_nil : byteLength [] = 0 := rfl

@[simp] theorem byteLength_cons (c : Char) (text : List Char) :
    byteLength (c :: text) = c.utf8Size + byteLength text := by
  simp [byteLength]

@[simp] theorem byteLength_append (a b : List Char) :
    byteLength (a ++ b) = byteLength a + byteLength b := by
  simp [byteLength]

theorem isContinuation_eq (b : UInt8) :
    isContinuation b = decide (0x80 ≤ b.toNat ∧ b.toNat < 0xc0) := by
  have hall : ∀ n : Fin 256, isContinuation (UInt8.ofNat n.val) =
      decide (0x80 ≤ n.val ∧ n.val < 0xc0) := by
    decide +kernel
  have h := hall ⟨b.toNat, b.toNat_lt⟩
  rwa [UInt8.ofNat_toNat] at h

theorem encodeChar_bytes (c : Char) :
    ∃ first more, String.utf8EncodeChar c = first :: more ∧ isContinuation first = false ∧
      ∀ b ∈ more, isContinuation b = true := by
  have hvalid := JsString.char_bounds c
  have hval : c.val.toNat = c.toNat := rfl
  fun_cases String.utf8EncodeChar c with
  | case1 v hsmall =>
    refine ⟨_, _, rfl, ?_, by simp⟩
    simp only [isContinuation_eq, UInt8.toNat_ofNat', decide_eq_false_iff_not]
    omega
  | case2 v hsmall hmid =>
    refine ⟨_, _, rfl, ?_, ?_⟩
    · simp only [isContinuation_eq, UInt8.toNat_ofNat', decide_eq_false_iff_not]
      omega
    · simp only [List.mem_cons, List.not_mem_nil, or_false, forall_eq, isContinuation_eq,
        UInt8.toNat_ofNat', decide_eq_true_eq]
      omega
  | case3 v hsmall hmid hlarge =>
    refine ⟨_, _, rfl, ?_, ?_⟩
    · simp only [isContinuation_eq, UInt8.toNat_ofNat', decide_eq_false_iff_not]
      omega
    · simp only [List.mem_cons, List.not_mem_nil, or_false, forall_eq_or_imp, forall_eq,
        isContinuation_eq, UInt8.toNat_ofNat', decide_eq_true_eq]
      omega
  | case4 v hsmall hmid hlarge =>
    refine ⟨_, _, rfl, ?_, ?_⟩
    · simp only [isContinuation_eq, UInt8.toNat_ofNat', decide_eq_false_iff_not]
      omega
    · simp only [List.mem_cons, List.not_mem_nil, or_false, forall_eq_or_imp, forall_eq,
        isContinuation_eq, UInt8.toNat_ofNat', decide_eq_true_eq]
      omega

theorem dropWhile_encode (text : List Char) :
    (encode text).dropWhile isContinuation = encode text := by
  cases text with
  | nil => rfl
  | cons c text =>
    obtain ⟨first, more, hbytes, hfirst, -⟩ := encodeChar_bytes c
    rw [encode_cons, hbytes, List.cons_append, List.dropWhile_cons, hfirst]
    rfl

theorem lastBytes_encode {a b : List Char} {c : Char} {maxBytes : Nat}
    (hfits : byteLength b ≤ maxBytes) (hlong : maxBytes < byteLength (c :: b)) :
    lastBytes (encode (a ++ c :: b)) maxBytes = encode b := by
  obtain ⟨first, more, hbytes, -, hmore⟩ := encodeChar_bytes c
  have hsize : byteLength (c :: b) = more.length + 1 + byteLength b := by
    rw [byteLength, encode_cons, hbytes, List.length_append]
    rfl
  rw [lastBytes, encode_append, encode_cons, hbytes, ← List.append_assoc]
  have hlength : (encode a ++ (first :: more) ++ encode b).length =
      (encode a).length + (more.length + 1) + byteLength b := by
    rw [List.length_append, List.length_append]
    rfl
  rw [hlength]
  -- the cut is behind the first byte of the character
  obtain ⟨k, hk, hle⟩ : ∃ k, (encode a).length + (more.length + 1) + byteLength b - maxBytes =
      (encode a).length + (k + 1) ∧ k ≤ more.length :=
    ⟨more.length + byteLength b - maxBytes, by omega, by omega⟩
  rw [hk, List.append_assoc, ← List.drop_drop, List.drop_left, List.cons_append,
    List.drop_succ_cons, List.drop_append_of_le_length hle, List.dropWhile_append_of_pos]
  · exact dropWhile_encode b
  · intro u hu
    exact hmore u (List.mem_of_mem_drop hu)

theorem exists_end {text : List Char} {maxBytes : Nat} (h : maxBytes < byteLength text) :
    ∃ a c b, text = a ++ c :: b ∧ byteLength b ≤ maxBytes ∧ maxBytes < byteLength (c :: b) := by
  induction text with
  | nil => simp at h
  | cons c text ih =>
    by_cases hrest : maxBytes < byteLength text
    · obtain ⟨a, d, b, rfl, hfits, hlong⟩ := ih hrest
      exact ⟨c :: a, d, b, rfl, hfits, hlong⟩
    · exact ⟨[], c, text, rfl, Nat.le_of_not_lt hrest, h⟩

theorem truncateStringToBytesFromEnd_eq {a b : List Char} {c : Char} {maxBytes : Nat}
    (hfits : byteLength b ≤ maxBytes) (hlong : maxBytes < byteLength (c :: b)) :
    truncateStringToBytesFromEnd (a ++ c :: b) maxBytes = b := by
  rw [truncateStringToBytesFromEnd, if_neg, lastBytes_encode hfits hlong, encode,
    Encoding.decodeUtf8_flatMap]
  rw [byteLength_append]
  omega

end Bytes

section Lines

theorem splitLinesForCounting_append (a b : List Char) :
    splitLinesForCounting (a ++ '\n' :: b) = a.splitOn '\n' ++ splitLinesForCounting b := by
  have hsplit : (a ++ '\n' :: b).splitOn '\n' = a.splitOn '\n' ++ b.splitOn '\n' :=
    List.splitOnP_append_cons a b (by simp)
  have hne : a ++ '\n' :: b ≠ [] := by simp
  cases b with
  | nil =>
    have hlast : (a ++ ['\n']).getLast? = some '\n' := by simp
    have hnil : ([] : List Char).splitOn '\n' = [[]] := List.splitOn_nil _
    rw [splitLinesForCounting, if_neg hne, if_pos hlast, hsplit, hnil, List.dropLast_concat,
      splitLinesForCounting, if_pos rfl, List.append_nil]
  | cons c b =>
    have hlast : (a ++ '\n' :: c :: b).getLast? = (c :: b).getLast? := by
      rw [List.getLast?_append_cons]
      rfl
    have hlines : splitLinesForCounting (c :: b) =
        if (c :: b).getLast? = some '\n' then ((c :: b).splitOn '\n').dropLast
        else (c :: b).splitOn '\n' := by
      rw [splitLinesForCounting, if_neg (List.cons_ne_nil _ _)]
    rw [splitLinesForCounting, if_neg hne, hlast, hsplit, hlines]
    split
    · exact List.dropLast_append_of_ne_nil (List.splitOnP_ne_nil _ _)
    · rfl

example : splitLinesForCounting ['a', '\n'] = [['a']] := by decide +kernel

theorem splitLinesForCounting_single {text : List Char} (hne : text ≠ [])
    (h : '\n' ∉ text) :
    splitLinesForCounting text = [text] := by
  have hsplit : text.splitOn '\n' = [text] := by
    refine List.splitOnP_eq_singleton ?_
    intro c hc
    have hcne : c ≠ '\n' := by
      rintro rfl
      exact h hc
    simpa using hcne
  rw [splitLinesForCounting, if_neg hne, if_neg, hsplit]
  intro hlast
  exact h (List.mem_of_getLast? hlast)

theorem splitLinesForCounting_ne_nil {text : List Char} (hne : text ≠ []) :
    splitLinesForCounting text ≠ [] := by
  by_cases h : '\n' ∈ text
  · obtain ⟨a, b, rfl⟩ := List.append_of_mem h
    rw [splitLinesForCounting_append]
    intro hnil
    exact List.splitOnP_ne_nil _ _ (List.append_eq_nil_iff.mp hnil).1
  · rw [splitLinesForCounting_single hne h]
    exact List.cons_ne_nil _ _

theorem joinLines_splitLinesForCounting (text : List Char) :
    joinLines (splitLinesForCounting text) =
      if text.getLast? = some '\n' then text.dropLast else text := by
  rcases List.eq_nil_or_concat' text with rfl | ⟨a, c, rfl⟩
  · rfl
  · by_cases hc : c = '\n'
    · subst hc
      rw [splitLinesForCounting_append, if_pos (by simp), List.dropLast_concat, joinLines,
        splitLinesForCounting, if_pos rfl, List.append_nil, List.intercalate_splitOn]
    · have hlast : (a ++ [c]).getLast? ≠ some '\n' := by simpa using hc
      rw [splitLinesForCounting, if_neg (by simp), if_neg hlast, if_neg hlast, joinLines,
        List.intercalate_splitOn]

theorem byteLength_le_joinLines (text : List Char) :
    byteLength text ≤ byteLength (joinLines (splitLinesForCounting text)) + 1 := by
  rw [joinLines_splitLinesForCounting]
  split
  · rename_i hlast
    rcases List.eq_nil_or_concat' text with rfl | ⟨a, c, rfl⟩
    · exact Nat.zero_le _
    · obtain rfl : c = '\n' := by simpa using hlast
      rw [List.dropLast_concat, byteLength_append]
      exact Nat.le_refl _
  · exact Nat.le_succ _

theorem exists_lastLine (a : List Char) {word : List Char} (h : '\n' ∉ word) :
    ∃ more front, (a ++ word).splitOn '\n' = more ++ [front ++ word] := by
  induction a with
  | nil =>
    refine ⟨[], [], List.splitOnP_eq_singleton ?_⟩
    intro c hc
    have hcne : c ≠ '\n' := by
      rintro rfl
      exact h hc
    simpa using hcne
  | cons c a ih =>
    obtain ⟨more, front, hsplit⟩ := ih
    have hcons : (c :: (a ++ word)).splitOn '\n' =
        if c = '\n' then [] :: (a ++ word).splitOn '\n'
        else ((a ++ word).splitOn '\n').modifyHead (c :: ·) := by
      have hrule := List.splitOnP_cons_eq_if_modifyHead (p := (· == '\n')) c (a ++ word)
      simpa only [List.splitOn, beq_iff_eq] using hrule
    rw [List.cons_append, hcons, hsplit]
    split
    · exact ⟨[] :: more, front, rfl⟩
    · cases more with
      | nil => exact ⟨[], c :: front, rfl⟩
      | cons first more => exact ⟨(c :: first) :: more, front, rfl⟩

theorem byteLength_joinLines_cons (line : List Char) (lines : List (List Char)) :
    byteLength (joinLines (line :: lines)) =
      byteLength line + (if 0 < lines.length then 1 else 0) + byteLength (joinLines lines) := by
  cases lines with
  | nil => simp [joinLines]
  | cons next lines =>
    rw [joinLines, List.intercalate_cons_cons, byteLength_append, byteLength_append]
    rfl

end Lines

section Gathering

variable {maxLines maxBytes : Nat}

theorem gather_all {lines out : List (List Char)}
    (hlines : lines.length + out.length ≤ maxLines)
    (hbytes : byteLength (joinLines (lines.reverse ++ out)) ≤ maxBytes) :
    (gather maxLines maxBytes lines out (byteLength (joinLines out))).outputLinesArr =
      lines.reverse ++ out := by
  induction lines generalizing out with
  | nil => rfl
  | cons line lines ih =>
    rw [List.length_cons] at hlines
    rw [List.reverse_cons, List.append_assoc, List.singleton_append] at hbytes ⊢
    have hcost := byteLength_joinLines_cons line out
    have hsuffix : byteLength (joinLines (line :: out)) ≤
        byteLength (joinLines (lines.reverse ++ line :: out)) := by
      clear ih hlines hbytes
      induction lines.reverse with
      | nil => exact Nat.le_refl _
      | cons first more ih =>
        rw [List.cons_append, byteLength_joinLines_cons first]
        omega
    rw [gather, if_neg (by omega)]
    dsimp only
    rw [if_neg (by omega), Nat.add_comm (byteLength (joinLines out)), ← hcost]
    exact ih (by rw [List.length_cons]; omega) hbytes

/-- Behind lines with which the bytes would be too many, no more are gathered. -/
theorem gather_append {lines more out : List (List Char)} (hne : lines ≠ [] ∨ out ≠ [])
    (hbig : ∀ line, more.head? = some line →
      maxBytes < byteLength (joinLines (line :: (lines.reverse ++ out)))) :
    (gather maxLines maxBytes (lines ++ more) out (byteLength (joinLines out))).outputLinesArr =
      (gather maxLines maxBytes lines out (byteLength (joinLines out))).outputLinesArr := by
  induction lines generalizing out with
  | nil =>
    have hout : out ≠ [] := hne.resolve_left (fun h => h rfl)
    cases more with
    | nil => rfl
    | cons line more =>
      have hlong := hbig line rfl
      rw [List.reverse_nil, List.nil_append, byteLength_joinLines_cons] at hlong
      rw [List.nil_append, gather, gather]
      by_cases hfull : maxLines ≤ out.length
      · rw [if_pos hfull]
      · rw [if_neg hfull]
        dsimp only
        rw [if_pos (by omega), if_neg hout]
  | cons line lines ih =>
    have hcost := byteLength_joinLines_cons line out
    rw [List.cons_append, gather, gather]
    by_cases hfull : maxLines ≤ out.length
    · rw [if_pos hfull, if_pos hfull]
    · rw [if_neg hfull, if_neg hfull]
      dsimp only
      rw [Nat.add_comm (byteLength (joinLines out)), ← hcost]
      by_cases hover : maxBytes < byteLength (joinLines (line :: out))
      · rw [if_pos hover, if_pos hover]
      · rw [if_neg hover, if_neg hover]
        refine ih (Or.inr (List.cons_ne_nil _ _)) ?_
        intro next hnext
        have hlong := hbig next hnext
        rwa [List.reverse_cons, List.append_assoc, List.singleton_append] at hlong

theorem gather_long {line : List Char} {more : List (List Char)} (hlines : 0 < maxLines)
    (hlong : maxBytes < byteLength line) :
    (gather maxLines maxBytes (line :: more) [] 0).outputLinesArr =
      [truncateStringToBytesFromEnd line maxBytes] := by
  rw [gather, if_neg (by rw [List.length_nil]; omega)]
  dsimp only [List.length_nil]
  rw [if_pos (by simpa using hlong), if_pos rfl]

theorem truncateTail_content {text : List Char} (h : fits text maxLines maxBytes = false) :
    (truncateTail text maxLines maxBytes).content =
      joinLines (gather maxLines maxBytes (splitLinesForCounting text).reverse [] 0).outputLinesArr
      := by
  rw [truncateTail, if_neg (by rw [h]; exact Bool.false_ne_true)]

theorem truncateTail_content_fits {text : List Char}
    (h : fits text maxLines maxBytes = true) :
    (truncateTail text maxLines maxBytes).content = text := by
  rw [truncateTail, if_pos h]

theorem fits_of_long {text : List Char} (h : maxBytes < byteLength text) :
    fits text maxLines maxBytes = false := by
  rw [fits, decide_eq_false (Nat.not_le_of_lt h), Bool.and_false]

theorem content_lastLines {a rest : List Char} (hrest : rest ≠ [])
    (hbig : ∀ more line, a.splitOn '\n' = more ++ [line] →
      maxBytes < byteLength line + 1 + byteLength (joinLines (splitLinesForCounting rest)))
    (hlong : maxBytes < byteLength (a ++ '\n' :: rest)) :
    (truncateTail (a ++ '\n' :: rest) maxLines maxBytes).content =
      joinLines
        (gather maxLines maxBytes (splitLinesForCounting rest).reverse [] 0).outputLinesArr := by
  have hlines := splitLinesForCounting_ne_nil hrest
  rw [truncateTail_content (fits_of_long hlong), splitLinesForCounting_append, List.reverse_append]
  refine congrArg joinLines (gather_append (Or.inl (by simpa using hlines)) ?_)
  intro line hline
  obtain ⟨more, hmore⟩ := List.head?_eq_some_iff.mp hline
  have hsplit : a.splitOn '\n' = more.reverse ++ [line] := by
    have := congrArg List.reverse hmore
    rwa [List.reverse_reverse, List.reverse_cons] at this
  rw [List.append_nil, List.reverse_reverse, byteLength_joinLines_cons,
    if_pos (List.length_pos_iff.mpr hlines)]
  exact hbig _ _ hsplit

end Gathering

section Cuts

variable {maxLines maxBytes : Nat} {a part rest : List Char} {c : Char}

/-- The first lines of a text do not matter, if the others are too many bytes. -/
theorem content_of_lines (hbytes : 0 < maxBytes) (hlong : 2 * maxBytes ≤ byteLength rest) :
    (truncateTail (a ++ '\n' :: rest) maxLines maxBytes).content =
      (truncateTail rest maxLines maxBytes).content := by
  have hjoin := byteLength_le_joinLines rest
  have hrest : rest ≠ [] := by
    rintro rfl
    rw [byteLength_nil] at hlong
    omega
  rw [content_lastLines hrest, truncateTail_content (fits_of_long (by omega))]
  · intro _ line _
    omega
  · rw [byteLength_append, byteLength_cons]
    omega

theorem content_of_lastLine (hlines : 0 < maxLines) (hline : '\n' ∉ c :: part)
    (hlong : 2 * maxBytes < byteLength (c :: part)) :
    (truncateTail (a ++ c :: part) maxLines maxBytes).content =
      (truncateTail part maxLines maxBytes).content := by
  obtain ⟨more, front, hsplit⟩ := exists_lastLine a hline
  have hlast : (a ++ c :: part).getLast? ≠ some '\n' := by
    intro hlast
    rw [List.getLast?_append_cons] at hlast
    exact hline (List.mem_of_getLast? hlast)
  have htoo : maxBytes < byteLength (a ++ c :: part) := by
    rw [byteLength_append]
    omega
  rw [truncateTail_content (fits_of_long htoo), splitLinesForCounting, if_neg (by simp),
    if_neg hlast, hsplit, List.reverse_append, List.reverse_singleton, List.singleton_append,
    gather_long hlines (by rw [byteLength_append]; omega), joinLines, List.intercalate_singleton]
  by_cases hfits : byteLength part ≤ maxBytes
  · rw [truncateStringToBytesFromEnd_eq hfits (by omega), truncateTail_content_fits]
    rw [fits, Bool.and_eq_true, decide_eq_true_eq, decide_eq_true_eq]
    refine ⟨?_, hfits⟩
    cases part with
    | nil => exact Nat.zero_le _
    | cons d part =>
      rw [splitLinesForCounting_single (List.cons_ne_nil _ _)
        fun h => hline (List.mem_cons_of_mem _ h)]
      exact hlines
  · have hne : part ≠ [] := by
      rintro rfl
      simp at hfits
    obtain ⟨b, d, e, rfl, hfits', hlong'⟩ := exists_end (Nat.lt_of_not_le hfits)
    rw [truncateTail_content (fits_of_long (Nat.lt_of_not_le hfits)),
      splitLinesForCounting_single hne fun h => hline (List.mem_cons_of_mem _ h),
      List.reverse_singleton, gather_long hlines (Nat.lt_of_not_le hfits), joinLines,
      List.intercalate_singleton, truncateStringToBytesFromEnd_eq hfits' hlong',
      ← List.cons_append, ← List.append_assoc, truncateStringToBytesFromEnd_eq hfits' hlong']

theorem content_of_endedLine (hlines : 0 < maxLines) (hbytes : 0 < maxBytes)
    (hline : '\n' ∉ c :: part) (hlong : 2 * maxBytes ≤ byteLength (c :: part)) :
    (truncateTail (a ++ c :: (part ++ ['\n'])) maxLines maxBytes).content = [] ↔
      ∀ d, part.getLast? = some d → maxBytes < d.utf8Size := by
  obtain ⟨more, front, hsplit⟩ := exists_lastLine a hline
  have htoo : maxBytes < byteLength ((a ++ c :: part) ++ '\n' :: []) := by
    rw [byteLength_append, byteLength_append]
    omega
  have hcontent : (truncateTail (a ++ c :: (part ++ ['\n'])) maxLines maxBytes).content =
      truncateStringToBytesFromEnd (front ++ c :: part) maxBytes := by
    rw [← List.cons_append, ← List.append_assoc, truncateTail_content (fits_of_long htoo),
      splitLinesForCounting_append, hsplit, splitLinesForCounting, if_pos rfl, List.append_nil,
      List.reverse_append, List.reverse_singleton, List.singleton_append,
      gather_long hlines (by rw [byteLength_append]; omega), joinLines,
      List.intercalate_singleton]
  obtain ⟨b, d, e, hparts, hfits, hlong'⟩ := @exists_end (c :: part) maxBytes (by omega)
  rw [hcontent, hparts, ← List.append_assoc, truncateStringToBytesFromEnd_eq hfits hlong']
  constructor
  · rintro rfl
    intro f hf
    have hlast : (c :: part).getLast? = some f := by
      rw [List.getLast?_cons, hf]
      rfl
    rw [hparts, List.getLast?_concat] at hlast
    obtain rfl := Option.some.inj hlast
    simpa using hlong'
  · intro h
    by_contra hne
    obtain ⟨e, f, rfl⟩ := (List.eq_nil_or_concat' e).resolve_left hne
    have hlast : part.getLast? = some f := by
      cases b with
      | nil =>
        rw [List.nil_append, List.cons.injEq] at hparts
        rw [hparts.2, List.getLast?_concat]
      | cons g b =>
        rw [List.cons_append, List.cons.injEq] at hparts
        rw [hparts.2, ← List.cons_append, ← List.append_assoc, List.getLast?_concat]
    have := h f hlast
    rw [byteLength_append, byteLength_cons] at hfits
    omega

theorem content_of_endedLines (hbytes : 0 < maxBytes) (hrest : rest ≠ [])
    (hline : '\n' ∉ c :: part) (hlong : 2 * maxBytes < byteLength (c :: (part ++ '\n' :: rest))) :
    (truncateTail (a ++ c :: (part ++ '\n' :: rest)) maxLines maxBytes).content =
        (truncateTail rest maxLines maxBytes).content ↔
      ¬ (fits rest maxLines maxBytes = true ∧ rest.getLast? = some '\n') := by
  obtain ⟨more, front, hsplit⟩ := exists_lastLine a hline
  have hjoin := byteLength_le_joinLines rest
  have hsize : byteLength (c :: (part ++ '\n' :: rest)) =
      byteLength (c :: part) + 1 + byteLength rest := by
    rw [← List.cons_append, byteLength_append, byteLength_cons '\n']
    exact (Nat.add_assoc _ _ _).symm
  have hcontent : (truncateTail (a ++ c :: (part ++ '\n' :: rest)) maxLines maxBytes).content =
      joinLines
        (gather maxLines maxBytes (splitLinesForCounting rest).reverse [] 0).outputLinesArr := by
    rw [← List.cons_append, ← List.append_assoc]
    refine content_lastLines hrest ?_ ?_
    · intro more' line hsplit'
      rw [hsplit] at hsplit'
      obtain ⟨-, hline'⟩ := List.append_inj' hsplit' rfl
      obtain rfl := (List.cons.inj hline').1
      rw [byteLength_append]
      omega
    · rw [byteLength_append, byteLength_append, byteLength_cons '\n']
      omega
  rw [hcontent]
  cases hfits : fits rest maxLines maxBytes with
  | false =>
    rw [truncateTail_content hfits]
    simp
  | true =>
    rw [truncateTail_content_fits hfits]
    rw [fits, Bool.and_eq_true, decide_eq_true_eq, decide_eq_true_eq] at hfits
    have hnoMore : byteLength (joinLines (splitLinesForCounting rest)) ≤ maxBytes := by
      refine Nat.le_trans ?_ hfits.2
      rw [joinLines_splitLinesForCounting]
      split
      · obtain ⟨front, d, rfl⟩ := (List.eq_nil_or_concat' rest).resolve_left hrest
        rw [List.dropLast_concat, byteLength_append]
        omega
      · exact Nat.le_refl _
    have hall := @gather_all maxLines maxBytes (splitLinesForCounting rest).reverse []
      (by simpa using hfits.1) (by simpa using hnoMore)
    rw [List.reverse_reverse, List.append_nil] at hall
    have hzero : byteLength (joinLines []) = 0 := rfl
    rw [hzero] at hall
    rw [hall, joinLines_splitLinesForCounting]
    split
    · rename_i hlast
      simp only [hlast, and_self, not_true_eq_false, iff_false]
      intro heq
      have hlength := congrArg List.length heq
      have := List.length_pos_iff.mpr hrest
      rw [List.length_dropLast] at hlength
      omega
    · rename_i hlast
      simp [hlast]

end Cuts

section Limits

variable {maxLines maxBytes : Nat} {lines out : List (List Char)}

theorem newline_not_mem {text line : List Char} (h : line ∈ text.splitOn '\n') : '\n' ∉ line := by
  induction text generalizing line with
  | nil => simp_all
  | cons c text ih =>
    rw [List.splitOn_cons_eq_if_modifyHead] at h
    cases hlines : text.splitOn '\n' with
    | nil => exact absurd hlines (List.splitOn_ne_nil _ _)
    | cons first lines => grind [List.modifyHead_cons]

/-- Lines that may be shown. -/
structure Shown (maxLines maxBytes : Nat) (lines : List (List Char)) : Prop where
  count : lines.length ≤ maxLines
  bytes : byteLength (joinLines lines) ≤ maxBytes
  newline : ∀ line ∈ lines, '\n' ∉ line

theorem truncateStringToBytesFromEnd_spec (text : List Char) (maxBytes : Nat) :
    truncateStringToBytesFromEnd text maxBytes <:+ text ∧
      byteLength (truncateStringToBytesFromEnd text maxBytes) ≤ maxBytes := by
  by_cases hlong : maxBytes < byteLength text
  · obtain ⟨a, c, b, rfl, hfits, hlong⟩ := exists_end hlong
    rw [truncateStringToBytesFromEnd_eq hfits hlong]
    exact ⟨⟨a ++ [c], by simp⟩, hfits⟩
  · rw [truncateStringToBytesFromEnd, if_pos (Nat.le_of_not_lt hlong)]
    exact ⟨List.suffix_refl _, Nat.le_of_not_lt hlong⟩

theorem Shown.gather (h : Shown maxLines maxBytes out) (hnewline : ∀ line ∈ lines, '\n' ∉ line) :
    Shown maxLines maxBytes
      (gather maxLines maxBytes lines out (byteLength (joinLines out))).outputLinesArr := by
  induction lines generalizing out with
  | nil => exact h
  | cons line rest ih =>
    rw [List.forall_mem_cons] at hnewline
    have hcost := byteLength_joinLines_cons line out
    rw [Truncate.gather]
    split
    · exact h
    rename_i hroom
    dsimp only
    rw [Nat.add_comm (byteLength (joinLines out)), ← hcost]
    by_cases hlong : maxBytes < byteLength (joinLines (line :: out))
    · rw [if_pos hlong]
      obtain ⟨hend, hbytes⟩ := truncateStringToBytesFromEnd_spec line maxBytes
      by_cases hout : out = []
      · rw [if_pos hout]
        exact ⟨by simp; omega, by simpa [joinLines] using hbytes,
          by simpa using fun hmem => hnewline.1 (hend.subset hmem)⟩
      · rw [if_neg hout]
        exact h
    · rw [if_neg hlong]
      exact ih ⟨by simp; omega, Nat.le_of_not_lt hlong, by simpa using ⟨hnewline.1, h.newline⟩⟩
        hnewline.2

theorem Shown.fits (h : Shown maxLines maxBytes lines) :
    fits (joinLines lines) maxLines maxBytes = true := by
  have hlines := h.count
  simp only [Truncate.fits, Bool.and_eq_true, decide_eq_true_eq]
  refine ⟨?_, h.bytes⟩
  rw [splitLinesForCounting]
  split
  · exact Nat.zero_le _
  rename_i hne
  have hsplit : (joinLines lines).splitOn '\n' = lines :=
    List.splitOn_intercalate '\n' h.newline (by rintro rfl; exact hne rfl)
  rw [hsplit]
  split
  · rw [List.length_dropLast]
    omega
  · exact hlines

/-- **What is shown of a text is within both limits**, and all of it is shown the next time. -/
theorem truncateTail_fits (text : List Char) (maxLines maxBytes : Nat) :
    fits (truncateTail text maxLines maxBytes).content maxLines maxBytes = true ∧
      (truncateTail (truncateTail text maxLines maxBytes).content maxLines maxBytes).content =
        (truncateTail text maxLines maxBytes).content := by
  have hfits : fits (truncateTail text maxLines maxBytes).content maxLines maxBytes = true := by
    cases h : fits text maxLines maxBytes with
    | true => rwa [truncateTail_content_fits h]
    | false =>
      have hsubset : splitLinesForCounting text ⊆ text.splitOn '\n' := by
        unfold splitLinesForCounting
        split
        · simp
        split
        · exact List.dropLast_subset _
        · exact List.Subset.refl _
      have hnone : Shown maxLines maxBytes [] := ⟨Nat.zero_le _, Nat.zero_le _, by simp⟩
      rw [truncateTail_content h]
      exact (hnone.gather fun line hline =>
        newline_not_mem (hsubset (List.mem_reverse.mp hline))).fits
  exact ⟨hfits, truncateTail_content_fits hfits⟩

end Limits

end Truncate

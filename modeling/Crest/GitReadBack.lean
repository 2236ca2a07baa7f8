import Crest.GitParser

/-!
# Git's output, read back

The renderer prints records in the format that git documents, over any paths without a
zero byte.  The status is read back whatever the paths are.  The files of a commit are
read back if and only if no path begins or ends with white space and none holds a tab:
the parser trims each path, and takes a path with a tab for the first line of numbers.
-/

namespace GitParser

open GoStrings

/-! ## The format -/

abbrev Path := { p : List UInt8 // p ≠ [] ∧ 0 ∉ p }

abbrev Word := { w : List UInt8 // IsWord w }

/-- A letter of the status, or the dot for none. -/
abbrev Letter := { b : UInt8 // b = 0x2e ∨ (0x41 ≤ b ∧ b ≤ 0x5a) }

/-- Every token ends with a zero byte. -/
def render (tokens : List (List UInt8)) : List UInt8 := tokens.flatMap (· ++ [0])

/-- Words with a blank in front of each. -/
def blanks (ws : List Word) : List UInt8 := ws.flatMap fun w => 0x20 :: w.val

/-- The lines about the branch; a branch with an upstream may be ahead of it and behind. -/
structure BranchHeader where
  oid : Word
  head : Path
  upstream : Option (Path × Option (Nat × Nat))

def BranchHeader.tokens (h : BranchHeader) : List (List UInt8) :=
  [text "# branch.oid " ++ h.oid.val, text "# branch.head " ++ h.head.val] ++
    (match h.upstream with
    | none => []
    | some (name, ab) =>
      (text "# branch.upstream " ++ name.val) ::
        match ab with
        | none => []
        | some (a, b) =>
          [text "# branch.ab " ++ (text "+" ++ decimal a ++ (0x20 :: (text "-" ++ decimal b)))])

/-- The records of a status.  The words are the submodule state, the modes, the hashes and,
of a rename or a copy, the score. -/
inductive StatusRecord where
  | ordinary (x y : Letter) (words : { ws : List Word // ws.length = 6 }) (path : Path)
  | renamed (x y : Letter) (words : { ws : List Word // ws.length = 7 }) (path orig : Path)
  | unmerged (x y : Letter) (words : { ws : List Word // ws.length = 8 }) (path : Path)
  | untracked (path : Path)

def recordText (x y : Letter) (words : List Word) (path : Path) : List UInt8 :=
  [x.val, y.val] ++ blanks words ++ 0x20 :: path.val

def StatusRecord.tokens : StatusRecord → List (List UInt8)
  | ordinary x y words path => [text "1 " ++ recordText x y words path]
  | renamed x y words path orig => [text "2 " ++ recordText x y words path, orig]
  | unmerged x y words path => [text "u " ++ recordText x y words path]
  | untracked path => [text "? " ++ path.val]

def renderStatus (h : BranchHeader) (rs : List StatusRecord) : List UInt8 :=
  render (h.tokens ++ rs.flatMap StatusRecord.tokens)

/-- What a reader of the status is told about a file. -/
structure Shown where
  path : List UInt8
  originalPath : List UInt8 := []
  staged : Bool
  unstaged : Bool
  untracked : Bool := false
deriving DecidableEq

def GitChangedFile.shown (f : GitChangedFile) : Shown :=
  ⟨f.path, f.originalPath, f.staged, f.unstaged, f.untracked⟩

def StatusRecord.shown : StatusRecord → Shown
  | ordinary x y _ path | unmerged x y _ path =>
    { path := path, staged := x.val ≠ 0x2e, unstaged := y.val ≠ 0x2e }
  | renamed x y _ path orig =>
    { path := path, originalPath := orig, staged := x.val ≠ 0x2e, unstaged := y.val ≠ 0x2e }
  | untracked path => { path := path, staged := false, unstaged := true, untracked := true }

def BranchHeader.numbers (h : BranchHeader) : Nat × Nat := (h.upstream.bind (·.2)).getD (0, 0)

/-- The status is read back: the branch data, and one file for each record, in order. -/
def ReadsStatus (h : BranchHeader) (rs : List StatusRecord) : Prop :=
  let out := parsePorcelainV2 (renderStatus h rs)
  out.branch = h.head ∧ out.isDetached = decide (h.head.val = text "(detached)") ∧
    out.upstream = (h.upstream.map (·.1.val)).getD [] ∧
    out.ahead = h.numbers.1 ∧ out.behind = h.numbers.2 ∧
    out.files.map GitChangedFile.shown = rs.map StatusRecord.shown

/-- A changed file of a commit; a rename or a copy, and nothing else, has a first path. -/
structure Change where
  oldMode : Word
  newMode : Word
  oldHash : Word
  newHash : Word
  status : Word
  orig : Option Path
  path : Path
  counts : Option (Nat × Nat)
  renames_iff : renames status.val = orig.isSome

namespace Change

variable (c : Change)

def header : List UInt8 :=
  0x3a :: c.oldMode.val ++ blanks [c.newMode, c.oldHash, c.newHash, c.status]

def rawTokens : List (List UInt8) := c.header :: (c.orig.map (·.val)).toList ++ [c.path.val]

/-- The numbers of the added and removed lines; a binary file has none. -/
def numbers : List UInt8 × List UInt8 :=
  match c.counts with
  | none => (text "-", text "-")
  | some (added, removed) => (decimal added, decimal removed)

def countTokens : List (List UInt8) :=
  match c.orig with
  | none => [c.numbers.1 ++ 0x09 :: (c.numbers.2 ++ 0x09 :: c.path.val)]
  | some orig => [c.numbers.1 ++ 0x09 :: (c.numbers.2 ++ [0x09]), orig, c.path]

/-- The entry of the change. -/
def entry : GitCommitFileChange where
  path := c.path
  originalPath := (c.orig.map (·.val)).getD []
  status := c.status
  statusLabel := fileStatusLabel c.status
  added := (c.counts.getD (0, 0)).1
  removed := (c.counts.getD (0, 0)).2
  isBinary := c.counts.isNone

def paths : List (List UInt8) := (c.orig.map (·.val)).toList ++ [c.path.val]

/-- No path of the change has white space at an end, or a tab. -/
def Plain : Prop := ∀ p ∈ c.paths, trimSpace p = p ∧ 0x09 ∉ p

/-- The numbers of the change are integers of 64 bits. -/
def Counted : Prop :=
  (c.counts.getD (0, 0)).1 ≤ 9223372036854775807 ∧ (c.counts.getD (0, 0)).2 ≤ 9223372036854775807

end Change

/-- The changes of a commit.  A path is changed once. -/
structure TreeDiff where
  changes : List Change
  distinct : (changes.map (·.path.val)).Nodup

def renderDiffTree (d : TreeDiff) : List UInt8 :=
  render (d.changes.flatMap Change.rawTokens ++ d.changes.flatMap Change.countTokens)

/-- The files of a commit are read back, one entry for each change. -/
def ReadsDiffTree (d : TreeDiff) : Prop :=
  parseDiffTreeRawCombined (renderDiffTree d) = d.changes.map Change.entry

/-! ## Tokens -/

theorem render_append (s t : List (List UInt8)) : render (s ++ t) = render s ++ render t := by
  simp [render]

theorem render_cons (tok : List UInt8) (tokens : List (List UInt8)) :
    render (tok :: tokens) = tok ++ 0 :: render tokens := by
  simp [render]

theorem splitOn_render {tokens : List (List UInt8)} (h : ∀ tok ∈ tokens, 0 ∉ tok) :
    (render tokens).splitOn 0 = tokens ++ [[]] := by
  induction tokens with
  | nil => rfl
  | cons tok tokens ih =>
    rw [render_cons, List.splitOn_append_cons_self,
      List.splitOn_eq_singleton (h tok List.mem_cons_self),
      ih fun t ht => h t (List.mem_cons_of_mem _ ht)]
    rfl

theorem cutPrefix_append (front : String) (s : List UInt8) :
    cutPrefix front (text front ++ s) = some s := by
  unfold cutPrefix
  induction text front with
  | nil => rfl
  | cons b rest ih =>
    rw [← ih]
    exact if_pos (beq_self_eq_true b)

theorem zero_notMem_of_visible {s : List UInt8} (h : ∀ b ∈ s, isVisible b = true) : 0 ∉ s :=
  fun hmem => absurd (h 0 hmem) (by decide)

theorem zero_notMem_blanks (ws : List Word) : 0 ∉ blanks ws := by
  intro hmem
  obtain ⟨w, -, hw⟩ := List.mem_flatMap.mp hmem
  rcases List.mem_cons.mp hw with hzero | hzero
  · exact absurd hzero (by decide)
  · exact zero_notMem_of_visible w.2.2 hzero

theorem skipFields_blanks {w t : List UInt8} (ws : List Word) (hw : ∀ b ∈ w, isVisible b = true) :
    skipFields (ws.length + 1) (w ++ blanks ws ++ 0x20 :: t) = some t := by
  have hall : ∀ v : List UInt8, (∀ b ∈ v, isVisible b = true) → ∀ b ∈ v, decide (b ≠ 0x20) = true := by
    intro v hv b hb
    exact decide_eq_true fun heq => absurd (heq ▸ hv b hb) (by decide)
  induction ws generalizing w with
  | nil =>
    rw [blanks, List.flatMap_nil, List.append_nil, skipFields,
      List.dropWhile_append_of_pos (hall w hw)]
    rfl
  | cons v ws ih =>
    have hsplit : w ++ blanks (v :: ws) ++ 0x20 :: t =
        w ++ 0x20 :: (v.val ++ blanks ws ++ 0x20 :: t) := by simp [blanks]
    rw [hsplit, List.length_cons, skipFields, List.dropWhile_append_of_pos (hall w hw)]
    exact ih v.2.2

/-! ## The status -/

section Status

variable (s : List UInt8) (tokens : List (List UInt8)) (out : PorcelainV2Result)

theorem parse_ab :
    parseTokens ((text "# branch.ab " ++ s) :: tokens) out = parseTokens tokens (out.branchAb s) :=
  rfl

theorem parse_ordinary :
    parseTokens ((text "1 " ++ s) :: tokens) out =
      parseTokens tokens (out.append (parseOrdinary s)) :=
  rfl

theorem parse_renamed (orig : List UInt8) :
    parseTokens ((text "2 " ++ s) :: orig :: tokens) out =
      parseTokens tokens (out.append (parseRenamed s orig)) :=
  rfl

theorem parse_unmerged :
    parseTokens ((text "u " ++ s) :: tokens) out =
      parseTokens tokens (out.append (parseUnmerged s)) :=
  rfl

theorem parse_untracked :
    parseTokens ((text "? " ++ s) :: tokens) out =
      parseTokens tokens (out.append (makeChangedFile (text "?") (text "?") s [])) :=
  rfl

end Status

theorem letter_visible (l : Letter) : isVisible l.val = true := by
  obtain ⟨b, rfl | hb⟩ := l
  · rfl
  · simp only [UInt8.le_iff_toNat_le] at hb
    simp only [isVisible, UInt8.le_iff_toNat_le, Bool.decide_and, Bool.and_eq_true, decide_eq_true_eq]
    exact ⟨Nat.le_trans (by decide) hb.1, Nat.le_trans hb.2 (by decide)⟩

theorem letter_text (l : Letter) :
    (if l.val = 0x2e then text " " else runeText l.val) = [if l.val = 0x2e then 0x20 else l.val] := by
  obtain ⟨b, rfl | hb⟩ := l
  · rfl
  · have hascii : b < 0x80 := by
      simp only [UInt8.le_iff_toNat_le] at hb
      exact UInt8.lt_iff_toNat_lt.mpr (Nat.lt_of_le_of_lt hb.2 (by decide))
    simp only [runeText, hascii, if_true]
    split <;> rfl

theorem letter_byte (l : Letter) :
    (if l.val = 0x2e then 0x20 else l.val) ≠ (0x3f : UInt8) ∧
      ((if l.val = 0x2e then 0x20 else l.val) = (0x20 : UInt8) ↔ l.val = 0x2e) := by
  obtain ⟨b, rfl | hb⟩ := l
  · exact ⟨by decide, by decide⟩
  · have hother : ∀ c : UInt8, c < 0x41 → b ≠ c := by
      intro c hc heq
      rw [heq, UInt8.le_iff_toNat_le] at hb
      exact absurd (UInt8.lt_iff_toNat_lt.mp hc) (Nat.not_lt.mpr hb.1)
    rw [if_neg (hother 0x2e (by decide))]
    exact ⟨hother _ (by decide), iff_of_false (hother _ (by decide)) (hother _ (by decide))⟩

theorem shown_makeChangedFile (x y : Letter) (path orig : List UInt8) :
    (makeChangedFile (xyChars [x.val, y.val]).1 (xyChars [x.val, y.val]).2 path orig).shown =
      ⟨path, orig, x.val ≠ 0x2e, y.val ≠ 0x2e, false⟩ := by
  have hblank : text " " = [0x20] := rfl
  have hmark : text "?" = [0x3f] := rfl
  have hxy : xyChars [x.val, y.val] =
      ([if x.val = 0x2e then 0x20 else x.val], [if y.val = 0x2e then 0x20 else y.val]) :=
    Prod.ext (letter_text x) (letter_text y)
  obtain ⟨hx, hxdot⟩ := letter_byte x
  obtain ⟨hy, hydot⟩ := letter_byte y
  rw [hxy]
  simp only [GitChangedFile.shown, makeChangedFile, isStaged, isUnstaged, hmark, hblank,
    List.cons.injEq, and_true, hx, hxdot, hydot, false_and, not_false_eq_true, or_false,
    decide_false, ne_eq]

theorem parseRecord_recordText (x y : Letter) (words : List Word) (path : Path) (orig : List UInt8) :
    parseRecord (words.length + 1) (recordText x y words path) orig =
      some (makeChangedFile (xyChars [x.val, y.val]).1 (xyChars [x.val, y.val]).2 path orig) := by
  have hfields := skipFields_blanks (w := [x.val, y.val]) (t := path.val) words (by
    simp [letter_visible])
  rw [parseRecord, recordText, hfields]
  rfl

theorem parse_record (r : StatusRecord) :
    ∃ f : GitChangedFile, f.shown = r.shown ∧
      ∀ tokens out, parseTokens (r.tokens ++ tokens) out =
        parseTokens tokens (out.append (some f)) := by
  cases r with
  | ordinary x y words path =>
    refine ⟨_, shown_makeChangedFile x y path [], fun tokens out => ?_⟩
    have hread := parseRecord_recordText x y words path []
    rw [words.2] at hread
    exact (parse_ordinary _ tokens out).trans (by rw [parseOrdinary, hread])
  | renamed x y words path orig =>
    refine ⟨_, shown_makeChangedFile x y path orig, fun tokens out => ?_⟩
    have hread := parseRecord_recordText x y words path orig.val
    rw [words.2] at hread
    exact (parse_renamed _ tokens out orig.val).trans (by rw [parseRenamed, hread])
  | unmerged x y words path =>
    refine ⟨_, shown_makeChangedFile x y path [], fun tokens out => ?_⟩
    have hread := parseRecord_recordText x y words path []
    rw [words.2] at hread
    exact (parse_unmerged _ tokens out).trans (by rw [parseUnmerged, hread])
  | untracked path => exact ⟨_, rfl, fun tokens out => parse_untracked path.val tokens out⟩

theorem parse_records (rs : List StatusRecord) (out : PorcelainV2Result) :
    ∃ files : List GitChangedFile,
      files.map GitChangedFile.shown = rs.map StatusRecord.shown ∧
        parseTokens (rs.flatMap StatusRecord.tokens ++ [[]]) out =
          { out with files := out.files ++ files } := by
  induction rs generalizing out with
  | nil => exact ⟨[], rfl, by rw [List.append_nil]; rfl⟩
  | cons r rs ih =>
    obtain ⟨f, hshown, hparse⟩ := parse_record r
    obtain ⟨files, hfiles, htail⟩ := ih (out.append (some f))
    refine ⟨f :: files, by rw [List.map_cons, List.map_cons, hshown, hfiles], ?_⟩
    rw [List.flatMap_cons, List.append_assoc, hparse, htail]
    simp [PorcelainV2Result.append]

theorem branchAb_numbers (out : PorcelainV2Result) (a b : Nat) :
    out.branchAb (text "+" ++ decimal a ++ (0x20 :: (text "-" ++ decimal b))) =
      { out with
        ahead := (min a 9223372036854775807 : Nat), behind := (min b 9223372036854775807 : Nat) } := by
  have hsigned : ∀ (c : UInt8) (n : Nat), isVisible c = true → IsWord ([c] ++ decimal n) := by
    intro c n hc
    refine ⟨by simp, fun d hd => ?_⟩
    rcases List.mem_cons.mp hd with rfl | hd
    · exact hc
    · exact (isWord_decimal n).2 d hd
  have hwords := @fields_words (text "+" ++ decimal a) [text "-" ++ decimal b] (by
    intro v hv
    rcases List.mem_cons.mp hv with rfl | hv
    · exact hsigned 0x2b a rfl
    · rw [List.mem_singleton.mp hv]
      exact hsigned 0x2d b rfl)
  rw [List.flatMap_singleton] at hwords
  simp only [PorcelainV2Result.branchAb, hwords, trimPrefix, cutPrefix_append, Option.getD_some,
    atoi_decimal]

/-- The branch data as the parser has them. -/
def BranchHeader.read (h : BranchHeader) : PorcelainV2Result where
  branch := h.head
  isDetached := decide (h.head.val = text "(detached)")
  upstream := (h.upstream.map (·.1.val)).getD []
  ahead := (min h.numbers.1 9223372036854775807 : Nat)
  behind := (min h.numbers.2 9223372036854775807 : Nat)

theorem parse_branch (h : BranchHeader) (tokens : List (List UInt8)) :
    parseTokens (h.tokens ++ tokens) {} = parseTokens tokens h.read := by
  obtain ⟨oid, head, upstream⟩ := h
  rcases upstream with _ | ⟨name, _ | ⟨a, b⟩⟩
  · rfl
  · rfl
  · refine Eq.trans (parse_ab _ tokens _) ?_
    rw [branchAb_numbers]
    rfl

theorem zero_notMem_record (r : StatusRecord) : ∀ tok ∈ r.tokens, 0 ∉ tok := by
  have hpath : ∀ p : Path, 0 ∉ p.val := fun p => p.2.2
  have hletter : ∀ l : Letter, (0 : UInt8) ≠ l.val := fun l heq =>
    absurd (heq ▸ letter_visible l) (by decide)
  have hkind : 0 ∉ text "1 " ∧ 0 ∉ text "2 " ∧ 0 ∉ text "u " ∧ 0 ∉ text "? " := by decide
  cases r <;>
    simp [StatusRecord.tokens, recordText, hpath, hletter, hkind, zero_notMem_blanks]

theorem zero_notMem_branch (h : BranchHeader) : ∀ tok ∈ h.tokens, 0 ∉ tok := by
  have hpath : ∀ p : Path, 0 ∉ p.val := fun p => p.2.2
  have hword : ∀ {w : List UInt8}, IsWord w → 0 ∉ w := fun hw => zero_notMem_of_visible hw.2
  have htext : 0 ∉ text "# branch.oid " ∧ 0 ∉ text "# branch.head " ∧
      0 ∉ text "# branch.upstream " ∧ 0 ∉ text "# branch.ab " ∧ 0 ∉ text "+" ∧ 0 ∉ text "-" := by
    decide
  obtain ⟨oid, head, upstream⟩ := h
  rcases upstream with _ | ⟨name, _ | ⟨a, b⟩⟩ <;>
    simp [BranchHeader.tokens, hpath, hword oid.2, hword (isWord_decimal _), htext]

/-- **The status is read back if and only if its numbers are integers of 64 bits.** -/
theorem readsStatus_iff (h : BranchHeader) (rs : List StatusRecord) :
    ReadsStatus h rs ↔
      h.numbers.1 ≤ 9223372036854775807 ∧ h.numbers.2 ≤ 9223372036854775807 := by
  have hzero : ∀ tok ∈ h.tokens ++ rs.flatMap StatusRecord.tokens, 0 ∉ tok := by
    simp only [List.mem_append, List.mem_flatMap]
    rintro tok (htok | ⟨r, -, htok⟩)
    · exact zero_notMem_branch h tok htok
    · exact zero_notMem_record r tok htok
  obtain ⟨files, hfiles, hparse⟩ := parse_records rs h.read
  have hread : parsePorcelainV2 (renderStatus h rs) = { h.read with files := files } := by
    rw [parsePorcelainV2, renderStatus, splitOn_render hzero, List.append_assoc, parse_branch,
      hparse]
    rfl
  simp only [ReadsStatus, hread, BranchHeader.read, hfiles, and_true, true_and]
  omega

/-! ## The files of a commit -/

/-- The tokens are cut in front of the first one with a tab. -/
def noTab (tok : List UInt8) : Bool := 0x09 ∉ tok

theorem tabOffset_tokens (offset : Nat) (tokens : List (List UInt8)) :
    tabOffset offset (tokens ++ [[]]) =
      if tokens.dropWhile noTab = [] then none
      else some (offset + (render (tokens.takeWhile noTab)).length) := by
  induction tokens generalizing offset with
  | nil => rfl
  | cons tok tokens ih =>
    by_cases htab : 0x09 ∈ tok
    · simp [tabOffset, noTab, htab, render]
    · rw [List.cons_append, tabOffset, if_neg htab, ih,
        List.dropWhile_cons_of_pos (by simpa [noTab] using htab),
        List.takeWhile_cons_of_pos (by simpa [noTab] using htab), render_cons]
      simp only [List.length_append, List.length_cons]
      exact ite_congr rfl (fun _ => rfl) fun _ => congrArg some (by omega)

theorem applyNumstat_render {tokens : List (List UInt8)} (h : ∀ tok ∈ tokens, 0 ∉ tok)
    (files : List GitCommitFileChange) :
    applyNumstat files (render tokens) = numstatTokens (tokens ++ [[]]) files := by
  cases tokens with
  | nil => rfl
  | cons tok tokens =>
    rw [applyNumstat, if_pos (by simp [render_cons]), splitOn_render h]

theorem parse_render {tokens : List (List UInt8)} (h : ∀ tok ∈ tokens, 0 ∉ tok) :
    parseDiffTreeRawCombined (render tokens) =
      numstatTokens (tokens.dropWhile noTab ++ [[]])
        (rawStatus (tokens.takeWhile noTab ++ [[]])) := by
  have hparts : splitNameStatusNumstat (render tokens) =
      (render (tokens.takeWhile noTab), render (tokens.dropWhile noTab)) := by
    have hwhole := congrArg render (List.takeWhile_append_dropWhile (p := noTab) (l := tokens))
    rw [render_append] at hwhole
    rw [splitNameStatusNumstat, splitOn_render h, tabOffset_tokens]
    by_cases hnone : tokens.dropWhile noTab = []
    · have hnil : render [] = [] := rfl
      rw [hnone, hnil, List.append_nil] at hwhole
      rw [if_pos hnone, hnone, hnil, hwhole]
    · rw [if_neg hnone, ← hwhole]
      simp
  have hsub : ∀ tok ∈ tokens.takeWhile noTab ++ tokens.dropWhile noTab, 0 ∉ tok := by
    rwa [List.takeWhile_append_dropWhile]
  rw [parseDiffTreeRawCombined, hparts]
  simp only [parseDiffTreeRawStatus]
  rw [splitOn_render fun tok htok => hsub tok (List.mem_append_left _ htok),
    applyNumstat_render fun tok htok => hsub tok (List.mem_append_right _ htok)]

/-- What the numbers leave of a file. -/
def GitCommitFileChange.names (f : GitCommitFileChange) : List UInt8 × List UInt8 :=
  (f.path, f.originalPath)

theorem names_applyNumstatEntry (files : List GitCommitFileChange) (p a r : List UInt8) :
    (applyNumstatEntry files p a r).map GitCommitFileChange.names =
      files.map GitCommitFileChange.names := by
  have hset : ∀ q fs, (setNumbers q a r fs).map GitCommitFileChange.names =
      fs.map GitCommitFileChange.names := by
    intro q fs
    induction fs with
    | nil => rfl
    | cons f fs ih =>
      rw [setNumbers]
      split
      · rfl
      · rw [List.map_cons, List.map_cons, ih]
  unfold applyNumstatEntry
  split
  · rfl
  · exact hset _ _

theorem names_numstatTokens (tokens : List (List UInt8)) (files : List GitCommitFileChange) :
    (numstatTokens tokens files).map GitCommitFileChange.names =
      files.map GitCommitFileChange.names := by
  fun_induction numstatTokens tokens files <;> simp_all [names_applyNumstatEntry]

theorem trimmed_rawStatus (tokens : List (List UInt8)) :
    ∀ f ∈ rawStatus tokens, trimSpace f.path = f.path ∧ trimSpace f.originalPath = f.originalPath := by
  have hlisted : ∀ p q status, ∀ f ∈ listed (trimSpace p) q status, trimSpace q = q →
      trimSpace f.path = f.path ∧ trimSpace f.originalPath = f.originalPath := by
    intro p q status f hf hq
    unfold listed at hf
    split at hf
    · exact absurd hf List.not_mem_nil
    · rw [List.mem_singleton.mp hf]
      exact ⟨trimSpace_trimSpace p, hq⟩
  have hnil : trimSpace [] = [] := rfl
  fun_induction rawStatus tokens with
  | case1 => exact fun f hf => absurd hf List.not_mem_nil
  | case2 _ _ _ ih => exact ih
  | case3 => exact fun f hf => absurd hf List.not_mem_nil
  | case4 => exact fun f hf => hlisted _ _ _ f hf hnil
  | case5 _ _ _ _ _ _ _ ih =>
    intro f hf
    rcases List.mem_append.mp hf with hf | hf
    · exact hlisted _ _ _ f hf (trimSpace_trimSpace _)
    · exact ih f hf
  | case6 _ _ _ _ _ _ ih =>
    intro f hf
    rcases List.mem_append.mp hf with hf | hf
    · exact hlisted _ _ _ f hf hnil
    · exact ih f hf

namespace Change

variable (c : Change)

/-- The entry of the change before the numbers are known. -/
def bare : GitCommitFileChange where
  path := c.path
  originalPath := (c.orig.map (·.val)).getD []
  status := c.status
  statusLabel := fileStatusLabel c.status

/-- The entry of the change as the parser has it. -/
def read : GitCommitFileChange :=
  { c.bare with
    added := atoi c.numbers.1, removed := atoi c.numbers.2
    isBinary := c.numbers.1 = text "-" || c.numbers.2 = text "-" }

theorem header_status :
    noTab c.header = true ∧ (fields (trimSpace c.header)).getLast? = some c.status.val := by
  have hfirst : IsWord (0x3a :: c.oldMode.val) :=
    ⟨by simp, fun b hb => (List.mem_cons.mp hb).elim (fun h => h ▸ rfl) (c.oldMode.2.2 b)⟩
  have htrim := trimSpace_between (t := blanks [c.newMode, c.oldHash, c.newHash] ++ [0x20])
    hfirst c.status.2
  have hheader : c.header = 0x3a :: c.oldMode.val ++
      (blanks [c.newMode, c.oldHash, c.newHash] ++ [0x20]) ++ c.status.val := by
    simp [header, blanks]
  have hfields := @fields_words (0x3a :: c.oldMode.val)
    [c.newMode.val, c.oldHash.val, c.newHash.val, c.status.val] (by
      intro v hv
      simp only [List.mem_cons, List.not_mem_nil, or_false] at hv
      rcases hv with rfl | rfl | rfl | rfl | rfl
      · exact hfirst
      · exact c.newMode.2
      · exact c.oldHash.2
      · exact c.newHash.2
      · exact c.status.2)
  have hword : ∀ w : Word, 0x09 ∉ w.val := fun w hmem => absurd (w.2.2 _ hmem) (by decide)
  refine ⟨by simp [noTab, header, blanks, hword], ?_⟩
  rw [hheader, htrim, ← hheader]
  exact (congrArg List.getLast? hfields).trans (by simp)

variable {c}

theorem rawStatus_record {tokens : List (List UInt8)} (h : ∀ p ∈ c.paths, trimSpace p = p) :
    rawStatus (c.rawTokens ++ tokens) = c.bare :: rawStatus tokens := by
  obtain ⟨-, hstatus⟩ := c.header_status
  have hpath : trimSpace c.path.val = c.path.val := h _ (by simp [paths])
  have hrenames := c.renames_iff
  rw [rawTokens]
  cases horig : c.orig with
  | none =>
    simp [rawStatus, hstatus, hrenames, horig, hpath, listed, c.path.2.1, bare]
  | some orig =>
    have htrim : trimSpace orig.val = orig.val := h _ (by simp [paths, horig])
    simp [rawStatus, hstatus, hrenames, horig, hpath, htrim, listed, c.path.2.1, bare]

theorem rawStatus_cut {tokens : List (List UInt8)} (h : ∃ p ∈ c.paths, 0x09 ∈ p) :
    rawStatus ((c.rawTokens ++ tokens).takeWhile noTab ++ [[]]) = [] := by
  obtain ⟨hheader, hstatus⟩ := c.header_status
  have hnil : trimSpace [] = [] := rfl
  have hrenames := c.renames_iff
  rw [rawTokens]
  cases horig : c.orig with
  | none =>
    have htab : noTab c.path.val = false := by simpa [paths, horig, noTab] using h
    simp [rawStatus, hheader, hstatus, hrenames, horig, htab, hnil, listed]
  | some orig =>
    cases hfirst : noTab orig.val with
    | false => simp [rawStatus, hheader, hstatus, hfirst, hnil, listed]
    | true =>
      have horiginal : 0x09 ∉ orig.val := by simpa [noTab] using hfirst
      have htab : noTab c.path.val = false := by simpa [paths, horig, noTab, horiginal] using h
      simp [rawStatus, hheader, hstatus, hrenames, horig, hfirst, htab, hnil,
        listed]

theorem numbers_word (c : Change) : IsWord c.numbers.1 ∧ IsWord c.numbers.2 := by
  unfold numbers
  split
  · exact ⟨by decide, by decide⟩
  · exact ⟨isWord_decimal _, isWord_decimal _⟩

theorem numstatTokens_record {tokens : List (List UInt8)} {files : List GitCommitFileChange}
    (h : trimSpace c.path.val = c.path.val) :
    numstatTokens (c.countTokens ++ tokens) files =
      numstatTokens tokens (setNumbers c.path.val c.numbers.1 c.numbers.2 files) := by
  obtain ⟨hadded, hremoved⟩ := c.numbers_word
  have htab : ∀ {w : List UInt8}, IsWord w → 0x09 ∉ w := fun hw hmem =>
    absurd (hw.2 _ hmem) (by decide)
  have hentry : applyNumstatEntry files c.path.val c.numbers.1 c.numbers.2 =
      setNumbers c.path.val c.numbers.1 c.numbers.2 files := by
    rw [applyNumstatEntry, h, if_neg c.path.2.1]
  rw [countTokens]
  cases c.orig with
  | none =>
    have htrim : trimSpace (c.numbers.1 ++ 0x09 :: (c.numbers.2 ++ 0x09 :: c.path.val)) =
        c.numbers.1 ++ 0x09 :: (c.numbers.2 ++ 0x09 :: c.path.val) := by
      have hjoin := trimSpace_tab (u := 0x09 :: c.numbers.2) hadded h c.path.2.1
      simpa using hjoin
    have hsplit : splitN 0x09 3 (c.numbers.1 ++ 0x09 :: (c.numbers.2 ++ 0x09 :: c.path.val)) =
        [c.numbers.1, c.numbers.2, c.path.val] := by
      rw [splitN_cons (htab hadded), splitN_cons (htab hremoved), splitN]
    rw [List.singleton_append, numstatTokens, htrim, if_neg (by simp), hsplit]
    simp only [h, hentry]
  | some orig =>
    have hsplit : splitN 0x09 3 (c.numbers.1 ++ 0x09 :: c.numbers.2) =
        [c.numbers.1, c.numbers.2] := by
      rw [splitN_cons (htab hadded), splitN_word (htab hremoved)]
    rw [List.cons_append, numstatTokens, trimSpace_concat_tab hadded hremoved, if_neg (by simp),
      hsplit]
    simp only [List.cons_append, List.nil_append, h, hentry]

theorem read_eq_entry_iff : c.read = c.entry ↔ c.Counted := by
  have hbytes : ∀ n, decimal n ≠ text "-" := fun n heq => by
    have hmem : (0x2d : UInt8) ∈ decimal n := heq ▸ by decide
    exact notMem_decimal (by decide) hmem
  have hminus : atoi (text "-") = 0 := rfl
  have hclamp : ∀ n : Nat, ((min n 9223372036854775807 : Nat) : Int) = n ↔
      n ≤ 9223372036854775807 := by omega
  cases hcounts : c.counts with
  | none => simp [read, entry, bare, Counted, numbers, hcounts, hminus]
  | some counts =>
    simp [read, entry, bare, Counted, numbers, hcounts, atoi_decimal, hbytes, hclamp]

end Change

theorem rawStatus_changes {cs : List Change} {counts : List (List UInt8)}
    (htrim : ∀ c ∈ cs, ∀ p ∈ c.paths, trimSpace p = p) (hcounts : counts.takeWhile noTab = []) :
    ((∀ c ∈ cs, c.Plain) →
        rawStatus ((cs.flatMap Change.rawTokens ++ counts).takeWhile noTab ++ [[]]) =
          cs.map Change.bare) ∧
      ((rawStatus ((cs.flatMap Change.rawTokens ++ counts).takeWhile noTab ++ [[]])).length =
        cs.length → ∀ c ∈ cs, c.Plain) := by
  induction cs with
  | nil =>
    rw [List.flatMap_nil, List.nil_append, hcounts]
    exact ⟨fun _ => rfl, fun _ c hc => absurd hc List.not_mem_nil⟩
  | cons c cs ih =>
    obtain ⟨hplain, hlength⟩ := ih fun d hd => htrim d (List.mem_cons_of_mem _ hd)
    have hc := htrim c List.mem_cons_self
    rw [List.flatMap_cons, List.append_assoc]
    by_cases htab : ∃ p ∈ c.paths, 0x09 ∈ p
    · rw [Change.rawStatus_cut htab]
      obtain ⟨p, hp, hmem⟩ := htab
      refine ⟨fun hall => absurd hmem (hall c List.mem_cons_self p hp).2, fun hzero => ?_⟩
      exact absurd hzero (by simp)
    · have hfree : ∀ p ∈ c.paths, 0x09 ∉ p := fun p hp hmem => htab ⟨p, hp, hmem⟩
      have hnone : ∀ tok ∈ c.rawTokens, noTab tok = true := by
        intro tok htok
        rcases List.mem_cons.mp htok with rfl | hpath
        · exact c.header_status.1
        · simpa [noTab] using hfree tok hpath
      rw [List.takeWhile_append_of_pos hnone, List.append_assoc, Change.rawStatus_record hc]
      refine ⟨fun hall => ?_, fun hlen d hd => ?_⟩
      · rw [hplain fun d hd => hall d (List.mem_cons_of_mem _ hd), List.map_cons]
      · rcases List.mem_cons.mp hd with rfl | hd
        · exact fun p hp => ⟨hc p hp, hfree p hp⟩
        · exact hlength (by simpa using hlen) d hd

theorem setNumbers_append {done files : List GitCommitFileChange} {c : Change}
    (h : ∀ f ∈ done, f.path ≠ c.path.val) :
    setNumbers c.path.val c.numbers.1 c.numbers.2 (done ++ c.bare :: files) =
      done ++ c.read :: files := by
  induction done with
  | nil => simp [setNumbers, Change.bare, Change.read]
  | cons f done ih =>
    rw [List.cons_append, setNumbers, if_neg (h f List.mem_cons_self),
      ih fun g hg => h g (List.mem_cons_of_mem _ hg), List.cons_append]

theorem numstatTokens_changes {cs : List Change} {done : List GitCommitFileChange}
    (htrim : ∀ c ∈ cs, trimSpace c.path.val = c.path.val) (hnodup : (cs.map (·.path.val)).Nodup)
    (hdone : ∀ f ∈ done, ∀ c ∈ cs, f.path ≠ c.path.val) :
    numstatTokens (cs.flatMap Change.countTokens ++ [[]]) (done ++ cs.map Change.bare) =
      done ++ cs.map Change.read := by
  induction cs generalizing done with
  | nil => rfl
  | cons c cs ih =>
    obtain ⟨hnew, hrest⟩ := List.nodup_cons.mp hnodup
    rw [List.flatMap_cons, List.append_assoc, List.map_cons,
      Change.numstatTokens_record (htrim c List.mem_cons_self),
      setNumbers_append fun f hf => hdone f hf c List.mem_cons_self]
    have htail := @ih (done ++ [c.read]) (fun d hd => htrim d (List.mem_cons_of_mem _ hd)) hrest
      (by
        intro f hf d hd
        rcases List.mem_append.mp hf with hf | hf
        · exact hdone f hf d (List.mem_cons_of_mem _ hd)
        · rw [List.mem_singleton.mp hf]
          exact fun heq => hnew (List.mem_map.mpr ⟨d, hd, heq.symm⟩))
    simpa using htail

theorem zero_notMem_change (c : Change) : ∀ tok ∈ c.rawTokens ++ c.countTokens, 0 ∉ tok := by
  have hword : ∀ {w : List UInt8}, IsWord w → 0 ∉ w := fun hw => zero_notMem_of_visible hw.2
  have hpath : ∀ p : Path, 0 ∉ p.val := fun p => p.2.2
  rw [Change.rawTokens, Change.countTokens]
  cases c.orig <;>
    simp [Change.header, zero_notMem_blanks, hword c.oldMode.2, hpath, hword c.numbers_word.1,
      hword c.numbers_word.2]

theorem counts_takeWhile (cs : List Change) :
    (cs.flatMap Change.countTokens).takeWhile noTab = [] := by
  cases cs with
  | nil => rfl
  | cons c cs =>
    rw [List.flatMap_cons, Change.countTokens]
    cases c.orig <;> simp [noTab]

/-- **The files of a commit are read back if and only if no path has white space at an end,
or a tab, and the numbers of lines are integers of 64 bits.** -/
theorem readsDiffTree_iff (d : TreeDiff) :
    ReadsDiffTree d ↔ ∀ c ∈ d.changes, c.Plain ∧ c.Counted := by
  obtain ⟨cs, hnodup⟩ := d
  have hzero : ∀ tok ∈ cs.flatMap Change.rawTokens ++ cs.flatMap Change.countTokens, 0 ∉ tok := by
    simp only [List.mem_append, List.mem_flatMap]
    rintro tok (⟨c, -, htok⟩ | ⟨c, -, htok⟩)
    · exact zero_notMem_change c tok (List.mem_append_left _ htok)
    · exact zero_notMem_change c tok (List.mem_append_right _ htok)
  rw [ReadsDiffTree, renderDiffTree, parse_render hzero]
  have hall : (∀ c ∈ cs, c.Plain) →
      numstatTokens
          ((cs.flatMap Change.rawTokens ++ cs.flatMap Change.countTokens).dropWhile noTab ++ [[]])
          (rawStatus ((cs.flatMap Change.rawTokens ++
            cs.flatMap Change.countTokens).takeWhile noTab ++ [[]])) = cs.map Change.read := by
    intro hplain
    have htrim : ∀ c ∈ cs, ∀ p ∈ c.paths, trimSpace p = p := fun c hc p hp => (hplain c hc p hp).1
    have hraw : ∀ tok ∈ cs.flatMap Change.rawTokens, noTab tok = true := by
      intro tok htok
      obtain ⟨c, hc, htok⟩ := List.mem_flatMap.mp htok
      rcases List.mem_cons.mp htok with rfl | hpath
      · exact c.header_status.1
      · simpa [noTab] using (hplain c hc tok hpath).2
    have hdrop : (cs.flatMap Change.countTokens).dropWhile noTab = cs.flatMap Change.countTokens := by
      have hwhole := List.takeWhile_append_dropWhile (p := noTab) (l := cs.flatMap Change.countTokens)
      rwa [counts_takeWhile, List.nil_append] at hwhole
    rw [(rawStatus_changes htrim (counts_takeWhile cs)).1 hplain,
      List.dropWhile_append_of_pos hraw, hdrop]
    exact @numstatTokens_changes _ [] (fun c hc => htrim c hc _ (by simp [Change.paths]))
      hnodup fun f hf => absurd hf List.not_mem_nil
  constructor
  · intro hreads
    have hnames := congrArg (List.map GitCommitFileChange.names) hreads
    rw [names_numstatTokens, List.map_map] at hnames
    have htrim : ∀ c ∈ cs, ∀ p ∈ c.paths, trimSpace p = p := by
      intro c hc p hp
      obtain ⟨f, hf, hname⟩ := List.mem_map.mp
        (hnames ▸ List.mem_map_of_mem (f := GitCommitFileChange.names ∘ Change.entry) hc)
      obtain ⟨hpath, horiginal⟩ := Prod.mk.inj hname
      obtain ⟨hfpath, hforiginal⟩ := trimmed_rawStatus _ f hf
      rw [hpath] at hfpath
      rw [horiginal] at hforiginal
      cases horig : c.orig with
      | none =>
        obtain rfl : p = c.path.val := by simpa [Change.paths, horig] using hp
        exact hfpath
      | some orig =>
        have hcases : p = orig.val ∨ p = c.path.val := by simpa [Change.paths, horig] using hp
        rcases hcases with rfl | rfl
        · simpa [Change.entry, horig] using hforiginal
        · exact hfpath
    have hplain := (rawStatus_changes htrim (counts_takeWhile cs)).2
      (by simpa using congrArg List.length hnames)
    rw [hall hplain] at hreads
    exact fun c hc => ⟨hplain c hc, Change.read_eq_entry_iff.mp (List.map_inj_left.mp hreads c hc)⟩
  · intro h
    rw [hall fun c hc => (h c hc).1]
    exact List.map_inj_left.mpr fun c hc => Change.read_eq_entry_iff.mpr (h c hc).2

/-- **Git's output is read back exactly if and only if no path of a commit has white space at
an end, or a tab, and every number is an integer of 64 bits.** -/
theorem readBack_iff (h : BranchHeader) (rs : List StatusRecord) (d : TreeDiff) :
    ReadsStatus h rs ∧ ReadsDiffTree d ↔
      (h.numbers.1 ≤ 9223372036854775807 ∧ h.numbers.2 ≤ 9223372036854775807) ∧
        ∀ c ∈ d.changes, c.Plain ∧ c.Counted :=
  and_congr (readsStatus_iff h rs) (readsDiffTree_iff d)

/-- A commit that adds a file of one line. -/
def addition (path : Path) : TreeDiff where
  changes :=
    [{ oldMode := ⟨text "000000", by decide⟩, newMode := ⟨text "100644", by decide⟩
       oldHash := ⟨text "0000000", by decide⟩, newHash := ⟨text "5626abf", by decide⟩
       status := ⟨text "A", by decide⟩, orig := none, path, counts := some (1, 0)
       renames_iff := rfl }]
  distinct := List.pairwise_singleton _ _

/-- A file whose name ends with a blank is shown under another name. -/
theorem trailing_blank_lost :
    ¬ ∀ (h : BranchHeader) (rs : List StatusRecord) (d : TreeDiff),
      ReadsStatus h rs ∧ ReadsDiffTree d := by
  intro hall
  have hreads := (hall ⟨⟨text "5626abf", by decide⟩, ⟨text "main", by decide⟩, none⟩ []
    (addition ⟨text "notes ", by decide⟩)).2
  exact absurd (congrArg (List.map (·.path)) hreads) (by decide +kernel)

end GitParser

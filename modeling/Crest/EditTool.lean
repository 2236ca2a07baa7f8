import Crest.EditMatches
import Crest.Utf16Cut

/-!
# The edit tool

The tool reads a file, strips the byte order mark, edits the content with LF line endings, and
writes it back with the kind of line ending that it met first.  What it writes is the content it
edits with one region replaced for each edit.  That content is the file where the file has one kind
of line ending and no edit needs the fuzzy form.
-/

namespace EditTool

open EditDiff Splices

/-- What goes on around one call: the abort signal at each of its checks, and the operations that
fail. -/
structure Environment where
  aborted : Nat → Bool
  access : Option String
  readFile : Option String
  writeFile : Option String

/-- `execute`: its result, and the bytes it handed to `writeFile`. -/
def execute
    (nfkc : JsString → JsString) (environment : Environment) (file : List UInt8) (path : String)
    (edits : List Edit) :
    Except String String × Option (List UInt8) :=
  if edits.isEmpty then
    (.error "Edit tool input is invalid. edits must contain at least one replacement.", none)
  else if environment.aborted 0 then (.error "Operation aborted", none)
  else
    match environment.access with
    | some errorMessage =>
      if environment.aborted 1 then (.error "Operation aborted", none)
      else (.error s!"Could not edit file: {path}. {errorMessage}.", none)
    | none =>
      if environment.aborted 1 then (.error "Operation aborted", none)
      else
        match environment.readFile with
        | some error => (.error error, none)
        | none =>
          if environment.aborted 2 then (.error "Operation aborted", none)
          else
            let (bom, content) := stripBom (JsString.fromUtf8 file)
            let originalEnding := detectLineEnding content
            match applyEditsToNormalizedContent nfkc (normalizeToLF content) edits path with
            | .error error => (.error error, none)
            | .ok applied =>
              if environment.aborted 3 then (.error "Operation aborted", none)
              else
                let finalContent := bom ++ restoreLineEndings applied.newContent originalEnding
                match environment.writeFile with
                | some error => (.error error, some (JsString.utf8 finalContent))
                | none =>
                  if environment.aborted 4 then
                    (.error "Operation aborted", some (JsString.utf8 finalContent))
                  else
                    (.ok s!"Successfully replaced {edits.length} block(s) in {path}.",
                      some (JsString.utf8 finalContent))

/-- The file after a call whose write was not cut short. -/
def fileAfter (file : List UInt8) (result : Except String String × Option (List UInt8)) :
    List UInt8 :=
  result.2.getD file

section Writes

variable {nfkc : JsString → JsString} {environment : Environment} {file bytes : List UInt8}
  {path : String} {edits : List Edit}

theorem execute_write (h : (execute nfkc environment file path edits).2 = some bytes) :
    ∃ applied, applyEditsToNormalizedContent nfkc
        (normalizeToLF (stripBom (JsString.fromUtf8 file)).2) edits path = .ok applied ∧
      bytes = JsString.utf8 ((stripBom (JsString.fromUtf8 file)).1 ++
        restoreLineEndings applied.newContent
          (detectLineEnding (stripBom (JsString.fromUtf8 file)).2)) := by
  rw [execute] at h
  generalize stripBom (JsString.fromUtf8 file) = stripped at h ⊢
  split at h
  · cases h
  split at h
  · cases h
  split at h
  · split at h <;> cases h
  split at h
  · cases h
  split at h
  · cases h
  split at h
  · cases h
  dsimp only at h
  split at h
  · cases h
  rename_i applied happlied
  refine ⟨applied, happlied, ?_⟩
  split at h
  · cases h
  split at h
  · cases h
    rfl
  · split at h <;> (cases h; rfl)

theorem execute_ok {message : String}
    (h : (execute nfkc environment file path edits).1 = .ok message) :
    (execute nfkc environment file path edits).2 ≠ none := by
  generalize hresult : execute nfkc environment file path edits = result at h ⊢
  have herror : ∀ (error : String) (written : Option (List UInt8)),
      (.error error, written) = result → False := by
    intro error written heq
    rw [← heq] at h
    cases h
  rw [execute] at hresult
  generalize stripBom (JsString.fromUtf8 file) = stripped at hresult
  split at hresult
  · exact (herror _ _ hresult).elim
  split at hresult
  · exact (herror _ _ hresult).elim
  split at hresult
  · split at hresult <;> exact (herror _ _ hresult).elim
  split at hresult
  · exact (herror _ _ hresult).elim
  split at hresult
  · exact (herror _ _ hresult).elim
  split at hresult
  · exact (herror _ _ hresult).elim
  dsimp only at hresult
  split at hresult
  · exact (herror _ _ hresult).elim
  split at hresult
  · exact (herror _ _ hresult).elim
  split at hresult
  · exact (herror _ _ hresult).elim
  split at hresult
  · exact (herror _ _ hresult).elim
  · rw [← hresult]
    simp

theorem execute_congr {edits' : List Edit} (hlength : edits'.length = edits.length)
    (h : applyEditsToNormalizedContent nfkc
        (normalizeToLF (stripBom (JsString.fromUtf8 file)).2) edits' path =
      applyEditsToNormalizedContent nfkc
        (normalizeToLF (stripBom (JsString.fromUtf8 file)).2) edits path) :
    execute nfkc environment file path edits' = execute nfkc environment file path edits := by
  have hempty : edits'.isEmpty = edits.isEmpty := by
    cases edits <;> cases edits' <;> simp_all
  rw [execute, execute, hempty, hlength]
  dsimp only
  rw [h]

end Writes

section LineEndings

/-- The units of a line ending. -/
def lineBreak : LineEnding → JsString
  | .lf => [0x0A]
  | .crlf => [0x0D, 0x0A]

/-- A content whose line breaks are all of one kind. -/
def Uniform (ending : LineEnding) (content : JsString) : Prop :=
  ∃ lines : List JsString, (∀ line ∈ lines, 0x0A ∉ line ∧ 0x0D ∉ line) ∧
    content = (lineBreak ending).intercalate lines

theorem restoreLineEndings_append (a b : JsString) (ending : LineEnding) :
    restoreLineEndings (a ++ b) ending =
      restoreLineEndings a ending ++ restoreLineEndings b ending := by
  cases ending with
  | lf => rfl
  | crlf => exact List.flatMap_append

theorem restoreLineEndings_line {line : JsString} (h : 0x0A ∉ line) (ending : LineEnding) :
    restoreLineEndings line ending = line := by
  cases ending with
  | lf => rfl
  | crlf =>
    induction line with
    | nil => rfl
    | cons u line ih =>
      rw [List.mem_cons, not_or] at h
      have hrest := ih h.2
      rw [restoreLineEndings] at hrest ⊢
      rw [List.flatMap_cons, hrest, if_neg (Ne.symm h.1)]
      rfl

theorem replaceCrLf_append {line : JsString} (h : 0x0D ∉ line) (rest : JsString) :
    replaceCrLf (line ++ rest) = line ++ replaceCrLf rest := by
  induction line with
  | nil => rfl
  | cons u line ih =>
    rw [List.mem_cons, not_or] at h
    rw [List.cons_append, List.cons_append, ← ih h.2]
    cases hrest : line ++ rest with
    | nil => rfl
    | cons v rest' =>
      rw [replaceCrLf, if_neg]
      exact fun hu => h.1 hu.1.symm

theorem replaceUnits_line {line : JsString} (h : 0x0D ∉ line) :
    replaceUnits [0x0D] 0x0A line = line := by
  rw [replaceUnits]
  conv_rhs => rw [← List.map_id line]
  refine List.map_congr_left fun u hu => ?_
  have hne : u ≠ 0x0D := fun heq => h (heq ▸ hu)
  simp [hne]

theorem normalizeToLF_append {line : JsString} (h : 0x0D ∉ line) (rest : JsString) :
    normalizeToLF (line ++ rest) = line ++ normalizeToLF rest := by
  rw [normalizeToLF, replaceCrLf_append h, replaceUnits, List.map_append, ← replaceUnits,
    replaceUnits_line h]
  rfl

theorem normalizeToLF_line {line : JsString} (h : 0x0D ∉ line) : normalizeToLF line = line := by
  have hline := normalizeToLF_append h []
  have hnil : normalizeToLF [] = [] := rfl
  rwa [List.append_nil, hnil, List.append_nil] at hline

theorem normalizeToLF_lineBreak (ending : LineEnding) (rest : JsString) :
    normalizeToLF (lineBreak ending ++ rest) = 0x0A :: normalizeToLF rest := by
  cases ending with
  | lf => exact normalizeToLF_append (by decide) rest
  | crlf =>
    rw [normalizeToLF, lineBreak, List.cons_append, List.cons_append, List.nil_append,
      replaceCrLf, if_pos ⟨rfl, rfl⟩]
    rfl

theorem restoreLineEndings_break (ending : LineEnding) :
    restoreLineEndings [0x0A] ending = lineBreak ending := by
  cases ending <;> rfl

theorem indexOf_append {u : UInt16} {pattern front : JsString} (h : u ∉ front)
    (rest : JsString) :
    indexOf (u :: pattern) (front ++ rest) =
      (indexOf (u :: pattern) rest).map (front.length + ·) := by
  induction front with
  | nil => simp
  | cons v front ih =>
    rw [List.mem_cons, not_or] at h
    have hne : (u :: pattern).isPrefixOf (v :: (front ++ rest)) = false := by
      rw [List.isPrefixOf, beq_eq_false_iff_ne.mpr h.1, Bool.false_and]
    rw [List.cons_append, indexOf, hne, ih h.2]
    cases indexOf (u :: pattern) rest with
    | none => rfl
    | some i =>
      simp only [Option.map_some, List.length_cons, Bool.false_eq_true, if_false,
        Option.some.injEq]
      omega

theorem detectLineEnding_append {line : JsString} (h : 0x0A ∉ line ∧ 0x0D ∉ line)
    (ending : LineEnding) {rest : JsString} (hrest : ending = .lf → 0x0D ∉ rest) :
    detectLineEnding (line ++ (lineBreak ending ++ rest)) = ending := by
  cases ending with
  | lf =>
    have hnone : indexOf [0x0D, 0x0A] (line ++ (lineBreak .lf ++ rest)) = none := by
      by_contra hne
      obtain ⟨i, hi⟩ := Option.ne_none_iff_exists'.mp hne
      have htake : ((line ++ (lineBreak .lf ++ rest)).drop i).take 2 = [0x0D, 0x0A] :=
        (indexOf_spec hi).2
      have hmem : (0x0D : UInt16) ∈ line ++ (lineBreak .lf ++ rest) := by
        refine List.mem_of_mem_drop (i := i) (List.mem_of_mem_take (i := 2) ?_)
        rw [htake]
        exact List.mem_cons_self
      rcases List.mem_append.mp hmem with hline | hmem
      · exact h.2 hline
      rcases List.mem_append.mp hmem with hbreak | hmem
      · exact absurd hbreak (by decide)
      · exact hrest rfl hmem
    rw [detectLineEnding, hnone, indexOf_append h.1]
    rfl
  | crlf =>
    have hlf : indexOf [0x0A] (lineBreak .crlf ++ rest) = some 1 := by
      simp [lineBreak, indexOf]
    have hcrlf : indexOf [0x0D, 0x0A] (lineBreak .crlf ++ rest) = some 0 := by
      simp [lineBreak, indexOf]
    rw [detectLineEnding, indexOf_append h.1, indexOf_append h.2, hlf, hcrlf]
    simp

theorem normalizeToLF_intercalate (ending : LineEnding) {lines : List JsString}
    (h : ∀ line ∈ lines, 0x0A ∉ line ∧ 0x0D ∉ line) :
    normalizeToLF ((lineBreak ending).intercalate lines) = [0x0A].intercalate lines := by
  induction lines with
  | nil => rfl
  | cons line lines ih =>
    have hline := (h line List.mem_cons_self).2
    cases lines with
    | nil => rw [List.intercalate_singleton, List.intercalate_singleton, normalizeToLF_line hline]
    | cons next lines =>
      rw [List.intercalate_cons_cons, List.intercalate_cons_cons, List.append_assoc,
        normalizeToLF_append hline, normalizeToLF_lineBreak,
        ih fun line' hline' => h line' (List.mem_cons_of_mem _ hline'), List.append_assoc,
        List.singleton_append]

theorem restoreLineEndings_intercalate (ending : LineEnding) {lines : List JsString}
    (h : ∀ line ∈ lines, 0x0A ∉ line ∧ 0x0D ∉ line) :
    restoreLineEndings ([0x0A].intercalate lines) ending =
      (lineBreak ending).intercalate lines := by
  induction lines with
  | nil => cases ending <;> rfl
  | cons line lines ih =>
    have hline := restoreLineEndings_line (h line List.mem_cons_self).1 ending
    cases lines with
    | nil => rw [List.intercalate_singleton, List.intercalate_singleton, hline]
    | cons next lines =>
      rw [List.intercalate_cons_cons, List.intercalate_cons_cons, restoreLineEndings_append,
        restoreLineEndings_append, hline, restoreLineEndings_break,
        ih fun line' hline' => h line' (List.mem_cons_of_mem _ hline')]

theorem not_mem_intercalate {lines : List JsString}
    (h : ∀ line ∈ lines, 0x0A ∉ line ∧ 0x0D ∉ line) :
    (0x0D : UInt16) ∉ [0x0A].intercalate lines := by
  induction lines with
  | nil => exact List.not_mem_nil
  | cons line lines ih =>
    have hline := (h line List.mem_cons_self).2
    have hrest := ih fun line' hline' => h line' (List.mem_cons_of_mem _ hline')
    cases lines with
    | nil => rwa [List.intercalate_singleton]
    | cons next lines =>
      rw [List.intercalate_cons_cons, List.mem_append, List.mem_append]
      rintro ((hmem | hmem) | hmem)
      · exact hline hmem
      · exact absurd hmem (by decide)
      · exact hrest hmem

theorem Uniform.restore {ending : LineEnding} {content : JsString} (h : Uniform ending content) :
    restoreLineEndings (normalizeToLF content) (detectLineEnding content) = content := by
  obtain ⟨lines, hlines, rfl⟩ := h
  rw [normalizeToLF_intercalate ending hlines, restoreLineEndings_intercalate _ hlines]
  cases lines with
  | nil => rfl
  | cons line lines =>
    cases lines with
    | nil => rw [List.intercalate_singleton, List.intercalate_singleton]
    | cons next lines =>
      have hrest : ending = .lf →
          (0x0D : UInt16) ∉ (lineBreak ending).intercalate (next :: lines) := by
        rintro rfl
        exact not_mem_intercalate fun line' hline' =>
          hlines line' (List.mem_cons_of_mem _ hline')
      have hdetect : detectLineEnding
          ((lineBreak ending).intercalate (line :: next :: lines)) = ending := by
        rw [List.intercalate_cons_cons, List.append_assoc]
        exact detectLineEnding_append (hlines line List.mem_cons_self) ending hrest
      rw [hdetect]

end LineEndings

section Closed

theorem head_replaceCrLf (s : JsString) :
    ∀ u ∈ (replaceCrLf s).head?, u = 0x0A ∨ u ∈ s.head? := by
  intro u hu
  fun_cases replaceCrLf s with
  | case1 => cases hu
  | case2 v => exact .inr hu
  | case3 v w rest h =>
    rw [replaceCrLf, if_pos h] at hu
    cases hu
    exact .inl rfl
  | case4 v w rest h =>
    rw [replaceCrLf, if_neg h] at hu
    exact .inr hu

theorem last_replaceCrLf (s : JsString) :
    ∀ u ∈ (replaceCrLf s).getLast?, u = 0x0A ∨ u ∈ s.getLast? := by
  fun_induction replaceCrLf s with
  | case1 =>
    intro u hu
    cases hu
  | case2 v => exact fun u hu => .inr hu
  | case3 v w rest h ih =>
    intro u hu
    cases hrest : replaceCrLf rest with
    | nil =>
      rw [hrest] at hu
      cases hu
      exact .inl rfl
    | cons x l =>
      rw [hrest, List.getLast?_cons_cons] at hu
      rw [hrest] at ih
      refine (ih u hu).imp_right fun hlast => ?_
      cases rest with
      | nil => cases hlast
      | cons y rest => rwa [List.getLast?_cons_cons, List.getLast?_cons_cons]
  | case4 v w rest h ih =>
    intro u hu
    rw [List.getLast?_cons_cons]
    refine ih u ?_
    cases hrest : replaceCrLf (w :: rest) with
    | nil =>
      cases rest with
      | nil => cases hrest
      | cons y rest =>
        rw [replaceCrLf] at hrest
        split at hrest <;> cases hrest
    | cons x l => rwa [hrest, List.getLast?_cons_cons] at hu

theorem closed_normalizeToLF {s : JsString} (h : JsString.Closed s) :
    JsString.Closed (normalizeToLF s) := by
  have hunit : ∀ (p : UInt16 → Bool) (u : UInt16), p 0x0A = false → (u = 0x0A ∨ p u = false) →
      p (if [0x0D].contains u then 0x0A else u) = false := by
    intro p u hline hu
    split
    · exact hline
    · rcases hu with rfl | hu
      · exact hline
      · exact hu
  constructor
  · intro u hu
    rw [normalizeToLF, replaceUnits, List.head?_map] at hu
    obtain ⟨v, hv, rfl⟩ := Option.map_eq_some_iff.mp hu
    exact hunit JsString.isLowSurrogate v (by decide)
      ((head_replaceCrLf s v hv).imp_right fun hhead => h.head v hhead)
  · intro u hu
    rw [normalizeToLF, replaceUnits, List.getLast?_map] at hu
    obtain ⟨v, hv, rfl⟩ := Option.map_eq_some_iff.mp hu
    exact hunit JsString.isHighSurrogate v (by decide)
      ((last_replaceCrLf s v hv).imp_right fun hlast => h.last v hlast)

theorem closed_restoreLineEndings {s : JsString} (h : JsString.Closed s) (ending : LineEnding) :
    JsString.Closed (restoreLineEndings s ending) := by
  cases ending with
  | lf => exact h
  | crlf =>
    constructor
    · intro u hu
      cases s with
      | nil => cases hu
      | cons v s =>
        have hv := h.head v rfl
        rw [restoreLineEndings, List.flatMap_cons] at hu
        split at hu
        · cases hu
          decide
        · cases hu
          exact hv
    · intro u hu
      rcases List.eq_nil_or_concat' s with rfl | ⟨s', v, rfl⟩
      · cases hu
      · have hv := h.last v (by rw [List.getLast?_concat]; rfl)
        rw [restoreLineEndings, List.flatMap_append, List.flatMap_singleton] at hu
        split at hu
        · rw [List.append_cons, List.getLast?_concat] at hu
          cases hu
          decide
        · rw [List.getLast?_concat] at hu
          cases hu
          exact hv

end Closed

section Bytes

variable {β : Type}

theorem utf8_region {gap region rest : JsString}
    (hformed : JsString.hasUnpairedSurrogate (gap ++ region ++ rest) = false)
    (hregion : JsString.Closed region) (hne : region ≠ []) :
    JsString.utf8 (gap ++ region ++ rest) =
        JsString.utf8 gap ++ JsString.utf8 region ++ JsString.utf8 rest ∧
      JsString.hasUnpairedSurrogate gap = false ∧ JsString.hasUnpairedSurrogate rest = false := by
  have hhead : ∀ u ∈ (region ++ rest).head?, JsString.isLowSurrogate u = false := by
    intro u hu
    rw [List.head?_append_of_ne_nil _ hne] at hu
    exact hregion.head u hu
  rw [List.append_assoc] at hformed ⊢
  obtain ⟨hgap, hback⟩ := JsString.formed_of_append hformed (.inr hhead)
  refine ⟨?_, hgap, (JsString.formed_of_append hback (.inl hregion.last)).2⟩
  rw [JsString.utf8_append (.inr hhead), JsString.utf8_append (.inl hregion.last),
    List.append_assoc]

theorem utf8_before {pieces : List (Piece UInt16 β)} {tail : JsString}
    (hformed : JsString.hasUnpairedSurrogate (before pieces tail) = false)
    (hregions : ∀ piece ∈ pieces, JsString.Closed piece.region ∧ piece.region ≠ []) :
    JsString.utf8 (before pieces tail) =
        before (pieces.map (Piece.map JsString.utf8)) (JsString.utf8 tail) ∧
      ∀ piece ∈ pieces, JsString.hasUnpairedSurrogate piece.gap = false := by
  induction pieces with
  | nil => exact ⟨rfl, fun _ hpiece => absurd hpiece List.not_mem_nil⟩
  | cons piece pieces ih =>
    obtain ⟨hclosed, hne⟩ := hregions piece List.mem_cons_self
    rw [before_cons] at hformed ⊢
    obtain ⟨hbytes, hgap, hrest⟩ := utf8_region hformed hclosed hne
    obtain ⟨hpieces, hgaps⟩ :=
      ih hrest fun piece' hpiece' => hregions piece' (List.mem_cons_of_mem _ hpiece')
    refine ⟨?_, ?_⟩
    · rw [hbytes, hpieces, List.map_cons, before_cons, Piece.map]
    · intro piece' hpiece'
      rcases List.mem_cons.mp hpiece' with rfl | hpiece'
      · exact hgap
      · exact hgaps piece' hpiece'

theorem utf8_after {text : β → JsString} {pieces : List (Piece UInt16 β)} {tail : JsString}
    (hgaps : ∀ piece ∈ pieces, JsString.hasUnpairedSurrogate piece.gap = false)
    (htexts : ∀ piece ∈ pieces, JsString.Closed (text piece.label)) :
    JsString.utf8 (after text pieces tail) =
      after (fun label => JsString.utf8 (text label)) (pieces.map (Piece.map JsString.utf8))
        (JsString.utf8 tail) := by
  induction pieces with
  | nil => rfl
  | cons piece pieces ih =>
    have hgap := (JsString.closed_of_formed (hgaps piece List.mem_cons_self)).last
    have htext := (htexts piece List.mem_cons_self).last
    have hrest := ih (fun piece' hpiece' => hgaps piece' (List.mem_cons_of_mem _ hpiece'))
      fun piece' hpiece' => htexts piece' (List.mem_cons_of_mem _ hpiece')
    rw [after_cons, List.append_assoc, JsString.utf8_append (.inl hgap),
      JsString.utf8_append (.inl htext), hrest, List.map_cons, after_cons, List.append_assoc]
    rfl

end Bytes

/-- The content of a file, with LF line endings. -/
def contentOf (text : JsString) : JsString := normalizeToLF (stripBom text).2

/-- The kind of line ending of a file. -/
def endingOf (text : JsString) : LineEnding := detectLineEnding (stripBom text).2

/-- The content that the edits of a file are applied to. -/
def baseOf (nfkc : JsString → JsString) (text : JsString) (edits : List Edit) : JsString :=
  baseContentOf nfkc (contentOf text) (edits.map normalizeEdit)

/-- The text that an edit looks for is in the file up to line endings. -/
def AsItStands (text : JsString) (edit : Edit) : Prop :=
  indexOf (normalizeToLF edit.oldText) (contentOf text) ≠ none

/-- A text with the line endings of a file. -/
def restored (text s : JsString) : JsString := restoreLineEndings s (endingOf text)

/-- The bytes of a text with the line endings of a file. -/
def restoredBytes (text s : JsString) : List UInt8 := JsString.utf8 (restored text s)

/-- What was written is a file with regions replaced. -/
structure Edited (nfkc : JsString → JsString) (text : JsString) (edits : List Edit)
    (bytes : List UInt8) (pieces : List (Piece UInt16 Edit)) (tail : JsString) : Prop where
  each : (pieces.map Piece.label).Perm edits
  /-- The content that the edits are applied to is the file's where every text is in it, and its
  fuzzy form where one is not. -/
  base : (baseOf nfkc text edits = contentOf text ∧ ∀ edit ∈ edits, AsItStands text edit) ∨
    (baseOf nfkc text edits = normalizeForFuzzyMatch nfkc (contentOf text) ∧
      ∃ edit ∈ edits, ¬ AsItStands text edit)
  /-- It is cut into the regions and the gaps between them. -/
  cut : baseOf nfkc text edits = before pieces tail
  /-- A region is the text of its edit, or the fuzzy form of one that does not occur; it is where
  that occurs first, and its fuzzy form is counted at most once. -/
  region : ∀ front piece back, pieces = front ++ piece :: back →
    (piece.region = normalizeToLF piece.label.oldText ∨
      (piece.region = normalizeForFuzzyMatch nfkc (normalizeToLF piece.label.oldText) ∧
        indexOf (normalizeToLF piece.label.oldText) (baseOf nfkc text edits) = none)) ∧
    indexOf piece.region (baseOf nfkc text edits) = some (before front piece.gap).length ∧
    countOccurrences nfkc (baseOf nfkc text edits) (normalizeToLF piece.label.oldText) ≤ 1
  /-- The new texts come out between the gaps, all with the line endings of the file. -/
  written : bytes = JsString.utf8 ((stripBom text).1 ++
    after (fun edit => restored text (replacement edit))
      (pieces.map (Piece.map (restored text))) (restored text tail))
  /-- Where every text is in the file and the file has one kind of line ending, the file itself is
  cut so, -/
  file : (∀ edit ∈ edits, AsItStands text edit) →
    ∀ ending, Uniform ending (stripBom text).2 →
      text = (stripBom text).1 ++
        before (pieces.map (Piece.map (restored text))) (restored text tail)
  /-- and so are its bytes, where no edit has an unpaired surrogate. -/
  bytes : (∀ edit ∈ edits, AsItStands text edit) →
    ∀ ending, Uniform ending (stripBom text).2 →
      (∀ edit ∈ edits, JsString.hasUnpairedSurrogate edit.oldText = false ∧
        JsString.hasUnpairedSurrogate edit.newText = false) →
      JsString.utf8 text = JsString.utf8 (stripBom text).1 ++
          before (pieces.map (Piece.map (restoredBytes text))) (restoredBytes text tail) ∧
        bytes = JsString.utf8 (stripBom text).1 ++
          after (fun edit => restoredBytes text (replacement edit))
            (pieces.map (Piece.map (restoredBytes text))) (restoredBytes text tail)

section Spec

variable {nfkc : JsString → JsString} {text : JsString} {edits : List Edit} {path : String}
  {applied : AppliedEditsResult}

/-- The content that the edits are applied to is its own fuzzy form, or has all their texts. -/
theorem base_stable (hnfkc : Nfkc nfkc) {content : JsString}
    (h : Applied nfkc content edits applied) :
    (∀ edit ∈ edits, indexOf (normalizeToLF edit.oldText) applied.baseContent ≠ none) ∨
      normalizeForFuzzyMatch nfkc applied.baseContent = applied.baseContent := by
  rcases h.base_cases with ⟨hbase, hall⟩ | ⟨hbase, -⟩
  · rw [hbase]
    exact .inl hall
  · rw [hbase]
    exact .inr (hnfkc.normalizeForFuzzyMatch_idempotent content)

theorem stripBom_append (text : JsString) :
    text = (stripBom text).1 ++ (stripBom text).2 ∧
      ∀ u ∈ (stripBom text).1.getLast?, JsString.isHighSurrogate u = false := by
  unfold stripBom
  split
  · refine ⟨rfl, fun u hu => ?_⟩
    cases hu
    decide
  · refine ⟨rfl, fun u hu => ?_⟩
    cases hu

theorem exists_pieces (hnfkc : Nfkc nfkc) {content : JsString}
    (h : Applied nfkc content edits applied) :
    ∃ pieces tail, (pieces.map Piece.label).Perm edits ∧
      applied.baseContent = before pieces tail ∧
        applied.newContent = after replacement pieces tail ∧
          ∀ front piece back, pieces = front ++ piece :: back →
            (piece.region = normalizeToLF piece.label.oldText ∨
              (piece.region = normalizeForFuzzyMatch nfkc (normalizeToLF piece.label.oldText) ∧
                indexOf (normalizeToLF piece.label.oldText) applied.baseContent = none)) ∧
            indexOf piece.region applied.baseContent = some (before front piece.gap).length ∧
            countOccurrences nfkc applied.baseContent (normalizeToLF piece.label.oldText) ≤ 1 := by
  have hstable := base_stable hnfkc h
  have horder := inOrder_ordered h.found hstable h.apart
  refine ⟨cut applied.baseContent 0 (ordered nfkc applied.baseContent edits),
    rest applied.baseContent 0 (ordered nfkc applied.baseContent edits), ?_, ?_, ?_, ?_⟩
  · rw [map_label_cut]
    refine ((List.perm_insertionSort _ _).map Splice.label).trans ?_
    rw [List.map_map]
    exact List.Perm.of_eq (List.map_id _)
  · exact (before_cut horder).symm
  · rw [h.result, spliceAll_eq_after replacement horder]
    rfl
  · intro front piece back hpieces
    obtain ⟨s, hs, hregion, hlabel, hstart⟩ := cut_split horder hpieces
    rw [ordered, List.mem_insertionSort] at hs
    obtain ⟨edit, hedit, rfl⟩ := List.mem_map.mp hs
    have hlabel' : piece.label = edit := hlabel
    rw [hlabel']
    obtain ⟨region, hkind, hindex, hlength⟩ :=
      (h.found edit hedit).region (hstable.imp_left fun hall => hall edit hedit)
    have hsame : piece.region = region := by
      rw [hregion, hlength]
      exact (indexOf_spec hindex).2
    rw [Nat.zero_add] at hstart
    rw [hsame, hstart]
    exact ⟨hkind, hindex, (h.found edit hedit).once⟩

theorem text_eq_before {ending : LineEnding} {pieces : List (Piece UInt16 Edit)}
    {tail : JsString} (huniform : Uniform ending (stripBom text).2)
    (hcut : contentOf text = before pieces tail) :
    text = (stripBom text).1 ++
      before (pieces.map (Piece.map (restored text))) (restored text tail) := by
  have hrestored : restored text (contentOf text) = (stripBom text).2 := huniform.restore
  have hhom : ∀ a b, restored text (a ++ b) = restored text a ++ restored text b :=
    fun a b => restoreLineEndings_append a b _
  rw [← map_before hhom, ← hcut, hrestored]
  exact (stripBom_append text).1

theorem restored_region {edit : Edit} (hne : normalizeToLF edit.oldText ≠ [])
    (hformed : JsString.hasUnpairedSurrogate edit.oldText = false) :
    JsString.Closed (restored text (normalizeToLF edit.oldText)) ∧
      restored text (normalizeToLF edit.oldText) ≠ [] := by
  refine ⟨closed_restoreLineEndings
    (closed_normalizeToLF (JsString.closed_of_formed hformed)) _, ?_⟩
  cases htext : normalizeToLF edit.oldText with
  | nil => exact absurd htext hne
  | cons u rest =>
    rw [restored]
    cases endingOf text with
    | lf => simp [restoreLineEndings]
    | crlf =>
      rw [restoreLineEndings, List.flatMap_cons]
      split <;> simp

theorem edited_of_applied (hnfkc : Nfkc nfkc)
    (htext : JsString.hasUnpairedSurrogate text = false)
    (h : Applied nfkc (contentOf text) edits applied) :
    ∃ pieces tail, Edited nfkc text edits
      (JsString.utf8 ((stripBom text).1 ++ restored text applied.newContent)) pieces tail := by
  have hhom : ∀ a b, restored text (a ++ b) = restored text a ++ restored text b :=
    fun a b => restoreLineEndings_append a b _
  have hbase : baseOf nfkc text edits = applied.baseContent := h.base.symm
  obtain ⟨pieces, tail, heach, hcut, hnew, hregion⟩ := exists_pieces hnfkc h
  have hwritten : restored text applied.newContent =
      after (fun edit => restored text (replacement edit))
        (pieces.map (Piece.map (restored text))) (restored text tail) := by
    rw [hnew]
    exact map_after hhom replacement pieces tail
  have hfile : (∀ edit ∈ edits, AsItStands text edit) →
      ∀ ending, Uniform ending (stripBom text).2 → text = (stripBom text).1 ++
        before (pieces.map (Piece.map (restored text))) (restored text tail) := by
    intro hall ending huniform
    refine text_eq_before huniform ?_
    rcases h.base_cases with ⟨hsame, -⟩ | ⟨-, edit, hedit, hnone⟩
    · rw [← hsame, hcut]
    · exact absurd hnone (hall edit hedit)
  refine ⟨pieces, tail, heach, ?_, hbase.trans hcut, ?_, ?_, hfile, ?_⟩
  · rw [hbase]
    refine h.base_cases.imp_right fun hfuzzy => ⟨hfuzzy.1, ?_⟩
    obtain ⟨edit, hedit, hnone⟩ := hfuzzy.2
    exact ⟨edit, hedit, fun hstands => hstands hnone⟩
  · rw [hbase]
    exact hregion
  · rw [hwritten]
  · intro hall ending huniform hformed
    have hbom := (stripBom_append text).2
    have hpieces : (pieces.map (Piece.map (restored text))).map (Piece.map JsString.utf8) =
        pieces.map (Piece.map (restoredBytes text)) := by
      rw [List.map_map]
      rfl
    have hwhole := hfile hall ending huniform
    have hrest : JsString.hasUnpairedSurrogate
        (before (pieces.map (Piece.map (restored text))) (restored text tail)) = false := by
      rw [hwhole] at htext
      exact (JsString.formed_of_append htext (.inl hbom)).2
    have hlabel : ∀ piece ∈ pieces, piece.label ∈ edits := fun piece hpiece =>
      heach.mem_iff.mp (List.mem_map_of_mem hpiece)
    have hregions : ∀ piece ∈ pieces.map (Piece.map (β := Edit) (restored text)),
        JsString.Closed piece.region ∧ piece.region ≠ [] := by
      intro restoredPiece hmem
      obtain ⟨piece, hpiece, rfl⟩ := List.mem_map.mp hmem
      have hedit := hlabel piece hpiece
      obtain ⟨front, back, hsplit⟩ := List.append_of_mem hpiece
      have hkind := (hregion front piece back hsplit).1
      rcases hkind with hexact | ⟨-, hnone⟩
      · rw [Piece.map, hexact]
        exact restored_region (h.texts _ hedit) (hformed _ hedit).1
      · rcases h.base_cases with ⟨hsame, -⟩ | ⟨-, edit, hother, hnot⟩
        · rw [hsame] at hnone
          exact absurd hnone (hall _ hedit)
        · exact absurd hnot (hall edit hother)
    have htexts : ∀ piece ∈ pieces.map (Piece.map (β := Edit) (restored text)),
        JsString.Closed (restored text (replacement piece.label)) := by
      intro restoredPiece hmem
      obtain ⟨piece, hpiece, rfl⟩ := List.mem_map.mp hmem
      exact closed_restoreLineEndings (closed_normalizeToLF
        (JsString.closed_of_formed (hformed _ (hlabel piece hpiece)).2)) _
    obtain ⟨hbytes, hgaps⟩ := utf8_before hrest hregions
    refine ⟨?_, ?_⟩
    · refine (congrArg JsString.utf8 hwhole).trans ?_
      rw [JsString.utf8_append (.inl hbom), hbytes, hpieces]
      rfl
    · rw [hwritten, JsString.utf8_append (.inl hbom), utf8_after hgaps htexts, hpieces]
      rfl

/-- **An edit changes the regions it names.**  What a call writes is the content edited with one
region replaced for each edit, which is the file where no edit needs the fuzzy form and the line
endings are of one kind; the order of the edits does not matter; and a call that does not write
leaves the file. -/
theorem execute_spec
    (hnfkc : Nfkc nfkc) (htext : JsString.hasUnpairedSurrogate text = false)
    (environment : Environment) (path : String) (edits : List Edit) :
    (∀ message, (execute nfkc environment (JsString.utf8 text) path edits).1 = .ok message →
        (execute nfkc environment (JsString.utf8 text) path edits).2 ≠ none) ∧
      (∀ bytes, (execute nfkc environment (JsString.utf8 text) path edits).2 = some bytes →
        (∃ pieces tail, Edited nfkc text edits bytes pieces tail) ∧
          ((∀ edit ∈ edits, normalizeForFuzzyMatch nfkc (normalizeToLF edit.oldText) ≠ []) →
            ∀ edits', edits.Perm edits' →
              execute nfkc environment (JsString.utf8 text) path edits' =
                execute nfkc environment (JsString.utf8 text) path edits)) ∧
        ((execute nfkc environment (JsString.utf8 text) path edits).2 = none →
          fileAfter (JsString.utf8 text)
            (execute nfkc environment (JsString.utf8 text) path edits) = JsString.utf8 text) := by
  have hread : JsString.fromUtf8 (JsString.utf8 text) = text :=
    (JsString.fromUtf8_utf8_iff text).mpr htext
  refine ⟨fun _ => execute_ok, ?_, ?_⟩
  · intro bytes hbytes
    obtain ⟨applied, happlied, rfl⟩ := execute_write hbytes
    rw [hread] at happlied ⊢
    have h := applyEditsToNormalizedContent_ok.mp happlied
    refine ⟨edited_of_applied hnfkc htext h, ?_⟩
    intro hblank edits' hperm
    have happlied' : applyEditsToNormalizedContent nfkc _ edits' path = .ok applied :=
      applyEditsToNormalizedContent_ok.mpr (h.perm (base_stable hnfkc h) hblank hperm)
    refine execute_congr hperm.length_eq.symm ?_
    rw [hread, happlied]
    exact happlied'
  · intro hnone
    rw [fileAfter, hnone]
    rfl

/-- A call that nothing gets in the way of. -/
def undisturbed : Environment := ⟨fun _ => false, none, none, none⟩

theorem nfkc_id : Nfkc id := ⟨fun _ => rfl, fun _ _ _ => ⟨rfl, rfl⟩, fun _ _ _ _ _ _ => rfl⟩

/-- One word of a file is replaced. -/
theorem execute_spec_word :
    ∃ pieces tail, Edited id (js "a\nb\n") [⟨js "a", js "c"⟩] (JsString.utf8 (js "c\nb\n"))
      pieces tail := by
  have hspec := @execute_spec id (js "a\nb\n") nfkc_id (by decide +kernel) undisturbed "file"
    [⟨js "a", js "c"⟩]
  exact (hspec.2.1 _ (by decide +kernel)).1

/-- **A fallback reaches the whole file.**  White space at the end of a line that no edit names is
lost; a file with two kinds of line ending comes out with one; a text that occurs twice with an
overlap is replaced; and blank texts are put in, in the order of the edits. -/
theorem execute_elsewhere :
    ((execute id undisturbed (JsString.utf8 (js "x  \nbar\nbaz\n")) "file"
          [⟨js "bar \nbaz", js "Q"⟩]).2 = some (JsString.utf8 (js "x\nQ\n")) ∧
        ¬ ∃ gap region tail : JsString, js "x  \nbar\nbaz\n" = gap ++ region ++ tail ∧
          js "x\nQ\n" = gap ++ js "Q" ++ tail) ∧
      (execute id undisturbed (JsString.utf8 (js "a\r\nb\nc")) "file" [⟨js "c", js "d"⟩]).2 =
          some (JsString.utf8 (js "a\r\nb\r\nd")) ∧
        (execute id undisturbed (JsString.utf8 (js "aaa")) "file" [⟨js "aa", js "b"⟩]).2 =
            some (JsString.utf8 (js "ba")) ∧
          (execute id undisturbed (JsString.utf8 (js "ab")) "file"
              [⟨js " ", js "x"⟩, ⟨js "\t", js "y"⟩]).2 = some (JsString.utf8 (js "xyab")) ∧
            (execute id undisturbed (JsString.utf8 (js "ab")) "file"
              [⟨js "\t", js "y"⟩, ⟨js " ", js "x"⟩]).2 = some (JsString.utf8 (js "yxab")) := by
  refine ⟨⟨by decide +kernel, ?_⟩, by decide +kernel, by decide +kernel, by decide +kernel,
    by decide +kernel⟩
  rintro ⟨gap, region, tail, hbefore, hafter⟩
  have htext : js "x  \nbar\nbaz\n" = 0x78 :: 0x20 :: js " \nbar\nbaz\n" := by decide +kernel
  have hnew : js "x\nQ\n" = [0x78, 0x0A, 0x51, 0x0A] := by decide +kernel
  have hq : js "Q" = [0x51] := by decide +kernel
  rw [htext] at hbefore
  rw [hnew, hq] at hafter
  rcases gap with _ | ⟨u, _ | ⟨v, gap⟩⟩
  · simp at hafter
  · simp at hafter
  · simp only [List.cons_append, List.cons.injEq] at hbefore hafter
    rw [← hafter.2.1] at hbefore
    exact absurd hbefore.2.1 (by decide)

end Spec

end EditTool

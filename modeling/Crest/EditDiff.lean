import Mathlib.Data.List.DropRight
import Mathlib.Data.List.Sort
import Crest.Utf16

/-!
# The replacement engine of the edit tool

Edits name a text of the file and what is to stand in its place.  The text is looked for in the
content with LF line endings, exactly first; where it does not occur, its fuzzy form is looked for
in the fuzzy form of the content: NFKC, lines without trailing white space, and plain quotes,
dashes and spaces.  As soon as one edit needs that, all are applied to the fuzzy form.

`String.prototype.normalize("NFKC")` is a parameter of everything that uses it.
-/

namespace EditDiff

/-- The line endings that a content is written with. -/
inductive LineEnding
  | lf
  | crlf
deriving DecidableEq, Repr

/-- `String.prototype.indexOf`; `none` for `-1`. -/
def indexOf (pattern : JsString) : JsString → Option Nat
  | [] => if pattern.isEmpty then some 0 else none
  | u :: rest =>
    if pattern.isPrefixOf (u :: rest) then some 0 else (indexOf pattern rest).map (· + 1)

def detectLineEnding (content : JsString) : LineEnding :=
  match indexOf [0x0A] content, indexOf [0x0D, 0x0A] content with
  | none, _ => .lf
  | some _, none => .lf
  | some lfIdx, some crlfIdx => if crlfIdx < lfIdx then .crlf else .lf

/-- `text.replace(/\r\n/g, "\n")`. -/
def replaceCrLf : JsString → JsString
  | [] => []
  | [u] => [u]
  | u :: v :: rest =>
    if u = 0x0D ∧ v = 0x0A then 0x0A :: replaceCrLf rest else u :: replaceCrLf (v :: rest)

/-- `text.replace(/[...]/g, by)` for a class of code units and one code unit. -/
def replaceUnits (units : List UInt16) (unit : UInt16) (text : JsString) : JsString :=
  text.map fun u => if units.contains u then unit else u

def normalizeToLF (text : JsString) : JsString := replaceUnits [0x0D] 0x0A (replaceCrLf text)

def restoreLineEndings (text : JsString) : LineEnding → JsString
  | .lf => text
  | .crlf => text.flatMap fun u => if u = 0x0A then [0x0D, 0x0A] else [u]

def singleQuotes : List UInt16 := [0x2018, 0x2019, 0x201A, 0x201B]

def doubleQuotes : List UInt16 := [0x201C, 0x201D, 0x201E, 0x201F]

def dashes : List UInt16 := [0x2010, 0x2011, 0x2012, 0x2013, 0x2014, 0x2015, 0x2212]

def spaces : List UInt16 := [0x20, 0x3000]

def trimEnd (line : JsString) : JsString := line.rdropWhile JsString.isTrimUnit

/-- The quotes, dashes and spaces of a text made plain. -/
def plain (text : JsString) : JsString :=
  replaceUnits spaces 0x20 (replaceUnits dashes 0x2D
    (replaceUnits doubleQuotes 0x22 (replaceUnits singleQuotes 0x27 text)))

def normalizeForFuzzyMatch (nfkc : JsString → JsString) (text : JsString) : JsString :=
  plain ([0x0A].intercalate (((nfkc text).splitOn 0x0A).map trimEnd))

structure Edit where
  oldText : JsString
  newText : JsString
deriving DecidableEq, Repr

/-- `FuzzyMatchResult` of a text that was found. -/
structure FuzzyMatchResult where
  index : Nat
  matchLength : Nat
  usedFuzzyMatch : Bool
  contentForReplacement : JsString
deriving DecidableEq, Repr

structure MatchedEdit where
  editIndex : Nat
  matchIndex : Nat
  matchLength : Nat
  newText : JsString
deriving DecidableEq, Repr

structure AppliedEditsResult where
  baseContent : JsString
  newContent : JsString
deriving DecidableEq, Repr

def stripBom : JsString → JsString × JsString
  | 0xFEFF :: text => ([0xFEFF], text)
  | content => ([], content)

/-- How often a text that is not empty occurs, counted from the left without overlaps; `skip` code
units belong to the occurrence before. -/
def occurrences (pattern : JsString) : Nat → JsString → Nat
  | _, [] => 0
  | skip + 1, _ :: rest => occurrences pattern skip rest
  | 0, u :: rest =>
    if pattern.isPrefixOf (u :: rest) then 1 + occurrences pattern (pattern.length - 1) rest
    else occurrences pattern 0 rest

/-- `content.split(pattern).length - 1`; the empty text splits into the code units. -/
def splits (content pattern : JsString) : Int :=
  if pattern.isEmpty then content.length - 1 else occurrences pattern 0 content

section Fuzzy

variable (nfkc : JsString → JsString)

/-- `fuzzyFindText`; `none` where the text was not found. -/
def fuzzyFindText (content oldText : JsString) : Option FuzzyMatchResult :=
  match indexOf oldText content with
  | some exactIndex => some ⟨exactIndex, oldText.length, false, content⟩
  | none =>
    let fuzzyContent := normalizeForFuzzyMatch nfkc content
    let fuzzyOldText := normalizeForFuzzyMatch nfkc oldText
    (indexOf fuzzyOldText fuzzyContent).map fun fuzzyIndex =>
      ⟨fuzzyIndex, fuzzyOldText.length, true, fuzzyContent⟩

def countOccurrences (content oldText : JsString) : Int :=
  splits (normalizeForFuzzyMatch nfkc content) (normalizeForFuzzyMatch nfkc oldText)

def getNotFoundError (path : String) (editIndex totalEdits : Nat) : String :=
  if totalEdits = 1 then
    s!"Could not find the exact text in {path}. The old text must match exactly including all whitespace and newlines."
  else
    s!"Could not find edits[{editIndex}] in {path}. The oldText must match exactly including all whitespace and newlines."

def getDuplicateError (path : String) (editIndex totalEdits : Nat) (occurrences : Int) : String :=
  if totalEdits = 1 then
    s!"Found {occurrences} occurrences of the text in {path}. The text must be unique. Please provide more context to make it unique."
  else
    s!"Found {occurrences} occurrences of edits[{editIndex}] in {path}. Each oldText must be unique. Please provide more context to make it unique."

def getEmptyOldTextError (path : String) (editIndex totalEdits : Nat) : String :=
  if totalEdits = 1 then s!"oldText must not be empty in {path}."
  else s!"edits[{editIndex}].oldText must not be empty in {path}."

def getNoChangeError (path : String) (totalEdits : Nat) : String :=
  if totalEdits = 1 then
    s!"No changes made to {path}. The replacement produced identical content. This might indicate an issue with special characters or the text not existing as expected."
  else s!"No changes made to {path}. The replacements produced identical content."

/-- The error of two edits that overlap. -/
def overlapError (path : String) (previous current : MatchedEdit) : String :=
  s!"edits[{previous.editIndex}] and edits[{current.editIndex}] overlap in {path}. Merge them into one edit or target disjoint regions."

/-- An edit with LF line endings. -/
def normalizeEdit (edit : Edit) : Edit := ⟨normalizeToLF edit.oldText, normalizeToLF edit.newText⟩

/-- The content that all edits are applied to. -/
def baseContentOf (normalizedContent : JsString) (normalizedEdits : List Edit) : JsString :=
  let initialMatches := normalizedEdits.map fun edit => fuzzyFindText nfkc normalizedContent edit.oldText
  if initialMatches.any fun result => result.any FuzzyMatchResult.usedFuzzyMatch then
    normalizeForFuzzyMatch nfkc normalizedContent
  else normalizedContent

/-- The loop of `applyEditsToNormalizedContent` that looks for the edits, from the one of an
index on. -/
def matchEdits (baseContent : JsString) (path : String) (totalEdits : Nat) :
    Nat → List Edit → Except String (List MatchedEdit)
  | _, [] => .ok []
  | i, edit :: edits =>
    match fuzzyFindText nfkc baseContent edit.oldText with
    | none => .error (getNotFoundError path i totalEdits)
    | some matchResult =>
      if 1 < countOccurrences nfkc baseContent edit.oldText then
        .error (getDuplicateError path i totalEdits
          (countOccurrences nfkc baseContent edit.oldText))
      else do
        let matchedEdits ← matchEdits baseContent path totalEdits (i + 1) edits
        .ok (⟨i, matchResult.index, matchResult.matchLength, edit.newText⟩ :: matchedEdits)

/-- The first two neighbours that overlap. -/
def findOverlap : List MatchedEdit → Option (MatchedEdit × MatchedEdit)
  | previous :: current :: rest =>
    if current.matchIndex < previous.matchIndex + previous.matchLength then
      some (previous, current)
    else findOverlap (current :: rest)
  | _ => none

def replaceEdit (edit : MatchedEdit) (content : JsString) : JsString :=
  content.take edit.matchIndex ++ edit.newText ++
    content.drop (edit.matchIndex + edit.matchLength)

def applyEditsToNormalizedContent
    (normalizedContent : JsString) (edits : List Edit) (path : String) :
    Except String AppliedEditsResult :=
  let normalizedEdits := edits.map normalizeEdit
  match normalizedEdits.findIdx? fun edit => edit.oldText.isEmpty with
  | some i => .error (getEmptyOldTextError path i normalizedEdits.length)
  | none => do
      let baseContent := baseContentOf nfkc normalizedContent normalizedEdits
      let matchedEdits ← matchEdits nfkc baseContent path normalizedEdits.length 0 normalizedEdits
      let sorted := matchedEdits.insertionSort fun a b => a.matchIndex ≤ b.matchIndex
      match findOverlap sorted with
      | some (previous, current) => .error (overlapError path previous current)
      | none =>
        let newContent := sorted.foldr replaceEdit baseContent
        if baseContent = newContent then .error (getNoChangeError path normalizedEdits.length)
        else .ok ⟨baseContent, newContent⟩

end Fuzzy

end EditDiff

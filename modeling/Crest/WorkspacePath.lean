import Crest.Base64
import Crest.JsonRecord

/-!
# Workspace-relative paths

The store, the checkpoint decoder and the pending-record decoder each test a
path with a function of their own.  The three tests agree except where one of
them looks for something the others do not: the store alone does not look for a
drive letter, and the pending-record decoder alone bounds the length.
-/

namespace Workspace

open JsString

/-- Whether a segment names something: not empty, `.` or `..`. -/
def isNamedSegment (segment : JsString) : Bool :=
  segment ≠ [] && segment ≠ js "." && segment ≠ js ".."

/-- `value.split("/")`. -/
def splitPath (path : JsString) : List JsString := path.splitOn 0x2F

/-- `/^[A-Za-z]:/.test(path)`. -/
def startsWithDriveLetter : JsString → Bool
  | u :: v :: _ => ((0x41 ≤ u && u ≤ 0x5A) || (0x61 ≤ u && u ≤ 0x7A)) && v == 0x3A
  | _ => false

/-- `isAbsolute(path)`, on a POSIX system. -/
def isAbsolute (path : JsString) : Bool := path.head? == some 0x2F

/-- `validateWorkspaceRelativePath`, the store's test: `true` where the code does
not throw. -/
def validateWorkspaceRelativePath (path : JsString) : Bool :=
  !(path.isEmpty || path.contains 0 || path.contains 0x5C || isAbsolute path ||
    (splitPath path).any fun segment => !isNamedSegment segment)

/-- `isCanonicalRelativePath` of the checkpoint decoder. -/
def isCanonicalRelativePath (value : Json) : Bool :=
  match value with
  | .str path =>
    if path.length = 0 || path.contains 0x5C || path.contains 0 || hasUnpairedSurrogate path then
      false
    else if isAbsolute path || startsWithDriveLetter path then false
    else (splitPath path).all isNamedSegment
  | _ => false

/-- `isCanonicalRelativePath` of the pending-record decoder. -/
def isPendingRelativePath (value : Json) : Bool :=
  match value with
  | .str path =>
    decide (0 < path.length) && decide (path.length ≤ 4096) && hasWellFormedUtf16 path &&
      !path.contains 0 && !path.contains 0x5C && !isAbsolute path &&
      !startsWithDriveLetter path && (splitPath path).all isNamedSegment
  | _ => false

/-- The order of `Buffer.from(left).compare(Buffer.from(right)) < 0`. -/
def comparePathBytes (left right : JsString) : Bool := decide (utf8 left < utf8 right)

theorem isPendingRelativePath_str (value : Json) (h : isPendingRelativePath value = true) :
    ∃ path, value = .str path := by
  cases value <;> simp_all [isPendingRelativePath]

/-- **A well-formed path the store accepts is one the checkpoint decoder accepts
exactly when it does not look like a drive letter.** -/
theorem isCanonicalRelativePath_iff (path : JsString)
    (hstore : validateWorkspaceRelativePath path = true)
    (hformed : hasUnpairedSurrogate path = false) :
    isCanonicalRelativePath (.str path) = true ↔ startsWithDriveLetter path = false := by
  simp only [validateWorkspaceRelativePath, Bool.not_eq_true', Bool.or_eq_false_iff] at hstore
  obtain ⟨⟨⟨⟨hempty, hnul⟩, hslash⟩, habsolute⟩, hsegments⟩ := hstore
  have hlength : ¬ path.length = 0 := by
    simpa [List.isEmpty_iff] using hempty
  have hall : (splitPath path).all isNamedSegment = true := by
    rw [List.all_eq_true]
    rw [List.any_eq_false] at hsegments
    intro segment hmem
    simpa using hsegments segment hmem
  simp only [isCanonicalRelativePath, hlength, hnul, hslash, habsolute, hformed, hall]
  cases startsWithDriveLetter path <;> simp

theorem isCanonicalRelativePath_of_pending (value : Json)
    (h : isPendingRelativePath value = true) :
    isCanonicalRelativePath value = true := by
  obtain ⟨path, rfl⟩ := isPendingRelativePath_str value h
  simp only [isPendingRelativePath, hasWellFormedUtf16_eq, Bool.and_eq_true, Bool.not_eq_true',
    decide_eq_true_eq] at h
  obtain ⟨⟨⟨⟨⟨⟨⟨hpos, -⟩, hformed⟩, hnul⟩, hslash⟩, habsolute⟩, hdrive⟩, hall⟩ := h
  have hlength : ¬ path.length = 0 := by omega
  simp only [isCanonicalRelativePath, hlength, hnul, hslash, habsolute, hdrive, hformed, hall]
  rfl

def isAsciiLetter (byte : UInt8) : Bool :=
  (0x41 ≤ byte && byte ≤ 0x5A) || (0x61 ≤ byte && byte ≤ 0x7A)

/-- Whether the bytes between two separators name something. -/
def isNamedSegmentBytes (segment : List UInt8) : Bool :=
  segment ≠ [] && segment ≠ [0x2E] && segment ≠ [0x2E, 0x2E]

/-- The loop of `isCanonicalRelativePathBytes`: `segment` holds the bytes since
`segmentStart`. -/
def scanSegments (segment : List UInt8) : List UInt8 → Bool
  | [] => isNamedSegmentBytes segment
  | byte :: rest =>
    if byte ≠ 0x2F then
      if byte = 0x00 || byte = 0x5C then false
      else scanSegments (segment ++ [byte]) rest
    else isNamedSegmentBytes segment && scanSegments [] rest

def isCanonicalRelativePathBytes (bytes : List UInt8) : Bool :=
  match bytes with
  | [] => false
  | first :: rest =>
    if first = 0x2F then false
    else if isAsciiLetter first && rest.head? == some 0x3A then false
    else scanSegments [] bytes

def decodeCanonicalRelativePathBytes (value : Json) : Option (List UInt8) :=
  match value with
  | .str text =>
    if !Base64.isStrictBase64 text then none
    else
      let bytes := Base64.fromBase64 text
      if Base64.toBase64 bytes ≠ text || !isCanonicalRelativePathBytes bytes then none
      else some bytes
  | _ => none

theorem decodeCanonicalRelativePathBytes_toBase64 (bytes : List UInt8) (h : bytes ≠ []) :
    decodeCanonicalRelativePathBytes (.str (Base64.toBase64 bytes)) =
      if isCanonicalRelativePathBytes bytes then some bytes else none := by
  have hstrict := Base64.isStrictBase64_toBase64 bytes h
  cases hcanonical : isCanonicalRelativePathBytes bytes <;>
    simp [decodeCanonicalRelativePathBytes, hstrict, hcanonical]

/-- `isSortedUnique`: every path is after the one before it. -/
def isSortedUnique : List JsString → Bool
  | [] => true
  | [_] => true
  | previous :: path :: rest => comparePathBytes previous path && isSortedUnique (path :: rest)

theorem nodup_of_isSortedUnique (paths : List JsString) (h : isSortedUnique paths = true) :
    paths.Nodup := by
  have hchain : paths.IsChain fun left right => utf8 left < utf8 right := by
    induction paths using isSortedUnique.induct with
    | case1 | case2 _ => simp
    | case3 previous path rest ih =>
      simp only [isSortedUnique, comparePathBytes, Bool.and_eq_true, decide_eq_true_eq] at h
      rw [List.isChain_cons_cons]
      exact ⟨h.1, ih h.2⟩
  have : IsTrans JsString fun left right => utf8 left < utf8 right :=
    ⟨fun _ _ _ hab hbc => List.lt_trans hab hbc⟩
  have hpairwise := List.isChain_iff_pairwise.mp hchain
  refine hpairwise.imp fun {left right} hlt heq => ?_
  rw [heq] at hlt
  exact List.lt_irrefl _ hlt

end Workspace

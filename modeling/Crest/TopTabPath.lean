import Crest.CodeUnits
import Crest.Utf16

/-!
# Paths of the tabs on top

The frontend looks at a path as UTF-16 units, the backend as bytes.  Both resolve its
segments in the same way, below a root that is a share, a drive or a slash.  They differ in
what they take for a drive: the frontend wants a letter in front of the colon, the backend
takes any byte.  On a path that starts with a letter wherever it looks like a drive, before
and after it is normalized, both compute the same.

Characters are written by their ASCII codes: 47 is the slash, 92 the backslash, 46 the dot and
58 the colon.
-/

namespace Encoding

open CodeUnit

/-- UTF-16. -/
def utf16 : Encoding UInt16 where
  encode := utf16Units
  encode_ascii := by
    intro c hc
    rw [utf16Units, if_pos (by omega)]
    rfl
  encode_wide := by
    intro c hc
    have hvalid := JsString.char_bounds c
    unfold utf16Units
    split_ifs with hsmall
    · refine ⟨List.cons_ne_nil _ _, ?_⟩
      intro u hu
      cases List.mem_singleton.mp hu
      change 128 ≤ (UInt16.ofNat c.toNat).toNat
      rw [UInt16.toNat_ofNat']
      omega
    · refine ⟨List.cons_ne_nil _ _, ?_⟩
      intro u hu
      simp only [List.mem_cons, List.not_mem_nil, or_false] at hu
      rcases hu with rfl | rfl
      all_goals
        change 128 ≤ (UInt16.ofNat _).toNat
        rw [UInt16.toNat_ofNat']
        omega
  inj := by
    have hread : ∀ s : List Char, JsString.codePoints (s.flatMap utf16Units) = s := by
      intro s
      induction s with
      | nil => rfl
      | cons c s ih => rw [List.flatMap_cons, JsString.codePoints_utf16Units_append, ih]
    intro s t h
    rw [← hread s, h, hread]

theorem utf8EncodeChar_wide {c : Char} (hc : 128 ≤ c.toNat) :
    ∃ u v us, String.utf8EncodeChar c = u :: v :: us ∧ ∀ w ∈ u :: v :: us, 128 ≤ w.toNat := by
  have hvalid := JsString.char_bounds c
  have hval : c.val.toNat = c.toNat := rfl
  fun_cases String.utf8EncodeChar c with
  | case1 v hsmall => omega
  | case2 v hsmall hmid =>
    refine ⟨_, _, _, rfl, ?_⟩
    simp only [List.mem_cons, List.not_mem_nil, or_false, forall_eq_or_imp, forall_eq]
    simp only [UInt8.toNat_ofNat']
    omega
  | case3 v hsmall hmid hlarge =>
    refine ⟨_, _, _, rfl, ?_⟩
    simp only [List.mem_cons, List.not_mem_nil, or_false, forall_eq_or_imp, forall_eq]
    simp only [UInt8.toNat_ofNat']
    omega
  | case4 v hsmall hmid hlarge =>
    refine ⟨_, _, _, rfl, ?_⟩
    simp only [List.mem_cons, List.not_mem_nil, or_false, forall_eq_or_imp, forall_eq]
    simp only [UInt8.toNat_ofNat']
    omega

/-- UTF-8. -/
def utf8 : Encoding UInt8 where
  encode := String.utf8EncodeChar
  encode_ascii := by
    intro c hc
    have hval : c.val.toNat = c.toNat := rfl
    fun_cases String.utf8EncodeChar c with
    | case1 v hsmall => rfl
    | case2 v hsmall hmid => omega
    | case3 v hsmall hmid hlarge => omega
    | case4 v hsmall hmid hlarge => omega
  encode_wide := by
    intro c hc
    obtain ⟨u, v, us, hunits, hwide⟩ := utf8EncodeChar_wide hc
    rw [hunits]
    exact ⟨List.cons_ne_nil _ _, hwide⟩
  inj := by
    intro s t h
    have hbytes : s.utf8Encode = t.utf8Encode := congrArg List.toByteArray h
    have hstrings : String.ofList s = String.ofList t := by
      rw [← String.toByteArray_inj, String.toByteArray_ofList, String.toByteArray_ofList, hbytes]
    simpa using congrArg String.toList hstrings

end Encoding

namespace TopTabPath

open CodeUnit Encoding

variable {α : Type} [CodeUnit α]

/-- `[A-Za-z]`. -/
def isLetter (u : α) : Bool :=
  65 ≤ code u && code u ≤ 90 || 97 ≤ code u && code u ≤ 122

/-- `/^[A-Za-z]:\//`, a drive as the frontend sees it. -/
def isLetterDrive : List α → Bool
  | [] => false
  | letter :: rest => isLetter letter && startsWith [58, 47] rest

/-- A drive as the backend sees it: any byte before the colon. -/
def isByteDrive : List α → Bool
  | [] => false
  | _ :: rest => startsWith [58, 47] rest

/-- A step of the loop over the segments. -/
def resolveSegment (rootDepth : Nat) (segments : List (List α)) (segment : List α) :
    List (List α) :=
  if isWord [46] segment then segments
  else if isWord [46, 46] segment then
    if segments.length > rootDepth then segments.dropLast else segments
  else segments ++ [segment]

/-- The segments that `..` does not leave. -/
def rootDepth (isUnc isDriveAbsolute : Bool) (segments : Nat) : Nat :=
  if isUnc then min 2 segments else if isDriveAbsolute then 1 else 0

/-- The path that is made of the segments. -/
def writePath (isUnc isDriveAbsolute isPosixAbsolute : Bool) (segments : List (List α)) :
    List α :=
  if isUnc then [ascii 47, ascii 47] ++ join 47 segments
  else if isDriveAbsolute ∧ segments.length = 1 then segments.headD [] ++ [ascii 47]
  else (if isPosixAbsolute then [ascii 47] else []) ++ join 47 segments

/-- The normal form of a path, for a test of what is a drive. -/
def normalizePath (isDrive : List α → Bool) (path : List α) : List α :=
  let normalized := replace 92 47 path
  let isUnc := startsWith [47, 47] normalized
  let isDriveAbsolute := isDrive normalized
  let isPosixAbsolute := !isUnc && startsWith [47] normalized
  let rawSegments := fields 47 normalized
  let depth := rootDepth isUnc isDriveAbsolute rawSegments.length
  writePath isUnc isDriveAbsolute isPosixAbsolute
    (rawSegments.foldl (resolveSegment depth) [])

/-- The path as it counts for the identity of a tab: shares and drives without regard to
capitals. -/
def pathIdentity (isDrive : List α → Bool) (path : List α) : List α :=
  let normalized := normalizePath isDrive path
  if startsWith [47, 47] normalized || isDrive normalized then foldLower normalized
  else normalized

def normalizeFileTabPath (filePath : List α) : List α := normalizePath isLetterDrive filePath

def pathIdentityKey (filePath : List α) : List α := pathIdentity isLetterDrive filePath

def isAbsoluteLocalPath (value : List α) : Bool :=
  if value.isEmpty || contains 0 value then false
  else
    let path := replace 92 47 value
    if isLetterDrive path then true
    else if startsWith [47, 47] path then decide (2 ≤ (fields 47 path).length)
    else startsWith [47] path

/-- `isCanonicalAbsoluteTopTabPath` of the frontend. -/
def isCanonicalAbsoluteLocalPath (value : List α) : Bool :=
  isAbsoluteLocalPath value &&
    (normalizeFileTabPath value).map code == (replace 92 47 value).map code

/-- A segment of a checkpoint path. -/
def isPlainSegment (segment : List α) : Bool :=
  !segment.isEmpty && !isWord [46] segment && !isWord [46, 46] segment

/-- `/^[A-Za-z]:/`. -/
def isDriveRelative : List α → Bool
  | [] => false
  | letter :: rest => isLetter letter && startsWith [58] rest

/-- `isCanonicalCheckpointPath` of the frontend. -/
def isCanonicalCheckpointPath (value : List α) : Bool :=
  !value.isEmpty && !contains 92 value && !contains 0 value && !startsWith [47] value &&
    !isDriveRelative value && (split 47 value).all isPlainSegment

def normalizeTopTabPath (path : List α) : List α := normalizePath isByteDrive path

def topTabPathIdentity (path : List α) : List α := pathIdentity isByteDrive path

/-- `isAbsoluteTopTabPath` of the backend. -/
def isAbsoluteTopTabPath (path : List α) : Bool :=
  let normalized := replace 92 47 path
  if startsWith [47, 47] normalized then decide (2 ≤ (fields 47 normalized).length)
  else if startsWith [47] normalized then true
  else isLetterDrive normalized

/-- `isCanonicalAbsoluteTopTabPath` of the backend. -/
def isCanonicalAbsoluteTopTabPath (path : List α) : Bool :=
  isAbsoluteTopTabPath path &&
    (normalizeTopTabPath path).map code == (replace 92 47 path).map code

/-- `isCanonicalCheckpointPath` of the backend. -/
def isCanonicalCheckpointTopTabPath (path : List α) : Bool :=
  if path.isEmpty || contains 0 path || contains 92 path || isDriveRelative path ||
      isAbsoluteTopTabPath path then false
  else (split 47 path).all isPlainSegment

/-- `tupleIdentityKey`; both sides write the length in units of their own. -/
def tupleIdentityKey (components : List (List α)) : List α := lengthPrefixed components

section Encoded

variable (e : Encoding α)

theorem isLetter_of_wide {u : α} (hu : 128 ≤ code u) : isLetter u = false := by
  simp only [isLetter, Bool.or_eq_false_iff, Bool.and_eq_false_iff, decide_eq_false_iff_not]
  omega

theorem isLetter_ascii {c : Char} (hc : c.toNat < 128) :
    isLetter (ascii c.toNat : α) = isLetter c := by
  rw [isLetter, isLetter, Encoding.code_ascii_toNat hc]

theorem isLetterDrive_text (s : List Char) : isLetterDrive (e.text s) = isLetterDrive s := by
  cases s with
  | nil => rfl
  | cons c s =>
    rcases e.text_cases c s with ⟨hc, htext⟩ | ⟨hc, u, us, htext, hu⟩
    · rw [htext, isLetterDrive, isLetterDrive, isLetter_ascii hc,
        e.startsWith_text (by decide)]
    · rw [htext, isLetterDrive, isLetterDrive, isLetter_of_wide hu, isLetter_of_wide hc,
        Bool.false_and, Bool.false_and]

theorem isDriveRelative_text (s : List Char) :
    isDriveRelative (e.text s) = isDriveRelative s := by
  cases s with
  | nil => rfl
  | cons c s =>
    rcases e.text_cases c s with ⟨hc, htext⟩ | ⟨hc, u, us, htext, hu⟩
    · rw [htext, isDriveRelative, isDriveRelative, isLetter_ascii hc,
        e.startsWith_text (by decide)]
    · rw [htext, isDriveRelative, isDriveRelative, isLetter_of_wide hu, isLetter_of_wide hc,
        Bool.false_and, Bool.false_and]

/-- What the backend takes for a drive, in characters: the byte in front of the colon is a
character of its own. -/
def isAsciiDrive : List Char → Bool
  | [] => false
  | c :: rest => decide (c.toNat < 128) && startsWith [58, 47] rest

theorem isByteDrive_text (s : List Char) : isByteDrive (utf8.text s) = isAsciiDrive s := by
  cases s with
  | nil => rfl
  | cons c s =>
    by_cases hc : c.toNat < 128
    · rw [utf8.text_cons_ascii hc, isByteDrive, isAsciiDrive, utf8.startsWith_text (by decide),
        decide_eq_true hc, Bool.true_and]
    · obtain ⟨u, v, us, hunits, hwide⟩ := utf8EncodeChar_wide (Nat.le_of_not_lt hc)
      have hv : code v ≠ 58 := by
        have h128 : 128 ≤ code v := hwide v (List.mem_cons_of_mem _ List.mem_cons_self)
        omega
      have htext : utf8.text (c :: s) = u :: v :: (us ++ utf8.text s) := by
        rw [Encoding.text_cons]
        change String.utf8EncodeChar c ++ _ = _
        rw [hunits]
        rfl
      rw [htext, isByteDrive, isAsciiDrive, decide_eq_false hc, Bool.false_and, startsWith,
        beq_false_of_ne hv, Bool.false_and]

section Normalized

variable {isDrive : List α → Bool} {isDriveText : List Char → Bool}

theorem resolve_text (rootDepth : Nat) (segments rawSegments : List (List Char)) :
    (rawSegments.map e.text).foldl (resolveSegment rootDepth) (segments.map e.text) =
      (rawSegments.foldl (resolveSegment rootDepth) segments).map e.text := by
  induction rawSegments generalizing segments with
  | nil => rfl
  | cons segment rest ih =>
    have hstep : resolveSegment rootDepth (segments.map e.text) (e.text segment) =
        (resolveSegment rootDepth segments segment).map e.text := by
      unfold resolveSegment
      rw [e.isWord_text (by decide), e.isWord_text (by decide), List.length_map]
      split_ifs
      · rfl
      · rw [List.map_dropLast]
      · rfl
      · rw [List.map_append, List.map_singleton]
    rw [List.map_cons, List.foldl_cons, List.foldl_cons, hstep, ih]

theorem writePath_text (isUnc isDriveAbsolute isPosixAbsolute : Bool)
    (segments : List (List Char)) :
    writePath isUnc isDriveAbsolute isPosixAbsolute (segments.map e.text) =
      e.text (writePath isUnc isDriveAbsolute isPosixAbsolute segments) := by
  have hslash : e.text [ascii 47] = [ascii 47] := by
    rw [e.text_cons_ascii (by decide)]
    rfl
  have hshare : e.text [ascii 47, ascii 47] = [ascii 47, ascii 47] := by
    rw [e.text_cons_ascii (by decide), hslash]
    rfl
  have hhead : (segments.map e.text).headD [] = e.text (segments.headD []) := by
    cases segments <;> rfl
  unfold writePath
  rw [List.length_map, e.join_text (by decide), hhead]
  split_ifs
  · rw [Encoding.text_append, hshare]
  · rw [Encoding.text_append, hslash]
  · rw [Encoding.text_append, hslash]
  · rfl

theorem normalizePath_text (hdrive : ∀ s, isDrive (e.text s) = isDriveText s)
    (path : List Char) :
    normalizePath isDrive (e.text path) = e.text (normalizePath isDriveText path) := by
  unfold normalizePath
  simp only
  rw [e.replace_text (by decide) (by decide), e.startsWith_text (by decide), hdrive,
    e.startsWith_text (by decide), e.fields_text (by decide), List.length_map]
  exact (congrArg _ (resolve_text e _ [] _)).trans (writePath_text e _ _ _ _)

theorem pathIdentity_text (hdrive : ∀ s, isDrive (e.text s) = isDriveText s)
    (path : List Char) :
    pathIdentity isDrive (e.text path) = e.text (pathIdentity isDriveText path) := by
  unfold pathIdentity
  simp only
  rw [normalizePath_text e hdrive, e.startsWith_text (by decide), hdrive, e.foldLower_text]
  split_ifs <;> rfl

end Normalized

theorem isAbsoluteLocalPath_text (s : List Char) :
    isAbsoluteLocalPath (e.text s) = isAbsoluteLocalPath s := by
  unfold isAbsoluteLocalPath
  simp only
  rw [Encoding.isEmpty_text, e.contains_text (by decide), e.replace_text (by decide) (by decide),
    isLetterDrive_text, e.startsWith_text (by decide), e.startsWith_text (by decide),
    e.fields_text (by decide), List.length_map]

theorem isAbsoluteTopTabPath_text (s : List Char) :
    isAbsoluteTopTabPath (e.text s) = isAbsoluteTopTabPath s := by
  unfold isAbsoluteTopTabPath
  simp only
  rw [e.replace_text (by decide) (by decide), isLetterDrive_text, e.startsWith_text (by decide),
    e.startsWith_text (by decide), e.fields_text (by decide), List.length_map]

theorem codes_beq_text (s t : List Char) :
    ((e.text s).map code == (e.text t).map code) = decide (s = t) := by
  rw [Bool.eq_iff_iff, beq_iff_eq, decide_eq_true_iff]
  constructor
  · intro h
    exact (e.text_inj s t).mp (List.map_injective_iff.mpr code_inj h)
  · intro h
    rw [h]

theorem isCanonicalAbsoluteLocalPath_text (s : List Char) :
    isCanonicalAbsoluteLocalPath (e.text s) =
      (isAbsoluteLocalPath s && decide (normalizePath isLetterDrive s = replace 92 47 s)) := by
  rw [isCanonicalAbsoluteLocalPath, isAbsoluteLocalPath_text, normalizeFileTabPath,
    normalizePath_text e (isLetterDrive_text e), e.replace_text (by decide) (by decide),
    codes_beq_text]

theorem isCanonicalAbsoluteTopTabPath_utf8 (s : List Char) :
    isCanonicalAbsoluteTopTabPath (utf8.text s) =
      (isAbsoluteTopTabPath s && decide (normalizePath isAsciiDrive s = replace 92 47 s)) := by
  rw [isCanonicalAbsoluteTopTabPath, isAbsoluteTopTabPath_text, normalizeTopTabPath,
    normalizePath_text utf8 isByteDrive_text, utf8.replace_text (by decide) (by decide),
    codes_beq_text]

theorem all_isPlainSegment_text (segments : List (List Char)) :
    (segments.map e.text).all isPlainSegment = segments.all isPlainSegment := by
  rw [List.all_map]
  congr 1
  funext segment
  rw [Function.comp_apply, isPlainSegment, isPlainSegment, Encoding.isEmpty_text,
    e.isWord_text (by decide), e.isWord_text (by decide)]

theorem isCanonicalCheckpointPath_text (s : List Char) :
    isCanonicalCheckpointPath (e.text s) = isCanonicalCheckpointPath s := by
  unfold isCanonicalCheckpointPath
  rw [Encoding.isEmpty_text, e.contains_text (by decide), e.contains_text (by decide),
    e.startsWith_text (by decide), isDriveRelative_text, e.split_text (by decide),
    all_isPlainSegment_text]

theorem isCanonicalCheckpointTopTabPath_text (s : List Char) :
    isCanonicalCheckpointTopTabPath (e.text s) = isCanonicalCheckpointTopTabPath s := by
  unfold isCanonicalCheckpointTopTabPath
  rw [Encoding.isEmpty_text, e.contains_text (by decide), e.contains_text (by decide),
    isDriveRelative_text, isAbsoluteTopTabPath_text, e.split_text (by decide),
    all_isPlainSegment_text]

theorem tupleIdentityKey_text (components components' : List (List Char)) :
    tupleIdentityKey (components.map e.text) = tupleIdentityKey (components'.map e.text) ↔
      components = components' := by
  constructor
  · intro h
    exact List.map_injective_iff.mpr (fun s t => (e.text_inj s t).mp) (lengthPrefixed_inj h)
  · intro h
    rw [h]

end Encoded

section Agreement

/-- Where a text looks like a drive to the backend, it begins with a letter. -/
def LetterFirst (s : List Char) : Prop := isAsciiDrive s = true → isLetterDrive s = true

instance (s : List Char) : Decidable (LetterFirst s) := inferInstanceAs (Decidable (_ → _))

/-- A path whose drive, if any, is a letter, before and after it is normalized. -/
def Lettered (path : List Char) : Prop :=
  LetterFirst (replace 92 47 path) ∧ LetterFirst (normalizePath isLetterDrive path)

instance (path : List Char) : Decidable (Lettered path) := inferInstanceAs (Decidable (_ ∧ _))

theorem isAsciiDrive_of_isLetterDrive {s : List Char} (h : isLetterDrive s = true) :
    isAsciiDrive s = true := by
  cases s with
  | nil => cases h
  | cons c s =>
    obtain ⟨hletter, hrest⟩ := (Bool.and_eq_true _ _).mp h
    have hc : c.toNat < 128 := by
      by_contra hwide
      have hfalse : isLetter c = false := isLetter_of_wide (Nat.le_of_not_lt hwide)
      rw [hfalse] at hletter
      cases hletter
    rw [isAsciiDrive, hrest, decide_eq_true hc]
    rfl

theorem LetterFirst.eq {s : List Char} (h : LetterFirst s) : isAsciiDrive s = isLetterDrive s := by
  rw [Bool.eq_iff_iff]
  exact ⟨h, isAsciiDrive_of_isLetterDrive⟩

theorem Lettered.normalizePath {path : List Char} (h : Lettered path) :
    normalizePath isAsciiDrive path = normalizePath isLetterDrive path := by
  unfold TopTabPath.normalizePath
  simp only [h.1.eq]

theorem Lettered.pathIdentity {path : List Char} (h : Lettered path) :
    pathIdentity isAsciiDrive path = pathIdentity isLetterDrive path := by
  unfold TopTabPath.pathIdentity
  simp only [h.normalizePath, h.2.eq]

theorem isAbsoluteLocalPath_eq {path : List Char} (h : contains 0 path = false) :
    isAbsoluteLocalPath path = isAbsoluteTopTabPath path := by
  have hsecond : ∀ s : List Char, startsWith [47, 47] s = true → startsWith [47] s = true := by
    intro s hs
    cases s with
    | nil => cases hs
    | cons c s =>
      obtain ⟨hc, -⟩ := (Bool.and_eq_true _ _).mp hs
      rw [startsWith, hc]
      cases s <;> rfl
  have hletter : ∀ s : List Char, isLetterDrive s = true → startsWith [47] s = false := by
    intro s hs
    cases s with
    | nil => cases hs
    | cons c s =>
      obtain ⟨hc, -⟩ := (Bool.and_eq_true _ _).mp hs
      simp only [isLetter, Bool.or_eq_true, Bool.and_eq_true, decide_eq_true_eq] at hc
      have hne : code c ≠ 47 := by omega
      rw [startsWith, beq_false_of_ne hne, Bool.false_and]
  unfold isAbsoluteLocalPath isAbsoluteTopTabPath
  simp only [h, Bool.or_false]
  cases path with
  | nil => rfl
  | cons c s =>
    rw [List.isEmpty_cons, if_neg Bool.false_ne_true]
    cases hdrive : isLetterDrive (replace 92 47 (c :: s)) with
    | true =>
      have hposix := hletter _ hdrive
      have hunc : startsWith [47, 47] (replace 92 47 (c :: s)) = false := by
        by_contra hunc
        rw [hsecond _ (by simpa using hunc)] at hposix
        cases hposix
      rw [hposix, hunc]
      rfl
    | false =>
      cases startsWith [47, 47] (replace 92 47 (c :: s)) <;>
        cases startsWith [47] (replace 92 47 (c :: s)) <;> rfl

theorem isCanonicalCheckpointPath_eq (path : List Char) :
    isCanonicalCheckpointPath path = isCanonicalCheckpointTopTabPath path := by
  unfold isCanonicalCheckpointPath isCanonicalCheckpointTopTabPath
  cases hback : contains 92 path with
  | true => simp
  | false =>
    have hsame : replace 92 47 path = path := by
      refine (List.map_congr_left ?_).trans (List.map_id _)
      intro c hc
      rw [contains, List.any_eq_false] at hback
      rw [if_neg (by simpa using hback c hc)]
      rfl
    cases hdrive : isDriveRelative path with
    | true => simp
    | false =>
      have hletter : isLetterDrive path = false := by
        cases path with
        | nil => rfl
        | cons c s =>
          rw [isDriveRelative] at hdrive
          rw [isLetterDrive]
          cases hc : isLetter c with
          | false => rfl
          | true =>
            rw [hc, Bool.true_and] at hdrive
            rw [Bool.true_and]
            cases s with
            | nil => rfl
            | cons d s =>
              rw [startsWith] at hdrive ⊢
              cases hd : code d == 58 with
              | false => rfl
              | true =>
                rw [hd, startsWith] at hdrive
                cases s <;> cases hdrive
      cases hposix : startsWith [47] path with
      | true =>
        have hfirst : (split 47 path).all isPlainSegment = false := by
          cases path with
          | nil => cases hposix
          | cons c s =>
            rw [startsWith, Bool.and_eq_true] at hposix
            rw [split, List.splitOnP_cons_eq_if_modifyHead, if_pos hposix.1]
            rfl
        rw [hfirst]
        simp
      | false =>
        have hunc : startsWith [47, 47] path = false := by
          cases path with
          | nil => rfl
          | cons c s =>
            rw [startsWith] at hposix ⊢
            cases hc : code c == 47 with
            | false => rfl
            | true =>
              rw [hc, startsWith] at hposix
              cases s <;> cases hposix
        rw [isAbsoluteTopTabPath]
        simp only [hsame, hunc, hposix, hletter]
        cases path.isEmpty <;> cases contains 0 path <;> simp

end Agreement

end TopTabPath

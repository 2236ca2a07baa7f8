import Crest.JsString

/-!
# Surrogates, code points and bytes

A JavaScript string becomes bytes by way of its code points: a surrogate pair
is one code point, a lone surrogate is replaced by U+FFFD.  The string
literals of the source are well formed, so `js` loses nothing of the text they
are written with; two field names are equal exactly when their literals are.
-/

namespace JsString

/-- The first half of a surrogate pair. -/
def isHighSurrogate (u : UInt16) : Bool := 0xD800 ≤ u && u ≤ 0xDBFF

/-- The second half of a surrogate pair. -/
def isLowSurrogate (u : UInt16) : Bool := 0xDC00 ≤ u && u ≤ 0xDFFF

/-- The code point of a surrogate pair. -/
def pairChar (u v : UInt16) : Char :=
  Char.ofNat (0x10000 + (u.toNat - 0xD800) * 0x400 + (v.toNat - 0xDC00))

/-- The code point of a single code unit. -/
def unitChar (u : UInt16) : Char :=
  if isHighSurrogate u || isLowSurrogate u then Char.ofNat 0xFFFD else Char.ofNat u.toNat

/-- The code points of a string. -/
def codePoints : JsString → List Char
  | [] => []
  | [u] => [unitChar u]
  | u :: v :: rest =>
    if isHighSurrogate u && isLowSurrogate v then pairChar u v :: codePoints rest
    else unitChar u :: codePoints (v :: rest)

/-- `Buffer.from(value, "utf8")`. -/
def utf8 (s : JsString) : List UInt8 := (codePoints s).flatMap String.utf8EncodeChar

def hasUnpairedSurrogate : JsString → Bool
  | [] => false
  | [u] => isHighSurrogate u || isLowSurrogate u
  | u :: v :: rest =>
    if isHighSurrogate u then
      if isLowSurrogate v then hasUnpairedSurrogate rest else true
    else if isLowSurrogate u then true
    else hasUnpairedSurrogate (v :: rest)

/-- `hasWellFormedUtf16`, the same scan with the opposite answer. -/
def hasWellFormedUtf16 : JsString → Bool
  | [] => true
  | [u] => !(isHighSurrogate u || isLowSurrogate u)
  | u :: v :: rest =>
    if isHighSurrogate u then
      if isLowSurrogate v then hasWellFormedUtf16 rest else false
    else if isLowSurrogate u then false
    else hasWellFormedUtf16 (v :: rest)

theorem hasWellFormedUtf16_eq (s : JsString) :
    hasWellFormedUtf16 s = !hasUnpairedSurrogate s := by
  fun_induction hasWellFormedUtf16 s <;> simp_all [hasUnpairedSurrogate]

theorem char_bounds (c : Char) : c.toNat < 0xD800 ∨ (0xDFFF < c.toNat ∧ c.toNat < 0x110000) :=
  c.valid

theorem codePoints_utf16Units_append (c : Char) (s : JsString) :
    codePoints (utf16Units c ++ s) = c :: codePoints s := by
  have hc := char_bounds c
  unfold utf16Units
  split
  · rename_i hsmall
    have hunit : (UInt16.ofNat c.toNat).toNat = c.toNat := by
      simp
      omega
    have hhigh : isHighSurrogate (UInt16.ofNat c.toNat) = false := by
      simp [isHighSurrogate, UInt16.le_iff_toNat_le, hunit]
      omega
    have hlow : isLowSurrogate (UInt16.ofNat c.toNat) = false := by
      simp [isLowSurrogate, UInt16.le_iff_toNat_le, hunit]
      omega
    have hchar : unitChar (UInt16.ofNat c.toNat) = c := by
      simp [unitChar, hhigh, hlow, hunit]
    cases s with
    | nil => simp [codePoints, hchar]
    | cons v rest => simp [codePoints, hhigh, hchar]
  · rename_i hbig
    simp only [List.cons_append, List.nil_append, codePoints]
    have hu : (UInt16.ofNat (0xD800 + (c.toNat - 0x10000) / 0x400)).toNat =
        0xD800 + (c.toNat - 0x10000) / 0x400 := by
      simp
      omega
    have hv : (UInt16.ofNat (0xDC00 + (c.toNat - 0x10000) % 0x400)).toNat =
        0xDC00 + (c.toNat - 0x10000) % 0x400 := by
      simp
      omega
    have hhigh : isHighSurrogate (UInt16.ofNat (0xD800 + (c.toNat - 0x10000) / 0x400)) = true := by
      simp only [isHighSurrogate, Bool.and_eq_true, decide_eq_true_eq, UInt16.le_iff_toNat_le, hu]
      refine ⟨?_, ?_⟩
      · simp
      · show _ ≤ 0xDBFF
        omega
    have hlow : isLowSurrogate (UInt16.ofNat (0xDC00 + (c.toNat - 0x10000) % 0x400)) = true := by
      simp only [isLowSurrogate, Bool.and_eq_true, decide_eq_true_eq, UInt16.le_iff_toNat_le, hv]
      refine ⟨?_, ?_⟩
      · simp
      · show _ ≤ 0xDFFF
        omega
    have hpair : pairChar (UInt16.ofNat (0xD800 + (c.toNat - 0x10000) / 0x400))
        (UInt16.ofNat (0xDC00 + (c.toNat - 0x10000) % 0x400)) = c := by
      have hsum : 0x10000 + (0xD800 + (c.toNat - 0x10000) / 0x400 - 0xD800) * 0x400 +
          (0xDC00 + (c.toNat - 0x10000) % 0x400 - 0xDC00) = c.toNat := by
        omega
      rw [pairChar, hu, hv, hsum, Char.ofNat_toNat]
    rw [hhigh, hlow, hpair]
    rfl

@[simp] theorem codePoints_js (s : String) : codePoints (js s) = s.toList := by
  unfold js
  induction s.toList with
  | nil => rfl
  | cons c cs ih => rw [List.flatMap_cons, codePoints_utf16Units_append, ih]

@[simp] theorem js_inj (s t : String) : js s = js t ↔ s = t := by
  constructor
  · intro h
    have hlist : s.toList = t.toList := by simpa only [codePoints_js] using congrArg codePoints h
    exact String.toList_inj.mp hlist
  · rintro rfl
    rfl

@[simp] theorem js_beq (s t : String) : (js s == js t) = decide (s = t) := by
  rw [beq_eq_decide]
  simp

end JsString

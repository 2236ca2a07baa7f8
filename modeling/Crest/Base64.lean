import Mathlib.Tactic.FinCases
import Crest.JsString

/-!
# Base64

A file name that is not valid UTF-8 travels through JSON as the base64 text of
its bytes.  Reading such a text asks for the strict form, the one
`Buffer.toString("base64")` writes, and every text it writes has that form.
-/

namespace Base64

/-- The character of a six-bit value. -/
def sextetUnit (n : Nat) : UInt16 :=
  if n < 26 then UInt16.ofNat (0x41 + n)
  else if n < 52 then UInt16.ofNat (0x61 + (n - 26))
  else if n < 62 then UInt16.ofNat (0x30 + (n - 52))
  else if n = 62 then 0x2B
  else 0x2F

/-- The six-bit value of a character of the alphabet. -/
def unitSextet (u : UInt16) : Nat :=
  if 0x41 ≤ u && u ≤ 0x5A then u.toNat - 0x41
  else if 0x61 ≤ u && u ≤ 0x7A then u.toNat - 0x61 + 26
  else if 0x30 ≤ u && u ≤ 0x39 then u.toNat - 0x30 + 52
  else if u == 0x2B then 62
  else 63

/-- The class `[A-Za-z0-9+/]`. -/
def isAlphabetUnit (u : UInt16) : Bool :=
  (0x41 ≤ u && u ≤ 0x5A) || (0x61 ≤ u && u ≤ 0x7A) || (0x30 ≤ u && u ≤ 0x39) ||
    u == 0x2B || u == 0x2F

def pad : UInt16 := 0x3D

/-- `bytes.toString("base64")`. -/
def toBase64 : List UInt8 → JsString
  | [] => []
  | [a] => [sextetUnit (a.toNat / 4), sextetUnit (a.toNat % 4 * 16), pad, pad]
  | [a, b] =>
    [sextetUnit (a.toNat / 4), sextetUnit (a.toNat % 4 * 16 + b.toNat / 16),
      sextetUnit (b.toNat % 16 * 4), pad]
  | a :: b :: c :: rest =>
    sextetUnit (a.toNat / 4) :: sextetUnit (a.toNat % 4 * 16 + b.toNat / 16) ::
      sextetUnit (b.toNat % 16 * 4 + c.toNat / 64) :: sextetUnit (c.toNat % 64) ::
      toBase64 rest

/-- `Buffer.from(value, "base64")` of a text in the strict form. -/
def fromBase64 : JsString → List UInt8
  | p :: q :: r :: s :: rest =>
    let first := UInt8.ofNat (unitSextet p * 4 + unitSextet q / 16)
    let second := UInt8.ofNat (unitSextet q % 16 * 16 + unitSextet r / 4)
    let third := UInt8.ofNat (unitSextet r % 4 * 64 + unitSextet s)
    if r = pad then [first]
    else if s = pad then [first, second]
    else first :: second :: third :: fromBase64 rest
  | _ => []

/-- `Base64Pattern.test(value)`: whole groups of four, the last of which may be
padded. -/
def matchesPattern : JsString → Bool
  | [] => true
  | [p, q, r, s] =>
    isAlphabetUnit p && isAlphabetUnit q &&
      ((isAlphabetUnit r && (isAlphabetUnit s || s == pad)) || (r == pad && s == pad))
  | p :: q :: r :: s :: rest =>
    isAlphabetUnit p && isAlphabetUnit q && isAlphabetUnit r && isAlphabetUnit s &&
      matchesPattern rest
  | _ => false

/-- `isStrictBase64` of a string. -/
def isStrictBase64 (value : JsString) : Bool :=
  decide (0 < value.length) && matchesPattern value

theorem isAlphabetUnit_sextetUnit (n : Nat) (h : n < 64) :
    isAlphabetUnit (sextetUnit n) = true := by
  have hall : ∀ m : Fin 64, isAlphabetUnit (sextetUnit m) = true := by decide
  exact hall ⟨n, h⟩

theorem sextetUnit_ne_pad (n : Nat) (h : n < 64) : sextetUnit n ≠ pad := by
  have hall : ∀ m : Fin 64, sextetUnit m ≠ pad := by decide
  exact hall ⟨n, h⟩

theorem unitSextet_sextetUnit (n : Nat) (h : n < 64) : unitSextet (sextetUnit n) = n := by
  have hall : ∀ m : Fin 64, unitSextet (sextetUnit m) = m := by decide
  exact hall ⟨n, h⟩

theorem matchesPattern_group (p q r s : UInt16) (rest : JsString)
    (hp : isAlphabetUnit p = true) (hq : isAlphabetUnit q = true)
    (hr : isAlphabetUnit r = true) (hs : isAlphabetUnit s = true) :
    matchesPattern (p :: q :: r :: s :: rest) = matchesPattern rest := by
  cases rest with
  | nil | cons _ _ => simp [matchesPattern, hp, hq, hr, hs]

theorem matchesPattern_toBase64 (bytes : List UInt8) :
    matchesPattern (toBase64 bytes) = true := by
  induction bytes using toBase64.induct with
  | case1 => rfl
  | case2 a =>
    have ha := a.toNat_lt
    have hfirst := isAlphabetUnit_sextetUnit (a.toNat / 4) (by omega)
    have hsecond := isAlphabetUnit_sextetUnit (a.toNat % 4 * 16) (by omega)
    simp [toBase64, matchesPattern, hfirst, hsecond]
  | case3 a b =>
    have ha := a.toNat_lt
    have hb := b.toNat_lt
    have hfirst := isAlphabetUnit_sextetUnit (a.toNat / 4) (by omega)
    have hsecond := isAlphabetUnit_sextetUnit (a.toNat % 4 * 16 + b.toNat / 16) (by omega)
    have hthird := isAlphabetUnit_sextetUnit (b.toNat % 16 * 4) (by omega)
    simp [toBase64, matchesPattern, hfirst, hsecond, hthird]
  | case4 a b c rest ih =>
    have ha := a.toNat_lt
    have hb := b.toNat_lt
    have hc := c.toNat_lt
    rw [toBase64, matchesPattern_group _ _ _ _ _ (isAlphabetUnit_sextetUnit _ (by omega))
      (isAlphabetUnit_sextetUnit _ (by omega)) (isAlphabetUnit_sextetUnit _ (by omega))
      (isAlphabetUnit_sextetUnit _ (by omega))]
    exact ih

theorem isStrictBase64_toBase64 (bytes : List UInt8) (h : bytes ≠ []) :
    isStrictBase64 (toBase64 bytes) = true := by
  have hlength : 0 < (toBase64 bytes).length := by
    match bytes, h with
    | [_], _ => simp [toBase64]
    | [_, _], _ => simp [toBase64]
    | _ :: _ :: _ :: _, _ => simp [toBase64]
  simp [isStrictBase64, hlength, matchesPattern_toBase64]

/-- **The bytes are read back from their text.** -/
@[simp] theorem fromBase64_toBase64 (bytes : List UInt8) :
    fromBase64 (toBase64 bytes) = bytes := by
  induction bytes using toBase64.induct with
  | case1 => rfl
  | case2 a =>
    have ha := a.toNat_lt
    rw [toBase64, fromBase64, unitSextet_sextetUnit _ (by omega),
      unitSextet_sextetUnit _ (by omega)]
    have hfirst : a.toNat / 4 * 4 + a.toNat % 4 * 16 / 16 = a.toNat := by omega
    simp only [hfirst, if_true, UInt8.ofNat_toNat]
  | case3 a b =>
    have ha := a.toNat_lt
    have hb := b.toNat_lt
    have hpad := sextetUnit_ne_pad (b.toNat % 16 * 4) (by omega)
    rw [toBase64, fromBase64, unitSextet_sextetUnit _ (by omega),
      unitSextet_sextetUnit _ (by omega), unitSextet_sextetUnit _ (by omega)]
    have hfirst :
        a.toNat / 4 * 4 + (a.toNat % 4 * 16 + b.toNat / 16) / 16 = a.toNat := by omega
    have hsecond :
        (a.toNat % 4 * 16 + b.toNat / 16) % 16 * 16 + b.toNat % 16 * 4 / 4 = b.toNat := by
      omega
    simp only [hfirst, hsecond, hpad, if_true, if_false, UInt8.ofNat_toNat]
  | case4 a b c rest ih =>
    have ha := a.toNat_lt
    have hb := b.toNat_lt
    have hc := c.toNat_lt
    have hpad := sextetUnit_ne_pad (b.toNat % 16 * 4 + c.toNat / 64) (by omega)
    have hpad' := sextetUnit_ne_pad (c.toNat % 64) (by omega)
    rw [toBase64, fromBase64, unitSextet_sextetUnit _ (by omega),
      unitSextet_sextetUnit _ (by omega), unitSextet_sextetUnit _ (by omega),
      unitSextet_sextetUnit _ (by omega)]
    have hfirst :
        a.toNat / 4 * 4 + (a.toNat % 4 * 16 + b.toNat / 16) / 16 = a.toNat := by omega
    have hsecond :
        (a.toNat % 4 * 16 + b.toNat / 16) % 16 * 16 +
          (b.toNat % 16 * 4 + c.toNat / 64) / 4 = b.toNat := by
      omega
    have hthird :
        (b.toNat % 16 * 4 + c.toNat / 64) % 4 * 64 + c.toNat % 64 = c.toNat := by
      omega
    simp only [hfirst, hsecond, hthird, hpad, hpad', if_false, ih, UInt8.ofNat_toNat]

end Base64

import Mathlib.Data.List.Basic

/-!
# JavaScript strings

A JavaScript string is a finite sequence of UTF-16 code units.  Nothing forces
the sequence to be well formed, so a lone surrogate is an ordinary string, and
`length`, `===`, `includes` and `split` all work on code units.

The definitions below are the built-in operations the modelled code calls,
under their own names.  `js` writes an ordinary Lean literal as the string a
TypeScript literal with the same text denotes.
-/

/-- A JavaScript string as its list of UTF-16 code units. -/
abbrev JsString := List UInt16

/-- Whether a string is in a list of strings. -/
instance (s : JsString) (l : List JsString) : Decidable (s ∈ l) :=
  List.instDecidableMemOfLawfulBEq s l

/-- The UTF-16 code units of one Unicode scalar value. -/
def utf16Units (c : Char) : JsString :=
  if c.toNat < 0x10000 then [UInt16.ofNat c.toNat]
  else
    let v := c.toNat - 0x10000
    [UInt16.ofNat (0xD800 + v / 0x400), UInt16.ofNat (0xDC00 + v % 0x400)]

/-- The JavaScript string written by a literal. -/
def js (s : String) : JsString := s.toList.flatMap utf16Units

namespace JsString

/-- The code units `String.prototype.trim` removes: white space and line
terminators. -/
def isTrimUnit (u : UInt16) : Bool :=
  (0x09 ≤ u && u ≤ 0x0D) || u == 0x20 || u == 0xA0 || u == 0x1680 ||
    (0x2000 ≤ u && u ≤ 0x200A) || u == 0x2028 || u == 0x2029 || u == 0x202F ||
    u == 0x205F || u == 0x3000 || u == 0xFEFF

/-- `value.trim().length === 0`. -/
def isBlank (s : JsString) : Bool := s.all isTrimUnit

end JsString

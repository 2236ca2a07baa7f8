import Mathlib.Data.List.Sort
import Mathlib.Data.Rat.Defs
import Crest.JsString

/-!
# JSON values

The plain data a session entry, a manifest or a journal record is made of.  An
object is the list of its own enumerable fields in enumeration order; field
names are JavaScript strings.  A number is a finite double, as the rational it
denotes.

`canonicalJson` is the text that is hashed: the keys of every object are
sorted, then the value is written by `JSON.stringify`.  How a number is written
is a parameter, because it only matters inside a digest.
-/

/-- A JSON value. -/
inductive Json
  | null
  | bool (b : Bool)
  | num (n : ℚ)
  | str (s : JsString)
  | arr (items : List Json)
  | obj (fields : List (JsString × Json))
deriving Repr, Inhabited

namespace Json

mutual

/-- Equality of JSON values is decidable. -/
def decEq : (a b : Json) → Decidable (a = b)
  | .null, .null => isTrue rfl
  | .bool a, .bool b => decidable_of_iff (a = b) (by simp)
  | .num a, .num b => decidable_of_iff (a = b) (by simp)
  | .str a, .str b => decidable_of_iff (a = b) (by simp)
  | .arr a, .arr b =>
    have := decEqItems a b
    decidable_of_iff (a = b) (by simp)
  | .obj a, .obj b =>
    have := decEqFields a b
    decidable_of_iff (a = b) (by simp)
  | .null, .bool _ | .null, .num _ | .null, .str _ | .null, .arr _ | .null, .obj _
  | .bool _, .null | .bool _, .num _ | .bool _, .str _ | .bool _, .arr _ | .bool _, .obj _
  | .num _, .null | .num _, .bool _ | .num _, .str _ | .num _, .arr _ | .num _, .obj _
  | .str _, .null | .str _, .bool _ | .str _, .num _ | .str _, .arr _ | .str _, .obj _
  | .arr _, .null | .arr _, .bool _ | .arr _, .num _ | .arr _, .str _ | .arr _, .obj _
  | .obj _, .null | .obj _, .bool _ | .obj _, .num _ | .obj _, .str _ | .obj _, .arr _ =>
    isFalse (by simp)

/-- Equality of lists of JSON values is decidable. -/
def decEqItems : (a b : List Json) → Decidable (a = b)
  | [], [] => isTrue rfl
  | x :: xs, y :: ys =>
    have := decEq x y
    have := decEqItems xs ys
    decidable_of_iff (x = y ∧ xs = ys) (by simp)
  | [], _ :: _ | _ :: _, [] => isFalse (by simp)

/-- Equality of field lists is decidable. -/
def decEqFields : (a b : List (JsString × Json)) → Decidable (a = b)
  | [], [] => isTrue rfl
  | (k, x) :: xs, (l, y) :: ys =>
    have := decEq x y
    have := decEqFields xs ys
    decidable_of_iff (k = l ∧ x = y ∧ xs = ys) (by simp [and_assoc])
  | [], _ :: _ | _ :: _, [] => isFalse (by simp)

end

instance : DecidableEq Json := decEq

/-- The value of an own field. -/
def get (v : Json) (key : JsString) : Option Json :=
  match v with
  | .obj fields => fields.lookup key
  | _ => none

/-- `Object.keys` of an object; empty for anything else. -/
def keys : Json → List JsString
  | .obj fields => fields.map Prod.fst
  | _ => []

/-- The fields of `{ a: x, ...(y == null ? {} : { b: y }) }`: an absent optional
field is left out. -/
def optionalField (key : JsString) (value : Option Json) : List (JsString × Json) :=
  (value.map fun v => (key, v)).toList

/-- Lexicographic order of code units, the order of `Array.prototype.sort`. -/
def codeUnitsLE : JsString → JsString → Bool
  | [], _ => true
  | _ :: _, [] => false
  | a :: as, b :: bs => a < b || (a == b && codeUnitsLE as bs)

/-- The value of a string of decimal digits. -/
def digitsValue (s : JsString) : Nat :=
  s.foldl (fun n u => 10 * n + (u.toNat - 0x30)) 0

/-- Whether a key is an array index, which objects enumerate first. -/
def isArrayIndex (key : JsString) : Bool :=
  key ≠ [] && key.all (fun u => 0x30 ≤ u && u ≤ 0x39) &&
    (key.length = 1 || key.head? ≠ some 0x30) && digitsValue key < 4294967295

/-- The order in which an object with sorted insertion order enumerates. -/
def keyLE (a b : JsString) : Bool :=
  if isArrayIndex a then
    if isArrayIndex b then digitsValue a ≤ digitsValue b else true
  else if isArrayIndex b then false
  else codeUnitsLE a b

mutual

/-- `copyJsonValue`: every object with its keys in canonical order. -/
def copyJsonValue : Json → Json
  | .null => .null
  | .bool b => .bool b
  | .num n => .num n
  | .str s => .str s
  | .arr items => .arr (copyItems items)
  | .obj fields => .obj ((copyFields fields).insertionSort fun a b => keyLE a.1 b.1)

/-- `copyJsonValue` on the items of an array. -/
def copyItems : List Json → List Json
  | [] => []
  | v :: rest => copyJsonValue v :: copyItems rest

/-- `copyJsonValue` on the values of an object. -/
def copyFields : List (JsString × Json) → List (JsString × Json)
  | [] => []
  | (k, v) :: rest => (k, copyJsonValue v) :: copyFields rest

end

/-- Four lowercase hexadecimal digits. -/
def hex4 (u : UInt16) : JsString :=
  let digit (d : Nat) : UInt16 := UInt16.ofNat (if d < 10 then 0x30 + d else 0x57 + d)
  [digit (u.toNat / 4096), digit (u.toNat / 256 % 16), digit (u.toNat / 16 % 16),
    digit (u.toNat % 16)]

/-- The escape of one code unit; `JSON.stringify` writes lone surrogates as
escapes too. -/
def escapeUnit (u : UInt16) : JsString :=
  if u = 0x22 then js "\\\""
  else if u = 0x5C then js "\\\\"
  else if u = 0x08 then js "\\b"
  else if u = 0x0C then js "\\f"
  else if u = 0x0A then js "\\n"
  else if u = 0x0D then js "\\r"
  else if u = 0x09 then js "\\t"
  else if u < 0x20 then js "\\u" ++ hex4 u
  else [u]

/-- The text of a string between its quotes. -/
def escapeString : JsString → JsString
  | [] => []
  | [u] => if 0xD800 ≤ u && u ≤ 0xDFFF then js "\\u" ++ hex4 u else escapeUnit u
  | u :: v :: rest =>
    if 0xD800 ≤ u && u ≤ 0xDBFF && 0xDC00 ≤ v && v ≤ 0xDFFF then
      u :: v :: escapeString rest
    else if 0xD800 ≤ u && u ≤ 0xDFFF then js "\\u" ++ hex4 u ++ escapeString (v :: rest)
    else escapeUnit u ++ escapeString (v :: rest)

/-- A quoted string. -/
def quote (s : JsString) : JsString := js "\"" ++ escapeString s ++ js "\""

mutual

def stringify (numberText : ℚ → JsString) : Json → JsString
  | .null => js "null"
  | .bool true => js "true"
  | .bool false => js "false"
  | .num n => numberText n
  | .str s => quote s
  | .arr items => js "[" ++ stringifyItems numberText items ++ js "]"
  | .obj fields => js "\x7b" ++ stringifyFields numberText fields ++ js "\x7d"

/-- The items of an array, separated by commas. -/
def stringifyItems (numberText : ℚ → JsString) : List Json → JsString
  | [] => []
  | [v] => stringify numberText v
  | v :: w :: rest =>
    stringify numberText v ++ js "," ++ stringifyItems numberText (w :: rest)

/-- The fields of an object, separated by commas. -/
def stringifyFields (numberText : ℚ → JsString) : List (JsString × Json) → JsString
  | [] => []
  | [(k, v)] => quote k ++ js ":" ++ stringify numberText v
  | (k, v) :: f :: rest =>
    quote k ++ js ":" ++ stringify numberText v ++ js "," ++
      stringifyFields numberText (f :: rest)

end

def canonicalJson (numberText : ℚ → JsString) (v : Json) : JsString :=
  stringify numberText (copyJsonValue v)

end Json

/-- What a digest rests on: the hash and the text of a finite number. -/
structure Digest where
  /-- The SHA-256 of the UTF-8 bytes of a text, in lowercase hexadecimal. -/
  sha256 : JsString → JsString
  /-- The text `JSON.stringify` writes for a number. -/
  numberText : ℚ → JsString

def Digest.sha256CanonicalJson (digest : Digest) (v : Json) : JsString :=
  digest.sha256 (v.canonicalJson digest.numberText)

import Crest.Json
import Crest.Utf16

/-!
# Reading records out of JSON values

The decoders of the workspace code take an `unknown` value and test it field by
field.  The tests they share are here under their own names, next to the lemmas
that evaluate them on an object written out with its fields.
-/

namespace Json

/-- `typeof value === "object" && value != null && !Array.isArray(value)`. -/
def isRecord : Json → Bool
  | .obj _ => true
  | _ => false

/-- `Object.hasOwn(value, key)`. -/
def hasOwn (value : Json) (key : JsString) : Bool := (value.get key).isSome

/-- `hasExactKeys(value, required, optional)`: every key is allowed and every
required key is there. -/
def hasExactKeys (value : Json) (required optional : List JsString) : Bool :=
  value.keys.all (fun key => (required ++ optional).contains key) &&
    required.all fun key => value.hasOwn key

/-- The string of a value that is one. -/
def asString : Json → Option JsString
  | .str s => some s
  | _ => none

/-- The boolean of a value that is one. -/
def asBool : Json → Option Bool
  | .bool b => some b
  | _ => none

/-- The items of a value that is an array. -/
def asArray : Json → Option (List Json)
  | .arr items => some items
  | _ => none

/-- A field that holds a string. -/
def stringField (value : Json) (key : JsString) : Option JsString :=
  (value.get key).bind asString

/-- A field that holds an array. -/
def arrayField (value : Json) (key : JsString) : Option (List Json) :=
  (value.get key).bind asArray

@[simp] theorem get_obj_cons (k k' : String) (v : Json) (rest : List (JsString × Json)) :
    (obj ((js k', v) :: rest)).get (js k) = if k = k' then some v else (obj rest).get (js k) := by
  by_cases h : k = k'
  · simp [get, h]
  · have hne : (js k == js k') = false := by simpa using h
    simp [get, List.lookup_cons, hne, h]

@[simp] theorem get_obj_nil (key : JsString) : (obj []).get key = none := rfl

@[simp] theorem keys_obj (fields : List (JsString × Json)) :
    (obj fields).keys = fields.map Prod.fst := rfl

@[simp] theorem isRecord_obj (fields : List (JsString × Json)) :
    (obj fields).isRecord = true := rfl

@[simp] theorem asString_str (s : JsString) : asString (str s) = some s := rfl

@[simp] theorem asBool_bool (b : Bool) : asBool (bool b) = some b := rfl

@[simp] theorem asArray_arr (items : List Json) : asArray (arr items) = some items := rfl

theorem asString_eq_some (value : Json) (s : JsString) :
    value.asString = some s ↔ value = .str s := by
  cases value <;> simp [asString]

end Json

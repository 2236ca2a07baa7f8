import Crest.JsMap
import Crest.Json

/-!
# Incremental JSON, in the frontend

The evaluator that shows an incremental JSON file.  It works on JavaScript values, where
a property that is not there reads as `undefined` and an array element may be missing.
What a value shows is the JSON that `JSON.stringify` makes of it: an undefined element
is shown as `null`, an undefined property is not shown, and `undefined` shows nothing.

Reading a property that an object does not have itself, but inherits from
`Object.prototype`, leads out of the value into the runtime's own objects.  The evaluation
is followed up to that point and ends there as `inherits`.
-/

/-- A JavaScript value that JSON data leads to; a missing array element is `undefined`. -/
inductive JsValue where
  | undefined
  | null
  | bool (b : Bool)
  | num (n : ℚ)
  | str (s : JsString)
  | arr (items : List JsValue)
  | obj (fields : List (JsString × JsValue))
deriving Inhabited

namespace JsValue

mutual

/-- What `JSON.stringify` writes, as the value the text denotes. -/
def toJson : JsValue → Option Json
  | .undefined => none
  | .null => some .null
  | .bool b => some (.bool b)
  | .num n => some (.num n)
  | .str s => some (.str s)
  | .arr items => some (.arr (toItems items))
  | .obj fields => some (.obj (toFields fields))

/-- The elements of an array, with `null` for what shows nothing. -/
def toItems : List JsValue → List Json
  | [] => []
  | v :: rest => (toJson v).getD .null :: toItems rest

/-- The fields of an object, without those that show nothing. -/
def toFields : List (JsString × JsValue) → List (JsString × Json)
  | [] => []
  | (key, v) :: rest =>
    match toJson v with
    | some j => (key, j) :: toFields rest
    | none => toFields rest

end

mutual

/-- `JSON.parse` of the text of a JSON value. -/
def ofJson : Json → JsValue
  | .null => .null
  | .bool b => .bool b
  | .num n => .num n
  | .str s => .str s
  | .arr items => .arr (ofItems items)
  | .obj fields => .obj (ofFields fields)

def ofItems : List Json → List JsValue
  | [] => []
  | v :: rest => ofJson v :: ofItems rest

def ofFields : List (JsString × Json) → List (JsString × JsValue)
  | [] => []
  | (key, v) :: rest => (key, ofJson v) :: ofFields rest

end

/-- `value == null`. -/
def isNullish : JsValue → Bool
  | .undefined => true
  | .null => true
  | _ => false

end JsValue

namespace IJsonFrontend

/-- What an evaluator does.  `inherits` stands for an evaluation that reads a property of
`Object.prototype`. -/
inductive Outcome where
  | returns (value : JsValue)
  | throws
  | inherits

/-- The names of the properties of `Object.prototype`. -/
def objectPrototypeNames : List JsString :=
  [js "constructor", js "__defineGetter__", js "__defineSetter__", js "hasOwnProperty",
   js "__lookupGetter__", js "__lookupSetter__", js "isPrototypeOf",
   js "propertyIsEnumerable", js "toString", js "valueOf", js "__proto__",
   js "toLocaleString"]

structure SetPathOpts where
  force : Bool
  remove : Bool
  combinefn : Bool

def combineFn_arrayAppend (oldVal newVal : JsValue) (opts : SetPathOpts) : Outcome :=
  match oldVal with
  | .undefined | .null => .returns (.arr [newVal])
  | .arr items => .returns (.arr (items ++ [newVal]))
  | _ => if opts.force then .returns (.arr [newVal]) else .throws

/-- `checkPath` for one part of a path. -/
def isPathPart : JsValue → Bool
  | .str _ => true
  | .num _ => true
  | _ => false

/-- `delete obj[key]`. -/
def deleteProperty (key : JsString) (fields : List (JsString × JsValue)) :
    List (JsString × JsValue) := fields.filter fun e => e.1 ≠ key

/-- An object that is returned as `null` when it is empty. -/
def objectOrNull (fields : List (JsString × JsValue)) : JsValue :=
  if fields.isEmpty then .null else .obj fields

/-- The last index an array can have, plus one. -/
def arrayLimit : Nat := 4294967295

/-- `arr[n] = value`.  Elements in between are missing; a number from the limit on, which
no array reaches, is the name of a property that is not an element. -/
def writeElement (n : Nat) (value : JsValue) (items : List JsValue) : List JsValue :=
  if n < items.length ∨ n < arrayLimit then
    (items ++ List.replicate (n + 1 - items.length) JsValue.undefined).set n value
  else items

def removeFromArr (items : List JsValue) (n : Nat) : JsValue :=
  if items.length ≤ n then .arr items
  else if n + 1 = items.length then
    if (items.take n).isEmpty then .null else .arr (items.take n)
  else .arr (items.set n .null)

/-- The end of the string case of `setPathInternal`. -/
def storeProperty (remove : Bool) (key : JsString) (fields : List (JsString × JsValue)) :
    Outcome → Outcome
  | .returns newVal =>
    if remove && newVal.isNullish then .returns (objectOrNull (deleteProperty key fields))
    else .returns (.obj (JsMap.setEntries key newVal fields))
  | .throws => .throws
  | .inherits => .inherits

/-- The end of the number case of `setPathInternal`. -/
def storeElement (remove : Bool) (n : Nat) (items : List JsValue) : Outcome → Outcome
  | .returns newVal =>
    if remove && newVal.isNullish then .returns (removeFromArr items n)
    else .returns (.arr (writeElement n newVal items))
  | .throws => .throws
  | .inherits => .inherits

/-- The object at hand: a new one for nothing, and for a value that is overwritten. -/
def objectAt (obj : JsValue) (force : Bool) : Option (List (JsString × JsValue)) :=
  match obj with
  | .undefined | .null => some []
  | .obj fields => some fields
  | _ => if force then some [] else none

/-- The array at hand. -/
def arrayAt (obj : JsValue) (force : Bool) : Option (List JsValue) :=
  match obj with
  | .undefined | .null => some []
  | .arr items => some items
  | _ => if force then some [] else none

def setPathInternal (value : JsValue) (opts : SetPathOpts) :
    List JsValue → JsValue → Outcome
  | [], obj => if opts.combinefn then combineFn_arrayAppend obj value opts else .returns value
  | .str key :: rest, obj =>
    if obj.isNullish && opts.remove then .returns .null
    else
      match objectAt obj opts.force with
      | none => .throws
      | some fields =>
        if opts.remove && rest.isEmpty then
          .returns (objectOrNull (deleteProperty key fields))
        else
          match fields.lookup key with
          | some old =>
            storeProperty opts.remove key fields (setPathInternal value opts rest old)
          | none =>
            if key ∈ objectPrototypeNames then .inherits
            else
              storeProperty opts.remove key fields
                (setPathInternal value opts rest .undefined)
  | .num q :: rest, obj =>
    if q < 0 ∨ q.den ≠ 1 then .throws
    else if obj.isNullish && opts.remove then .returns .null
    else
      match arrayAt obj opts.force with
      | none => .throws
      | some items =>
        let n := q.num.toNat
        if opts.remove && rest.isEmpty then .returns (removeFromArr items n)
        else
          storeElement opts.remove n items
            (setPathInternal value opts rest (items.getD n .undefined))
  | _ :: _, _ => .throws

theorem setPathInternal_nil (value : JsValue) (opts : SetPathOpts) (obj : JsValue) :
    setPathInternal value opts [] obj =
      if opts.combinefn then combineFn_arrayAppend obj value opts else .returns value := by
  rw [setPathInternal]

/-- `setPath`; a path that is not there is the empty one. -/
def setPath (obj : JsValue) (path : List JsValue) (value : JsValue) (opts : SetPathOpts) :
    Outcome :=
  if opts.remove && !value.isNullish then .throws
  else if path.all isPathPart then setPathInternal value opts path obj
  else .throws

/-- A property of a command. -/
def property (command : JsValue) (key : JsString) : JsValue :=
  match command with
  | .obj fields => (fields.lookup key).getD .undefined
  | _ => .undefined

/-- `getCommandPath` together with the check that it is a path. -/
def commandPath (command : JsValue) : Option (List JsValue) :=
  match property command (js "path") with
  | .undefined | .null => some []
  | .arr path => if path.all isPathPart then some path else none
  | _ => none

def applyCommand (data command : JsValue) : Outcome :=
  match command with
  | .obj _ =>
    match property command (js "type"), commandPath command with
    | .str type, some path =>
      if type = js "set" then
        setPath data path (property command (js "value")) ⟨false, false, false⟩
      else if type = js "del" then setPath data path .null ⟨false, true, false⟩
      else if type = js "append" then
        setPath data path (property command (js "value")) ⟨false, false, true⟩
      else .throws
    | _, _ => .throws
  | _ => .throws

/-- `applyCommand` folded over a list of commands. -/
def applyCommands (data : JsValue) : List JsValue → Outcome
  | [] => .returns data
  | command :: rest =>
    match applyCommand data command with
    | .returns data => applyCommands data rest
    | .throws => .throws
    | .inherits => .inherits

end IJsonFrontend

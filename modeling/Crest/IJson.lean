import Crest.JsMap
import Crest.Json

/-!
# Incremental JSON, on the server

An incremental JSON file is a list of commands, each of which sets, deletes or appends at
a path of the value reached so far.  This is the evaluator that stores and compacts such
files: a value is `nil`, a string, a number, a boolean, a slice or a map, here a `Json`
value whose object fields stand for the map's entries.

An evaluator returns a value and an error at the same time, and the recursion uses both;
an index beyond a slice's end panics.
-/

namespace IJson

/-- An element of a path: a map key or a slice index. -/
inductive PathElem where
  | str (key : JsString)
  | int (index : Int)
deriving DecidableEq

/-- What `MakeSetCommand`, `MakeDelCommand` and `MakeAppendCommand` make.  A path may be
a nil slice. -/
inductive Command where
  | set (path : Option (List PathElem)) (data : Json)
  | del (path : Option (List PathElem))
  | append (path : Option (List PathElem)) (data : Json)
deriving DecidableEq

/-- The kinds of errors, each with the position in the path it names. -/
inductive Error where
  | negativeIndex (index : Nat)
  | setType (expected : String) (index : Nat)
  | budget (index : Nat)
  | exclusive
deriving DecidableEq

/-- What an evaluator does: it panics, or it returns a value and perhaps an error. -/
inductive Outcome where
  | panics
  | returns (value : Json) (err : Option Error)
deriving DecidableEq

/-- `CombineFn_ArrayAppend` is the one combining function a command uses. -/
inductive CombineFn where
  | arrayAppend
deriving DecidableEq

/-- `SetPathOpts`.  A budget of zero is unlimited. -/
structure SetPathOpts where
  budget : Int
  force : Bool
  remove : Bool
  combineFn : Option CombineFn

/-- `checkAndModifyBudget`: the options with the cost taken off, if there is enough. -/
def checkAndModifyBudget (opts : SetPathOpts) (cost : Int) : Option SetPathOpts :=
  if opts.budget = 0 then some opts
  else if opts.budget - cost < 0 then none
  else if opts.budget - cost = 0 then some { opts with budget := -1 }
  else some { opts with budget := opts.budget - cost }

/-- `CombineFn_ArrayAppend`. -/
def CombineFn.apply : CombineFn → Json → Json → Nat → SetPathOpts → Outcome
  | .arrayAppend, data, value, index, opts =>
    match checkAndModifyBudget opts 1 with
    | none => .returns .null (some (.budget index))
    | some opts =>
      match data with
      | .null => .returns (.arr [value]) none
      | .arr items => .returns (.arr (items ++ [value])) none
      | _ =>
        if opts.force then .returns (.arr [value]) none
        else .returns .null (some (.setType "array" index))

/-- `delete(mapVal, key)`. -/
def deleteField (key : JsString) (fields : List (JsString × Json)) : List (JsString × Json) :=
  fields.filter fun e => e.1 ≠ key

/-- A map that is returned as nil when it is empty. -/
def mapOrNil (fields : List (JsString × Json)) : Json :=
  if fields = [] then .null else .obj fields

/-- A slice that is returned as nil when it is empty. -/
def sliceOrNil (items : List Json) : Json :=
  if items = [] then .null else .arr items

/-- The map at hand: a new one for nil, and for a value that is overwritten. -/
def mapAt (data : Json) (force : Bool) : Option (List (JsString × Json)) :=
  match data with
  | .null => some []
  | .obj fields => some fields
  | _ => if force then some [] else none

/-- The slice at hand, after its allocation has been paid for; none if there is nothing to
remove from. -/
def sliceAt (data : Json) (n : Nat) (index : Nat) (opts : SetPathOpts) :
    Except Error (Option (List Json × SetPathOpts)) :=
  match data with
  | .arr items => .ok (some (items, opts))
  | .null =>
    match checkAndModifyBudget opts (n + 1) with
    | none => .error (.budget index)
    | some opts => .ok (some (List.replicate (n + 1) .null, opts))
  | _ =>
    if opts.force = false then .error (.setType "array" index)
    else if opts.remove then .ok none
    else
      match checkAndModifyBudget opts (n + 1) with
      | none => .error (.budget index)
      | some opts => .ok (some (List.replicate (n + 1) .null, opts))

/-- The end of the map case: what the recursion returned is stored or, when it removed
everything below, the entry goes, and with it the error. -/
def storeInMap (remove : Bool) (key : JsString) (fields : List (JsString × Json)) :
    Outcome → Outcome
  | .panics => .panics
  | .returns newVal err =>
    if remove ∧ newVal = .null then .returns (mapOrNil (deleteField key fields)) none
    else .returns (.obj (JsMap.setEntries key newVal fields)) err

/-- The end of the slice case: the last element goes when nothing is left of it. -/
def storeInSlice (remove : Bool) (n : Nat) (items : List Json) : Outcome → Outcome
  | .panics => .panics
  | .returns newVal err =>
    if remove ∧ newVal = .null ∧ n + 1 = items.length then
      .returns (sliceOrNil (items.take n)) none
    else .returns (.arr (items.set n newVal)) err

/-- The removal of the element that the path ends in. -/
def removeElement (n : Nat) (items : List Json) : Outcome :=
  if n + 1 = items.length then .returns (sliceOrNil (items.take n)) none
  else if n < items.length then .returns (.arr (items.set n .null)) none
  else .panics

/-- `setPathInternal`, on the rest of the path from a position on. -/
def setPathInternal (value : Json) : List PathElem → Nat → Json → SetPathOpts → Outcome
  | [], index, data, opts =>
    match opts.combineFn with
    | some f => f.apply data value index opts
    | none => .returns value none
  | .str key :: rest, index, data, opts =>
    if data = .null ∧ opts.remove then .returns .null none
    else
      match mapAt data opts.force with
      | none => .returns .null (some (.setType "map" index))
      | some fields =>
        if opts.remove ∧ rest = [] then
          .returns (mapOrNil (deleteField key fields)) none
        else
          match fields.lookup key with
          | some old =>
            storeInMap opts.remove key fields
              (setPathInternal value rest (index + 1) old opts)
          | none =>
            if opts.remove then .returns (.obj fields) none
            else
              match checkAndModifyBudget opts 1 with
              | none => .returns .null (some (.budget index))
              | some opts =>
                storeInMap opts.remove key fields
                  (setPathInternal value rest (index + 1) .null opts)
  | .int i :: rest, index, data, opts =>
    if i < 0 then .returns .null (some (.negativeIndex index))
    else if data = .null ∧ opts.remove then .returns .null none
    else
      match sliceAt data i.toNat index opts with
      | .error e => .returns .null (some e)
      | .ok none => .returns .null none
      | .ok (some (items, opts)) =>
        if opts.remove ∧ rest = [] then removeElement i.toNat items
        else if opts.remove ∧ items.length < i.toNat + 1 then .returns .null none
        else
          match checkAndModifyBudget opts (i + 1 - items.length) with
          | none => .returns .null (some (.budget index))
          | some opts =>
            let items := items ++ List.replicate (i.toNat + 1 - items.length) .null
            storeInSlice opts.remove i.toNat items
              (setPathInternal value rest (index + 1) (items.getD i.toNat .null) opts)

theorem setPathInternal_nil (value : Json) (index : Nat) (data : Json) (opts : SetPathOpts) :
    setPathInternal value [] index data opts =
      match opts.combineFn with
      | some f => f.apply data value index opts
      | none => .returns value none := by
  rw [setPathInternal]

def setPath (data : Json) (path : List PathElem) (value : Json) (opts : SetPathOpts) :
    Outcome :=
  if opts.remove ∧ opts.combineFn.isSome then .returns .null (some .exclusive)
  else if opts.remove ∧ value ≠ .null then .returns .null (some .exclusive)
  else setPathInternal value path 0 data opts

/-- The options of each command. -/
def setOpts (budget : Int) : SetPathOpts := ⟨budget, false, false, none⟩

def delOpts (budget : Int) : SetPathOpts := ⟨budget, false, true, none⟩

def appendOpts (budget : Int) : SetPathOpts := ⟨budget, false, false, some .arrayAppend⟩

def applyCommand (data : Json) (command : Command) (budget : Int) : Outcome :=
  match command with
  | .set path value => setPath data (path.getD []) value (setOpts budget)
  | .del path => setPath data (path.getD []) .null (delOpts budget)
  | .append path value => setPath data (path.getD []) value (appendOpts budget)

/-- `ApplyCommands`: an error ends the loop and takes the value with it. -/
def applyCommands (data : Json) (commands : List Command) (budget : Int) : Outcome :=
  match commands with
  | [] => .returns data none
  | command :: rest =>
    match applyCommand data command budget with
    | .panics => .panics
    | .returns _ (some e) => .returns .null (some e)
    | .returns data none => applyCommands data rest budget

/-- A path element as JSON. -/
def PathElem.marshal : PathElem → Json
  | .str key => .str key
  | .int i => .num i

/-- A path as JSON; a nil slice is written as `null`. -/
def marshalPath : Option (List PathElem) → Json
  | none => .null
  | some path => .arr (path.map PathElem.marshal)

/-- The JSON object that `ValidateAndMarshalCommand` writes, its keys sorted. -/
def Command.marshal : Command → Json
  | .set path value =>
    .obj [(js "data", value), (js "path", marshalPath path), (js "type", .str (js "set"))]
  | .del path => .obj [(js "path", marshalPath path), (js "type", .str (js "del"))]
  | .append path value =>
    .obj [(js "data", value), (js "path", marshalPath path), (js "type", .str (js "append"))]

end IJson

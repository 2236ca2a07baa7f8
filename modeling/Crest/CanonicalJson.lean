import Crest.JsonCanonical

/-!
# Canonical JSON

The text that a transaction's digest is taken of.  `copyJsonValue` accepts plain data only: finite
numbers, dense arrays without other properties, and plain objects all of whose properties are
enumerable data.  The copy has its keys sorted; it is written by `JSON.stringify`.
-/

/-- A JavaScript number: a finite double that is not the negative zero is the number it is. -/
inductive JsNumber
  | nan
  | infinite (negative : Bool)
  | negativeZero
  | double (q : ℚ)
deriving DecidableEq, Repr

/-- A JavaScript value as `copyJsonValue` looks at it.  `notData` stands for a hole of an array or
an accessor, and `other` for `undefined`, a function, a symbol or a big integer. -/
inductive JsData
  | null
  | bool (b : Bool)
  | num (n : JsNumber)
  | str (s : JsString)
  | arr (others : Bool) (items : List JsData)
  | obj (plain symbols : Bool) (fields : List (JsString × JsData))
  | notData
  | other
deriving Inhabited

namespace JsData

open Json JsonText NumberText

section Code

/-- Whether an item or a property is no data. -/
def isNotData : JsData → Bool
  | .notData => true
  | _ => false

/-- The number that a finite number is. -/
def value : JsNumber → ℚ
  | .double q => q
  | _ => 0

/-- The fields, unless the copy of one has failed. -/
def sequenceFields :
    List (JsString × Except JsString Json) → Except JsString (List (JsString × Json))
  | [] => .ok []
  | (_, .error e) :: _ => .error e
  | (key, .ok v) :: rest => (sequenceFields rest).map ((key, v) :: ·)

mutual

/-- `copyJsonValue`.  The copy is written by `JSON.stringify`, which makes no difference between
the two zeros. -/
def copyJsonValue : JsData → Except JsString Json
  | .null => .ok .null
  | .bool b => .ok (.bool b)
  | .num .nan => .error (js "JSON numbers must be finite")
  | .num (.infinite _) => .error (js "JSON numbers must be finite")
  | .num n => .ok (.num (value n))
  | .str s => .ok (.str s)
  | .arr others items =>
    if others then .error (js "JSON arrays must contain only indexed data properties")
    else if items.any isNotData then
      .error (js "JSON arrays must not contain holes or accessors")
    else (copyItems items).map Json.arr
  | .obj plain symbols fields =>
    if !plain then .error (js "JSON objects must have a plain prototype")
    else if symbols then .error (js "JSON objects must not contain symbol keys")
    else
      (sequenceFields ((copyFields fields).insertionSort fun a b => codeUnitsLE a.1 b.1)).map
        fun fields => Json.obj (objectFields fields)
  | .notData => .error (js "JSON objects must contain only enumerable data properties")
  | .other => .error (js "Value is not JSON serializable")

/-- `copyJsonValue` on the items of an array. -/
def copyItems : List JsData → Except JsString (List Json)
  | [] => .ok []
  | v :: rest =>
    match copyJsonValue v with
    | .error e => .error e
    | .ok v => (copyItems rest).map (v :: ·)

/-- `copyJsonValue` on the properties of an object. -/
def copyFields : List (JsString × JsData) → List (JsString × Except JsString Json)
  | [] => []
  | (key, v) :: rest => (key, copyJsonValue v) :: copyFields rest

end

def canonicalJson (v : JsData) : Except JsString JsString :=
  (copyJsonValue v).map (Json.stringify numberToString)

mutual

/-- The JSON value that plain data is, in which the two zeros are one. -/
def json : JsData → Json
  | .null => .null
  | .bool b => .bool b
  | .num n => .num (value n)
  | .str s => .str s
  | .arr _ items => .arr (jsonItems items)
  | .obj _ _ fields => .obj (jsonFields fields)
  | .notData => .null
  | .other => .null

/-- The JSON values of the items of an array. -/
def jsonItems : List JsData → List Json
  | [] => []
  | v :: rest => json v :: jsonItems rest

/-- The JSON values of the properties of an object. -/
def jsonFields : List (JsString × JsData) → List (JsString × Json)
  | [] => []
  | (key, v) :: rest => (key, json v) :: jsonFields rest

end

/-- `JSON.stringify` of plain data. -/
def stringify (v : JsData) : JsString := Json.stringify numberToString v.json

mutual

/-- A JSON value as data. -/
def ofJson : Json → JsData
  | .null => .null
  | .bool b => .bool b
  | .num q => .num (.double q)
  | .str s => .str s
  | .arr items => .arr false (ofItems items)
  | .obj fields => .obj true false (ofFields fields)

/-- The items of an array as data. -/
def ofItems : List Json → List JsData
  | [] => []
  | v :: rest => ofJson v :: ofItems rest

/-- The fields of an object as data. -/
def ofFields : List (JsString × Json) → List (JsString × JsData)
  | [] => []
  | (key, v) :: rest => (key, ofJson v) :: ofFields rest

end

/-- Data as JavaScript has it: an object has a key once, and its numbers are doubles. -/
structure WellFormed (v : JsData) : Prop where
  distinct : Distinct v.json
  doubles : Doubles v.json

/-- Two values are equal as JSON values: their objects as maps, and -0 as 0. -/
def Equal (v w : JsData) : Prop := Same v.json w.json

end Code

end JsData

namespace JsonText

open Json NumberText

section Objects

theorem setEntries_new {key : JsString} {v : Json} {fields : List (JsString × Json)}
    (h : key ∉ fields.map Prod.fst) :
    JsMap.setEntries key v fields = fields ++ [(key, v)] := by
  induction fields with
  | nil => rfl
  | cons field fields ih =>
    obtain ⟨key', w⟩ := field
    rw [List.map_cons, List.mem_cons, not_or] at h
    rw [JsMap.setEntries, if_neg (Ne.symm h.1), ih h.2]
    rfl

theorem foldl_setEntries (start members : List (JsString × Json))
    (h : ((start ++ members).map Prod.fst).Nodup) :
    members.foldl (fun fields member => JsMap.setEntries member.1 member.2 fields) start =
      start ++ members := by
  induction members generalizing start with
  | nil => rw [List.foldl_nil, List.append_nil]
  | cons member members ih =>
    obtain ⟨key, v⟩ := member
    have hnew : key ∉ start.map Prod.fst := by
      intro hin
      rw [List.map_append, List.map_cons] at h
      exact (List.nodup_append.mp h).2.2 key hin key List.mem_cons_self rfl
    rw [List.foldl_cons, setEntries_new hnew, ih]
    · rw [List.append_assoc, List.singleton_append]
    · rwa [List.append_assoc, List.singleton_append]

theorem objectFields_perm (members : List (JsString × Json))
    (h : (members.map Prod.fst).Nodup) :
    (objectFields members).Perm members := by
  rw [objectFields, foldl_setEntries [] members h, List.nil_append]
  exact ((List.perm_insertionSort _ _).append_right _).trans (List.filter_append_perm _ _)

theorem objectFields_pairwise (members : List (JsString × Json))
    (h : (members.map Prod.fst).Nodup)
    (hsorted : members.Pairwise fun a b => codeUnitsLE a.1 b.1 = true) :
    (objectFields members).Pairwise fun a b => keyLE a.1 b.1 = true := by
  have : Std.Total fun a b : JsString × Json => digitsValue a.1 ≤ digitsValue b.1 :=
    ⟨fun a b => le_total _ _⟩
  have : IsTrans (JsString × Json) fun a b => digitsValue a.1 ≤ digitsValue b.1 :=
    ⟨fun _ _ _ hab hbc => le_trans hab hbc⟩
  rw [objectFields, foldl_setEntries [] members h, List.nil_append, List.pairwise_append]
  have hindex : ∀ field ∈ (members.filter fun field => isArrayIndex field.1).insertionSort
      (fun a b => digitsValue a.1 ≤ digitsValue b.1), isArrayIndex field.1 = true := by
    intro field hfield
    rw [List.mem_insertionSort] at hfield
    exact (List.mem_filter.mp hfield).2
  have hother : ∀ field ∈ members.filter (fun field => !isArrayIndex field.1),
      isArrayIndex field.1 = false := by
    intro field hfield
    simpa using (List.mem_filter.mp hfield).2
  refine ⟨?_, ?_, ?_⟩
  · refine (List.pairwise_insertionSort _ _).imp_of_mem ?_
    intro a b ha hb hab
    rw [keyLE, hindex a ha, hindex b hb]
    simpa using hab
  · refine (hsorted.filter _).imp_of_mem ?_
    intro a b ha hb hab
    rw [keyLE, hother a ha, hother b hb]
    simpa using hab
  · intro a ha b hb
    rw [keyLE, hindex a ha, hother b hb]
    rfl

theorem buildFields_keys (fields : List (JsString × Json)) :
    (buildFields fields).map Prod.fst = fields.map Prod.fst := by
  induction fields with
  | nil => rfl
  | cons field fields ih =>
    obtain ⟨key, v⟩ := field
    rw [buildFields, List.map_cons, List.map_cons, ih]

theorem distinctFields_of_forall {fields : List (JsString × Json)}
    (h : ∀ key v, (key, v) ∈ fields → Distinct v) :
    DistinctFields fields := by
  induction fields with
  | nil => trivial
  | cons field fields ih =>
    obtain ⟨key, v⟩ := field
    exact ⟨h key v List.mem_cons_self,
      ih fun key v hv => h key v (List.mem_cons_of_mem _ hv)⟩

mutual

theorem copy_build : ∀ v : Json, Distinct v →
    Json.copyJsonValue (build v) = Json.copyJsonValue v ∧ Distinct (build v)
  | .null, _ => ⟨rfl, trivial⟩
  | .bool _, _ => ⟨rfl, trivial⟩
  | .num _, _ => ⟨rfl, trivial⟩
  | .str _, _ => ⟨rfl, trivial⟩
  | .arr items, h => by
    obtain ⟨hcopy, hdistinct⟩ := copy_buildItems items h
    refine ⟨?_, hdistinct⟩
    rw [build, Json.copyJsonValue, Json.copyJsonValue, hcopy]
  | .obj fields, h => by
    obtain ⟨hcopy, hdistinct⟩ := copy_buildFields fields h.2
    have hnodup : ((buildFields fields).map Prod.fst).Nodup := by
      rw [buildFields_keys]
      exact h.1
    have hperm := objectFields_perm (buildFields fields) hnodup
    refine ⟨?_, ?_⟩
    · rw [build, Json.copyJsonValue, Json.copyJsonValue, ← hcopy]
      congr 1
      refine sortFields_eq ?_ ?_
      · rw [copyFields_eq_map, copyFields_eq_map]
        exact hperm.map _
      · rw [copyFields_keys]
        exact (hperm.map Prod.fst).nodup_iff.mpr hnodup
    · refine ⟨(hperm.map Prod.fst).nodup_iff.mpr hnodup, distinctFields_of_forall ?_⟩
      intro key v hv
      exact hdistinct.mem (hperm.mem_iff.mp hv)

theorem copy_buildItems : ∀ items : List Json, DistinctItems items →
    Json.copyItems (buildItems items) = Json.copyItems items ∧ DistinctItems (buildItems items)
  | [], _ => ⟨rfl, trivial⟩
  | v :: rest, h => by
    obtain ⟨hv, hv'⟩ := copy_build v h.1
    obtain ⟨hrest, hrest'⟩ := copy_buildItems rest h.2
    refine ⟨?_, hv', hrest'⟩
    rw [buildItems, Json.copyItems, Json.copyItems, hv, hrest]

theorem copy_buildFields : ∀ fields : List (JsString × Json), DistinctFields fields →
    Json.copyFields (buildFields fields) = Json.copyFields fields ∧
      DistinctFields (buildFields fields)
  | [], _ => ⟨rfl, trivial⟩
  | (key, v) :: rest, h => by
    obtain ⟨hv, hv'⟩ := copy_build v h.1
    obtain ⟨hrest, hrest'⟩ := copy_buildFields rest h.2
    refine ⟨?_, hv', hrest'⟩
    rw [buildFields, Json.copyFields, Json.copyFields, hv, hrest]

end

theorem doublesFields_of_forall {fields : List (JsString × Json)}
    (h : ∀ key v, (key, v) ∈ fields → Doubles v) :
    DoublesFields fields := by
  induction fields with
  | nil => trivial
  | cons field fields ih =>
    obtain ⟨key, v⟩ := field
    exact ⟨h key v List.mem_cons_self,
      ih fun key v hv => h key v (List.mem_cons_of_mem _ hv)⟩

theorem DoublesFields.mem {fields : List (JsString × Json)} {key : JsString} {v : Json}
    (h : DoublesFields fields) (hv : (key, v) ∈ fields) :
    Doubles v := by
  induction fields with
  | nil => cases hv
  | cons field fields ih =>
    rcases List.mem_cons.mp hv with rfl | hv
    · exact h.1
    · exact ih h.2 hv

mutual

theorem doubles_copy : ∀ v : Json, Doubles v → Doubles (Json.copyJsonValue v)
  | .null, _ => trivial
  | .bool _, _ => trivial
  | .num _, h => h
  | .str _, _ => trivial
  | .arr items, h => doubles_copyItems items h
  | .obj fields, h => by
    have hcopy := doubles_copyFields fields h
    refine doublesFields_of_forall ?_
    intro key v hv
    exact hcopy.mem ((sortFields_perm _).mem_iff.mp hv)

theorem doubles_copyItems : ∀ items : List Json, DoublesItems items →
    DoublesItems (Json.copyItems items)
  | [], _ => trivial
  | v :: rest, h => ⟨doubles_copy v h.1, doubles_copyItems rest h.2⟩

theorem doubles_copyFields : ∀ fields : List (JsString × Json), DoublesFields fields →
    DoublesFields (Json.copyFields fields)
  | [], _ => trivial
  | (_, v) :: rest, h => ⟨doubles_copy v h.1, doubles_copyFields rest h.2⟩

end

/-- **Values with the same text are equal.** -/
theorem stringify_inj {v w : Json} (hv : Doubles v) (hw : Doubles w)
    (h : Json.stringify numberToString v = Json.stringify numberToString w) :
    v = w := by
  have hread := read_stringify v hv
  rw [h, read_stringify w hw] at hread
  exact (Option.some.inj hread).symm

end Objects

end JsonText

namespace JsData

open Json JsonText NumberText

section Faithful

/-- A field whose copy has not failed. -/
def copied (field : JsString × Json) : JsString × Except JsString Json := (field.1, .ok field.2)

theorem sequenceFields_ok {fields : List (JsString × Except JsString Json)}
    {found : List (JsString × Json)} (h : sequenceFields fields = .ok found) :
    fields = found.map copied := by
  induction fields generalizing found with
  | nil =>
    cases h
    rfl
  | cons field fields ih =>
    obtain ⟨key, v⟩ := field
    cases v with
    | error e => cases h
    | ok v =>
      rw [sequenceFields] at h
      cases hrest : sequenceFields fields with
      | error e =>
        rw [hrest] at h
        cases h
      | ok rest =>
        rw [hrest] at h
        cases h
        rw [List.map_cons, ih hrest]
        rfl

theorem sequenceFields_copied (fields : List (JsString × Json)) :
    sequenceFields (fields.map copied) = .ok fields := by
  induction fields with
  | nil => rfl
  | cons field fields ih =>
    rw [List.map_cons, copied, sequenceFields, ih]
    rfl

theorem perm_of_copied {fields fields' : List (JsString × Json)}
    (h : (fields.map copied).Perm (fields'.map copied)) :
    fields.Perm fields' := by
  have hback : ∀ l : List (JsString × Json),
      (l.map copied).filterMap (fun field => field.2.toOption.map fun v => (field.1, v)) = l := by
    intro l
    induction l with
    | nil => rfl
    | cons field l ih => exact congrArg (field :: ·) ih
  have hperm := h.filterMap fun field => field.2.toOption.map fun v => (field.1, v)
  rwa [hback, hback] at hperm

mutual

/-- **What is copied is the canonical form of the JSON value.** -/
theorem copy_eq : ∀ (v : JsData) (copy : Json), copyJsonValue v = .ok copy → Distinct v.json →
    copy = Json.copyJsonValue v.json
  | .null, copy, h, _ => by
    cases h
    rfl
  | .bool _, copy, h, _ => by
    cases h
    rfl
  | .num .nan, copy, h, _ => by cases h
  | .num (.infinite _), copy, h, _ => by cases h
  | .num .negativeZero, copy, h, _ => by
    cases h
    rfl
  | .num (.double _), copy, h, _ => by
    cases h
    rfl
  | .str _, copy, h, _ => by
    cases h
    rfl
  | .arr others items, copy, h, hdistinct => by
    rw [copyJsonValue] at h
    split_ifs at h
    cases hitems : copyItems items with
    | error e =>
      rw [hitems] at h
      cases h
    | ok copies =>
      rw [hitems] at h
      cases h
      rw [json, Json.copyJsonValue, copyItems_eq items copies hitems hdistinct]
  | .obj plain symbols fields, copy, h, hdistinct => by
    rw [copyJsonValue] at h
    split_ifs at h
    cases hfields : sequenceFields
        ((copyFields fields).insertionSort fun a b => codeUnitsLE a.1 b.1) with
    | error e =>
      rw [hfields] at h
      cases h
    | ok found =>
      rw [hfields] at h
      cases h
      have hfound := sequenceFields_ok hfields
      have hperm : (copyFields fields).Perm (found.map copied) := by
        rw [← hfound]
        exact (List.perm_insertionSort _ _).symm
      have hcopies := copyFields_eq fields (by
        intro field hfield
        obtain ⟨other, -, rfl⟩ := List.mem_map.mp (hperm.mem_iff.mp hfield)
        exact ⟨other.2, rfl⟩) hdistinct.2
      have hsame : found.Perm (Json.copyFields (jsonFields fields)) := by
        rw [hcopies] at hperm
        exact (perm_of_copied hperm).symm
      have hnodup : (found.map Prod.fst).Nodup := by
        refine (hsame.map Prod.fst).nodup_iff.mpr ?_
        rw [copyFields_keys]
        exact hdistinct.1
      have hsorted : found.Pairwise fun a b => codeUnitsLE a.1 b.1 = true := by
        have : Std.Total fun a b : JsString × Except JsString Json =>
            codeUnitsLE a.1 b.1 = true := ⟨fun a b => codeUnitsLE_total _ _⟩
        have : IsTrans (JsString × Except JsString Json) fun a b =>
            codeUnitsLE a.1 b.1 = true := ⟨fun _ _ _ hab hbc => codeUnitsLE_trans hab hbc⟩
        have hpairwise := List.pairwise_insertionSort
          (fun a b : JsString × Except JsString Json => codeUnitsLE a.1 b.1 = true)
          (copyFields fields)
        rw [hfound, List.pairwise_map] at hpairwise
        exact hpairwise
      have hobject := objectFields_perm found hnodup
      rw [json, Json.copyJsonValue]
      refine congrArg Json.obj ?_
      refine List.Perm.eq_of_pairwise ?_ (objectFields_pairwise found hnodup hsorted)
        (sortFields_pairwise _) (hobject.trans (hsame.trans (sortFields_perm _).symm))
      intro a b ha hb hab hba
      exact List.inj_on_of_nodup_map hnodup (hobject.mem_iff.mp ha)
        (hsame.mem_iff.mpr ((sortFields_perm _).mem_iff.mp hb)) (keyLE_antisymm hab hba)
  | .notData, copy, h, _ => by cases h
  | .other, copy, h, _ => by cases h

theorem copyItems_eq : ∀ (items : List JsData) (copies : List Json),
    copyItems items = .ok copies → DistinctItems (jsonItems items) →
    copies = Json.copyItems (jsonItems items)
  | [], copies, h, _ => by
    cases h
    rfl
  | v :: rest, copies, h, hdistinct => by
    rw [copyItems] at h
    cases hv : copyJsonValue v with
    | error e =>
      rw [hv] at h
      cases h
    | ok copy =>
      rw [hv] at h
      cases hrest : copyItems rest with
      | error e =>
        simp only [hrest, Except.map] at h
        cases h
      | ok others =>
        simp only [hrest, Except.map] at h
        cases h
        rw [jsonItems, Json.copyItems, copy_eq v copy hv hdistinct.1,
          copyItems_eq rest others hrest hdistinct.2]

theorem copyFields_eq : ∀ fields : List (JsString × JsData),
    (∀ field ∈ copyFields fields, ∃ copy, field.2 = .ok copy) →
    DistinctFields (jsonFields fields) →
    copyFields fields = (Json.copyFields (jsonFields fields)).map copied
  | [], _, _ => rfl
  | (key, v) :: rest, h, hdistinct => by
    obtain ⟨copy, hv⟩ := h (key, copyJsonValue v) List.mem_cons_self
    have hrest := copyFields_eq rest
      (fun field hfield => h field (List.mem_cons_of_mem _ hfield)) hdistinct.2
    rw [copyFields, jsonFields, Json.copyFields, List.map_cons, hrest, copied,
      ← copy_eq v copy hv hdistinct.1]
    exact congrArg₂ List.cons (congrArg (Prod.mk key) hv) rfl

end

mutual

theorem json_ofJson : ∀ v : Json, (ofJson v).json = v
  | .null => rfl
  | .bool _ => rfl
  | .num _ => rfl
  | .str _ => rfl
  | .arr items => by rw [ofJson, json, jsonItems_ofItems items]
  | .obj fields => by rw [ofJson, json, jsonFields_ofFields fields]

theorem jsonItems_ofItems : ∀ items : List Json, jsonItems (ofItems items) = items
  | [] => rfl
  | v :: rest => by rw [ofItems, jsonItems, json_ofJson v, jsonItems_ofItems rest]

theorem jsonFields_ofFields : ∀ fields : List (JsString × Json),
    jsonFields (ofFields fields) = fields
  | [] => rfl
  | (key, v) :: rest => by rw [ofFields, jsonFields, json_ofJson v, jsonFields_ofFields rest]

end

theorem isNotData_ofItems (items : List Json) : (ofItems items).any isNotData = false := by
  induction items with
  | nil => rfl
  | cons v items ih =>
    rw [ofItems, List.any_cons, ih]
    cases v <;> rfl

mutual

theorem copy_ofJson : ∀ v : Json, ∃ copy, copyJsonValue (ofJson v) = .ok copy
  | .null => ⟨_, rfl⟩
  | .bool _ => ⟨_, rfl⟩
  | .num _ => ⟨_, rfl⟩
  | .str _ => ⟨_, rfl⟩
  | .arr items => by
    obtain ⟨copies, hcopies⟩ := copy_ofItems items
    refine ⟨.arr copies, ?_⟩
    rw [ofJson, copyJsonValue, isNotData_ofItems, hcopies]
    rfl
  | .obj fields => by
    obtain ⟨found, hfound⟩ := copy_ofFields fields
    have hsorted : (copyFields (ofFields fields)).insertionSort
        (fun a b => codeUnitsLE a.1 b.1) =
        (found.insertionSort fun a b => codeUnitsLE a.1 b.1).map copied := by
      rw [hfound]
      exact (List.map_insertionSort _ _ copied found fun a _ b _ => Iff.rfl).symm
    refine ⟨.obj (objectFields (found.insertionSort fun a b => codeUnitsLE a.1 b.1)), ?_⟩
    rw [ofJson, copyJsonValue, hsorted, sequenceFields_copied]
    rfl

theorem copy_ofItems : ∀ items : List Json, ∃ copies, copyItems (ofItems items) = .ok copies
  | [] => ⟨_, rfl⟩
  | v :: rest => by
    obtain ⟨copy, hcopy⟩ := copy_ofJson v
    obtain ⟨copies, hcopies⟩ := copy_ofItems rest
    refine ⟨copy :: copies, ?_⟩
    rw [ofItems, copyItems, hcopy]
    simp only [hcopies, Except.map]

theorem copy_ofFields : ∀ fields : List (JsString × Json),
    ∃ found, copyFields (ofFields fields) = List.map copied found
  | [] => ⟨[], rfl⟩
  | (key, v) :: rest => by
    obtain ⟨copy, hcopy⟩ := copy_ofJson v
    obtain ⟨found, hfound⟩ := copy_ofFields rest
    refine ⟨(key, copy) :: found, ?_⟩
    rw [ofFields, copyFields, hcopy, hfound]
    rfl

end

/-- **Two values that are accepted have the same canonical text exactly if they are equal as JSON
values, and the text is the same after they have been written and read again.** -/
theorem canonicalJson_faithful
    {v w : JsData} {text text' : JsString} (hv : v.WellFormed) (hw : w.WellFormed)
    (htext : canonicalJson v = .ok text) (htext' : canonicalJson w = .ok text') :
    (text = text' ↔ Equal v w) ∧
      ∃ reloaded, JsonText.parse (stringify v) = some reloaded ∧
        canonicalJson (ofJson reloaded) = .ok text := by
  have hread : ∀ (u : JsData) (t : JsString), u.WellFormed → canonicalJson u = .ok t →
      t = Json.stringify numberToString (Json.copyJsonValue u.json) := by
    intro u t hu ht
    rw [canonicalJson] at ht
    cases hcopy : copyJsonValue u with
    | error e =>
      rw [hcopy] at ht
      cases ht
    | ok copy =>
      rw [hcopy] at ht
      cases ht
      rw [copy_eq u copy hcopy hu.distinct]
  obtain rfl := hread v text hv htext
  obtain rfl := hread w text' hw htext'
  refine ⟨?_, build v.json, ?_, ?_⟩
  · rw [Equal, ← copyJsonValue_eq_iff hv.distinct hw.distinct]
    constructor
    · exact stringify_inj (doubles_copy _ hv.doubles) (doubles_copy _ hw.doubles)
    · intro h
      rw [h]
  · rw [JsonText.parse, stringify, read_stringify _ hv.doubles]
    rfl
  · obtain ⟨hbuild, hdistinct⟩ := copy_build v.json hv.distinct
    obtain ⟨copy, hcopy⟩ := copy_ofJson (build v.json)
    have hsame := copy_eq _ copy hcopy (by rw [json_ofJson]; exact hdistinct)
    rw [json_ofJson, hbuild] at hsame
    rw [canonicalJson, hcopy, hsame]
    rfl

/-- Two objects with their keys in different order, of which one is an array index. -/
theorem canonicalJson_reordered :
    (js "\x7b\"7\":null,\"a\":0\x7d" = js "\x7b\"7\":null,\"a\":0\x7d" ↔
        Equal (.obj true false [(js "a", .num .negativeZero), (js "7", .null)])
          (.obj true false [(js "7", .null), (js "a", .num (.double 0))])) ∧
      ∃ reloaded, JsonText.parse
          (stringify (.obj true false [(js "a", .num .negativeZero), (js "7", .null)])) =
            some reloaded ∧
        canonicalJson (ofJson reloaded) = .ok (js "\x7b\"7\":null,\"a\":0\x7d") := by
  have hzero : Double.IsDouble 0 := ⟨0, 0, by decide, by decide, by decide, by simp⟩
  exact canonicalJson_faithful
    ⟨⟨by decide, trivial, trivial, trivial⟩, hzero, trivial, trivial⟩
    ⟨⟨by decide, trivial, trivial, trivial⟩, trivial, hzero, trivial⟩ (by decide +kernel)
    (by decide +kernel)

end Faithful

end JsData

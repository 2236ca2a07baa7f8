import Crest.IJsonAgreement
import Crest.Runs
import Mathlib.Algebra.Order.Ring.Unbundled.Rat
import Mathlib.Data.List.GetD

/-!
# Commands on which the two evaluators agree

The conditions on a value and a path under which a deletion, a set or an append comes to
the same on both sides, each proved to be exact; and from them the run of a list of
commands.
-/

namespace IJsonAgreement

open JsValue
open IJson (PathElem Command)

/-- A path element that is no negative index. -/
def nonneg : PathElem → Bool
  | .str _ => true
  | .int i => decide (0 ≤ i)

/-- A path as the frontend reads it. -/
def parts (path : List PathElem) : List JsValue := path.map fun e => ofJson e.marshal

@[simp] theorem parts_nil : parts [] = [] := rfl

@[simp] theorem parts_str (key : JsString) (rest : List PathElem) :
    parts (.str key :: rest) = .str key :: parts rest := rfl

@[simp] theorem parts_int (i : Int) (rest : List PathElem) :
    parts (.int i :: rest) = .num i :: parts rest := rfl

@[simp] theorem isEmpty_parts (path : List PathElem) : (parts path).isEmpty = path.isEmpty := by
  cases path <;> rfl

theorem index_ok {i : Int} (h : 0 ≤ i) : ¬ (((i : ℚ) < 0) ∨ ((i : ℚ).den ≠ 1)) := by
  rw [not_or, not_lt, not_not]
  exact ⟨Rat.intCast_nonneg.mpr h, Rat.den_intCast i⟩

section Deletion

/-- The server's evaluation of a deletion. -/
def serverDel (path : List PathElem) (index : Nat) (data : Json) : IJson.Outcome :=
  IJson.setPathInternal .null path index data (IJson.delOpts 0)

/-- The frontend's evaluation of a deletion. -/
def frontendDel (path : List PathElem) (v : JsValue) : IJsonFrontend.Outcome :=
  IJsonFrontend.setPathInternal .null ⟨false, true, false⟩ (parts path) v

/-- Where a deletion agrees.  `reported` says whether the server reports an error that
comes without a value from here. -/
def delAgrees (reported : Bool) : Json → List PathElem → Bool
  | _, [] => true
  | .null, _ :: _ => true
  | .obj fields, .str key :: rest =>
    rest.isEmpty ||
      match fields.lookup key with
      | some v => delAgrees false v rest
      | none => !fields.isEmpty && decide (key ∉ IJsonFrontend.objectPrototypeNames)
  | .arr items, .int i :: rest =>
    decide (i.toNat < items.length) &&
      (rest.isEmpty ||
        delAgrees (decide (i.toNat + 1 ≠ items.length)) (items.getD i.toNat .null) rest)
  | _, _ :: _ => reported

theorem serverDel_null {e : PathElem} {rest : List PathElem} {index : Nat}
    (h : nonneg e = true) : serverDel (e :: rest) index .null = .returns .null none := by
  unfold serverDel
  cases e with
  | str key => simp [IJson.setPathInternal, IJson.delOpts]
  | int i =>
    have hi : ¬ i < 0 := by simpa [nonneg] using h
    simp [IJson.setPathInternal, IJson.delOpts, hi]

theorem frontendDel_nullish {e : PathElem} {rest : List PathElem} {v : JsValue}
    (h : nonneg e = true) (hv : v.isNullish = true) :
    frontendDel (e :: rest) v = .returns .null := by
  unfold frontendDel
  cases e with
  | str key => simp [IJsonFrontend.setPathInternal, hv]
  | int i =>
    have hi : 0 ≤ i := by simpa [nonneg] using h
    rw [parts_int, IJsonFrontend.setPathInternal, if_neg (index_ok hi)]
    simp [hv]

theorem serverDel_key {key : JsString} {rest : List PathElem} {index : Nat}
    {fields : List (JsString × Json)} :
    serverDel (.str key :: rest) index (.obj fields) =
      if rest = [] then .returns (IJson.mapOrNil (IJson.deleteField key fields)) none
      else
        match fields.lookup key with
        | some old => IJson.storeInMap true key fields (serverDel rest (index + 1) old)
        | none => .returns (.obj fields) none := by
  unfold serverDel
  rw [IJson.setPathInternal]
  simp only [IJson.delOpts, IJson.mapAt, reduceCtorEq, false_and, if_false, true_and]
  rfl

theorem frontendDel_key {key : JsString} {rest : List PathElem}
    {fields : List (JsString × JsValue)} :
    frontendDel (.str key :: rest) (.obj fields) =
      if rest = [] then
        .returns (IJsonFrontend.objectOrNull (IJsonFrontend.deleteProperty key fields))
      else
        match fields.lookup key with
        | some old => IJsonFrontend.storeProperty true key fields (frontendDel rest old)
        | none =>
          if key ∈ IJsonFrontend.objectPrototypeNames then .inherits
          else IJsonFrontend.storeProperty true key fields (frontendDel rest .undefined) := by
  unfold frontendDel
  rw [parts_str, IJsonFrontend.setPathInternal]
  simp only [isNullish, Bool.false_and, IJsonFrontend.objectAt, Bool.true_and, isEmpty_parts,
    List.isEmpty_iff, Bool.false_eq_true, if_false]
  all_goals rfl

theorem serverDel_index {i : Int} {rest : List PathElem} {index : Nat} {items : List Json}
    (h : 0 ≤ i) :
    serverDel (.int i :: rest) index (.arr items) =
      if rest = [] then IJson.removeElement i.toNat items
      else if items.length < i.toNat + 1 then .returns .null none
      else IJson.storeInSlice true i.toNat items
        (serverDel rest (index + 1) (items.getD i.toNat .null)) := by
  have hi : ¬ i < 0 := by omega
  unfold serverDel
  rw [IJson.setPathInternal]
  simp only [hi, IJson.delOpts, IJson.sliceAt, IJson.checkAndModifyBudget, if_false, reduceCtorEq,
    false_and, if_true, true_and]
  by_cases hlen : items.length < i.toNat + 1
  · rw [if_pos hlen, if_pos hlen]
  · have hzero : i.toNat + 1 - items.length = 0 := by omega
    rw [if_neg hlen, if_neg hlen, hzero, List.replicate_zero, List.append_nil]

theorem frontendDel_index {i : Int} {rest : List PathElem} {items : List JsValue}
    (h : 0 ≤ i) :
    frontendDel (.int i :: rest) (.arr items) =
      if rest = [] then .returns (IJsonFrontend.removeFromArr items i.toNat)
      else IJsonFrontend.storeElement true i.toNat items
        (frontendDel rest (items.getD i.toNat .undefined)) := by
  unfold frontendDel
  rw [parts_int, IJsonFrontend.setPathInternal, if_neg (index_ok h)]
  simp [IJsonFrontend.arrayAt, isNullish]

/-- What a deletion comes to on both sides, by its condition. -/
def DelSpec (reported : Bool) (path : List PathElem) (index : Nat) (v : JsValue) : Prop :=
  (delAgrees reported v.shown path = true →
    BothReturn (frontendDel path v) (serverDel path index v.shown) ∨
    BothRefuse reported (frontendDel path v) (serverDel path index v.shown)) ∧
  (delAgrees reported v.shown path = false →
    Differ reported (frontendDel path v) (serverDel path index v.shown))

variable {reported : Bool}

theorem delSpec_of_mismatch {path : List PathElem} {index : Nat} {v : JsValue}
    {e : IJson.Error} (hcond : delAgrees reported v.shown path = reported)
    (hf : frontendDel path v = .throws)
    (hs : serverDel path index v.shown = .returns .null (some e)) :
    DelSpec reported path index v := by
  rw [DelSpec, hcond, hf, hs]
  exact ⟨fun h => Or.inr ⟨rfl, .null, e, rfl, fun _ => h⟩, fun h => .swallowed e h⟩

theorem serverDel_key_mismatch {key : JsString} {rest : List PathElem} {index : Nat}
    {data : Json} (hnull : data ≠ .null) (hmap : IJson.mapAt data false = none) :
    serverDel (.str key :: rest) index data = .returns .null (some (.setType "map" index)) := by
  unfold serverDel
  rw [IJson.setPathInternal, if_neg (by simp [hnull]),
    show (IJson.delOpts 0).force = false from rfl, hmap]

theorem frontendDel_key_mismatch {key : JsString} {rest : List PathElem} {v : JsValue}
    (hnull : v.isNullish = false) (hobj : IJsonFrontend.objectAt v false = none) :
    frontendDel (.str key :: rest) v = .throws := by
  unfold frontendDel
  rw [parts_str, IJsonFrontend.setPathInternal, if_neg (by simp [hnull]), hobj]

theorem serverDel_index_mismatch {i : Int} {rest : List PathElem} {index : Nat}
    {data : Json} (h : 0 ≤ i) (hnull : data ≠ .null)
    (hslice : ∀ opts : IJson.SetPathOpts, opts.force = false →
      IJson.sliceAt data i.toNat index opts = .error (.setType "array" index)) :
    serverDel (.int i :: rest) index data =
      .returns .null (some (.setType "array" index)) := by
  unfold serverDel
  rw [IJson.setPathInternal, if_neg (by omega), if_neg (by simp [hnull]),
    hslice (IJson.delOpts 0) rfl]

theorem frontendDel_index_mismatch {i : Int} {rest : List PathElem} {v : JsValue}
    (h : 0 ≤ i) (hnull : v.isNullish = false) (harr : IJsonFrontend.arrayAt v false = none) :
    frontendDel (.int i :: rest) v = .throws := by
  unfold frontendDel
  rw [parts_int, IJsonFrontend.setPathInternal, if_neg (index_ok h), if_neg (by simp [hnull]),
    harr]

theorem delSpec_key {key : JsString} {rest : List PathElem} {index : Nat}
    {fields : List (JsString × JsValue)} (hplain : PlainFields fields)
    (hnn : ∀ e ∈ rest, nonneg e = true)
    (ih : ∀ v : JsValue, v.Plain → DelSpec false rest (index + 1) v) :
    DelSpec reported (.str key :: rest) index (.obj fields) := by
  rw [DelSpec, shown_obj (plain_there hplain), delAgrees, frontendDel_key, serverDel_key,
    lookup_shownFields]
  by_cases hrest : rest = []
  · subst hrest
    rw [if_pos rfl, if_pos rfl]
    refine ⟨fun _ => Or.inl ?_, by simp⟩
    refine ⟨_, rfl, ?_, plain_objectOrNull hplain⟩
    rw [shown_objectOrNull hplain]
  · rw [if_neg hrest, if_neg hrest, List.isEmpty_eq_false_iff.mpr hrest, Bool.false_or]
    cases hlookup : fields.lookup key with
    | some old =>
      obtain ⟨l, l', hsplit, -⟩ := List.lookup_eq_some_iff.mp hlookup
      have hmem : (key, old) ∈ fields := by
        rw [hsplit]
        simp
      obtain ⟨hyes, hno⟩ := ih old (plainFields_iff.mp hplain _ hmem).2
      simp only [Option.map_some]
      refine ⟨fun h => ?_, fun h => storeProperty_differ hplain (hno h)⟩
      exact (hyes h).imp (storeProperty_both hplain) storeProperty_refuse
    | none =>
      obtain ⟨e, rest, rfl⟩ := List.exists_cons_of_ne_nil hrest
      have hdelete : IJsonFrontend.deleteProperty key fields = fields := by
        unfold IJsonFrontend.deleteProperty
        rw [List.filter_eq_self]
        intro x hx
        have hne := List.lookup_eq_none_iff.mp hlookup x hx
        simpa [bne_iff_ne, ne_comm] using hne
      simp only [Option.map_none]
      rw [frontendDel_nullish (hnn e List.mem_cons_self) rfl]
      by_cases hname : key ∈ IJsonFrontend.objectPrototypeNames
      · rw [if_pos hname]
        refine ⟨?_, fun _ => .inherits _⟩
        intro h
        simp [hname] at h
      · rw [if_neg hname, IJsonFrontend.storeProperty, if_pos (by simp [isNullish]), hdelete]
        cases fields with
        | nil =>
          refine ⟨fun h => by simp [shownFields] at h, fun _ => ?_⟩
          exact .values _ _ (by simp [IJsonFrontend.objectOrNull])
            (by simp [IJsonFrontend.objectOrNull, shownFields])
        | cons x xs =>
          refine ⟨fun _ => Or.inl ?_, fun h => ?_⟩
          · refine ⟨.obj (x :: xs), rfl, ?_, by simp, hplain⟩
            rw [shown_obj (plain_there hplain)]
          · simp [shownFields, hname] at h

theorem delSpec_index {i : Int} {rest : List PathElem} {index : Nat} {items : List JsValue}
    (hi : 0 ≤ i) (hplain : PlainItems items) (hnn : ∀ e ∈ rest, nonneg e = true)
    (ih : ∀ (reported : Bool) (v : JsValue), v.Plain → DelSpec reported rest (index + 1) v) :
    DelSpec reported (.int i :: rest) index (.arr items) := by
  rw [DelSpec, shown_arr, delAgrees, frontendDel_index hi, serverDel_index hi,
    List.length_map]
  by_cases hlen : i.toNat < items.length
  · have hlen' : i.toNat < (items.map shown).length := by rwa [List.length_map]
    rw [decide_eq_true hlen, Bool.true_and, if_neg (show ¬ items.length < i.toNat + 1 by omega)]
    by_cases hrest : rest = []
    · subst hrest
      rw [if_pos rfl, if_pos rfl, removeElement_eq hlen']
      refine ⟨fun _ => Or.inl ?_, by simp⟩
      refine ⟨_, rfl, ?_, plain_removeFromArr hplain⟩
      rw [shown_removeFromArr hlen]
    · rw [if_neg hrest, if_neg hrest, List.isEmpty_eq_false_iff.mpr hrest, Bool.false_or]
      have helem : (items.map shown).getD i.toNat .null =
          (items.getD i.toNat .undefined).shown := by
        rw [List.getD_eq_getElem _ _ hlen', List.getD_eq_getElem _ _ hlen, List.getElem_map]
      have hp : (items.getD i.toNat .undefined).Plain := by
        rw [List.getD_eq_getElem _ _ hlen]
        exact plainItems_iff.mp hplain _ (List.getElem_mem hlen)
      rw [helem]
      obtain ⟨hyes, hno⟩ := ih (decide (i.toNat + 1 ≠ items.length)) _ hp
      refine ⟨fun h => ?_, fun h => storeElement_differ hlen hplain (hno h)⟩
      refine (hyes h).imp (storeElement_both hlen hplain) (fun hrefuse => ?_)
      refine storeElement_refuse ?_
      rw [List.length_map]
      exact hrefuse
  · rw [decide_eq_false hlen, Bool.false_and]
    refine ⟨fun h => absurd h (by simp), fun _ => ?_⟩
    have hremove : IJsonFrontend.removeFromArr items i.toNat = .arr items := by
      rw [IJsonFrontend.removeFromArr, if_pos (by omega)]
    by_cases hrest : rest = []
    · rw [if_pos hrest, if_pos hrest, IJson.removeElement, List.length_map,
        if_neg (by omega), if_neg hlen]
      exact .panics _
    · obtain ⟨e, rest, rfl⟩ := List.exists_cons_of_ne_nil hrest
      have helem : items.getD i.toNat .undefined = .undefined :=
        List.getD_eq_default _ _ (by omega)
      rw [if_neg hrest, if_neg hrest, if_pos (by omega), helem,
        frontendDel_nullish (hnn e List.mem_cons_self) rfl, IJsonFrontend.storeElement,
        if_pos (by simp [isNullish]), hremove]
      exact .values _ _ (by simp) (by simp)

/-- **A deletion agrees exactly under its condition.** -/
theorem delSpec {path : List PathElem} (hnn : ∀ e ∈ path, nonneg e = true) (reported : Bool)
    (index : Nat) {v : JsValue} (hv : v.Plain) :
    DelSpec reported path index v := by
  induction path generalizing reported index v with
  | nil =>
    refine ⟨fun _ => Or.inl ?_, by simp [delAgrees]⟩
    exact ⟨.null, rfl, rfl, by simp, trivial⟩
  | cons e rest ih =>
    have he := hnn e List.mem_cons_self
    have hrest : ∀ x ∈ rest, nonneg x = true := fun x hx => hnn x (List.mem_cons_of_mem _ hx)
    by_cases hnull : v.isNullish = true
    · have hshown := shown_eq_null.mpr hnull
      have hcond : delAgrees reported .null (e :: rest) = true := by
        cases e <;> rfl
      rw [DelSpec, hshown, frontendDel_nullish he hnull, serverDel_null he, hcond]
      exact ⟨fun _ => Or.inl ⟨.null, rfl, rfl, by simp, trivial⟩, by simp⟩
    · have hnull' : v.isNullish = false := by simpa using hnull
      cases e with
      | str key =>
        cases v with
        | undefined | null => simp [isNullish] at hnull
        | obj fields => exact delSpec_key hv hrest fun w hw => ih hrest false (index + 1) hw
        | bool _ | num _ | str _ | arr _ =>
          exact delSpec_of_mismatch rfl (frontendDel_key_mismatch hnull' rfl)
            (serverDel_key_mismatch (by simp [shown, toJson]) rfl)
      | int i =>
        have hi : 0 ≤ i := by simpa [nonneg] using he
        cases v with
        | undefined | null => simp [isNullish] at hnull
        | arr items =>
          exact delSpec_index hi hv hrest fun r w hw => ih hrest r (index + 1) hw
        | bool _ | num _ | str _ | obj _ =>
          refine delSpec_of_mismatch rfl (frontendDel_index_mismatch hi hnull' rfl)
            (serverDel_index_mismatch hi (by simp [shown, toJson]) ?_)
          intro opts hforce
          simp [IJson.sliceAt, shown, toJson, hforce]

end Deletion

attribute [local simp] IJsonFrontend.property List.lookup_cons JsMap.setEntries

section Writing

/-- The two evaluations of a set or an append come apart. -/
inductive WriteDiffer : IJsonFrontend.Outcome → IJson.Outcome → Prop where
  | inherits (s : IJson.Outcome) : WriteDiffer .inherits s
  | values (v : JsValue) (j : Json) (h : v = .undefined ∨ v.shown ≠ j) :
      WriteDiffer (.returns v) (.returns j none)

theorem WriteDiffer.not_agrees {f : IJsonFrontend.Outcome} {s : IJson.Outcome}
    (h : WriteDiffer f s) : ¬ Agrees f s := by
  intro hagrees
  cases h with
  | inherits => exact hagrees
  | values v j h =>
    rcases h with rfl | hj
    · exact absurd hagrees (by simp [Agrees, toJson])
    · by_cases hv : v = .undefined
      · rw [hv] at hagrees
        exact absurd hagrees (by simp [Agrees, toJson])
      · rw [Agrees, toJson_eq_some hv, Option.some.injEq] at hagrees
        exact hj hagrees

theorem length_setEntries (key : JsString) (a b : Json) (fields : List (JsString × Json)) :
    (JsMap.setEntries key a fields).length = (JsMap.setEntries key b fields).length := by
  induction fields with
  | nil => rfl
  | cons e rest ih =>
    obtain ⟨k, v⟩ := e
    by_cases hk : k = key
    · simp [hk]
    · simp [hk, ih]

theorem mem_setEntries_self (key : JsString) (v : JsValue)
    (fields : List (JsString × JsValue)) : (key, v) ∈ JsMap.setEntries key v fields := by
  induction fields with
  | nil => simp
  | cons e rest ih =>
    obtain ⟨k, w⟩ := e
    by_cases hk : k = key
    · simp [hk]
    · simp [hk, ih]

theorem shown_set_undefined (key : JsString) (fields : List (JsString × JsValue))
    (j : Json) :
    (JsValue.obj (JsMap.setEntries key .undefined fields)).shown ≠
      .obj (JsMap.setEntries key j (shownFields fields)) := by
  intro heq
  have hfields : toFields (JsMap.setEntries key .undefined fields) =
      JsMap.setEntries key j (shownFields fields) := Json.obj.inj heq
  have hlt := length_toFields_lt (mem_setEntries_self key .undefined fields)
  have hlen := congrArg List.length (shownFields_setEntries key .undefined fields)
  rw [shownFields, List.length_map] at hlen
  rw [hfields, hlen, length_setEntries key j (shown .undefined)] at hlt
  exact lt_irrefl _ hlt

theorem storeProperty_writeDiffer {key : JsString} {fields : List (JsString × JsValue)}
    (hplain : PlainFields fields) {f : IJsonFrontend.Outcome} {s : IJson.Outcome}
    (h : WriteDiffer f s) :
    WriteDiffer (IJsonFrontend.storeProperty false key fields f)
      (IJson.storeInMap false key (shownFields fields) s) := by
  cases h with
  | inherits => exact .inherits _
  | values v j h =>
    rw [IJsonFrontend.storeProperty, IJson.storeInMap, if_neg (by simp), if_neg (by simp)]
    refine .values _ _ (Or.inr ?_)
    by_cases hv : v = .undefined
    · subst hv
      exact shown_set_undefined key fields j
    · rw [shown_setEntries hplain hv]
      intro heq
      have hlookup := congrArg (fun l => List.lookup key l) (Json.obj.inj heq)
      simp only [lookup_set, Option.some.injEq] at hlookup
      exact h.elim hv fun hne => hne hlookup

/-- The array that a write finds: an empty one for nothing. -/
def itemsAt : Json → Option (List Json)
  | .null => some []
  | .arr items => some items
  | _ => none

/-- Where a set of `value`, or an append of it, agrees. -/
def writeAgrees (append : Bool) (value : Json) : Json → List PathElem → Bool
  | data, [] =>
    append &&
      match itemsAt data with
      | some _ => decide (value = .null)
      | none => true
  | data, .str key :: rest =>
    match IJson.mapAt data false with
    | none => true
    | some fields =>
      match fields.lookup key with
      | some old => writeAgrees append value old rest
      | none =>
        decide (key ∉ IJsonFrontend.objectPrototypeNames) &&
          writeAgrees append value .null rest
  | data, .int i :: rest =>
    match itemsAt data with
    | none => true
    | some items =>
      (decide (i.toNat < items.length) || decide (i.toNat < IJsonFrontend.arrayLimit)) &&
        if rest.isEmpty && !append then decide (value = .null)
        else writeAgrees append value (items.getD i.toNat .null) rest

/-- The server's evaluation of a set or an append. -/
def serverWrite (append : Bool) (value : Json) (path : List PathElem) (index : Nat)
    (data : Json) : IJson.Outcome :=
  IJson.setPathInternal value path index data
    ⟨0, false, false, if append then some .arrayAppend else none⟩

/-- The frontend's evaluation of a set or an append, whose value it does not find. -/
def frontendWrite (append : Bool) (path : List PathElem) (v : JsValue) :
    IJsonFrontend.Outcome :=
  IJsonFrontend.setPathInternal .undefined ⟨false, false, append⟩ (parts path) v

variable {append : Bool} {value : Json} {rest : List PathElem} {index : Nat}

theorem writeAgrees_key {key : JsString} {data : Json} {fields : List (JsString × Json)}
    (h : IJson.mapAt data false = some fields) :
    writeAgrees append value data (.str key :: rest) =
      match fields.lookup key with
      | some old => writeAgrees append value old rest
      | none =>
        decide (key ∉ IJsonFrontend.objectPrototypeNames) &&
          writeAgrees append value .null rest := by
  rw [writeAgrees, h]

theorem writeAgrees_index {i : Int} {data : Json} {items : List Json}
    (h : itemsAt data = some items) :
    writeAgrees append value data (.int i :: rest) =
      ((decide (i.toNat < items.length) || decide (i.toNat < IJsonFrontend.arrayLimit)) &&
        if rest.isEmpty && !append then decide (value = .null)
        else writeAgrees append value (items.getD i.toNat .null) rest) := by
  rw [writeAgrees, h]

theorem serverWrite_key {key : JsString} {data : Json} {fields : List (JsString × Json)}
    (h : IJson.mapAt data false = some fields) :
    serverWrite append value (.str key :: rest) index data =
      IJson.storeInMap false key fields
        (serverWrite append value rest (index + 1) ((fields.lookup key).getD .null)) := by
  unfold serverWrite
  rw [IJson.setPathInternal, if_neg (by simp)]
  simp only [h, Bool.false_eq_true, false_and, if_false, IJson.checkAndModifyBudget, if_true]
  cases fields.lookup key <;> rfl

theorem frontendWrite_key {key : JsString} {v : JsValue}
    {fields : List (JsString × JsValue)} (h : IJsonFrontend.objectAt v false = some fields) :
    frontendWrite append (.str key :: rest) v =
      match fields.lookup key with
      | some old =>
        IJsonFrontend.storeProperty false key fields (frontendWrite append rest old)
      | none =>
        if key ∈ IJsonFrontend.objectPrototypeNames then .inherits
        else IJsonFrontend.storeProperty false key fields
          (frontendWrite append rest .undefined) := by
  unfold frontendWrite
  rw [parts_str, IJsonFrontend.setPathInternal, if_neg (by simp), h]
  rfl

theorem getD_extended (n : Nat) (items : List Json) :
    (extended n items).getD n .null = items.getD n .null := by
  unfold extended
  rcases Nat.lt_or_ge n items.length with hlt | hge
  · rw [List.getD_append _ _ _ _ hlt]
  · rw [List.getD_append_right _ _ _ _ hge, List.getD_eq_getElem?_getD,
      List.getElem?_getD_replicate_default_eq, List.getD_eq_default _ _ hge]

theorem serverWrite_index {i : Int} {data : Json} {items : List Json}
    (hi : 0 ≤ i) (h : itemsAt data = some items) :
    serverWrite append value (.int i :: rest) index data =
      IJson.storeInSlice false i.toNat (extended i.toNat items)
        (serverWrite append value rest (index + 1) (items.getD i.toNat .null)) := by
  have hneg : ¬ i < 0 := by omega
  rw [← getD_extended]
  unfold serverWrite
  rw [IJson.setPathInternal, if_neg hneg, if_neg (by simp)]
  cases data with
  | null =>
    have hitems : items = [] := by simpa [itemsAt] using h.symm
    subst hitems
    simp [IJson.sliceAt, IJson.checkAndModifyBudget, extended]
  | arr items' =>
    have hitems : items = items' := by simpa [itemsAt] using h.symm
    subst hitems
    simp [IJson.sliceAt, IJson.checkAndModifyBudget, extended]
  | bool _ | num _ | str _ | obj _ => simp [itemsAt] at h

theorem frontendWrite_index {i : Int} {v : JsValue} {items : List JsValue}
    (hi : 0 ≤ i) (h : IJsonFrontend.arrayAt v false = some items) :
    frontendWrite append (.int i :: rest) v =
      IJsonFrontend.storeElement false i.toNat items
        (frontendWrite append rest (items.getD i.toNat .undefined)) := by
  unfold frontendWrite
  rw [parts_int, IJsonFrontend.setPathInternal, if_neg (index_ok hi), if_neg (by simp), h]
  rfl

/-- What a set or an append comes to on both sides, by its condition. -/
def WriteSpec (append : Bool) (value : Json) (path : List PathElem) (index : Nat)
    (v : JsValue) : Prop :=
  (writeAgrees append value v.shown path = true →
    BothReturn (frontendWrite append path v) (serverWrite append value path index v.shown) ∨
    BothRefuse true (frontendWrite append path v)
      (serverWrite append value path index v.shown)) ∧
  (writeAgrees append value v.shown path = false →
    WriteDiffer (frontendWrite append path v) (serverWrite append value path index v.shown))

theorem mapAt_shown {v : JsValue} (hv : v.Plain) :
    (∃ fields, IJsonFrontend.objectAt v false = some fields ∧ PlainFields fields ∧
      IJson.mapAt v.shown false = some (shownFields fields)) ∨
    (IJsonFrontend.objectAt v false = none ∧ IJson.mapAt v.shown false = none) := by
  cases v with
  | undefined | null => exact Or.inl ⟨[], rfl, trivial, rfl⟩
  | obj fields =>
    refine Or.inl ⟨fields, rfl, hv, ?_⟩
    rw [shown_obj (plain_there hv)]
    rfl
  | bool _ | num _ | str _ | arr _ => exact Or.inr ⟨rfl, rfl⟩

theorem itemsAt_shown {v : JsValue} (hv : v.Plain) :
    (∃ items, IJsonFrontend.arrayAt v false = some items ∧ PlainItems items ∧
      itemsAt v.shown = some (items.map shown)) ∨
    (IJsonFrontend.arrayAt v false = none ∧ itemsAt v.shown = none) := by
  cases v with
  | undefined | null => exact Or.inl ⟨[], rfl, trivial, rfl⟩
  | arr items =>
    refine Or.inl ⟨items, rfl, hv, ?_⟩
    rw [shown_arr]
    rfl
  | bool _ | num _ | str _ | obj _ => exact Or.inr ⟨rfl, rfl⟩

theorem serverWrite_null (hnn : ∀ e ∈ rest, nonneg e = true) :
    ∃ j, serverWrite append value rest index .null = .returns j none := by
  induction rest generalizing index with
  | nil =>
    rw [serverWrite, IJson.setPathInternal_nil]
    cases append <;> exact ⟨_, rfl⟩
  | cons e rest ih =>
    have hbelow : ∃ j, serverWrite append value rest (index + 1) .null = .returns j none :=
      ih fun x hx => hnn x (List.mem_cons_of_mem _ hx)
    obtain ⟨j, hj⟩ := hbelow
    cases e with
    | str key =>
      have h : serverWrite append value (.str key :: rest) index .null = _ :=
        serverWrite_key rfl
      rw [List.lookup_nil, Option.getD_none, hj] at h
      exact ⟨_, h.trans (by rw [IJson.storeInMap, if_neg (by simp)])⟩
    | int i =>
      have hi : 0 ≤ i := by simpa [nonneg] using hnn (.int i) List.mem_cons_self
      have h : serverWrite append value (.int i :: rest) index .null = _ :=
        serverWrite_index hi rfl
      rw [List.getD_nil, hj] at h
      exact ⟨_, h.trans (by rw [IJson.storeInSlice, if_neg (by simp)])⟩

theorem writeSpec_nil {v : JsValue} (hv : v.Plain) : WriteSpec append value [] index v := by
  cases append with
  | false =>
    refine ⟨fun h => absurd h (by simp [writeAgrees]), fun _ => ?_⟩
    exact .values _ _ (Or.inl rfl)
  | true =>
    have hvalue : ∀ items : List JsValue, PlainItems items →
        (value = .null →
          BothReturn (.returns (.arr (items ++ [.undefined])))
            (.returns (.arr (items.map shown ++ [value])) none)) ∧
        (value ≠ .null →
          WriteDiffer (.returns (.arr (items ++ [.undefined])))
            (.returns (.arr (items.map shown ++ [value])) none)) := by
      intro items hplain
      refine ⟨?_, fun hne => .values _ _ (Or.inr ?_)⟩
      · intro hnull
        refine ⟨.arr (items ++ [.undefined]), rfl, by simp [hnull], by simp, ?_⟩
        refine plainItems_iff.mpr ?_
        intro w hw
        rcases List.mem_append.mp hw with hw | hw
        · exact plainItems_iff.mp hplain w hw
        · rw [List.mem_singleton.mp hw]
          trivial
      · intro heq
        rw [shown_arr, List.map_append, Json.arr.injEq, List.append_cancel_left_eq,
          List.map_singleton, List.cons.injEq] at heq
        exact hne heq.1.symm
    cases v with
    | undefined | null =>
      obtain ⟨hyes, hno⟩ := hvalue [] trivial
      refine ⟨fun h => Or.inl (hyes ?_), fun h => hno ?_⟩
      all_goals simpa [writeAgrees, itemsAt, shown, toJson] using h
    | arr items =>
      obtain ⟨hyes, hno⟩ := hvalue items hv
      rw [WriteSpec, shown_arr]
      refine ⟨fun h => Or.inl (hyes ?_), fun h => hno ?_⟩
      all_goals simpa [writeAgrees, itemsAt] using h
    | bool _ | num _ | str _ | obj _ =>
      refine ⟨fun _ => Or.inr ⟨rfl, .null, _, rfl, fun _ => rfl⟩, fun h => ?_⟩
      simp [writeAgrees, itemsAt, shown, toJson] at h

theorem storeProperty_writeRefuse {key : JsString} {fields : List (JsString × JsValue)}
    {fields' : List (JsString × Json)} {f : IJsonFrontend.Outcome} {s : IJson.Outcome}
    (h : BothRefuse true f s) :
    BothRefuse true (IJsonFrontend.storeProperty false key fields f)
      (IJson.storeInMap false key fields' s) := by
  obtain ⟨rfl, j, e, rfl, -⟩ := h
  exact ⟨rfl, _, e, by rw [IJson.storeInMap, if_neg (by simp)], fun _ => rfl⟩

variable {v : JsValue}

theorem writeSpec_key {key : JsString} {fields : List (JsString × JsValue)}
    (hplain : PlainFields fields) (hobject : IJsonFrontend.objectAt v false = some fields)
    (hmap : IJson.mapAt v.shown false = some (shownFields fields))
    (ih : ∀ w : JsValue, w.Plain → WriteSpec append value rest (index + 1) w) :
    WriteSpec append value (.str key :: rest) index v := by
  rw [WriteSpec, writeAgrees_key hmap, frontendWrite_key hobject, serverWrite_key hmap,
    lookup_shownFields]
  cases hlookup : fields.lookup key with
  | some old =>
    obtain ⟨l, l', hsplit, -⟩ := List.lookup_eq_some_iff.mp hlookup
    have hmem : (key, old) ∈ fields := by
      rw [hsplit]
      simp
    obtain ⟨hyes, hno⟩ := ih old (plainFields_iff.mp hplain _ hmem).2
    refine ⟨fun h => ?_, fun h => storeProperty_writeDiffer hplain (hno h)⟩
    exact (hyes h).imp (storeProperty_both hplain) storeProperty_writeRefuse
  | none =>
    obtain ⟨hyes, hno⟩ := ih .undefined trivial
    by_cases hname : key ∈ IJsonFrontend.objectPrototypeNames
    · simp only [hname, Option.map_none, not_true_eq_false, decide_false, Bool.false_and,
        if_true]
      exact ⟨fun h => absurd h (by simp), fun _ => .inherits _⟩
    · simp only [hname, Option.map_none, not_false_eq_true, decide_true, Bool.true_and,
        if_false, Option.getD_none]
      refine ⟨fun h => ?_, fun h => storeProperty_writeDiffer hplain (hno h)⟩
      exact (hyes h).imp (storeProperty_both hplain) storeProperty_writeRefuse

variable {items : List JsValue}

theorem storeElement_write {n : Nat} (hplain : PlainItems items)
    (hn : n < items.length ∨ n < IJsonFrontend.arrayLimit) (hp : v.Plain) :
    BothReturn (IJsonFrontend.storeElement false n items (.returns v))
      (IJson.storeInSlice false n (extended n (items.map shown)) (.returns v.shown none)) := by
  refine ⟨.arr (IJsonFrontend.writeElement n v items), rfl, ?_, by simp,
    plain_writeElement hplain hp⟩
  rw [shown_writeElement hn, IJson.storeInSlice, if_neg (by simp)]

theorem storeElement_write_differ {n : Nat}
    (hn : n < items.length ∨ n < IJsonFrontend.arrayLimit) {j : Json} (hj : v.shown ≠ j) :
    WriteDiffer (IJsonFrontend.storeElement false n items (.returns v))
      (IJson.storeInSlice false n (extended n (items.map shown)) (.returns j none)) := by
  refine .values _ _ (Or.inr ?_)
  rw [shown_writeElement hn]
  intro heq
  exact set_ne (lt_length_extended n _) hj (Json.arr.inj heq)

theorem storeElement_beyond {n : Nat}
    (hn : ¬ (n < items.length ∨ n < IJsonFrontend.arrayLimit)) {j : Json} :
    WriteDiffer (IJsonFrontend.storeElement false n items (.returns v))
      (IJson.storeInSlice false n (extended n (items.map shown)) (.returns j none)) := by
  refine .values _ _ (Or.inr ?_)
  rw [IJsonFrontend.writeElement, if_neg hn, shown_arr]
  intro heq
  have hlen := congrArg List.length (Json.arr.inj heq)
  have hlong := lt_length_extended n (items.map shown)
  rw [List.length_set] at hlen
  rw [List.length_map] at hlen
  omega

theorem storeProperty_ne_undefined {key : JsString} {fields : List (JsString × JsValue)}
    {f : IJsonFrontend.Outcome} {w : JsValue}
    (h : IJsonFrontend.storeProperty false key fields f = .returns w) : w ≠ .undefined := by
  cases f with
  | returns v =>
    rw [IJsonFrontend.storeProperty, if_neg (by simp), IJsonFrontend.Outcome.returns.injEq] at h
    simp [← h]
  | throws | inherits => simp [IJsonFrontend.storeProperty] at h

theorem storeElement_ne_undefined {n : Nat} {items : List JsValue}
    {f : IJsonFrontend.Outcome} {w : JsValue}
    (h : IJsonFrontend.storeElement false n items f = .returns w) : w ≠ .undefined := by
  cases f with
  | returns v =>
    rw [IJsonFrontend.storeElement, if_neg (by simp), IJsonFrontend.Outcome.returns.injEq] at h
    simp [← h]
  | throws | inherits => simp [IJsonFrontend.storeElement] at h

theorem frontendWrite_ne_undefined {path : List PathElem} {w : JsValue}
    (hend : path ≠ [] ∨ append = true) (h : frontendWrite append path v = .returns w) :
    w ≠ .undefined := by
  unfold frontendWrite at h
  rcases path with - | ⟨e, rest⟩
  · have happend : append = true := hend.resolve_left (by simp)
    subst happend
    rw [parts_nil, IJsonFrontend.setPathInternal_nil, if_pos rfl] at h
    intro hw
    subst hw
    cases v <;> simp [IJsonFrontend.combineFn_arrayAppend] at h
  · cases e with
    | str key =>
      rw [parts_str, IJsonFrontend.setPathInternal, if_neg (by simp)] at h
      split at h
      · simp at h
      · rw [if_neg (by simp)] at h
        split at h
        · exact storeProperty_ne_undefined h
        · split at h
          · simp at h
          · exact storeProperty_ne_undefined h
    | int i =>
      rw [parts_int, IJsonFrontend.setPathInternal] at h
      split at h
      · simp at h
      · rw [if_neg (by simp)] at h
        split at h
        · simp at h
        · dsimp only at h
          rw [if_neg (by simp)] at h
          exact storeElement_ne_undefined h

theorem writeSpec_index {i : Int} (hi : 0 ≤ i) (hplain : PlainItems items)
    (harray : IJsonFrontend.arrayAt v false = some items)
    (hitems : itemsAt v.shown = some (items.map shown)) (hnn : ∀ e ∈ rest, nonneg e = true)
    (ih : ∀ w : JsValue, w.Plain → WriteSpec append value rest (index + 1) w) :
    WriteSpec append value (.int i :: rest) index v := by
  have helem : (items.map shown).getD i.toNat .null = (items.getD i.toNat .undefined).shown := by
    rcases Nat.lt_or_ge i.toNat items.length with hlt | hge
    · rw [List.getD_eq_getElem _ _ hlt, List.getD_eq_getElem _ _ (by rwa [List.length_map]),
        List.getElem_map]
    · rw [List.getD_eq_default _ _ hge, List.getD_eq_default _ _ (by rwa [List.length_map])]
      rfl
  have hp : (items.getD i.toNat .undefined).Plain := by
    rcases Nat.lt_or_ge i.toNat items.length with hlt | hge
    · rw [List.getD_eq_getElem _ _ hlt]
      exact plainItems_iff.mp hplain _ (List.getElem_mem hlt)
    · rw [List.getD_eq_default _ _ hge]
      trivial
  have hspec := ih _ hp
  rw [WriteSpec, writeAgrees_index hitems, frontendWrite_index hi harray,
    serverWrite_index hi hitems, helem, List.length_map]
  by_cases hn : i.toNat < items.length ∨ i.toNat < IJsonFrontend.arrayLimit
  · have hcond : (decide (i.toNat < items.length) ||
        decide (i.toNat < IJsonFrontend.arrayLimit)) = true := by simpa using hn
    rw [hcond, Bool.true_and]
    by_cases hlast : (rest.isEmpty && !append) = true
    · -- a set that ends here: nothing is written in the frontend, which shows as null
      rw [if_pos hlast]
      rw [Bool.and_eq_true, List.isEmpty_iff, Bool.not_eq_true'] at hlast
      obtain ⟨rfl, rfl⟩ := hlast
      refine ⟨fun h => Or.inl ?_, fun h => ?_⟩
      · rw [decide_eq_true_eq] at h
        have hboth := storeElement_write (n := i.toNat) hplain hn (v := .undefined) trivial
        rw [shown_undefined, ← h] at hboth
        exact hboth
      · rw [decide_eq_false_iff_not] at h
        exact storeElement_write_differ hn (Ne.symm h)
    · rw [if_neg hlast]
      obtain ⟨hyes, hno⟩ := hspec
      refine ⟨fun h => ?_, fun h => ?_⟩
      · rcases hyes h with hboth | hrefuse
        · obtain ⟨w, hf, hs, -, hw⟩ := hboth
          rw [hf, hs]
          exact Or.inl (storeElement_write hplain hn hw)
        · obtain ⟨hf, j, e, hs, -⟩ := hrefuse
          rw [hf, hs]
          exact Or.inr ⟨rfl, _, e, by rw [IJson.storeInSlice, if_neg (by simp)], fun _ => rfl⟩
      · have hdiffer := hno h
        revert hdiffer
        generalize hf : frontendWrite append rest (items.getD i.toNat .undefined) = f
        generalize serverWrite append value rest (index + 1)
          (items.getD i.toNat .undefined).shown = s
        intro hdiffer
        cases hdiffer with
        | inherits => exact .inherits _
        | values w j hw =>
          have hend : rest ≠ [] ∨ append = true := by
            rcases rest with - | ⟨e, rest⟩
            · exact Or.inr (by simpa using hlast)
            · exact Or.inl (by simp)
          exact storeElement_write_differ hn
            (hw.resolve_left (frontendWrite_ne_undefined hend hf))
  · have hcond : (decide (i.toNat < items.length) ||
        decide (i.toNat < IJsonFrontend.arrayLimit)) = false := by simpa using hn
    rw [hcond, Bool.false_and]
    refine ⟨fun h => absurd h (by simp), fun _ => ?_⟩
    have hnone : items.getD i.toNat .undefined = .undefined :=
      List.getD_eq_default _ _ (by omega)
    have hbelow : ∃ j, serverWrite append value rest (index + 1) .null = .returns j none :=
      serverWrite_null hnn
    obtain ⟨j, hj⟩ := hbelow
    rw [hnone] at hspec ⊢
    rw [shown_undefined, hj]
    rw [WriteSpec, shown_undefined, hj] at hspec
    cases hagree : writeAgrees append value .null rest with
    | true =>
      rcases hspec.1 hagree with ⟨w, hf, -, -, -⟩ | ⟨-, j', e, hs, -⟩
      · rw [hf]
        exact storeElement_beyond hn
      · simp at hs
    | false =>
      have hdiffer := hspec.2 hagree
      revert hdiffer
      generalize frontendWrite append rest .undefined = f
      intro hdiffer
      cases hdiffer with
      | inherits => exact .inherits _
      | values w _ _ => exact storeElement_beyond hn

/-- **A set or an append agrees exactly under its condition.** -/
theorem writeSpec {path : List PathElem} (hnn : ∀ e ∈ path, nonneg e = true) (index : Nat)
    (hv : v.Plain) :
    WriteSpec append value path index v := by
  induction path generalizing index v with
  | nil => exact writeSpec_nil hv
  | cons e rest ih =>
    have hrest : ∀ x ∈ rest, nonneg x = true := fun x hx => hnn x (List.mem_cons_of_mem _ hx)
    cases e with
    | str key =>
      rcases mapAt_shown hv with ⟨fields, hobject, hplain, hmap⟩ | ⟨hobject, hmap⟩
      · exact writeSpec_key hplain hobject hmap fun w hw => ih hrest (index + 1) hw
      · have hf : frontendWrite append (.str key :: rest) v = .throws := by
          unfold frontendWrite
          rw [parts_str, IJsonFrontend.setPathInternal, if_neg (by simp), hobject]
        have hs : serverWrite append value (.str key :: rest) index v.shown =
            .returns .null (some (.setType "map" index)) := by
          unfold serverWrite
          rw [IJson.setPathInternal, if_neg (by simp)]
          simp only [hmap]
        rw [WriteSpec, hf, hs, writeAgrees, hmap]
        exact ⟨fun _ => Or.inr ⟨rfl, _, _, rfl, fun _ => rfl⟩, fun h => absurd h (by simp)⟩
    | int i =>
      have hi : 0 ≤ i := by simpa [nonneg] using hnn (.int i) List.mem_cons_self
      rcases itemsAt_shown hv with ⟨items, harray, hplain, hitems⟩ | ⟨harray, hitems⟩
      · exact writeSpec_index hi hplain harray hitems hrest
          fun w hw => ih hrest (index + 1) hw
      · have hf : frontendWrite append (.int i :: rest) v = .throws := by
          unfold frontendWrite
          rw [parts_int, IJsonFrontend.setPathInternal, if_neg (index_ok hi),
            if_neg (by simp), harray]
        have hs : serverWrite append value (.int i :: rest) index v.shown =
            .returns .null (some (.setType "array" index)) := by
          have hneg : ¬ i < 0 := by omega
          unfold serverWrite
          rw [IJson.setPathInternal, if_neg hneg, if_neg (by simp)]
          cases hshown : v.shown with
          | null | arr _ => simp [hshown, itemsAt] at hitems
          | bool _ | num _ | str _ | obj _ => simp [IJson.sliceAt]
        rw [WriteSpec, hf, hs, writeAgrees, hitems]
        exact ⟨fun _ => Or.inr ⟨rfl, _, _, rfl, fun _ => rfl⟩, fun h => absurd h (by simp)⟩

end Writing

section Commands

/-- No index of the command's path is negative. -/
def wellFormed : Command → Bool
  | .set path _ => (path.getD []).all nonneg
  | .del path => (path.getD []).all nonneg
  | .append path _ => (path.getD []).all nonneg

/-- Where a command agrees. -/
def agreeable (data : Json) : Command → Bool
  | .set path value => writeAgrees false value data (path.getD [])
  | .del path => delAgrees true data (path.getD [])
  | .append path value => writeAgrees true value data (path.getD [])

/-- The command as the frontend reads it back. -/
def readBack (c : Command) : JsValue := ofJson c.marshal

theorem ofItems_eq (items : List Json) : ofItems items = items.map ofJson := by
  induction items with
  | nil => rfl
  | cons v rest ih => rw [ofItems, List.map_cons, ih]

theorem all_isPathPart (path : List PathElem) :
    (parts path).all IJsonFrontend.isPathPart = true := by
  rw [List.all_eq_true]
  intro x hx
  obtain ⟨e, -, rfl⟩ := List.mem_map.mp hx
  cases e <;> rfl

theorem commandPath_of_property {command : JsValue} {path : Option (List PathElem)}
    (h : IJsonFrontend.property command (js "path") = ofJson (IJson.marshalPath path)) :
    IJsonFrontend.commandPath command = some (parts (path.getD [])) := by
  unfold IJsonFrontend.commandPath
  rw [h]
  cases path with
  | none => rfl
  | some path =>
    have hitems : ofItems (path.map PathElem.marshal) = parts path := by
      rw [ofItems_eq, List.map_map]
      rfl
    simp only [IJson.marshalPath, ofJson, hitems, all_isPathPart, if_true, Option.getD_some]

theorem frontend_applyCommand (v : JsValue) (c : Command) :
    IJsonFrontend.applyCommand v (readBack c) =
      match c with
      | .set path _ => frontendWrite false (path.getD []) v
      | .del path => frontendDel (path.getD []) v
      | .append path _ => frontendWrite true (path.getD []) v := by
  have htd : (js "type" == js "data") = false := by decide
  have htp : (js "type" == js "path") = false := by decide
  have hpd : (js "path" == js "data") = false := by decide
  have hvd : (js "value" == js "data") = false := by decide
  have hvp : (js "value" == js "path") = false := by decide
  have hvt : (js "value" == js "type") = false := by decide
  have hds : js "del" ≠ js "set" := by decide
  have has : js "append" ≠ js "set" := by decide
  have had : js "append" ≠ js "del" := by decide
  cases c with
  | set path value =>
    have hpath : IJsonFrontend.commandPath (readBack (.set path value)) =
        some (parts (path.getD [])) := commandPath_of_property
      (by simp [readBack, Command.marshal, ofJson, ofFields, hpd])
    simp only [readBack, Command.marshal, ofJson, ofFields] at hpath ⊢
    simp only [IJsonFrontend.applyCommand, hpath]
    simp [htd, htp, hvd, hvp, hvt, IJsonFrontend.setPath, all_isPathPart, frontendWrite, isNullish]
  | del path =>
    have hpath : IJsonFrontend.commandPath (readBack (.del path)) =
        some (parts (path.getD [])) := commandPath_of_property
      (by simp [readBack, Command.marshal, ofJson, ofFields])
    simp only [readBack, Command.marshal, ofJson, ofFields] at hpath ⊢
    simp only [IJsonFrontend.applyCommand, hpath]
    simp [htp, hds, IJsonFrontend.setPath, all_isPathPart, frontendDel, isNullish]
  | append path value =>
    have hpath : IJsonFrontend.commandPath (readBack (.append path value)) =
        some (parts (path.getD [])) := commandPath_of_property
      (by simp [readBack, Command.marshal, ofJson, ofFields, hpd])
    simp only [readBack, Command.marshal, ofJson, ofFields] at hpath ⊢
    simp only [IJsonFrontend.applyCommand, hpath]
    simp [htd, htp, hvd, hvp, hvt, has, had, IJsonFrontend.setPath, all_isPathPart, frontendWrite, isNullish]

theorem server_applyCommand (data : Json) (c : Command) :
    IJson.applyCommand data c 0 =
      match c with
      | .set path value => serverWrite false value (path.getD []) 0 data
      | .del path => serverDel (path.getD []) 0 data
      | .append path value => serverWrite true value (path.getD []) 0 data := by
  cases c with
  | set path value => simp [IJson.applyCommand, IJson.setPath, IJson.setOpts, serverWrite]
  | del path => simp [IJson.applyCommand, IJson.setPath, IJson.delOpts, serverDel]
  | append path value =>
    simp [IJson.applyCommand, IJson.setPath, IJson.appendOpts, serverWrite]

variable {v : JsValue}

theorem applyCommand_spec (hv : v.Plain) {c : Command} (hc : wellFormed c = true) :
    (agreeable v.shown c = true →
      BothReturn (IJsonFrontend.applyCommand v (readBack c)) (IJson.applyCommand v.shown c 0) ∨
      BothRefuse true (IJsonFrontend.applyCommand v (readBack c))
        (IJson.applyCommand v.shown c 0)) ∧
    (agreeable v.shown c = false →
      ¬ Agrees (IJsonFrontend.applyCommand v (readBack c)) (IJson.applyCommand v.shown c 0)) := by
  rw [frontend_applyCommand, server_applyCommand]
  cases c with
  | set path value =>
    simp only [wellFormed, List.all_eq_true] at hc
    have hspec : WriteSpec false value (path.getD []) 0 v := writeSpec hc 0 hv
    obtain ⟨hyes, hno⟩ := hspec
    simp only [agreeable]
    exact ⟨hyes, fun h => (hno h).not_agrees⟩
  | del path =>
    simp only [wellFormed, List.all_eq_true] at hc
    obtain ⟨hyes, hno⟩ := delSpec hc true 0 hv
    simp only [agreeable]
    exact ⟨hyes, fun h => (hno h).not_agrees⟩
  | append path value =>
    simp only [wellFormed, List.all_eq_true] at hc
    have hspec : WriteSpec true value (path.getD []) 0 v := writeSpec hc 0 hv
    obtain ⟨hyes, hno⟩ := hspec
    simp only [agreeable]
    exact ⟨hyes, fun h => (hno h).not_agrees⟩

/-- **Exactly the agreeable commands agree.** -/
theorem applyCommand_agrees_iff (hv : v.Plain) {c : Command} (hc : wellFormed c = true) :
    Agrees (IJsonFrontend.applyCommand v (readBack c)) (IJson.applyCommand v.shown c 0) ↔
      agreeable v.shown c = true := by
  obtain ⟨hyes, hno⟩ := applyCommand_spec hv hc
  constructor
  · intro hagrees
    by_contra hcond
    exact hno (by simpa using hcond) hagrees
  · intro hcond
    exact (hyes hcond).elim BothReturn.agrees BothRefuse.agrees

/-- Every command is agreeable with the value that the server has reached before it. -/
def AgreeableRun : Json → List Command → Prop
  | _, [] => True
  | data, c :: rest =>
    agreeable data c = true ∧
      match IJson.applyCommand data c 0 with
      | .returns next none => AgreeableRun next rest
      | _ => True

instance decidableAgreeableRun : (data : Json) → (commands : List Command) →
    Decidable (AgreeableRun data commands)
  | _, [] => inferInstanceAs (Decidable True)
  | data, c :: rest =>
    have : Decidable (match IJson.applyCommand data c 0 with
        | .returns next none => AgreeableRun next rest
        | _ => True) :=
      match IJson.applyCommand data c 0 with
      | .returns next none => decidableAgreeableRun next rest
      | .returns _ (some _) => inferInstanceAs (Decidable True)
      | .panics => inferInstanceAs (Decidable True)
    inferInstanceAs (Decidable (_ ∧ _))

theorem applyCommands_agree {commands : List Command}
    (hwell : ∀ c ∈ commands, wellFormed c = true) (hv : v.Plain) (hthere : v ≠ .undefined)
    (hrun : AgreeableRun v.shown commands) :
    Agrees (IJsonFrontend.applyCommands v (commands.map readBack))
      (IJson.applyCommands v.shown commands 0) := by
  induction commands generalizing v with
  | nil => exact toJson_eq_some hthere
  | cons c rest ih =>
    obtain ⟨hok, hnext⟩ := hrun
    rw [List.map_cons, IJsonFrontend.applyCommands, IJson.applyCommands]
    rcases (applyCommand_spec hv (hwell c List.mem_cons_self)).1 hok with
      ⟨w, hf, hs, hw, hplain⟩ | ⟨hf, j, e, hs, -⟩
    · rw [hs] at hnext
      rw [hf, hs]
      exact ih (fun x hx => hwell x (List.mem_cons_of_mem _ hx)) hplain hw hnext
    · rw [hf, hs]
      trivial

theorem AgreeableRun.of_append {data : Json} {done rest : List Command}
    (h : AgreeableRun data (done ++ rest)) :
    AgreeableRun data done := by
  induction done generalizing data with
  | nil => trivial
  | cons c done ih =>
    obtain ⟨hok, hnext⟩ := h
    refine ⟨hok, ?_⟩
    split at hnext
    · exact ih hnext
    · trivial

end Commands

end IJsonAgreement

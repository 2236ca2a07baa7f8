import Crest.IJson
import Crest.IJsonFrontend

/-!
# Do the two evaluators agree?

The server writes a command's value under `data`; the frontend reads it from `value` and
finds nothing there.  So a set or an append agrees only where nothing can be told from
`null`: in an array.  Deletions differ at the edges: beyond the end of an array, below an
object that is empty already, and where the path meets a value of the wrong kind, which
the server does not report once it is inside an object or at an array's end.

`Agreeable` says this about a command and the value it is applied to, and
`applyCommand_agrees_iff` shows that it is exactly when the two agree.
-/

namespace JsValue

/-- What a value shows inside an array. -/
def shown (v : JsValue) : Json := v.toJson.getD .null

mutual

/-- No property anywhere in the value is undefined. -/
def Plain : JsValue → Prop
  | .arr items => PlainItems items
  | .obj fields => PlainFields fields
  | _ => True

def PlainItems : List JsValue → Prop
  | [] => True
  | v :: rest => Plain v ∧ PlainItems rest

def PlainFields : List (JsString × JsValue) → Prop
  | [] => True
  | (_, v) :: rest => (v ≠ .undefined ∧ Plain v) ∧ PlainFields rest

end

theorem plainItems_iff {items : List JsValue} : PlainItems items ↔ ∀ v ∈ items, Plain v := by
  induction items with
  | nil => simp [PlainItems]
  | cons v rest ih => simp [PlainItems, ih]

theorem plainFields_iff {fields : List (JsString × JsValue)} :
    PlainFields fields ↔ ∀ e ∈ fields, e.2 ≠ .undefined ∧ Plain e.2 := by
  induction fields with
  | nil => simp [PlainFields]
  | cons e rest ih =>
    obtain ⟨key, v⟩ := e
    simp [PlainFields, ih]

theorem toItems_eq (items : List JsValue) : toItems items = items.map shown := by
  induction items with
  | nil => rfl
  | cons v rest ih => rw [toItems, List.map_cons, ih, shown]

theorem toJson_eq_some {v : JsValue} (h : v ≠ .undefined) : v.toJson = some v.shown := by
  cases v <;> first | exact absurd rfl h | rfl

/-- The fields as they are shown, each on its own. -/
def shownFields (fields : List (JsString × JsValue)) : List (JsString × Json) :=
  fields.map fun e => (e.1, e.2.shown)

theorem toFields_eq {fields : List (JsString × JsValue)}
    (h : ∀ e ∈ fields, e.2 ≠ .undefined) :
    toFields fields = shownFields fields := by
  induction fields with
  | nil => rfl
  | cons e rest ih =>
    obtain ⟨key, v⟩ := e
    have hv : v ≠ .undefined := h (key, v) List.mem_cons_self
    have hrest := ih fun e he => h e (List.mem_cons_of_mem _ he)
    rw [toFields, toJson_eq_some hv, hrest]
    rfl

theorem length_toFields_lt {fields : List (JsString × JsValue)} {key : JsString}
    (h : (key, JsValue.undefined) ∈ fields) :
    (toFields fields).length < fields.length := by
  have hle : ∀ fields : List (JsString × JsValue),
      (toFields fields).length ≤ fields.length := by
    intro fields
    induction fields with
    | nil => simp [toFields]
    | cons e rest ih =>
      obtain ⟨key, v⟩ := e
      rw [toFields, List.length_cons]
      split
      · rw [List.length_cons]
        omega
      · omega
  induction fields with
  | nil => exact absurd h List.not_mem_nil
  | cons e rest ih =>
    rcases List.mem_cons.mp h with rfl | hrest
    · have hrest := hle rest
      rw [toFields, List.length_cons]
      exact Nat.lt_succ_of_le hrest
    · obtain ⟨key', v⟩ := e
      have hlt := ih hrest
      rw [toFields, List.length_cons]
      split
      · rw [List.length_cons]
        omega
      · omega

@[simp] theorem shown_undefined : shown .undefined = .null := rfl

@[simp] theorem shown_null : shown .null = .null := rfl

@[simp] theorem shown_arr (items : List JsValue) :
    shown (.arr items) = .arr (items.map shown) := by
  rw [← toItems_eq]
  rfl

theorem shown_obj {fields : List (JsString × JsValue)}
    (h : ∀ e ∈ fields, e.2 ≠ .undefined) :
    shown (.obj fields) = .obj (shownFields fields) := by
  rw [← toFields_eq h]
  rfl

theorem shown_eq_null {v : JsValue} : v.shown = .null ↔ v.isNullish = true := by
  cases v <;> simp [shown, toJson, isNullish]

mutual

theorem shown_ofJson : ∀ v : Json, (ofJson v).shown = v ∧ (ofJson v).Plain
  | .null => ⟨rfl, trivial⟩
  | .bool _ => ⟨rfl, trivial⟩
  | .num _ => ⟨rfl, trivial⟩
  | .str _ => ⟨rfl, trivial⟩
  | .arr items => by
    obtain ⟨hshown, hplain⟩ := shown_ofItems items
    exact ⟨by rw [ofJson, shown_arr, hshown], hplain⟩
  | .obj fields => by
    obtain ⟨hshown, hplain⟩ := shown_ofFields fields
    have hthere := fun e he => (plainFields_iff.mp hplain e he).1
    exact ⟨by rw [ofJson, shown_obj hthere, hshown], hplain⟩

theorem shown_ofItems : ∀ items : List Json,
    (ofItems items).map shown = items ∧ PlainItems (ofItems items)
  | [] => ⟨rfl, trivial⟩
  | v :: rest => by
    obtain ⟨hv, hp⟩ := shown_ofJson v
    obtain ⟨hrest, hps⟩ := shown_ofItems rest
    exact ⟨by rw [ofItems, List.map_cons, hv, hrest], hp, hps⟩

theorem shown_ofFields : ∀ fields : List (JsString × Json),
    shownFields (ofFields fields) = fields ∧ PlainFields (ofFields fields)
  | [] => ⟨rfl, trivial⟩
  | (key, v) :: rest => by
    obtain ⟨hv, hp⟩ := shown_ofJson v
    obtain ⟨hrest, hps⟩ := shown_ofFields rest
    have hne : ofJson v ≠ .undefined := by cases v <;> simp [ofJson]
    refine ⟨?_, ⟨hne, hp⟩, hps⟩
    rw [ofFields, shownFields, List.map_cons, hv]
    exact congrArg _ hrest

end

theorem lookup_shownFields (fields : List (JsString × JsValue)) (key : JsString) :
    (shownFields fields).lookup key = (fields.lookup key).map shown := by
  induction fields with
  | nil => rfl
  | cons e rest ih =>
    obtain ⟨k, v⟩ := e
    rw [shownFields, List.map_cons, List.lookup_cons, List.lookup_cons]
    by_cases hk : key = k
    · simp [hk]
    · simp only [beq_false_of_ne hk]
      exact ih

theorem shownFields_setEntries (key : JsString) (v : JsValue)
    (fields : List (JsString × JsValue)) :
    shownFields (JsMap.setEntries key v fields) =
      JsMap.setEntries key v.shown (shownFields fields) := by
  induction fields with
  | nil => rfl
  | cons e rest ih =>
    obtain ⟨k, w⟩ := e
    by_cases hk : k = key
    · simp [JsMap.setEntries, shownFields, hk]
    · simp only [JsMap.setEntries, hk, if_false, shownFields, List.map_cons]
      exact congrArg _ ih

theorem shownFields_delete (key : JsString) (fields : List (JsString × JsValue)) :
    shownFields (IJsonFrontend.deleteProperty key fields) =
      IJson.deleteField key (shownFields fields) := by
  rw [shownFields, shownFields, IJson.deleteField, IJsonFrontend.deleteProperty,
    List.filter_map]
  rfl

end JsValue

namespace IJsonAgreement

open JsValue

/-- What the claim of agreement says about one evaluation of each: both report an error,
or what the frontend has shows the server's value. -/
def Agrees : IJsonFrontend.Outcome → IJson.Outcome → Prop
  | .throws, .returns _ (some _) => True
  | .returns v, .returns j none => v.toJson = some j
  | _, _ => False

/-- Both return, and the frontend's value is plain and shows the server's. -/
def BothReturn (f : IJsonFrontend.Outcome) (s : IJson.Outcome) : Prop :=
  ∃ v, f = .returns v ∧ s = .returns v.shown none ∧ v ≠ .undefined ∧ v.Plain

/-- Both refuse.  An error that comes with nil is only reported where no object and no
array's last element contains it. -/
def BothRefuse (reported : Bool) (f : IJsonFrontend.Outcome) (s : IJson.Outcome) : Prop :=
  f = .throws ∧ ∃ j e, s = .returns j (some e) ∧ (j = .null → reported = true)

/-- The two evaluations of a deletion come apart. -/
inductive Differ (reported : Bool) : IJsonFrontend.Outcome → IJson.Outcome → Prop where
  | inherits (s : IJson.Outcome) : Differ reported .inherits s
  | panics (f : IJsonFrontend.Outcome) : Differ reported f .panics
  | throws (j : Json) : Differ reported .throws (.returns j none)
  | swallowed (e : IJson.Error) (h : reported = false) :
      Differ reported .throws (.returns .null (some e))
  | values (v : JsValue) (j : Json) (hv : v ≠ .undefined) (hj : v.shown ≠ j) :
      Differ reported (.returns v) (.returns j none)

theorem BothReturn.agrees {f : IJsonFrontend.Outcome} {s : IJson.Outcome}
    (h : BothReturn f s) : Agrees f s := by
  obtain ⟨v, rfl, rfl, hv, -⟩ := h
  exact toJson_eq_some hv

theorem BothRefuse.agrees {f : IJsonFrontend.Outcome} {s : IJson.Outcome}
    {reported : Bool} (h : BothRefuse reported f s) : Agrees f s := by
  obtain ⟨rfl, j, e, rfl, -⟩ := h
  trivial

theorem Differ.not_agrees {f : IJsonFrontend.Outcome} {s : IJson.Outcome}
    (h : Differ true f s) : ¬ Agrees f s := by
  intro hagrees
  cases h with
  | inherits | throws => exact hagrees
  | panics => cases f <;> exact hagrees
  | swallowed _ h => exact absurd h (by simp)
  | values v j hv hj =>
    rw [Agrees, toJson_eq_some hv, Option.some.injEq] at hagrees
    exact hj hagrees

theorem mem_setEntries {key : JsString} {fields : List (JsString × JsValue)} {v : JsValue}
    {e : JsString × JsValue} (he : e ∈ JsMap.setEntries key v fields) :
    e = (key, v) ∨ e ∈ fields := by
  induction fields with
  | nil =>
    rw [JsMap.setEntries, List.mem_singleton] at he
    exact Or.inl he
  | cons x rest ih =>
    obtain ⟨k, w⟩ := x
    rw [JsMap.setEntries] at he
    split at he
    · rcases List.mem_cons.mp he with rfl | he
      · exact Or.inl rfl
      · exact Or.inr (List.mem_cons_of_mem _ he)
    · rcases List.mem_cons.mp he with rfl | he
      · exact Or.inr List.mem_cons_self
      · exact (ih he).imp_right (List.mem_cons_of_mem _)

section Maps

variable {key : JsString} {fields : List (JsString × JsValue)} (hplain : PlainFields fields)

include hplain

theorem plain_there : ∀ e ∈ fields, e.2 ≠ .undefined := fun e he =>
  (plainFields_iff.mp hplain e he).1

theorem plain_deleteProperty :
    PlainFields (IJsonFrontend.deleteProperty key fields) := by
  rw [plainFields_iff]
  intro e he
  exact plainFields_iff.mp hplain e (List.mem_of_mem_filter he)

theorem shown_setEntries {v : JsValue} (hv : v ≠ .undefined) :
    (JsValue.obj (JsMap.setEntries key v fields)).shown =
      .obj (JsMap.setEntries key v.shown (shownFields fields)) := by
  rw [shown_obj, shownFields_setEntries]
  intro e he
  rcases mem_setEntries he with rfl | he
  · exact hv
  · exact plain_there hplain e he

theorem plain_setEntries {v : JsValue} (hv : v ≠ .undefined) (hp : v.Plain) :
    PlainFields (JsMap.setEntries key v fields) := by
  rw [plainFields_iff]
  intro e he
  rcases mem_setEntries he with rfl | he
  · exact ⟨hv, hp⟩
  · exact plainFields_iff.mp hplain e he

theorem shown_objectOrNull :
    (IJsonFrontend.objectOrNull (IJsonFrontend.deleteProperty key fields)).shown =
      IJson.mapOrNil (IJson.deleteField key (shownFields fields)) := by
  have hdel : PlainFields (IJsonFrontend.deleteProperty key fields) :=
    plain_deleteProperty hplain
  rw [← shownFields_delete]
  unfold IJsonFrontend.objectOrNull IJson.mapOrNil
  cases hfields : IJsonFrontend.deleteProperty key fields with
  | nil => rfl
  | cons e rest =>
    rw [hfields] at hdel
    rw [if_neg (by simp), if_neg (by simp [shownFields])]
    exact shown_obj (plain_there hdel)

theorem plain_objectOrNull :
    IJsonFrontend.objectOrNull (IJsonFrontend.deleteProperty key fields) ≠ .undefined ∧
    (IJsonFrontend.objectOrNull (IJsonFrontend.deleteProperty key fields)).Plain := by
  unfold IJsonFrontend.objectOrNull
  split
  · exact ⟨by simp, trivial⟩
  · exact ⟨by simp, plain_deleteProperty hplain⟩

theorem storeProperty_both {remove : Bool} {f : IJsonFrontend.Outcome} {s : IJson.Outcome}
    (h : BothReturn f s) :
    BothReturn (IJsonFrontend.storeProperty remove key fields f)
      (IJson.storeInMap remove key (shownFields fields) s) := by
  obtain ⟨v, rfl, rfl, hv, hp⟩ := h
  rw [IJsonFrontend.storeProperty, IJson.storeInMap]
  by_cases hremove : remove = true ∧ v.isNullish = true
  · rw [if_pos (by simp [hremove.1, hremove.2]),
      if_pos ⟨hremove.1, shown_eq_null.mpr hremove.2⟩, ← shown_objectOrNull hplain]
    exact ⟨_, rfl, rfl, plain_objectOrNull hplain⟩
  · rw [if_neg (by simpa using hremove),
      if_neg (fun h => hremove ⟨h.1, shown_eq_null.mp h.2⟩), ← shown_setEntries hplain hv]
    exact ⟨_, rfl, rfl, by simp, plain_setEntries hplain hv hp⟩

end Maps

theorem lookup_set (key : JsString) (j : Json) (fields : List (JsString × Json)) :
    (JsMap.setEntries key j fields).lookup key = some j := by
  induction fields with
  | nil => simp [JsMap.setEntries]
  | cons e rest ih =>
    obtain ⟨k, v⟩ := e
    by_cases hk : k = key
    · simp [JsMap.setEntries, hk]
    · simp only [JsMap.setEntries, hk, if_false, List.lookup_cons,
        beq_false_of_ne (Ne.symm hk)]
      exact ih

theorem lookup_delete (key : JsString) (fields : List (JsString × Json)) :
    (IJson.deleteField key fields).lookup key = none := by
  rw [List.lookup_eq_none_iff]
  intro e he
  have hne := List.of_mem_filter he
  simp only [decide_eq_true_eq] at hne
  simpa [bne_iff_ne] using Ne.symm hne

theorem mapOrNil_ne_set (key : JsString) (j : Json) (fields fields' : List (JsString × Json)) :
    IJson.mapOrNil (IJson.deleteField key fields) ≠ .obj (JsMap.setEntries key j fields') := by
  unfold IJson.mapOrNil
  split
  · simp
  · intro heq
    have hlookup := congrArg (fun l => List.lookup key l) (Json.obj.inj heq)
    simp only [lookup_delete, lookup_set] at hlookup
    exact absurd hlookup (by simp)

theorem storeProperty_refuse {key : JsString} {fields : List (JsString × JsValue)}
    {fields' : List (JsString × Json)} {reported : Bool} {f : IJsonFrontend.Outcome}
    {s : IJson.Outcome} (h : BothRefuse false f s) :
    BothRefuse reported (IJsonFrontend.storeProperty true key fields f)
      (IJson.storeInMap true key fields' s) := by
  obtain ⟨rfl, j, e, rfl, hj⟩ := h
  have hne : j ≠ .null := fun h => absurd (hj h) (by simp)
  refine ⟨rfl, _, e, by rw [IJson.storeInMap, if_neg (by simp [hne])], ?_⟩
  intro h
  exact absurd h (by simp)

theorem storeProperty_differ {key : JsString} {fields : List (JsString × JsValue)}
    (hplain : PlainFields fields) {reported : Bool} {f : IJsonFrontend.Outcome}
    {s : IJson.Outcome} (h : Differ false f s) :
    Differ reported (IJsonFrontend.storeProperty true key fields f)
      (IJson.storeInMap true key (shownFields fields) s) := by
  cases h with
  | inherits => exact .inherits _
  | panics => exact .panics _
  | throws j =>
    rw [IJsonFrontend.storeProperty, IJson.storeInMap]
    split <;> exact .throws _
  | swallowed e _ =>
    rw [IJsonFrontend.storeProperty, IJson.storeInMap, if_pos ⟨rfl, rfl⟩]
    exact .throws _
  | values v j hv hj =>
    rw [IJsonFrontend.storeProperty, IJson.storeInMap]
    by_cases hnull : v.isNullish = true
    · have hshown := shown_eq_null.mpr hnull
      have hjnull : j ≠ .null := fun h => hj (hshown.trans h.symm)
      rw [if_pos (by simp [hnull]), if_neg (by simp [hjnull])]
      refine .values _ _ (plain_objectOrNull hplain).1 ?_
      rw [shown_objectOrNull hplain]
      exact mapOrNil_ne_set _ _ _ _
    · rw [if_neg (by simpa using hnull)]
      by_cases hjnull : j = .null
      · rw [if_pos ⟨rfl, hjnull⟩]
        refine .values _ _ (by simp) ?_
        rw [shown_setEntries hplain hv]
        exact (mapOrNil_ne_set _ _ _ _).symm
      · rw [if_neg (by simp [hjnull])]
        refine .values _ _ (by simp) ?_
        rw [shown_setEntries hplain hv]
        intro heq
        have hlookup := congrArg (fun l => List.lookup key l) (Json.obj.inj heq)
        simp only [lookup_set, Option.some.injEq] at hlookup
        exact hj hlookup

section Slices

variable {n : Nat} {items : List JsValue}

/-- What the frontend's array shows after its element was removed. -/
def removed (n : Nat) (items : List Json) : Json :=
  if n + 1 = items.length then IJson.sliceOrNil (items.take n) else .arr (items.set n .null)

theorem removeElement_eq {items : List Json} (h : n < items.length) :
    IJson.removeElement n items = .returns (removed n items) none := by
  unfold IJson.removeElement removed
  by_cases hlast : n + 1 = items.length
  · rw [if_pos hlast, if_pos hlast]
  · rw [if_neg hlast, if_pos h, if_neg hlast]

theorem shown_removeFromArr (h : n < items.length) :
    (IJsonFrontend.removeFromArr items n).shown = removed n (items.map shown) := by
  unfold IJsonFrontend.removeFromArr removed
  rw [if_neg (by omega), List.length_map]
  split
  · unfold IJson.sliceOrNil
    rw [← List.map_take]
    cases hitems : items.take n with
    | nil => rfl
    | cons v rest => simp
  · simp

theorem plain_removeFromArr (h : PlainItems items) :
    IJsonFrontend.removeFromArr items n ≠ .undefined ∧
    (IJsonFrontend.removeFromArr items n).Plain := by
  rw [plainItems_iff] at h
  unfold IJsonFrontend.removeFromArr
  split
  · exact ⟨by simp, plainItems_iff.mpr h⟩
  split
  · split
    · exact ⟨by simp, trivial⟩
    · exact ⟨by simp, plainItems_iff.mpr fun v hv => h v (List.mem_of_mem_take hv)⟩
  · refine ⟨by simp, plainItems_iff.mpr ?_⟩
    intro v hv
    rcases List.mem_or_eq_of_mem_set hv with hv | rfl
    · exact h v hv
    · trivial

/-- The array that is written to, longer by what is missing. -/
def extended (n : Nat) (items : List Json) : List Json :=
  items ++ List.replicate (n + 1 - items.length) .null

theorem lt_length_extended (n : Nat) (items : List Json) : n < (extended n items).length := by
  simp only [extended, List.length_append, List.length_replicate]
  omega

theorem shown_writeElement (h : n < items.length ∨ n < IJsonFrontend.arrayLimit) (v : JsValue) :
    (JsValue.arr (IJsonFrontend.writeElement n v items)).shown =
      .arr ((extended n (items.map shown)).set n v.shown) := by
  unfold IJsonFrontend.writeElement extended
  rw [if_pos h, shown_arr, List.map_set, List.map_append, List.map_replicate, List.length_map]
  rfl

theorem plain_writeElement (h : PlainItems items) {v : JsValue} (hv : v.Plain) :
    PlainItems (IJsonFrontend.writeElement n v items) := by
  rw [plainItems_iff] at h ⊢
  unfold IJsonFrontend.writeElement
  split
  · intro w hw
    rcases List.mem_or_eq_of_mem_set hw with hw | rfl
    · rcases List.mem_append.mp hw with hw | hw
      · exact h w hw
      · rw [List.eq_of_mem_replicate hw]
        trivial
    · exact hv
  · exact h

theorem extended_of_lt {items : List Json} (h : n < items.length) : extended n items = items := by
  have hzero : n + 1 - items.length = 0 := by omega
  rw [extended, hzero, List.replicate_zero, List.append_nil]

theorem set_ne {items : List Json} (h : n < items.length) {a b : Json} (hab : a ≠ b) :
    items.set n a ≠ items.set n b := by
  intro heq
  have hget := congrArg (fun l => l[n]?) heq
  simp only [List.getElem?_set, if_pos h, Option.some.injEq, if_true] at hget
  exact hab hget

theorem removed_ne_set {items : List Json} (h : n < items.length) {j : Json} (hj : j ≠ .null) :
    removed n items ≠ .arr (items.set n j) := by
  unfold removed
  split
  · unfold IJson.sliceOrNil
    split
    · simp
    · intro heq
      have hlen := congrArg List.length (Json.arr.inj heq)
      rw [List.length_take, List.length_set] at hlen
      omega
  · intro heq
    exact set_ne h (Ne.symm hj) (Json.arr.inj heq)

variable {s : IJson.Outcome} {f : IJsonFrontend.Outcome}

theorem storeElement_both (h : n < items.length) (hplain : PlainItems items)
    (hboth : BothReturn f s) :
    BothReturn (IJsonFrontend.storeElement true n items f)
      (IJson.storeInSlice true n (items.map shown) s) := by
  obtain ⟨v, rfl, rfl, hv, hp⟩ := hboth
  have hlen : n < (items.map shown).length := by rwa [List.length_map]
  rw [IJsonFrontend.storeElement, IJson.storeInSlice]
  by_cases hnull : v.isNullish = true
  · refine ⟨IJsonFrontend.removeFromArr items n, by simp [hnull], ?_,
      plain_removeFromArr hplain⟩
    rw [shown_removeFromArr h, removed, shown_eq_null.mpr hnull]
    simp only [true_and]
    split <;> rfl
  · have hne : v.shown ≠ .null := fun h => hnull (shown_eq_null.mp h)
    refine ⟨.arr (IJsonFrontend.writeElement n v items), by simp [hnull], ?_, by simp,
      plain_writeElement hplain hp⟩
    rw [if_neg (by simp [hne]), shown_writeElement (Or.inl h), extended_of_lt hlen]

theorem storeElement_refuse {items' : List Json} {reported : Bool}
    (h : BothRefuse (decide (n + 1 ≠ items'.length)) f s) :
    BothRefuse reported (IJsonFrontend.storeElement true n items f)
      (IJson.storeInSlice true n items' s) := by
  obtain ⟨rfl, j, e, rfl, hj⟩ := h
  refine ⟨rfl, .arr (items'.set n j), e, ?_, fun h => absurd h (by simp)⟩
  rw [IJson.storeInSlice, if_neg]
  intro hcond
  have hlast := hj hcond.2.1
  rw [decide_eq_true_eq] at hlast
  exact hlast hcond.2.2

theorem storeElement_differ (h : n < items.length) (hplain : PlainItems items)
    {reported : Bool} (hdiffer : Differ (decide (n + 1 ≠ items.length)) f s) :
    Differ reported (IJsonFrontend.storeElement true n items f)
      (IJson.storeInSlice true n (items.map shown) s) := by
  have hlen : n < (items.map shown).length := by rwa [List.length_map]
  cases hdiffer with
  | inherits => exact .inherits _
  | panics => exact .panics _
  | throws j =>
    rw [IJsonFrontend.storeElement, IJson.storeInSlice]
    split <;> exact .throws _
  | swallowed e hlast =>
    rw [decide_eq_false_iff_not, not_not] at hlast
    rw [IJsonFrontend.storeElement, IJson.storeInSlice,
      if_pos ⟨rfl, rfl, by rw [List.length_map]; exact hlast⟩]
    exact .throws _
  | values v j hv hj =>
    rw [IJsonFrontend.storeElement, IJson.storeInSlice]
    by_cases hnull : v.isNullish = true
    · have hjnull : j ≠ .null := fun h => hj ((shown_eq_null.mpr hnull).trans h.symm)
      rw [if_pos (by simp [hnull]), if_neg (by simp [hjnull])]
      refine .values _ _ (plain_removeFromArr hplain).1 ?_
      rw [shown_removeFromArr h]
      exact removed_ne_set hlen hjnull
    · have hne : v.shown ≠ .null := fun h => hnull (shown_eq_null.mp h)
      rw [if_neg (by simpa using hnull)]
      by_cases hjnull : j = .null
      · have hremoved : (if true = true ∧ j = Json.null ∧ n + 1 = (items.map shown).length then
            IJson.Outcome.returns (IJson.sliceOrNil ((items.map shown).take n)) none
            else .returns (.arr ((items.map shown).set n j)) none) =
            .returns (removed n (items.map shown)) none := by
          subst hjnull
          unfold removed
          simp only [true_and]
          split <;> rfl
        rw [hremoved]
        refine .values _ _ (by simp) ?_
        rw [shown_writeElement (Or.inl h), extended_of_lt hlen]
        exact (removed_ne_set hlen hne).symm
      · rw [if_neg (by simp [hjnull])]
        refine .values _ _ (by simp) ?_
        rw [shown_writeElement (Or.inl h), extended_of_lt hlen]
        intro heq
        exact set_ne hlen hj (Json.arr.inj heq)

end Slices

end IJsonAgreement

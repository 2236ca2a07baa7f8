import Crest.IJsonCommands

/-!
# The laws of setting and removing at a path

What `SetPath` writes, `GetPath` reads back, and it reads what it read before at every path
that parts from the written one.  A removal should do the same, and give up only those
containers around the removed value in which nothing is left.

The removal returns nil for "nothing is left" and for "there was nothing", and its caller
drops the whole child for it.  So an index beyond the end of a slice takes the slice away,
or panics at the end of the path, and an error from below is taken for nil.  `removable`
says where none of this happens.
-/

namespace IJson

open IJsonAgreement (nonneg serverDel)

/-! ## Reading -/

/-- `getPathInternal`, on the rest of the path from a position on. -/
def getPathInternal : List PathElem → Nat → Json → Except Error Json
  | [], _, data => .ok data
  | .str key :: rest, index, data =>
    match data with
    | .obj fields =>
      match fields.lookup key with
      | some value => getPathInternal rest (index + 1) value
      | none => .ok .null
    | _ => .ok .null
  | .int i :: rest, index, data =>
    if data = .null then .ok .null
    else if i < 0 then .error (.negativeIndex index)
    else
      match data with
      | .arr items =>
        if items.length ≤ i.toNat then .ok .null
        else getPathInternal rest (index + 1) (items.getD i.toNat .null)
      | _ => .ok .null

def getPath (data : Json) (path : List PathElem) : Except Error Json :=
  getPathInternal path 0 data

/-- The options of a set that may overwrite what does not conform to the path. -/
def forceOpts : SetPathOpts := ⟨0, true, false, none⟩

/-- A value that is there, and is no container for the path element. -/
def wrongType : Json → PathElem → Bool
  | .null, _ => false
  | .obj _, .str _ => false
  | .arr _, .int _ => false
  | _, _ => true

/-- Whether the value is a map or a slice. -/
def isContainer : Json → Bool
  | .obj _ => true
  | .arr _ => true
  | _ => false

/-- The container has no entry but the one at `e`. -/
def OnlyAt : Json → PathElem → Prop
  | .obj fields, .str key => ∀ field ∈ fields, field.1 = key
  | .arr items, .int i => ∀ n, n < items.length → (n : Int) = i
  | _, _ => False

/-! ## The laws -/

/-- Neither path continues the other. -/
def Apart (path q : List PathElem) : Prop := ¬ path <+: q ∧ ¬ q <+: path

/-- Some prefix of the path meets a value of the wrong type. -/
def MeetsWrongType (data : Json) (path : List PathElem) : Prop :=
  ∃ before e value, before ++ [e] <+: path ∧ getPath data before = .ok value ∧
    wrongType value e = true

/-- The path `q` passes through a value that a set at `path` overwrites. -/
def PassesClobbered (data : Json) (path q : List PathElem) : Prop :=
  ∃ before e value, before ++ [e] <+: path ∧ getPath data before = .ok value ∧
    wrongType value e = true ∧ before <+: q

/-- The laws of a set: it never panics, and if it reports no error, the value is there, and
what parts from the path is as before. -/
def SetLaws (data : Json) (path : List PathElem) : Prop :=
  ∀ value budget, ∃ result err, setPath data path value (setOpts budget) = .returns result err ∧
    (err = none → getPath result path = .ok value ∧
      ∀ q, q.all nonneg = true → Apart path q → getPath result q = getPath data q)

/-- The laws of a set that overwrites: it succeeds, and the rest is as before, except below
what it has overwritten. -/
def ForceLaws (data : Json) (path : List PathElem) : Prop :=
  ∀ value, ∃ result, setPath data path value forceOpts = .returns result none ∧
    getPath result path = .ok value ∧
      ∀ q, q.all nonneg = true → Apart path q → ¬ PassesClobbered data path q →
        getPath result q = getPath data q

/-- The laws of a removal: it never panics, it fails exactly if it meets a value of the
wrong type, and otherwise nothing is at the path, what parts from the path is as before,
and the containers that disappear beside what was at the path are those around it in which
nothing else is. -/
def RemoveLaws (data : Json) (path : List PathElem) : Prop :=
  ∃ result err, setPath data path .null (delOpts 0) = .returns result err ∧
    (err.isSome = true ↔ MeetsWrongType data path) ∧
    (err = none → getPath result path = .ok .null ∧
      (∀ q, q.all nonneg = true → Apart path q → getPath result q = getPath data q) ∧
      ∀ q container, q.all nonneg = true → getPath data q = .ok container →
        isContainer container = true → getPath result q = .ok .null →
          path <+: q ∨ ∃ e, q ++ [e] <+: path ∧ OnlyAt container e)

/-- Where a removal keeps its laws.  On the way down the path, a key that is not there ends
the way; what is below an entry of a map must not be of the wrong type, what is below an
element only if it is not the last one; an index is in range, unless the slice is empty and
the path goes on. -/
def removable : Json → List PathElem → Bool
  | .obj fields, .str key :: rest =>
    match fields.lookup key with
    | none => true
    | some old =>
      match rest with
      | [] => true
      | e :: _ => !wrongType old e && removable old rest
  | .arr items, .int i :: rest =>
    match rest with
    | [] => decide (i.toNat < items.length)
    | e :: _ =>
      if items.length ≤ i.toNat then items.isEmpty
      else if wrongType (items.getD i.toNat .null) e then decide (i.toNat + 1 ≠ items.length)
      else removable (items.getD i.toNat .null) rest
  | _, _ => true

/-! ## Reading, step by step -/

/-- The value below a value, nil if there is none. -/
def child : Json → PathElem → Json
  | .obj fields, .str key => (fields.lookup key).getD .null
  | .arr items, .int i => items.getD i.toNat .null
  | _, _ => .null

/-- The value at a path. -/
def valueAt (data : Json) (path : List PathElem) : Json := path.foldl child data

@[simp] theorem valueAt_cons (data : Json) (e : PathElem) (rest : List PathElem) :
    valueAt data (e :: rest) = valueAt (child data e) rest := rfl

@[simp] theorem child_null (e : PathElem) : child .null e = .null := by
  cases e <;> rfl

@[simp] theorem valueAt_null (path : List PathElem) : valueAt .null path = .null := by
  induction path with
  | nil => rfl
  | cons e rest ih => rw [valueAt_cons, child_null, ih]

variable {path : List PathElem}

theorem getPathInternal_eq (h : path.all nonneg = true) :
    ∀ (index : Nat) (data : Json), getPathInternal path index data = .ok (valueAt data path) := by
  induction path with
  | nil =>
    intro index data
    rfl
  | cons e rest ih =>
    intro index data
    rw [List.all_cons, Bool.and_eq_true] at h
    have ih' := ih h.2
    have hnull : Except.ok Json.null = Except.ok (ε := Error) (valueAt .null rest) := by
      rw [valueAt_null]
    rw [valueAt_cons]
    cases e with
    | str key =>
      cases data with
      | obj fields =>
        rw [getPathInternal, child]
        cases fields.lookup key with
        | none => exact hnull
        | some value => exact ih' _ _
      | null | str _ | num _ | bool _ | arr _ => exact hnull
    | int i =>
      have hi : ¬ i < 0 := by simpa [nonneg] using h.1
      cases data with
      | arr items =>
        rw [getPathInternal, if_neg (by simp), if_neg hi, child]
        by_cases hlen : items.length ≤ i.toNat
        · rw [List.getD_eq_default _ _ hlen]
          exact (if_pos hlen).trans hnull
        · exact (if_neg hlen).trans (ih' _ _)
      | null => exact hnull
      | obj _ | str _ | num _ | bool _ => exact (if_neg hi).trans hnull

theorem getPath_eq (h : path.all nonneg = true) (data : Json) :
    getPath data path = .ok (valueAt data path) :=
  getPathInternal_eq h 0 data

/-! ## One entry replaced -/

/-- The result has `value` at the entry `e`, and its other entries are those of `data`. -/
structure Replaces (data result : Json) (e : PathElem) (value : Json) : Prop where
  here : child result e = value
  others : ∀ e', nonneg e' = true → e' ≠ e → child result e' = child data e'

/-- What parts from the path is as before. -/
def Frame (data result : Json) (path : List PathElem) : Prop :=
  ∀ q, q.all nonneg = true → Apart path q → valueAt result q = valueAt data q

/-- The containers that disappear are at or below the path, or nothing else is in them. -/
def Keeps (data result : Json) (path : List PathElem) : Prop :=
  ∀ q, q.all nonneg = true → isContainer (valueAt data q) = true → valueAt result q = .null →
    path <+: q ∨ ∃ e, q ++ [e] <+: path ∧ OnlyAt (valueAt data q) e

/-- What a removal is to leave. -/
structure Removed (data result : Json) (path : List PathElem) : Prop where
  gone : valueAt result path = .null
  frame : Frame data result path
  keeps : Keeps data result path

theorem not_apart_nil (q : List PathElem) : ¬ Apart [] q :=
  fun h => h.1 (List.nil_prefix)

variable {q : List PathElem}

theorem Apart.ne_nil (h : Apart path q) :
    q ≠ [] := by
  rintro rfl
  exact h.2 List.nil_prefix

variable {e : PathElem}

theorem apart_cons {e' : PathElem} {rest : List PathElem} :
    Apart (e :: rest) (e' :: q) ↔ (e = e' → Apart rest q) := by
  rw [Apart, Apart, List.cons_prefix_cons, List.cons_prefix_cons]
  grind

variable {data result : Json}

theorem Replaces.frame_iff {value : Json} (h : Replaces data result e value)
    (he : nonneg e = true) (rest : List PathElem) :
    Frame data result (e :: rest) ↔ Frame (child data e) value rest := by
  constructor
  · intro hframe q hq hapart
    have hwhole := hframe (e :: q) (by rw [List.all_cons, he, hq]; rfl)
      (apart_cons.mpr fun _ => hapart)
    rwa [valueAt_cons, valueAt_cons, h.here] at hwhole
  · intro hframe q hq hapart
    cases q with
    | nil => exact absurd rfl hapart.ne_nil
    | cons e' q =>
      rw [List.all_cons, Bool.and_eq_true] at hq
      rw [valueAt_cons, valueAt_cons]
      by_cases heq : e' = e
      · subst heq
        rw [h.here]
        exact hframe q hq.2 (apart_cons.mp hapart rfl)
      · rw [h.others e' hq.1 heq]

theorem Replaces.keeps_iff {value : Json} (h : Replaces data result e value)
    (he : nonneg e = true) (honly : result = .null → OnlyAt data e) (rest : List PathElem) :
    Keeps data result (e :: rest) ↔ Keeps (child data e) value rest := by
  constructor
  · intro hkeeps q hq hcontainer hnull
    have hwhole := hkeeps (e :: q) (by rw [List.all_cons, he, hq]; rfl) hcontainer
      (by rw [valueAt_cons, h.here, hnull])
    rcases hwhole with hbelow | ⟨e', hfront, honly'⟩
    · exact Or.inl (List.cons_prefix_cons.mp hbelow).2
    · exact Or.inr ⟨e', (List.cons_prefix_cons.mp hfront).2, honly'⟩
  · intro hkeeps q hq hcontainer hnull
    cases q with
    | nil => exact Or.inr ⟨e, List.cons_prefix_cons.mpr ⟨rfl, List.nil_prefix⟩, honly hnull⟩
    | cons e' q =>
      rw [List.all_cons, Bool.and_eq_true] at hq
      rw [valueAt_cons] at hcontainer hnull
      by_cases heq : e' = e
      · subst heq
        rw [h.here] at hnull
        rcases hkeeps q hq.2 hcontainer hnull with hbelow | ⟨e'', hfront, honly'⟩
        · exact Or.inl (List.cons_prefix_cons.mpr ⟨rfl, hbelow⟩)
        · exact Or.inr ⟨e'', List.cons_prefix_cons.mpr ⟨rfl, hfront⟩, honly'⟩
      · rw [h.others e' hq.1 heq] at hnull
        rw [hnull] at hcontainer
        cases hcontainer

/-- **A removal below an entry is a removal in the value that has the entry.** -/
theorem Replaces.removed_iff {value : Json} (h : Replaces data result e value)
    (he : nonneg e = true) (honly : result = .null → OnlyAt data e) (rest : List PathElem) :
    Removed data result (e :: rest) ↔ Removed (child data e) value rest := by
  have hgone : valueAt result (e :: rest) = valueAt value rest := by
    rw [valueAt_cons, h.here]
  constructor
  · intro hremoved
    exact ⟨hgone ▸ hremoved.gone, (h.frame_iff he rest).mp hremoved.frame,
      (h.keeps_iff he honly rest).mp hremoved.keeps⟩
  · intro hremoved
    exact ⟨hgone ▸ hremoved.gone, (h.frame_iff he rest).mpr hremoved.frame,
      (h.keeps_iff he honly rest).mpr hremoved.keeps⟩

theorem removed_nil (data : Json) : Removed data .null [] :=
  ⟨rfl, fun q _ hapart => absurd hapart (not_apart_nil q), fun _ _ _ _ => Or.inl List.nil_prefix⟩

theorem removed_null (path : List PathElem) : Removed .null .null path := by
  refine ⟨valueAt_null path, fun _ _ _ => rfl, ?_⟩
  intro q _ hcontainer
  rw [valueAt_null] at hcontainer
  cases hcontainer

/-! ## The entries of maps and slices -/

theorem lookup_set_ne {key key' : JsString} (h : key' ≠ key) (value : Json)
    (fields : List (JsString × Json)) :
    (JsMap.setEntries key value fields).lookup key' = fields.lookup key' := by
  induction fields with
  | nil => simp [JsMap.setEntries, List.lookup_cons, beq_false_of_ne h]
  | cons field rest ih =>
    obtain ⟨k, old⟩ := field
    by_cases hk : k = key
    · subst hk
      simp [JsMap.setEntries, List.lookup_cons, beq_false_of_ne h]
    · simp only [JsMap.setEntries, hk, if_false, List.lookup_cons, ih]

theorem replaces_set (key : JsString) (value : Json) (fields : List (JsString × Json)) :
    Replaces (.obj fields) (.obj (JsMap.setEntries key value fields)) (.str key) value := by
  refine ⟨?_, ?_⟩
  · rw [child, IJsonAgreement.lookup_set]
    rfl
  · intro e' _ hne
    cases e' with
    | str key' =>
      have hkey : key' ≠ key := fun heq => hne (by rw [heq])
      rw [child, child, lookup_set_ne hkey]
    | int i => rfl

theorem lookup_deleteField_ne {key key' : JsString} (h : key' ≠ key)
    (fields : List (JsString × Json)) :
    (deleteField key fields).lookup key' = fields.lookup key' := by
  induction fields with
  | nil => rfl
  | cons field rest ih =>
    obtain ⟨k, old⟩ := field
    rw [deleteField] at ih ⊢
    by_cases hk : k = key
    · subst hk
      rw [List.filter_cons_of_neg (by simp), ih, List.lookup_cons, beq_false_of_ne h]
    · rw [List.filter_cons_of_pos (by simpa using hk), List.lookup_cons, List.lookup_cons, ih]

theorem replaces_delete (key : JsString) (fields : List (JsString × Json)) :
    Replaces (.obj fields) (mapOrNil (deleteField key fields)) (.str key) .null := by
  have hchild : ∀ e', child (mapOrNil (deleteField key fields)) e' =
      child (.obj (deleteField key fields)) e' := by
    intro e'
    rw [mapOrNil]
    split
    · rename_i hempty
      rw [hempty, child_null]
      cases e' <;> rfl
    · rfl
  refine ⟨?_, ?_⟩
  · rw [hchild, child, IJsonAgreement.lookup_delete]
    rfl
  · intro e' _ hne
    rw [hchild]
    cases e' with
    | str key' =>
      have hkey : key' ≠ key := fun heq => hne (by rw [heq])
      rw [child, child, lookup_deleteField_ne hkey]
    | int i => rfl

theorem onlyAt_of_mapOrNil {key : JsString} {fields : List (JsString × Json)}
    (h : mapOrNil (deleteField key fields) = .null) :
    OnlyAt (.obj fields) (.str key) := by
  intro field hfield
  rw [mapOrNil] at h
  split at h
  · rename_i hempty
    by_contra hne
    have hmem : field ∈ deleteField key fields :=
      List.mem_filter.mpr ⟨hfield, by simpa using hne⟩
    rw [hempty] at hmem
    cases hmem
  · cases h

variable {i : Int} {items : List Json}

theorem replaces_element (hi : 0 ≤ i) (hlen : i.toNat < items.length) (value : Json) :
    Replaces (.arr items) (.arr (items.set i.toNat value)) (.int i) value := by
  refine ⟨?_, ?_⟩
  · simp [child, hlen]
  · intro e' he' hne
    cases e' with
    | str key => rfl
    | int j =>
      have hj : 0 ≤ j := by simpa [nonneg] using he'
      have hij : i.toNat ≠ j.toNat := by
        intro heq
        exact hne (by rw [show j = i by omega])
      simp [child, List.getElem?_set_ne hij]

theorem replaces_last (hi : 0 ≤ i) (hlast : i.toNat + 1 = items.length) :
    Replaces (.arr items) (sliceOrNil (items.take i.toNat)) (.int i) .null := by
  have hchild : ∀ e', child (sliceOrNil (items.take i.toNat)) e' =
      child (.arr (items.take i.toNat)) e' := by
    intro e'
    rw [sliceOrNil]
    split
    · rename_i hempty
      rw [hempty, child_null]
      cases e' <;> rfl
    · rfl
  refine ⟨?_, ?_⟩
  · rw [hchild]
    simp [child]
  · intro e' he' hne
    rw [hchild]
    cases e' with
    | str key => rfl
    | int j =>
      have hj : 0 ≤ j := by simpa [nonneg] using he'
      have hij : j.toNat ≠ i.toNat := by
        intro heq
        exact hne (by rw [show j = i by omega])
      rcases Nat.lt_or_ge j.toNat i.toNat with hlt | hge
      · simp [child, hlt]
      · have hbeyond : items.length ≤ j.toNat := by omega
        rw [child, child, List.getD_eq_default _ _ hbeyond, List.getD_eq_default]
        rw [List.length_take]
        omega

theorem onlyAt_of_sliceOrNil (hi : 0 ≤ i) (hlast : i.toNat + 1 = items.length)
    (h : sliceOrNil (items.take i.toNat) = .null) :
    OnlyAt (.arr items) (.int i) := by
  intro n hn
  rw [sliceOrNil] at h
  split at h
  · rename_i hempty
    have hlength := congrArg List.length hempty
    rw [List.length_take, List.length_nil] at hlength
    omega
  · cases h

/-! ## Removing -/

/-- Whether the way down the path comes to a value of the wrong type. -/
def meets : Json → List PathElem → Bool
  | _, [] => false
  | data, e :: rest => wrongType data e || meets (child data e) rest

theorem meets_null (path : List PathElem) : meets .null path = false := by
  induction path with
  | nil => rfl
  | cons e rest ih =>
    rw [meets, child_null, ih]
    cases e <;> rfl

theorem meets_iff (data : Json) (path : List PathElem) :
    meets data path = true ↔
      ∃ before e, before ++ [e] <+: path ∧ wrongType (valueAt data before) e = true := by
  induction path generalizing data with
  | nil =>
    refine ⟨nofun, ?_⟩
    intro h
    obtain ⟨before, e, hfront, -⟩ := h
    have hlength := hfront.length_le
    rw [List.length_append, List.length_singleton, List.length_nil] at hlength
    omega
  | cons e rest ih =>
    rw [meets, Bool.or_eq_true, ih]
    constructor
    · intro h
      rcases h with h | ⟨before, e', hfront, h⟩
      · exact ⟨[], e, List.cons_prefix_cons.mpr ⟨rfl, List.nil_prefix⟩, h⟩
      · exact ⟨e :: before, e', List.cons_prefix_cons.mpr ⟨rfl, hfront⟩, h⟩
    · intro h
      obtain ⟨before, e', hfront, h⟩ := h
      cases before with
      | nil =>
        obtain ⟨rfl, -⟩ := List.cons_prefix_cons.mp hfront
        exact Or.inl h
      | cons first before =>
        obtain ⟨rfl, hrest⟩ := List.cons_prefix_cons.mp hfront
        exact Or.inr ⟨before, e', hrest, h⟩

/-- What a removal is to do. -/
def Removes (data : Json) (path : List PathElem) (outcome : Outcome) : Prop :=
  ∃ result err, outcome = .returns result err ∧ (err.isSome = true ↔ meets data path = true) ∧
    (err = none → Removed data result path)

theorem not_removes_panics (data : Json) (path : List PathElem) :
    ¬ Removes data path .panics := by
  intro h
  obtain ⟨result, err, h, -⟩ := h
  cases h

theorem removes_returns {err : Option Error} :
    Removes data path (.returns result err) ↔
      (err.isSome = true ↔ meets data path = true) ∧ (err = none → Removed data result path) := by
  constructor
  · intro h
    obtain ⟨result', err', heq, h⟩ := h
    cases heq
    exact h
  · intro h
    exact ⟨result, err, rfl, h⟩

theorem removes_step {value : Json} {rest : List PathElem}
    (h : Replaces data result e value) (he : nonneg e = true)
    (honly : result = .null → OnlyAt data e) (htype : wrongType data e = false)
    (err : Option Error) :
    Removes data (e :: rest) (.returns result err) ↔
      Removes (child data e) rest (.returns value err) := by
  rw [removes_returns, removes_returns, meets, htype, Bool.false_or, h.removed_iff he honly]

theorem wrongType_of_error {rest : List PathElem} {index : Nat} {err : Error}
    (he : nonneg e = true) (h : serverDel (e :: rest) index data = .returns .null (some err)) :
    wrongType data e = true := by
  cases data with
  | null =>
    rw [IJsonAgreement.serverDel_null he] at h
    cases h
  | bool _ | num _ | str _ => cases e <;> rfl
  | obj fields =>
    cases e with
    | int i => rfl
    | str key =>
      rw [IJsonAgreement.serverDel_key] at h
      split_ifs at h
      · cases (Outcome.returns.inj h).2
      · cases hlookup : fields.lookup key with
        | none =>
          rw [hlookup] at h
          cases (Outcome.returns.inj h).2
        | some old =>
          rw [hlookup] at h
          cases hbelow : serverDel rest (index + 1) old with
          | panics =>
            simp only [hbelow, storeInMap] at h
            cases h
          | returns value err' =>
            simp only [hbelow, storeInMap, true_and] at h
            split_ifs at h
            · cases (Outcome.returns.inj h).2
            · cases (Outcome.returns.inj h).1
  | arr items =>
    cases e with
    | str key => rfl
    | int i =>
      have hi : 0 ≤ i := by simpa [nonneg] using he
      rw [IJsonAgreement.serverDel_index hi] at h
      split_ifs at h
      · rw [removeElement] at h
        split_ifs at h
        all_goals cases (Outcome.returns.inj h).2
      · cases (Outcome.returns.inj h).2
      · cases hbelow : serverDel rest (index + 1) (items.getD i.toNat .null) with
        | panics =>
          simp only [hbelow, storeInSlice] at h
          cases h
        | returns value err' =>
          simp only [hbelow, storeInSlice, true_and] at h
          split_ifs at h
          · cases (Outcome.returns.inj h).2
          · cases (Outcome.returns.inj h).1

theorem serverDel_wrongType (he : nonneg e = true) (h : wrongType data e = true)
    (rest : List PathElem) (index : Nat) :
    ∃ err, serverDel (e :: rest) index data = .returns .null (some err) := by
  cases e with
  | str key =>
    refine ⟨.setType "map" index, IJsonAgreement.serverDel_key_mismatch ?_ ?_⟩
    · rintro rfl
      cases h
    · cases data with
      | null => cases h
      | obj fields => cases h
      | _ => rfl
  | int i =>
    have hi : 0 ≤ i := by simpa [nonneg] using he
    refine ⟨.setType "array" index, IJsonAgreement.serverDel_index_mismatch hi ?_ ?_⟩
    · rintro rfl
      cases h
    · intro opts hforce
      cases data with
      | null => cases h
      | arr items => cases h
      | _ =>
        rw [sliceAt, if_pos hforce]
        all_goals simp

section Removing

variable {e : PathElem} {rest : List PathElem} {index : Nat}

theorem removes_key {key : JsString} {fields : List (JsString × Json)} {old : Json}
    (hlookup : fields.lookup key = some old) (he : nonneg e = true)
    (htype : wrongType old e = false) :
    Removes (.obj fields) (.str key :: e :: rest)
        (storeInMap true key fields (serverDel (e :: rest) index old)) ↔
      Removes old (e :: rest) (serverDel (e :: rest) index old) := by
  have hchild : child (.obj fields) (.str key) = old := by
    rw [child, hlookup]
    rfl
  cases hbelow : serverDel (e :: rest) index old with
  | panics => exact ⟨fun h => absurd h (not_removes_panics _ _),
      fun h => absurd h (not_removes_panics _ _)⟩
  | returns value err =>
    by_cases hnull : value = .null
    · subst hnull
      have hnone : err = none := by
        cases err with
        | none => rfl
        | some err =>
          rw [wrongType_of_error he hbelow] at htype
          cases htype
      rw [storeInMap, if_pos ⟨rfl, rfl⟩, hnone, removes_step (replaces_delete key fields) rfl
        onlyAt_of_mapOrNil rfl, hchild]
    · rw [storeInMap, if_neg (fun h => hnull h.2), removes_step (replaces_set key value fields)
        rfl (fun h => by cases h) rfl, hchild]

theorem removes_index {i : Int} (hi : 0 ≤ i) {items : List Json}
    (hlen : i.toNat < items.length) (he : nonneg e = true)
    (htype : wrongType (items.getD i.toNat .null) e = false) :
    Removes (.arr items) (.int i :: e :: rest) (storeInSlice true i.toNat items
        (serverDel (e :: rest) index (items.getD i.toNat .null))) ↔
      Removes (items.getD i.toNat .null) (e :: rest)
        (serverDel (e :: rest) index (items.getD i.toNat .null)) := by
  have hnonneg : nonneg (.int i) = true := by simpa [nonneg] using hi
  cases hbelow : serverDel (e :: rest) index (items.getD i.toNat .null) with
  | panics => exact ⟨fun h => absurd h (not_removes_panics _ _),
      fun h => absurd h (not_removes_panics _ _)⟩
  | returns value err =>
    by_cases hlast : value = .null ∧ i.toNat + 1 = items.length
    · obtain ⟨rfl, hlast⟩ := hlast
      have hnone : err = none := by
        cases err with
        | none => rfl
        | some err =>
          rw [wrongType_of_error he hbelow] at htype
          cases htype
      rw [storeInSlice, if_pos ⟨rfl, rfl, hlast⟩, hnone, removes_step (replaces_last hi hlast)
        hnonneg (onlyAt_of_sliceOrNil hi hlast) rfl, child]
    · rw [storeInSlice, if_neg (fun h => hlast h.2), removes_step (replaces_element hi hlen value)
        hnonneg (fun h => by cases h) rfl, child]

theorem removes_beyond {i : Int} (hi : 0 ≤ i) {items : List Json}
    (hlen : items.length ≤ i.toNat) :
    Removes (.arr items) (.int i :: e :: rest) (.returns .null none) ↔ items = [] := by
  have hnonneg : nonneg (.int i) = true := by simpa [nonneg] using hi
  have hchild : child (.arr items) (.int i) = .null := List.getD_eq_default _ _ hlen
  rw [removes_returns]
  constructor
  · intro h
    obtain ⟨-, hremoved⟩ := h
    rcases (hremoved rfl).keeps [] rfl rfl rfl with hbelow | ⟨e', hfront, honly⟩
    · exact absurd hbelow.length_le (by simp)
    · obtain ⟨rfl, -⟩ := List.cons_prefix_cons.mp hfront
      cases items with
      | nil => rfl
      | cons item items =>
        have hzero : ((0 : Nat) : Int) = i := honly 0 (Nat.zero_lt_succ _)
        rw [List.length_cons] at hlen
        omega
  · rintro rfl
    refine ⟨?_, fun _ => ?_⟩
    · rw [meets, hchild, meets_null]
      exact Iff.rfl
    · have hreplaces : Replaces (.arr []) .null (.int i) .null := by
        refine ⟨rfl, ?_⟩
        intro e' _ _
        cases e' <;> rfl
      rw [hreplaces.removed_iff hnonneg (fun _ n hn => absurd hn (Nat.not_lt_zero n)), hchild]
      exact removed_null _

end Removing

theorem removable_key {key : JsString} {fields : List (JsString × Json)} {old : Json}
    (hlookup : fields.lookup key = some old) (e : PathElem) (rest : List PathElem) :
    removable (.obj fields) (.str key :: e :: rest) =
      (!wrongType old e && removable old (e :: rest)) := by
  rw [removable, hlookup]

theorem removable_last (i : Int) (items : List Json) :
    removable (.arr items) [.int i] = decide (i.toNat < items.length) := rfl

theorem removable_index (i : Int) (items : List Json) (e : PathElem) (rest : List PathElem) :
    removable (.arr items) (.int i :: e :: rest) =
      if items.length ≤ i.toNat then items.isEmpty
      else if wrongType (items.getD i.toNat .null) e then decide (i.toNat + 1 ≠ items.length)
      else removable (items.getD i.toNat .null) (e :: rest) := rfl

theorem removes_obj_iff {key : JsString} {rest : List PathElem}
    {fields : List (JsString × Json)} (hrest : rest.all nonneg = true)
    (ih : rest.all nonneg = true → ∀ (index : Nat) (data : Json),
      Removes data rest (serverDel rest index data) ↔ removable data rest = true)
    (index : Nat) :
    Removes (.obj fields) (.str key :: rest) (serverDel (.str key :: rest) index (.obj fields)) ↔
      removable (.obj fields) (.str key :: rest) = true := by
  rw [IJsonAgreement.serverDel_key]
  cases rest with
  | nil =>
    rw [removable, if_pos rfl, removes_step (replaces_delete key fields) rfl onlyAt_of_mapOrNil rfl,
      removes_returns]
    refine ⟨fun _ => by cases fields.lookup key <;> rfl, fun _ => ⟨?_, fun _ => removed_nil _⟩⟩
    exact Iff.rfl
  | cons e rest =>
    rw [if_neg (List.cons_ne_nil e rest)]
    cases hlookup : fields.lookup key with
    | none =>
      have hchild : child (.obj fields) (.str key) = .null := by
        rw [child, hlookup]
        rfl
      have hreplaces : Replaces (.obj fields) (.obj fields) (.str key) .null :=
        ⟨hchild, fun _ _ _ => rfl⟩
      refine ⟨fun _ => by rw [removable, hlookup], fun _ => ?_⟩
      rw [removes_step hreplaces rfl (fun h => by cases h) rfl, hchild, removes_returns,
        meets_null]
      exact ⟨Iff.rfl, fun _ => removed_null _⟩
    | some old =>
      have he : nonneg e = true := by
        rw [List.all_cons, Bool.and_eq_true] at hrest
        exact hrest.1
      cases htype : wrongType old e with
      | false =>
        rw [removes_key hlookup he htype, ih hrest, removable_key hlookup, htype,
          Bool.not_false, Bool.true_and]
      | true =>
        obtain ⟨err, herr⟩ := serverDel_wrongType he htype rest (index + 1)
        rw [removable_key hlookup, htype]
        refine ⟨fun h => ?_, nofun⟩
        simp only [herr] at h
        rw [storeInMap, if_pos ⟨rfl, rfl⟩, removes_returns] at h
        have hmeets : meets (.obj fields) (.str key :: e :: rest) = true := by
          rw [meets, child, hlookup, meets, Option.getD_some, htype]
          rfl
        cases h.1.mpr hmeets

theorem removes_arr_iff {rest : List PathElem} (hi : 0 ≤ i) (hrest : rest.all nonneg = true)
    (ih : rest.all nonneg = true → ∀ (index : Nat) (data : Json),
      Removes data rest (serverDel rest index data) ↔ removable data rest = true)
    (index : Nat) :
    Removes (.arr items) (.int i :: rest) (serverDel (.int i :: rest) index (.arr items)) ↔
      removable (.arr items) (.int i :: rest) = true := by
  have hnonneg : nonneg (.int i) = true := by simpa [nonneg] using hi
  rw [IJsonAgreement.serverDel_index hi]
  cases rest with
  | nil =>
    have hdone : (none : Option Error).isSome = true ↔
        meets (child (.arr items) (.int i)) [] = true := Iff.rfl
    rw [removable_last, if_pos rfl, removeElement, decide_eq_true_eq]
    by_cases hlast : i.toNat + 1 = items.length
    · rw [if_pos hlast, removes_step (replaces_last hi hlast) hnonneg
        (onlyAt_of_sliceOrNil hi hlast) rfl, removes_returns]
      exact ⟨fun _ => by omega, fun _ => ⟨hdone, fun _ => removed_nil _⟩⟩
    · rw [if_neg hlast]
      by_cases hlen : i.toNat < items.length
      · rw [if_pos hlen, removes_step (replaces_element hi hlen .null) hnonneg
          (fun h => by cases h) rfl, removes_returns]
        exact ⟨fun _ => hlen, fun _ => ⟨hdone, fun _ => removed_nil _⟩⟩
      · rw [if_neg hlen]
        exact ⟨fun h => absurd h (not_removes_panics _ _), fun h => absurd h hlen⟩
  | cons e rest =>
    have he : nonneg e = true := by
      rw [List.all_cons, Bool.and_eq_true] at hrest
      exact hrest.1
    rw [if_neg (List.cons_ne_nil e rest), removable_index]
    by_cases hlen : items.length ≤ i.toNat
    · rw [if_pos (Nat.lt_succ_of_le hlen), if_pos hlen, removes_beyond hi hlen,
        List.isEmpty_iff]
    · have hlt : i.toNat < items.length := Nat.lt_of_not_le hlen
      rw [if_neg (by omega), if_neg hlen]
      cases htype : wrongType (items.getD i.toNat .null) e with
      | false =>
        rw [removes_index hi hlt he htype, ih hrest]
        rfl
      | true =>
        obtain ⟨err, herr⟩ := serverDel_wrongType he htype rest (index + 1)
        have hmeets : meets (.arr items) (.int i :: e :: rest) = true := by
          rw [meets, child, meets, htype]
          rfl
        rw [herr, storeInSlice, if_pos rfl, decide_eq_true_eq]
        by_cases hlast : i.toNat + 1 = items.length
        · rw [if_pos ⟨rfl, rfl, hlast⟩, removes_returns, hmeets]
          exact ⟨fun h => absurd (h.1.mpr rfl) (by decide), fun h => absurd hlast h⟩
        · rw [if_neg (fun h => hlast h.2.2), removes_returns, hmeets]
          exact ⟨fun _ => hlast, fun _ => ⟨⟨fun _ => rfl, fun _ => rfl⟩, fun h => by cases h⟩⟩

/-- **A removal keeps its laws exactly where the path is removable.** -/
theorem removes_iff_removable (h : path.all nonneg = true) :
    ∀ (index : Nat) (data : Json),
      Removes data path (serverDel path index data) ↔ removable data path = true := by
  induction path with
  | nil =>
    intro index data
    have hdel : serverDel [] index data = .returns .null none := rfl
    rw [hdel, removes_returns]
    refine ⟨fun _ => by cases data <;> rfl, fun _ => ⟨?_, fun _ => removed_nil data⟩⟩
    exact Iff.rfl
  | cons e rest ih =>
    intro index data
    rw [List.all_cons, Bool.and_eq_true] at h
    obtain ⟨he, hrest⟩ := h
    by_cases htype : wrongType data e = true
    · obtain ⟨err, herr⟩ := serverDel_wrongType he htype rest index
      rw [herr, removes_returns, meets, htype]
      refine ⟨fun _ => ?_, fun _ => ⟨⟨fun _ => rfl, fun _ => rfl⟩, fun hnone => by cases hnone⟩⟩
      cases data with
      | obj fields =>
        cases e with
        | str key => cases htype
        | int i => rfl
      | arr items =>
        cases e with
        | str key => rfl
        | int i => cases htype
      | _ => cases e <;> rfl
    · rw [Bool.not_eq_true] at htype
      cases data with
      | null =>
        rw [IJsonAgreement.serverDel_null he, removes_returns, meets_null]
        refine ⟨fun _ => by cases e <;> rfl, fun _ => ⟨?_, fun _ => removed_null _⟩⟩
        exact Iff.rfl
      | bool _ | num _ | str _ => cases e <;> cases htype
      | obj fields =>
        cases e with
        | int i => cases htype
        | str key => exact removes_obj_iff hrest ih index
      | arr items =>
        cases e with
        | str key => cases htype
        | int i => exact removes_arr_iff (by simpa [nonneg] using he) hrest ih index

/-! ## Setting -/

/-- Options of a set: no removal and no combining function. -/
def SetPathOpts.Sets (opts : SetPathOpts) : Prop := opts.remove = false ∧ opts.combineFn = none

theorem checkAndModifyBudget_some {opts opts' : SetPathOpts} {cost : Int}
    (h : checkAndModifyBudget opts cost = some opts') :
    (opts.Sets → opts'.Sets) ∧ opts'.force = opts.force ∧ (opts.budget = 0 → opts'.budget = 0) := by
  rw [checkAndModifyBudget] at h
  split_ifs at h with hzero hless hend
  · cases h
    exact ⟨id, rfl, id⟩
  all_goals
    cases h
    exact ⟨id, rfl, fun h => absurd h hzero⟩

theorem checkAndModifyBudget_none {opts : SetPathOpts} {cost : Int}
    (h : checkAndModifyBudget opts cost = none) :
    opts.budget ≠ 0 := by
  intro hzero
  rw [checkAndModifyBudget, if_pos hzero] at h
  cases h

/-- What a set does at a path element: it goes on with the value there, or with nil where
it overwrites, and puts what comes back in its place. -/
structure Step (data : Json) (e : PathElem) (opts opts' : SetPathOpts) (put : Json → Json) :
    Prop where
  sets : opts'.Sets
  force : opts'.force = opts.force
  budget : opts.budget = 0 → opts'.budget = 0
  overwrites : wrongType data e = true → opts.force = true
  here : ∀ value, child (put value) e = value
  others : wrongType data e = false → ∀ value, Replaces data (put value) e value

/-- The value that a set goes on with. -/
def below (data : Json) (e : PathElem) : Json :=
  if wrongType data e then .null else child data e

/-- A set refuses at a path element, or it takes a step there. -/
def StepSpec (value : Json) (e : PathElem) (rest : List PathElem) (index : Nat) (data : Json)
    (opts : SetPathOpts) : Prop :=
  (∃ err, setPathInternal value (e :: rest) index data opts = .returns .null (some err) ∧
    (opts.force = true → opts.budget ≠ 0)) ∨
  ∃ opts' put, Step data e opts opts' put ∧
    ∀ result err, setPathInternal value rest (index + 1) (below data e) opts' =
        .returns result err →
      setPathInternal value (e :: rest) index data opts = .returns (put result) err

section Setting

variable {value : Json} {rest : List PathElem} {index : Nat} {opts : SetPathOpts}

variable {data : Json}

theorem stepSpec_fields {key : JsString} {fields : List (JsString × Json)}
    (hopts : opts.Sets) (hmap : mapAt data opts.force = some fields)
    (hoverwrites : wrongType data (.str key) = true → opts.force = true)
    (hbelow : below data (.str key) = (fields.lookup key).getD .null)
    (hothers : wrongType data (.str key) = false → ∀ value,
      Replaces data (.obj (JsMap.setEntries key value fields)) (.str key) value) :
    StepSpec value (.str key) rest index data opts := by
  have hput : ∀ value, child (.obj (JsMap.setEntries key value fields)) (.str key) = value :=
    fun value => (replaces_set key value fields).here
  cases hlookup : fields.lookup key with
  | some old =>
    refine Or.inr ⟨opts, fun value => .obj (JsMap.setEntries key value fields),
      ⟨hopts, rfl, id, hoverwrites, hput, hothers⟩, ?_⟩
    intro result err h
    rw [hbelow, hlookup, Option.getD_some] at h
    rw [setPathInternal, hopts.1, hmap]
    simp only [hlookup, h, storeInMap, Bool.false_eq_true, and_false, false_and, if_false]
  | none =>
    cases hbudget : checkAndModifyBudget opts 1 with
    | none =>
      refine Or.inl ⟨.budget index, ?_, fun _ => checkAndModifyBudget_none hbudget⟩
      rw [setPathInternal, hopts.1, hmap]
      simp only [hlookup, hbudget, Bool.false_eq_true, and_false, false_and, if_false]
    | some opts' =>
      obtain ⟨hsets, hforce, hzero⟩ := checkAndModifyBudget_some hbudget
      refine Or.inr ⟨opts', fun value => .obj (JsMap.setEntries key value fields),
        ⟨hsets hopts, hforce, hzero, hoverwrites, hput, hothers⟩, ?_⟩
      intro result err h
      rw [hbelow, hlookup, Option.getD_none] at h
      rw [setPathInternal, hopts.1, hmap]
      simp only [hlookup, hbudget, h, storeInMap, (hsets hopts).1, Bool.false_eq_true,
        and_false, false_and, if_false]

theorem stepSpec_key (hopts : opts.Sets) (key : JsString) (data : Json) :
    StepSpec value (.str key) rest index data opts := by
  have hrefuses : wrongType data (.str key) = true → opts.force = false →
      StepSpec value (.str key) rest index data opts := by
    intro htype hforce
    refine Or.inl ⟨.setType "map" index, ?_, fun h => by rw [hforce] at h; cases h⟩
    rw [setPathInternal, hopts.1, hforce]
    cases data with
    | null => cases htype
    | obj fields => cases htype
    | _ => simp [mapAt]
  have hoverwrites : wrongType data (.str key) = true → opts.force = true →
      mapAt data opts.force = some [] → StepSpec value (.str key) rest index data opts := by
    intro htype hforce hmap
    refine stepSpec_fields hopts hmap (fun _ => hforce) ?_ ?_
    · rw [below, if_pos htype]
      rfl
    · intro hno
      rw [htype] at hno
      cases hno
  cases data with
  | null =>
    refine stepSpec_fields hopts rfl (fun h => by cases h) rfl ?_
    intro _ value
    refine ⟨(replaces_set key value []).here, fun e' he' hne => ?_⟩
    rw [(replaces_set key value []).others e' he' hne, child_null]
    cases e' <;> rfl
  | obj fields =>
    exact stepSpec_fields hopts rfl (fun h => by cases h) rfl
      fun _ value => replaces_set key value fields
  | bool _ | num _ | str _ | arr _ =>
    cases hforce : opts.force with
    | false => exact hrefuses rfl hforce
    | true => exact hoverwrites rfl hforce (by rw [hforce]; rfl)

theorem stepSpec_items {i : Int} (hi : 0 ≤ i) {items : List Json} {opts₁ : SetPathOpts}
    (hopts : opts.Sets) (hopts₁ : opts₁.Sets) (hforce₁ : opts₁.force = opts.force)
    (hzero₁ : opts.budget = 0 → opts₁.budget = 0)
    (hslice : sliceAt data i.toNat index opts = .ok (some (items, opts₁)))
    (hoverwrites : wrongType data (.int i) = true → opts.force = true)
    (hbelow : below data (.int i) = items.getD i.toNat .null)
    (hothers : wrongType data (.int i) = false →
      (∀ key, child data (.str key) = .null) ∧
        ∀ j : Int, 0 ≤ j → child data (.int j) = items.getD j.toNat .null) :
    StepSpec value (.int i) rest index data opts := by
  have hlength : i.toNat <
      (items ++ List.replicate (i.toNat + 1 - items.length) Json.null).length := by
    rw [List.length_append, List.length_replicate]
    omega
  have hgetD : ∀ n, (items ++ List.replicate (i.toNat + 1 - items.length) Json.null).getD n .null =
      items.getD n .null := by
    intro n
    rcases Nat.lt_or_ge n items.length with hlt | hge
    · rw [List.getD_append _ _ _ _ hlt]
    · rw [List.getD_append_right _ _ _ _ hge, List.getD_eq_getElem?_getD,
        List.getElem?_getD_replicate_default_eq, List.getD_eq_default _ _ hge]
  have hreplaces := replaces_element hi hlength
  cases hbudget : checkAndModifyBudget opts₁ (i + 1 - items.length) with
  | none =>
    refine Or.inl ⟨.budget index, ?_, fun _ hzero =>
      checkAndModifyBudget_none hbudget (hzero₁ hzero)⟩
    rw [setPathInternal, if_neg (by omega), hopts.1, hslice]
    simp only [hbudget, hopts₁.1, Bool.false_eq_true, and_false, false_and, if_false]
  | some opts' =>
    obtain ⟨hsets, hforce, hzero⟩ := checkAndModifyBudget_some hbudget
    refine Or.inr ⟨opts', fun value => .arr
      ((items ++ List.replicate (i.toNat + 1 - items.length) Json.null).set i.toNat value),
      ⟨hsets hopts₁, hforce.trans hforce₁, fun h => hzero (hzero₁ h), hoverwrites,
        fun value => (hreplaces value).here, ?_⟩, ?_⟩
    · intro htype value
      obtain ⟨hkey, hindex⟩ := hothers htype
      refine ⟨(hreplaces value).here, fun e' he' hne => ?_⟩
      rw [(hreplaces value).others e' he' hne]
      cases e' with
      | str key => exact (hkey key).symm
      | int j =>
        rw [hindex j (by simpa [nonneg] using he'), child, hgetD]
    · intro result err h
      rw [hbelow] at h
      rw [setPathInternal, if_neg (by omega), hopts.1, hslice]
      simp only [hbudget, hgetD, h, hopts₁.1, (hsets hopts₁).1, storeInSlice,
        Bool.false_eq_true, and_false, false_and, if_false]

theorem stepSpec_newSlice (hopts : opts.Sets) {i : Int} (hi : 0 ≤ i)
    (hdata : data = .null ∨ wrongType data (.int i) = true ∧ opts.force = true)
    (hslice : sliceAt data i.toNat index opts = sliceAt .null i.toNat index opts) :
    StepSpec value (.int i) rest index data opts := by
  have hreplicate : ∀ n, (List.replicate (i.toNat + 1) Json.null).getD n .null = .null := by
    intro n
    rw [List.getD_eq_getElem?_getD, List.getElem?_getD_replicate_default_eq]
  cases hbudget : checkAndModifyBudget opts (i.toNat + 1) with
  | none =>
    rw [sliceAt.eq_2, hbudget] at hslice
    refine Or.inl ⟨.budget index, ?_, fun _ => checkAndModifyBudget_none hbudget⟩
    rw [setPathInternal, if_neg (by omega), hopts.1, hslice]
    simp only [Bool.false_eq_true, and_false, if_false]
  | some opts₁ =>
    rw [sliceAt.eq_2, hbudget] at hslice
    obtain ⟨hsets, hforce₁, hzero⟩ := checkAndModifyBudget_some hbudget
    refine stepSpec_items hi hopts (hsets hopts) hforce₁ hzero hslice ?_ ?_ ?_
    · intro htype
      rcases hdata with rfl | ⟨-, hforce⟩
      · cases htype
      · exact hforce
    · rw [hreplicate, below]
      rcases hdata with rfl | ⟨htype, -⟩
      · rfl
      · rw [if_pos htype]
    · intro htype
      rcases hdata with rfl | ⟨hyes, -⟩
      · exact ⟨fun key => rfl, fun j _ => (hreplicate _).symm⟩
      · rw [htype] at hyes
        cases hyes

theorem stepSpec_index (hopts : opts.Sets) {i : Int} (hi : 0 ≤ i) (data : Json) :
    StepSpec value (.int i) rest index data opts := by
  have hother : wrongType data (.int i) = true →
      (opts.force = false →
        sliceAt data i.toNat index opts = .error (.setType "array" index)) →
      (opts.force = true →
        sliceAt data i.toNat index opts = sliceAt .null i.toNat index opts) →
      StepSpec value (.int i) rest index data opts := by
    intro htype hrefused hnew
    cases hforce : opts.force with
    | false =>
      refine Or.inl ⟨.setType "array" index, ?_, fun h => by rw [hforce] at h; cases h⟩
      rw [setPathInternal, if_neg (by omega), hopts.1, hrefused hforce]
      simp only [Bool.false_eq_true, and_false, if_false]
    | true => exact stepSpec_newSlice hopts hi (Or.inr ⟨htype, hforce⟩) (hnew hforce)
  cases data with
  | null => exact stepSpec_newSlice hopts hi (Or.inl rfl) rfl
  | arr items =>
    refine stepSpec_items hi hopts hopts rfl id rfl (fun h => by cases h) rfl ?_
    intro _
    exact ⟨fun key => rfl, fun j _ => rfl⟩
  | bool _ | num _ | str _ | obj _ =>
    exact hother rfl (fun h => by simp [sliceAt, h]) fun h => by simp [sliceAt, h, hopts.1]

/-- **Every path element is a step or a refusal.** -/
theorem stepSpec (hopts : opts.Sets) {e : PathElem} (he : nonneg e = true) (data : Json) :
    StepSpec value e rest index data opts := by
  cases e with
  | str key => exact stepSpec_key hopts key data
  | int i => exact stepSpec_index hopts (by simpa [nonneg] using he) data

/-- The path `q` passes through a value that is overwritten. -/
def passes : Json → List PathElem → List PathElem → Bool
  | _, [], _ => false
  | data, e :: rest, [] => wrongType data e
  | data, e :: rest, e' :: q => wrongType data e || (decide (e = e') && passes (child data e) rest q)

/-- **What a set leaves.**  It returns without an error unless the budget is used up or a
value of the wrong type is not to be overwritten; then the value is at the path, and what
parts from the path is as before, unless it passes through what was overwritten. -/
theorem set_spec {path : List PathElem} (h : path.all nonneg = true) (value : Json) :
    ∀ (index : Nat) (data : Json) (opts : SetPathOpts), opts.Sets →
      ∃ result err, setPathInternal value path index data opts = .returns result err ∧
        (opts.force = true → opts.budget = 0 → err = none) ∧
        (err = none → valueAt result path = value ∧
          (opts.force = false → meets data path = false) ∧
          ∀ q, q.all nonneg = true → Apart path q → passes data path q = false →
            valueAt result q = valueAt data q) := by
  induction path with
  | nil =>
    intro index data opts hopts
    refine ⟨value, none, ?_, fun _ _ => rfl, fun _ => ⟨rfl, fun _ => rfl, ?_⟩⟩
    · rw [setPathInternal_nil, hopts.2]
    · intro q _ hapart
      exact absurd hapart (not_apart_nil q)
  | cons e rest ih =>
    intro index data opts hopts
    rw [List.all_cons, Bool.and_eq_true] at h
    obtain ⟨he, hrest⟩ := h
    rcases @stepSpec value rest index opts hopts e he data with
      ⟨err, hrefused, hbudget⟩ | ⟨opts', put, hstep, hgoes⟩
    · exact ⟨.null, some err, hrefused, fun hforce hzero => absurd hzero (hbudget hforce), nofun⟩
    · obtain ⟨result, err, hok, hsucceeds, hlaws⟩ :=
        ih hrest (index + 1) (below data e) opts' hstep.sets
      refine ⟨put result, err, hgoes result err hok, ?_, ?_⟩
      · intro hforce hzero
        exact hsucceeds (hstep.force.trans hforce) (hstep.budget hzero)
      · intro hnone
        obtain ⟨hvalue, hmeets, hframe⟩ := hlaws hnone
        refine ⟨?_, ?_, ?_⟩
        · rw [valueAt_cons, hstep.here, hvalue]
        · intro hforce
          have htype : wrongType data e = false := by
            cases htype : wrongType data e with
            | false => rfl
            | true =>
              rw [hstep.overwrites htype] at hforce
              cases hforce
          have hbelow := hmeets (hstep.force.trans hforce)
          rw [below, htype] at hbelow
          rw [meets, htype, Bool.false_or]
          exact hbelow
        · intro q hq hapart hpasses
          cases q with
          | nil => exact absurd rfl hapart.ne_nil
          | cons e' q =>
            rw [List.all_cons, Bool.and_eq_true] at hq
            rw [passes, Bool.or_eq_false_iff] at hpasses
            have hreplaces := hstep.others hpasses.1 result
            rw [below, hpasses.1] at hframe
            rw [valueAt_cons, valueAt_cons]
            by_cases heq : e' = e
            · subst heq
              rw [hreplaces.here]
              refine hframe q hq.2 (apart_cons.mp hapart rfl) ?_
              simpa using hpasses.2
            · rw [hreplaces.others e' hq.1 heq]

end Setting

/-! ## The laws of the three modes -/

theorem nonneg_front {before : List PathElem} (hfront : before ++ [e] <+: path)
    (h : path.all nonneg = true) :
    before.all nonneg = true := by
  obtain ⟨tail, rfl⟩ := hfront
  rw [List.all_append, List.all_append, Bool.and_eq_true, Bool.and_eq_true] at h
  exact h.1.1

theorem meetsWrongType_iff (h : path.all nonneg = true) (data : Json) :
    MeetsWrongType data path ↔ meets data path = true := by
  rw [meets_iff]
  constructor
  · intro hmeets
    obtain ⟨before, e, value, hfront, hget, htype⟩ := hmeets
    rw [getPath_eq (nonneg_front hfront h)] at hget
    cases hget
    exact ⟨before, e, hfront, htype⟩
  · intro hmeets
    obtain ⟨before, e, hfront, htype⟩ := hmeets
    exact ⟨before, e, _, hfront, getPath_eq (nonneg_front hfront h) data, htype⟩

theorem passes_front (h : passes data path q = true) :
    ∃ before e, before ++ [e] <+: path ∧ wrongType (valueAt data before) e = true ∧
      before <+: q := by
  induction path generalizing data q with
  | nil => cases h
  | cons e rest ih =>
    have hhere : wrongType data e = true → ∃ before e', before ++ [e'] <+: e :: rest ∧
        wrongType (valueAt data before) e' = true ∧ before <+: q :=
      fun htype => ⟨[], e, List.cons_prefix_cons.mpr ⟨rfl, List.nil_prefix⟩, htype,
        List.nil_prefix⟩
    cases q with
    | nil => exact hhere h
    | cons e' q =>
      rw [passes, Bool.or_eq_true, Bool.and_eq_true, decide_eq_true_eq] at h
      rcases h with htype | ⟨rfl, hbelow⟩
      · exact hhere htype
      · obtain ⟨before, e'', hfront, htype, hq⟩ := ih hbelow
        exact ⟨e :: before, e'', List.cons_prefix_cons.mpr ⟨rfl, hfront⟩, htype,
          List.cons_prefix_cons.mpr ⟨rfl, hq⟩⟩

theorem passesClobbered_of_passes (hpath : path.all nonneg = true)
    (h : passes data path q = true) :
    PassesClobbered data path q := by
  obtain ⟨before, e, hfront, htype, hq⟩ := passes_front h
  exact ⟨before, e, _, hfront, getPath_eq (nonneg_front hfront hpath) data, htype, hq⟩

theorem passes_of_meets (h : meets data path = false) (q : List PathElem) :
    passes data path q = false := by
  rw [← Bool.not_eq_true] at h ⊢
  intro hpasses
  obtain ⟨before, e, hfront, htype, -⟩ := passes_front hpasses
  exact h ((meets_iff data path).mpr ⟨before, e, hfront, htype⟩)

/-- **A set keeps its laws at every path.** -/
theorem setLaws (h : path.all nonneg = true) (data : Json) :
    SetLaws data path := by
  intro value budget
  obtain ⟨result, err, hok, -, hlaws⟩ := set_spec h value 0 data (setOpts budget) ⟨rfl, rfl⟩
  refine ⟨result, err, hok, fun hnone => ?_⟩
  obtain ⟨hvalue, hmeets, hframe⟩ := hlaws hnone
  refine ⟨by rw [getPath_eq h, hvalue], fun q hq hapart => ?_⟩
  rw [getPath_eq hq, getPath_eq hq, hframe q hq hapart (passes_of_meets (hmeets rfl) q)]

/-- **A set that overwrites keeps its laws at every path.** -/
theorem forceLaws (h : path.all nonneg = true) (data : Json) :
    ForceLaws data path := by
  intro value
  obtain ⟨result, err, hok, hsucceeds, hlaws⟩ := set_spec h value 0 data forceOpts ⟨rfl, rfl⟩
  have hnone := hsucceeds rfl rfl
  obtain ⟨hvalue, -, hframe⟩ := hlaws hnone
  rw [hnone] at hok
  refine ⟨result, hok, by rw [getPath_eq h, hvalue], fun q hq hapart hclobbered => ?_⟩
  rw [getPath_eq hq, getPath_eq hq, hframe q hq hapart]
  rw [← Bool.not_eq_true]
  exact fun hpasses => hclobbered (passesClobbered_of_passes h hpasses)

theorem removeLaws_iff_removes (h : path.all nonneg = true) (data : Json) :
    RemoveLaws data path ↔ Removes data path (serverDel path 0 data) := by
  have hcall : setPath data path .null (delOpts 0) = serverDel path 0 data := by
    rw [setPath, if_neg (by decide), if_neg (by simp)]
    rfl
  rw [RemoveLaws, Removes, hcall]
  refine exists_congr fun result => exists_congr fun err => and_congr_right fun _ => ?_
  rw [meetsWrongType_iff h]
  refine and_congr_right fun _ => imp_congr_right fun _ => ?_
  constructor
  · intro hlaws
    obtain ⟨hgone, hframe, hkeeps⟩ := hlaws
    refine ⟨?_, fun q hq hapart => ?_, fun q hq hcontainer hnull => ?_⟩
    · rw [getPath_eq h] at hgone
      exact Except.ok.inj hgone
    · have heq := hframe q hq hapart
      rw [getPath_eq hq, getPath_eq hq] at heq
      exact Except.ok.inj heq
    · exact hkeeps q _ hq (getPath_eq hq data) hcontainer (by rw [getPath_eq hq, hnull])
  · intro hremoved
    refine ⟨by rw [getPath_eq h, hremoved.gone], fun q hq hapart => ?_, ?_⟩
    · rw [getPath_eq hq, getPath_eq hq, hremoved.frame q hq hapart]
    · intro q container hq hget hcontainer hnull
      rw [getPath_eq hq] at hget hnull
      cases Except.ok.inj hget
      exact hremoved.keeps q hq hcontainer (Except.ok.inj hnull)

/-- **Setting and removing keep their laws exactly where the path is removable.** -/
theorem pathLaws_iff_removable
    {path : List PathElem} (h : path.all nonneg = true) (data : Json) :
    SetLaws data path ∧ ForceLaws data path ∧ RemoveLaws data path ↔
      removable data path = true := by
  rw [removeLaws_iff_removes h, removes_iff_removable h]
  exact ⟨fun hlaws => hlaws.2.2, fun hremovable => ⟨setLaws h data, forceLaws h data, hremovable⟩⟩

/-- A key of a map can be removed. -/
theorem pathLaws_key :
    SetLaws (.obj [(js "a", .bool true)]) [.str (js "a")] ∧
      ForceLaws (.obj [(js "a", .bool true)]) [.str (js "a")] ∧
      RemoveLaws (.obj [(js "a", .bool true)]) [.str (js "a")] ↔
        removable (.obj [(js "a", .bool true)]) [.str (js "a")] = true :=
  pathLaws_iff_removable (by decide) _

/-- The element behind the last one of a slice can not: the index is out of range. -/
theorem pathLaws_beyond :
    ¬ ∀ data path, path.all nonneg = true →
      SetLaws data path ∧ ForceLaws data path ∧ RemoveLaws data path := by
  intro h
  obtain ⟨-, -, result, err, hreturns, -⟩ := h (.arr [.bool true]) [.int 1] (by decide)
  have hpanics : setPath (.arr [.bool true]) [.int 1] .null (delOpts 0) = .panics := by
    decide +kernel
  rw [hpanics] at hreturns
  cases hreturns

end IJson

import Crest.JsonText

/-!
# Values up to the order of their keys

`copyJsonValue` puts the keys of every object in the order in which an object with these keys
enumerates them.  No two keys are equal in that order, so two values have the same copy exactly
if they are the same up to the order of their keys.
-/

namespace Json

open NumberText

section Keys

theorem codeUnitsLE_total (a b : JsString) :
    codeUnitsLE a b = true ∨ codeUnitsLE b a = true := by
  induction a generalizing b with
  | nil => exact Or.inl rfl
  | cons u a ih =>
    cases b with
    | nil => exact Or.inr rfl
    | cons v b =>
      simp only [codeUnitsLE, Bool.or_eq_true, Bool.and_eq_true, decide_eq_true_eq, beq_iff_eq]
      by_cases h : u = v
      · rcases ih b with hle | hle
        · exact Or.inl (Or.inr ⟨h, hle⟩)
        · exact Or.inr (Or.inr ⟨h.symm, hle⟩)
      · rcases UInt16.lt_or_lt_of_ne h with hlt | hlt
        · exact Or.inl (Or.inl hlt)
        · exact Or.inr (Or.inl hlt)

variable {a b : JsString}

theorem codeUnitsLE_trans {c : JsString} (hab : codeUnitsLE a b = true)
    (hbc : codeUnitsLE b c = true) :
    codeUnitsLE a c = true := by
  induction a generalizing b c with
  | nil => rfl
  | cons u a ih =>
    cases b with
    | nil => cases hab
    | cons v b =>
      cases c with
      | nil => cases hbc
      | cons w c =>
        simp only [codeUnitsLE, Bool.or_eq_true, Bool.and_eq_true, decide_eq_true_eq,
          beq_iff_eq] at hab hbc ⊢
        rcases hab with huv | ⟨rfl, hab⟩
        · rcases hbc with hvw | ⟨rfl, -⟩
          · exact Or.inl (UInt16.lt_trans huv hvw)
          · exact Or.inl huv
        · rcases hbc with hvw | ⟨rfl, hbc⟩
          · exact Or.inl hvw
          · exact Or.inr ⟨rfl, ih hab hbc⟩

theorem codeUnitsLE_antisymm (hab : codeUnitsLE a b = true) (hba : codeUnitsLE b a = true) :
    a = b := by
  induction a generalizing b with
  | nil =>
    cases b with
    | nil => rfl
    | cons v b => cases hba
  | cons u a ih =>
    cases b with
    | nil => cases hab
    | cons v b =>
      simp only [codeUnitsLE, Bool.or_eq_true, Bool.and_eq_true, decide_eq_true_eq,
        beq_iff_eq] at hab hba
      rcases hab with huv | ⟨rfl, hab⟩
      · rcases hba with hvu | ⟨rfl, -⟩
        · exact absurd (UInt16.lt_trans huv hvu) (UInt16.lt_irrefl u)
        · exact absurd huv (UInt16.lt_irrefl _)
      · rcases hba with hvu | ⟨-, hba⟩
        · exact absurd hvu (UInt16.lt_irrefl _)
        · rw [ih hab hba]

theorem decimal_digitsValue {key : JsString} (hdigits : ∀ u ∈ key, isDigit u = true)
    (hhead : key.head? ≠ some 0x30) :
    decimal (digitsValue key) = key := by
  have hbounds : ∀ u ∈ key, 0x30 ≤ u.toNat ∧ u.toNat ≤ 0x39 := by
    intro u hu
    have hdigit := hdigits u hu
    rw [isDigit, Bool.and_eq_true, decide_eq_true_eq, decide_eq_true_eq] at hdigit
    exact ⟨UInt16.le_iff_toNat_le.mp hdigit.1, UInt16.le_iff_toNat_le.mp hdigit.2⟩
  have hvalue : digitsValue key = Nat.ofDigits 10 (key.reverse.map fun u => u.toNat - 0x30) := by
    clear hdigits hhead hbounds
    induction key using List.reverseRecOn with
    | nil => rfl
    | append_singleton key u ih =>
      rw [digitsValue_append, ih, List.reverse_append, List.reverse_singleton,
        List.singleton_append, List.map_cons, Nat.ofDigits_cons, List.length_singleton, pow_one]
      have hone : digitsValue [u] = u.toNat - 0x30 := by
        simp [digitsValue]
      rw [hone]
      ring
  have hread : Nat.digits 10 (digitsValue key) = key.reverse.map fun u => u.toNat - 0x30 := by
    rw [hvalue]
    refine Nat.digits_ofDigits 10 (by norm_num) _ ?_ ?_
    · intro d hd
      obtain ⟨u, hu, rfl⟩ := List.mem_map.mp hd
      have := hbounds u (List.mem_reverse.mp hu)
      omega
    · intro hne
      cases key with
      | nil => simp at hne
      | cons u rest =>
        have hu := hbounds u List.mem_cons_self
        have hzero : u.toNat ≠ 0x30 := by
          intro h
          refine hhead ?_
          rw [List.head?_cons]
          exact congrArg some (UInt16.toNat_inj.mp h)
        simp only [List.reverse_cons, List.map_append, List.map_singleton,
          List.getLast_append_singleton]
        omega
  rw [decimal, hread, ← List.map_reverse, List.reverse_reverse, List.map_map]
  refine (List.map_congr_left ?_).trans (List.map_id _)
  intro u hu
  have := hbounds u hu
  rw [Function.comp_apply, digitUnit, id, ← UInt16.toNat_inj]
  rw [UInt16.toNat_ofNat', Nat.mod_eq_of_lt (by omega)]
  omega

theorem isArrayIndex_inj (ha : isArrayIndex a = true) (hb : isArrayIndex b = true)
    (h : digitsValue a = digitsValue b) :
    a = b := by
  have hcases : ∀ key : JsString, isArrayIndex key = true →
      key = (if digitsValue key = 0 then [0x30] else decimal (digitsValue key)) := by
    intro key hkey
    simp only [isArrayIndex, Bool.and_eq_true, Bool.or_eq_true, decide_eq_true_eq] at hkey
    obtain ⟨⟨⟨hne, hall⟩, hshort⟩, -⟩ := hkey
    have hdigits : ∀ u ∈ key, isDigit u = true := by
      intro u hu
      exact List.all_eq_true.mp hall u hu
    by_cases hzero : key.head? = some 0x30
    · have hone : key.length = 1 := by
        rcases hshort with hone | hhead
        · exact hone
        · exact absurd hzero hhead
      obtain ⟨u, rfl⟩ := List.length_eq_one_iff.mp hone
      obtain rfl : u = 0x30 := by simpa using hzero
      rfl
    · have hself := decimal_digitsValue hdigits hzero
      rw [if_neg]
      · exact hself.symm
      · intro hvalue
        rw [hvalue] at hself
        exact hne hself.symm
  rw [hcases a ha, hcases b hb, h]

theorem keyLE_total (a b : JsString) : keyLE a b = true ∨ keyLE b a = true := by
  unfold keyLE
  cases isArrayIndex a <;> cases isArrayIndex b <;> simp
  · exact codeUnitsLE_total a b
  · exact le_total _ _

theorem keyLE_trans {c : JsString} (hab : keyLE a b = true) (hbc : keyLE b c = true) :
    keyLE a c = true := by
  unfold keyLE at *
  cases ha : isArrayIndex a <;> cases hb : isArrayIndex b <;> cases hc : isArrayIndex c <;>
    simp only [ha, hb, hc, if_true, if_false, Bool.false_eq_true, decide_eq_true_eq] at *
  · exact codeUnitsLE_trans hab hbc
  · exact le_trans hab hbc

theorem keyLE_antisymm (hab : keyLE a b = true) (hba : keyLE b a = true) :
    a = b := by
  unfold keyLE at hab hba
  cases ha : isArrayIndex a <;> cases hb : isArrayIndex b <;>
    simp only [ha, hb, if_true, if_false, Bool.false_eq_true, decide_eq_true_eq] at hab hba
  · exact codeUnitsLE_antisymm hab hba
  · exact isArrayIndex_inj ha hb (le_antisymm hab hba)

/-- The fields of an object in canonical order. -/
def sortFields (fields : List (JsString × Json)) : List (JsString × Json) :=
  fields.insertionSort fun a b => keyLE a.1 b.1

theorem sortFields_perm (fields : List (JsString × Json)) : (sortFields fields).Perm fields :=
  List.perm_insertionSort _ _

theorem sortFields_pairwise (fields : List (JsString × Json)) :
    (sortFields fields).Pairwise fun a b => keyLE a.1 b.1 = true := by
  have : Std.Total fun a b : JsString × Json => keyLE a.1 b.1 = true :=
    ⟨fun a b => keyLE_total a.1 b.1⟩
  have : IsTrans (JsString × Json) fun a b => keyLE a.1 b.1 = true :=
    ⟨fun _ _ _ hab hbc => keyLE_trans hab hbc⟩
  exact List.pairwise_insertionSort _ _

/-- **Fields with distinct keys are sorted alike, in whatever order they come.** -/
theorem sortFields_eq {fields fields' : List (JsString × Json)}
    (hperm : fields.Perm fields') (hnodup : (fields.map Prod.fst).Nodup) :
    sortFields fields = sortFields fields' := by
  have hsorted := (sortFields_perm fields).trans (hperm.trans (sortFields_perm fields').symm)
  refine List.Perm.eq_of_pairwise ?_ (sortFields_pairwise fields) (sortFields_pairwise fields')
    hsorted
  intro a b ha hb hab hba
  have hkey := keyLE_antisymm hab hba
  have ha' := (sortFields_perm fields).mem_iff.mp ha
  have hb' := hperm.mem_iff.mpr ((sortFields_perm fields').mem_iff.mp hb)
  exact List.inj_on_of_nodup_map hnodup ha' hb' hkey

end Keys

section Copies

/-- Two values are the same up to the order of the keys of their objects. -/
inductive Same : Json → Json → Prop
  | null : Same .null .null
  | bool (b : Bool) : Same (.bool b) (.bool b)
  | num (n : ℚ) : Same (.num n) (.num n)
  | str (s : JsString) : Same (.str s) (.str s)
  | arr {items items' : List Json}
      (hlength : items.length = items'.length)
      (hitems : ∀ (i : ℕ) (v w : Json), items[i]? = some v → items'[i]? = some w → Same v w) :
      Same (.arr items) (.arr items')
  | obj {fields fields' : List (JsString × Json)}
      (hkeys : ∀ key, key ∈ fields.map Prod.fst ↔ key ∈ fields'.map Prod.fst)
      (hfields : ∀ (key : JsString) (v w : Json), (key, v) ∈ fields → (key, w) ∈ fields' →
        Same v w) :
      Same (.obj fields) (.obj fields')

mutual

/-- Every object of a value has each of its keys once. -/
def Distinct : Json → Prop
  | .arr items => DistinctItems items
  | .obj fields => (fields.map Prod.fst).Nodup ∧ DistinctFields fields
  | _ => True

/-- Every object of the items has each of its keys once. -/
def DistinctItems : List Json → Prop
  | [] => True
  | v :: rest => Distinct v ∧ DistinctItems rest

/-- Every object of the fields has each of its keys once. -/
def DistinctFields : List (JsString × Json) → Prop
  | [] => True
  | (_, v) :: rest => Distinct v ∧ DistinctFields rest

end

theorem copyItems_eq_map (items : List Json) : copyItems items = items.map copyJsonValue := by
  induction items with
  | nil => rfl
  | cons v items ih => rw [copyItems, ih, List.map_cons]

theorem copyFields_eq_map (fields : List (JsString × Json)) :
    copyFields fields = fields.map fun field => (field.1, copyJsonValue field.2) := by
  induction fields with
  | nil => rfl
  | cons field fields ih =>
    obtain ⟨key, v⟩ := field
    rw [copyFields, ih, List.map_cons]

theorem copyFields_keys (fields : List (JsString × Json)) :
    (copyFields fields).map Prod.fst = fields.map Prod.fst := by
  rw [copyFields_eq_map, List.map_map]
  rfl

variable {v : Json}

theorem DistinctItems.mem {items : List Json} (h : DistinctItems items) (hv : v ∈ items) :
    Distinct v := by
  induction items with
  | nil => cases hv
  | cons w items ih =>
    rcases List.mem_cons.mp hv with rfl | hv
    · exact h.1
    · exact ih h.2 hv

theorem DistinctFields.mem {fields : List (JsString × Json)} {key : JsString}
    (h : DistinctFields fields) (hv : (key, v) ∈ fields) :
    Distinct v := by
  induction fields with
  | nil => cases hv
  | cons field fields ih =>
    rcases List.mem_cons.mp hv with rfl | hv
    · exact h.1
    · exact ih h.2 hv

theorem Same.copy_eq {w : Json} (h : Same v w) (hv : Distinct v) (hw : Distinct w) :
    copyJsonValue v = copyJsonValue w := by
  induction h with
  | null | bool _ | num _ | str _ => rfl
  | @arr items items' hlength hitems ih =>
    simp only [copyJsonValue, copyItems_eq_map]
    congr 1
    refine List.ext_getElem (by simpa using hlength) ?_
    intro i hi hi'
    rw [List.getElem_map, List.getElem_map]
    rw [List.length_map] at hi hi'
    exact ih i _ _ (List.getElem?_eq_getElem hi) (List.getElem?_eq_getElem hi')
      (hv.mem (List.getElem_mem hi)) (hw.mem (List.getElem_mem hi'))
  | @obj fields fields' hkeys hfields ih =>
    simp only [copyJsonValue]
    congr 1
    refine sortFields_eq ?_ (by rw [copyFields_keys]; exact hv.1)
    have hnodup : ∀ l : List (JsString × Json), (l.map Prod.fst).Nodup → (copyFields l).Nodup := by
      intro l hl
      refine List.Nodup.of_map Prod.fst ?_
      rw [copyFields_keys]
      exact hl
    refine (List.perm_ext_iff_of_nodup (hnodup _ hv.1) (hnodup _ hw.1)).mpr ?_
    intro field
    rw [copyFields_eq_map, copyFields_eq_map, List.mem_map, List.mem_map]
    constructor
    · intro hmem
      obtain ⟨⟨key, v⟩, hv', rfl⟩ := hmem
      obtain ⟨⟨key', w⟩, hw', hkey⟩ :=
        List.mem_map.mp ((hkeys key).mp (List.mem_map_of_mem hv'))
      obtain rfl : key' = key := hkey
      refine ⟨(key', w), hw', ?_⟩
      rw [ih key' v w hv' hw' (hv.2.mem hv') (hw.2.mem hw')]
    · intro hmem
      obtain ⟨⟨key, w⟩, hw', rfl⟩ := hmem
      obtain ⟨⟨key', v⟩, hv', hkey⟩ :=
        List.mem_map.mp ((hkeys key).mpr (List.mem_map_of_mem hw'))
      obtain rfl : key' = key := hkey
      refine ⟨(key', v), hv', ?_⟩
      rw [ih key' v w hv' hw' (hv.2.mem hv') (hw.2.mem hw')]

theorem same_of_copy_eq (v w : Json) (hw : Distinct w)
    (h : copyJsonValue v = copyJsonValue w) : Same v w := by
  match v, w with
  | .null, .null => exact .null
  | .bool b, .bool b' =>
    obtain rfl : b = b' := by simpa [copyJsonValue] using h
    exact .bool b
  | .num n, .num n' =>
    obtain rfl : n = n' := by simpa [copyJsonValue] using h
    exact .num n
  | .str s, .str s' =>
    obtain rfl : s = s' := by simpa [copyJsonValue] using h
    exact .str s
  | .arr items, .arr items' =>
    simp only [copyJsonValue, copyItems_eq_map, Json.arr.injEq] at h
    have hlength : items.length = items'.length := by
      simpa using congrArg List.length h
    refine .arr hlength ?_
    intro i a b ha hb
    have hmem := List.mem_of_getElem? ha
    have hcopy := congrArg (fun l => l[i]?) h
    simp only [List.getElem?_map, ha, hb, Option.map_some, Option.some.injEq] at hcopy
    have := List.sizeOf_lt_of_mem hmem
    exact same_of_copy_eq a b (hw.mem (List.mem_of_getElem? hb)) hcopy
  | .obj fields, .obj fields' =>
    simp only [copyJsonValue, Json.obj.injEq] at h
    have hperm : (copyFields fields).Perm (copyFields fields') :=
      (sortFields_perm _).symm.trans ((List.Perm.of_eq h).trans (sortFields_perm _))
    refine .obj ?_ ?_
    · intro key
      have hkeys := (hperm.map Prod.fst).mem_iff (a := key)
      rwa [copyFields_keys, copyFields_keys] at hkeys
    · intro key a b ha hb
      have hmem : (key, copyJsonValue a) ∈ copyFields fields' := by
        refine hperm.mem_iff.mp ?_
        rw [copyFields_eq_map]
        exact List.mem_map.mpr ⟨(key, a), ha, rfl⟩
      rw [copyFields_eq_map] at hmem
      obtain ⟨⟨key', c⟩, hc, heq⟩ := List.mem_map.mp hmem
      simp only [Prod.mk.injEq] at heq
      obtain ⟨rfl, hcopy⟩ := heq
      have hsame := List.inj_on_of_nodup_map hw.1 hc hb rfl
      obtain rfl : c = b := congrArg Prod.snd hsame
      have hfield := List.sizeOf_lt_of_mem ha
      have hvalue : sizeOf a < sizeOf (key', a) := by
        rw [Prod.mk.sizeOf_spec]
        omega
      have hsize : sizeOf a < 1 + sizeOf fields := by omega
      exact same_of_copy_eq a c (hw.2.mem hc) hcopy.symm
  | .null, .bool _ | .null, .num _ | .null, .str _ | .null, .arr _ | .null, .obj _
  | .bool _, .null | .bool _, .num _ | .bool _, .str _ | .bool _, .arr _ | .bool _, .obj _
  | .num _, .null | .num _, .bool _ | .num _, .str _ | .num _, .arr _ | .num _, .obj _
  | .str _, .null | .str _, .bool _ | .str _, .num _ | .str _, .arr _ | .str _, .obj _
  | .arr _, .null | .arr _, .bool _ | .arr _, .num _ | .arr _, .str _ | .arr _, .obj _
  | .obj _, .null | .obj _, .bool _ | .obj _, .num _ | .obj _, .str _ | .obj _, .arr _ =>
    simp [copyJsonValue] at h
termination_by sizeOf v

/-- **Two values have the same copy exactly if they are the same up to the order of keys.** -/
theorem copyJsonValue_eq_iff {w : Json} (hv : Distinct v) (hw : Distinct w) :
    copyJsonValue v = copyJsonValue w ↔ Same v w :=
  ⟨same_of_copy_eq v w hw, fun h => h.copy_eq hv hw⟩

end Copies

end Json

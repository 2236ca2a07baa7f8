import Mathlib.Data.List.Nodup

/-!
# JavaScript maps

A `Map` keeps its entries in the order in which their keys were first inserted.
The structure carries the fact that no key occurs twice, so `get` after `set`
and `get` after `delete` are determined by the key alone, and iteration order
is the order of the entry list.
-/

/-- An insertion-ordered map with distinct keys. -/
structure JsMap (κ : Type*) (ν : Type*) where
  entries : List (κ × ν)
  nodup : (entries.map Prod.fst).Nodup
deriving Repr

namespace JsMap

variable {κ : Type*} {ν : Type*} [DecidableEq κ]

instance [DecidableEq ν] : DecidableEq (JsMap κ ν) := fun a b =>
  decidable_of_iff (a.entries = b.entries) <| by cases a; cases b; simp

/-- The map without entries. -/
def empty : JsMap κ ν where
  entries := []
  nodup := by simp

instance : Inhabited (JsMap κ ν) := ⟨empty⟩

/-- The value stored under a key. -/
def get (m : JsMap κ ν) (k : κ) : Option ν := m.entries.lookup k

/-- Whether the key has an entry. -/
def has (m : JsMap κ ν) (k : κ) : Bool := (m.get k).isSome

/-- The number of entries. -/
def size (m : JsMap κ ν) : Nat := m.entries.length

/-- The keys in insertion order. -/
def keys (m : JsMap κ ν) : List κ := m.entries.map Prod.fst

/-- The values in insertion order. -/
def values (m : JsMap κ ν) : List ν := m.entries.map Prod.snd

/-- The entry list after `set`: an existing key keeps its place, a new one is
appended. -/
def setEntries (k : κ) (v : ν) : List (κ × ν) → List (κ × ν)
  | [] => [(k, v)]
  | (k', v') :: rest =>
    if k' = k then (k, v) :: rest else (k', v') :: setEntries k v rest

theorem mem_keys_setEntries (k : κ) (v : ν) (l : List (κ × ν)) (x : κ) :
    x ∈ (setEntries k v l).map Prod.fst ↔ x = k ∨ x ∈ l.map Prod.fst := by
  induction l with
  | nil => simp [setEntries]
  | cons e l ih =>
    obtain ⟨k', v'⟩ := e
    by_cases h : k' = k
    · subst h
      simp [setEntries]
    · simp only [setEntries, h, if_false, List.map_cons, List.mem_cons, ih]
      tauto

theorem nodup_setEntries (k : κ) (v : ν) (l : List (κ × ν))
    (h : (l.map Prod.fst).Nodup) :
    ((setEntries k v l).map Prod.fst).Nodup := by
  induction l with
  | nil => simp [setEntries]
  | cons e l ih =>
    obtain ⟨k', v'⟩ := e
    rw [List.map_cons, List.nodup_cons] at h
    by_cases hk : k' = k
    · subst hk
      simpa [setEntries] using h
    · simp only [setEntries, hk, if_false, List.map_cons, List.nodup_cons]
      refine ⟨?_, ih h.2⟩
      rw [mem_keys_setEntries]
      exact fun hmem => hmem.elim hk h.1

/-- `map.set(k, v)`. -/
def set (m : JsMap κ ν) (k : κ) (v : ν) : JsMap κ ν where
  entries := setEntries k v m.entries
  nodup := nodup_setEntries k v m.entries m.nodup

/-- `if (value != null) map.set(k, value)`. -/
def setSome (m : JsMap κ ν) (k : κ) : Option ν → JsMap κ ν
  | some v => m.set k v
  | none => m

/-- `map.delete(k)`. -/
def delete (m : JsMap κ ν) (k : κ) : JsMap κ ν where
  entries := m.entries.filter fun e => e.1 ≠ k
  nodup := m.nodup.sublist (List.filter_sublist.map _)

/-- The entries for which `f` has a value, with that value. -/
def filterMap {μ : Type*} (m : JsMap κ ν) (f : κ → ν → Option μ) : JsMap κ μ where
  entries := m.entries.filterMap fun e => (f e.1 e.2).map fun v => (e.1, v)
  nodup := by
    have h : ((m.entries.filterMap fun e => (f e.1 e.2).map fun v => (e.1, v)).map
        Prod.fst).Sublist (m.entries.map Prod.fst) := by
      induction m.entries with
      | nil => simp
      | cons e l ih =>
        cases hf : f e.1 e.2 with
        | none => simpa [hf] using ih.cons e.1
        | some v => simpa [hf] using ih.cons_cons e.1
    exact m.nodup.sublist h

@[simp] theorem get_empty (k : κ) : (empty : JsMap κ ν).get k = none := rfl

theorem lookup_setEntries (k : κ) (v : ν) (l : List (κ × ν)) (x : κ) :
    (setEntries k v l).lookup x = if x = k then some v else l.lookup x := by
  induction l with
  | nil =>
    by_cases h : x = k
    · simp [setEntries, h]
    · simp [setEntries, List.lookup_cons, beq_false_of_ne h, h]
  | cons e l ih =>
    obtain ⟨k', v'⟩ := e
    by_cases hk : k' = k
    · subst hk
      by_cases hx : x = k'
      · simp [setEntries, hx]
      · simp [setEntries, List.lookup_cons, beq_false_of_ne hx, hx]
    · simp only [setEntries, hk, if_false, List.lookup_cons]
      by_cases hx : x = k'
      · subst hx
        simp [hk]
      · simp only [beq_false_of_ne hx, ih]

@[simp] theorem get_set (m : JsMap κ ν) (k : κ) (v : ν) (x : κ) :
    (m.set k v).get x = if x = k then some v else m.get x :=
  lookup_setEntries k v m.entries x

@[simp] theorem get_setSome (m : JsMap κ ν) (k : κ) (v : Option ν) (x : κ) :
    (m.setSome k v).get x = if x = k then v.or (m.get x) else m.get x := by
  cases v <;> simp [setSome]

section SetEach

variable {α : Type*} (key : α → κ) (value : α → Option ν)

theorem get_foldl_setSome_of_none (items : List α) (m : JsMap κ ν) (k : κ)
    (h : ∀ a ∈ items, key a = k → value a = none) :
    (items.foldl (fun m a => m.setSome (key a) (value a)) m).get k = m.get k := by
  induction items generalizing m with
  | nil => rfl
  | cons a items ih =>
    rw [List.foldl_cons, ih _ fun b hb => h b (List.mem_cons_of_mem a hb), get_setSome]
    by_cases hk : k = key a
    · have hnone := h a List.mem_cons_self hk.symm
      simp [hnone]
    · rw [if_neg hk]

theorem get_foldl_setSome (items : List α) (hnodup : (items.map key).Nodup) (m : JsMap κ ν)
    {a : α} (ha : a ∈ items) {v : ν} (hv : value a = some v) :
    (items.foldl (fun m a => m.setSome (key a) (value a)) m).get (key a) = some v := by
  induction items generalizing m with
  | nil => cases ha
  | cons b items ih =>
    rw [List.map_cons, List.nodup_cons] at hnodup
    rw [List.foldl_cons]
    rcases List.mem_cons.mp ha with rfl | ha
    · have hother : ∀ c ∈ items, key c = key a → value c = none := by
        intro c hc heq
        exact absurd (heq ▸ List.mem_map_of_mem hc) hnodup.1
      rw [get_foldl_setSome_of_none key value items _ _ hother, get_setSome]
      simp [hv]
    · exact ih hnodup.2 _ ha

/-- **Setting distinct keys one after the other makes a map with just those
values.** -/
theorem get_foldl_setSome_iff (items : List α) (hnodup : (items.map key).Nodup) (k : κ)
    (v : ν) :
    (items.foldl (fun m a => m.setSome (key a) (value a)) empty).get k = some v ↔
      ∃ a ∈ items, key a = k ∧ value a = some v := by
  constructor
  · intro h
    by_contra hnone
    have hkey : ∃ a ∈ items, key a = k ∧ (value a).isSome = true := by
      by_contra hno
      rw [get_foldl_setSome_of_none key value items empty k, get_empty] at h
      · cases h
      · intro a ha hk
        by_contra hv
        exact hno ⟨a, ha, hk, Option.isSome_iff_ne_none.mpr hv⟩
    obtain ⟨a, ha, rfl, hsome⟩ := hkey
    obtain ⟨w, hw⟩ := Option.isSome_iff_exists.mp hsome
    rw [get_foldl_setSome key value items hnodup empty ha hw] at h
    exact hnone ⟨a, ha, rfl, hw.trans h⟩
  · rintro ⟨a, ha, rfl, hv⟩
    exact get_foldl_setSome key value items hnodup empty ha hv

omit key value in
theorem get_foldl_set_of_mem (keys : List κ) (v : ν) (m : JsMap κ ν) {k : κ}
    (h : k ∈ keys ∨ m.get k = some v) :
    (keys.foldl (fun m k => m.set k v) m).get k = some v := by
  induction keys generalizing m with
  | nil => simpa using h
  | cons first keys ih =>
    refine ih _ ?_
    rw [get_set]
    by_cases hfirst : k = first
    · exact Or.inr (if_pos hfirst)
    · rw [if_neg hfirst]
      rcases h with h | h
      · exact Or.inl ((List.mem_cons.mp h).resolve_left hfirst)
      · exact Or.inr h

end SetEach

theorem lookup_filter_ne (k : κ) (l : List (κ × ν)) (x : κ) :
    (l.filter fun e => e.1 ≠ k).lookup x = if x = k then none else l.lookup x := by
  induction l with
  | nil => simp
  | cons e l ih =>
    obtain ⟨k', v'⟩ := e
    by_cases hk : k' = k
    · subst hk
      by_cases hx : x = k'
      · subst hx
        simpa using ih
      · simpa [List.lookup_cons, beq_false_of_ne hx, hx] using ih
    · rw [List.filter_cons_of_pos (by simpa using hk)]
      simp only [List.lookup_cons]
      by_cases hx : x = k'
      · subst hx
        simp [hk]
      · simp only [beq_false_of_ne hx, ih]

@[simp] theorem get_delete (m : JsMap κ ν) (k x : κ) :
    (m.delete k).get x = if x = k then none else m.get x :=
  lookup_filter_ne k m.entries x

theorem size_eq_zero_iff (m : JsMap κ ν) : m.size = 0 ↔ ∀ k, m.get k = none := by
  constructor
  · intro h k
    rw [size, List.length_eq_zero_iff] at h
    simp [get, h]
  · intro h
    rcases hm : m.entries with _ | ⟨⟨k, v⟩, rest⟩
    · simp [size, hm]
    · have hk := h k
      simp [get, hm] at hk

@[simp] theorem get_filterMap {μ : Type*} (m : JsMap κ ν) (f : κ → ν → Option μ) (k : κ) :
    (m.filterMap f).get k = (m.get k).bind (f k) := by
  obtain ⟨l, hl⟩ := m
  simp only [get, filterMap]
  induction l with
  | nil => simp
  | cons e l ih =>
    obtain ⟨k', v'⟩ := e
    rw [List.map_cons, List.nodup_cons] at hl
    by_cases hk : k = k'
    · subst hk
      cases hf : f k v' with
      | some v => simp [hf]
      | none =>
        -- no later entry has this key
        have hnone : l.lookup k = none := by
          rw [List.lookup_eq_none_iff]
          intro e he
          have hne : e.1 ≠ k := by
            intro h
            have hmem : e.1 ∈ l.map Prod.fst := List.mem_map_of_mem he
            rw [h] at hmem
            exact hl.1 hmem
          simpa using Ne.symm hne
        simp [hf, ih hl.2, hnone]
    · cases hf : f k' v' with
      | some _ | none => simp [hf, List.lookup_cons, beq_false_of_ne hk, ih hl.2]

theorem exists_get_of_mem_keys {m : JsMap κ ν} {k : κ} (h : k ∈ m.keys) :
    ∃ v, m.get k = some v := by
  cases hvalue : m.get k with
  | some v => exact ⟨v, rfl⟩
  | none =>
    rw [get, List.lookup_eq_none_iff] at hvalue
    obtain ⟨entry, hmem, rfl⟩ := List.mem_map.mp h
    simpa using hvalue entry hmem

theorem mem_entries_of_get {m : JsMap κ ν} {k : κ} {v : ν} (h : m.get k = some v) :
    (k, v) ∈ m.entries := by
  obtain ⟨l, hl⟩ := m
  simp only [get] at h ⊢
  clear hl
  induction l with
  | nil => cases h
  | cons e l ih =>
    obtain ⟨k', v'⟩ := e
    by_cases hk : k = k'
    · subst hk
      simp only [List.lookup_cons, beq_self_eq_true, Option.some.injEq] at h
      simp [h]
    · simp only [List.lookup_cons, beq_false_of_ne hk] at h
      exact List.mem_cons_of_mem _ (ih h)

theorem get_of_mem_entries {m : JsMap κ ν} {k : κ} {v : ν} (h : (k, v) ∈ m.entries) :
    m.get k = some v := by
  cases hvalue : m.get k with
  | none =>
    rw [get, List.lookup_eq_none_iff] at hvalue
    simpa using hvalue (k, v) h
  | some w =>
    have hpair := List.inj_on_of_nodup_map m.nodup (mem_entries_of_get hvalue) h rfl
    rw [(Prod.mk.injEq _ _ _ _).mp hpair |>.2]

end JsMap

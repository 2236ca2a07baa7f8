import Crest.EditDiff

/-!
# The fuzzy form of a text

The fuzzy form of a fuzzy form is that form: NFKC is stable, parts of a normal text are normal, and
the characters that the fuzzy form puts in compose with nothing.
-/

namespace EditDiff

/-- What the engine relies on of `String.prototype.normalize("NFKC")`. -/
structure Nfkc (nfkc : JsString → JsString) : Prop where
  /-- Normalization is stable. -/
  idempotent : ∀ s, nfkc (nfkc s) = nfkc s
  /-- Normal texts are closed under taking parts. -/
  parts : ∀ s t, nfkc (s ++ t) = s ++ t → nfkc s = s ∧ nfkc t = t
  /-- A line break, a space, a plain quote and a hyphen compose with nothing. -/
  inert : ∀ s t u, u ∈ [0x0A, 0x20, 0x22, 0x27, 0x2D] → nfkc s = s → nfkc t = t →
    nfkc (s ++ u :: t) = s ++ u :: t

/-- What a code unit is made plain to. -/
def plainUnit (u : UInt16) : UInt16 :=
  if singleQuotes.contains u then 0x27
  else if doubleQuotes.contains u then 0x22
  else if dashes.contains u then 0x2D
  else if spaces.contains u then 0x20
  else u

/-- What is made plain is one of four code units, white space where it was, and no line break. -/
structure MadePlain (u : UInt16) : Prop where
  inert : plainUnit u ∈ [0x20, 0x22, 0x27, 0x2D]
  trims : JsString.isTrimUnit (plainUnit u) = JsString.isTrimUnit u
  stays : plainUnit (plainUnit u) = plainUnit u
  line : plainUnit u ≠ 0x0A

theorem madePlain_or_stays (u : UInt16) : MadePlain u ∨ plainUnit u = u := by
  by_cases hsingle : singleQuotes.contains u
  · simp only [singleQuotes, List.contains_eq_mem, List.mem_cons, List.not_mem_nil, or_false,
      decide_eq_true_eq] at hsingle
    rcases hsingle with rfl | rfl | rfl | rfl <;>
      exact .inl ⟨by decide, by decide, by decide, by decide⟩
  by_cases hdouble : doubleQuotes.contains u
  · simp only [doubleQuotes, List.contains_eq_mem, List.mem_cons, List.not_mem_nil, or_false,
      decide_eq_true_eq] at hdouble
    rcases hdouble with rfl | rfl | rfl | rfl <;>
      exact .inl ⟨by decide, by decide, by decide, by decide⟩
  by_cases hdash : dashes.contains u
  · simp only [dashes, List.contains_eq_mem, List.mem_cons, List.not_mem_nil, or_false,
      decide_eq_true_eq] at hdash
    rcases hdash with rfl | rfl | rfl | rfl | rfl | rfl | rfl <;>
      exact .inl ⟨by decide, by decide, by decide, by decide⟩
  by_cases hspace : spaces.contains u
  · simp only [spaces, List.contains_eq_mem, List.mem_cons, List.not_mem_nil, or_false,
      decide_eq_true_eq] at hspace
    rcases hspace with rfl | rfl <;>
      exact .inl ⟨by decide, by decide, by decide, by decide⟩
  · refine .inr ?_
    rw [plainUnit, if_neg hsingle, if_neg hdouble, if_neg hdash, if_neg hspace]

theorem plainUnit_plainUnit (u : UInt16) : plainUnit (plainUnit u) = plainUnit u := by
  rcases madePlain_or_stays u with h | h
  · exact h.stays
  · rw [h, h]

theorem isTrimUnit_plainUnit (u : UInt16) :
    JsString.isTrimUnit (plainUnit u) = JsString.isTrimUnit u := by
  rcases madePlain_or_stays u with h | h
  · exact h.trims
  · rw [h]

theorem plainUnit_eq_line {u : UInt16} (h : plainUnit u = 0x0A) : u = 0x0A := by
  rcases madePlain_or_stays u with hmade | hstays
  · exact absurd h hmade.line
  · rw [← hstays, h]

theorem plain_singleton (u : UInt16) : plain [u] = [plainUnit u] := by
  simp only [plain, replaceUnits, List.map_cons, List.map_nil, plainUnit]
  by_cases hsingle : singleQuotes.contains u
  · rw [if_pos hsingle, if_pos hsingle]
    decide
  by_cases hdouble : doubleQuotes.contains u
  · rw [if_neg hsingle, if_pos hdouble, if_neg hsingle, if_pos hdouble]
    decide
  by_cases hdash : dashes.contains u
  · rw [if_neg hsingle, if_neg hdouble, if_pos hdash, if_neg hsingle, if_neg hdouble, if_pos hdash]
    decide
  · rw [if_neg hsingle, if_neg hdouble, if_neg hdash, if_neg hsingle, if_neg hdouble,
      if_neg hdash]

theorem plain_eq_map (s : JsString) : plain s = s.map plainUnit := by
  induction s with
  | nil => rfl
  | cons u s ih =>
    rw [List.map_cons, ← ih]
    have hunit := plain_singleton u
    simp only [plain, replaceUnits, List.map_cons, List.map_nil, List.cons.injEq, and_true]
      at hunit ⊢
    exact hunit

theorem not_mem_of_mem_splitOn {s line : JsString} (h : line ∈ s.splitOn 0x0A) :
    (0x0A : UInt16) ∉ line := by
  induction s generalizing line with
  | nil =>
    rw [List.splitOn_nil, List.mem_singleton] at h
    rw [h]
    exact List.not_mem_nil
  | cons u s ih =>
    rw [List.splitOn_cons_eq_if_modifyHead] at h
    split at h
    · rcases List.mem_cons.mp h with rfl | h
      · exact List.not_mem_nil
      · exact ih h
    · rename_i hne
      cases hlines : s.splitOn 0x0A with
      | nil => exact absurd hlines (List.splitOn_ne_nil _ _)
      | cons first lines =>
        rw [hlines] at h ih
        rcases List.mem_cons.mp h with rfl | h
        · intro hmem
          rcases List.mem_cons.mp hmem with rfl | hmem
          · exact hne (beq_self_eq_true _)
          · exact ih List.mem_cons_self hmem
        · exact ih (List.mem_cons_of_mem _ h)

theorem trimEnd_append (line : JsString) :
    ∃ blank, line = trimEnd line ++ blank :=
  ⟨_, List.rdropWhile_append_rtakeWhile.symm⟩

theorem trimEnd_map_plainUnit (line : JsString) :
    trimEnd ((trimEnd line).map plainUnit) = (trimEnd line).map plainUnit := by
  rw [trimEnd, List.rdropWhile_eq_self_iff]
  intro hne hlast
  rw [List.getLast_map, isTrimUnit_plainUnit] at hlast
  exact List.rdropWhile_last_not _ _ _ hlast

theorem map_plainUnit_intercalate (lines : List JsString) :
    ([0x0A].intercalate lines).map plainUnit =
      [0x0A].intercalate (lines.map fun line => line.map plainUnit) := by
  induction lines with
  | nil => rfl
  | cons line lines ih =>
    cases lines with
    | nil => simp
    | cons next lines =>
      have hline : plainUnit 0x0A = 0x0A := by decide
      simp only [List.map_cons] at ih ⊢
      rw [List.intercalate_cons_cons, List.intercalate_cons_cons, List.map_append,
        List.map_append, ih, List.map_singleton, hline]

section Stable

variable {nfkc : JsString → JsString}

theorem Nfkc.nil (h : Nfkc nfkc) : nfkc [] = [] := by
  have hstable := h.idempotent []
  exact (h.parts (nfkc []) [] (by rw [List.append_nil, hstable])).2

theorem Nfkc.map_plainUnit (h : Nfkc nfkc) {s : JsString} (hs : nfkc s = s) :
    nfkc (s.map plainUnit) = s.map plainUnit := by
  suffices hfront : ∀ q p : JsString, nfkc (p ++ q) = p ++ q →
      nfkc (p ++ q.map plainUnit) = p ++ q.map plainUnit from hfront s [] hs
  intro q
  induction q with
  | nil => exact fun p hp => hp
  | cons u q ih =>
    intro p hp
    rw [List.map_cons]
    obtain ⟨hfront, hrest⟩ := h.parts p (u :: q) hp
    rcases madePlain_or_stays u with hmade | hstays
    · exact h.inert p _ _ (List.mem_cons_of_mem _ hmade.inert) hfront
        (ih [] (h.parts [u] q hrest).2)
    · rw [hstays, List.append_cons]
      rw [List.append_cons] at hp
      exact ih (p ++ [u]) hp

theorem Nfkc.intercalate (h : Nfkc nfkc) {lines : List JsString}
    (hlines : ∀ line ∈ lines, nfkc line = line) :
    nfkc ([0x0A].intercalate lines) = [0x0A].intercalate lines := by
  induction lines with
  | nil => exact h.nil
  | cons line lines ih =>
    have hline := hlines line List.mem_cons_self
    have hrest := ih fun line' hline' => hlines line' (List.mem_cons_of_mem _ hline')
    cases lines with
    | nil => rwa [List.intercalate_singleton]
    | cons next lines =>
      rw [List.intercalate_cons_cons, List.append_assoc, List.singleton_append]
      exact h.inert _ _ _ List.mem_cons_self hline hrest

theorem Nfkc.lines (h : Nfkc nfkc) {lines : List JsString}
    (hs : nfkc ([0x0A].intercalate lines) = [0x0A].intercalate lines) :
    ∀ line ∈ lines, nfkc line = line := by
  induction lines with
  | nil => exact fun _ hline => absurd hline List.not_mem_nil
  | cons line lines ih =>
    cases lines with
    | nil =>
      rw [List.intercalate_singleton] at hs
      intro line' hline'
      rw [List.mem_singleton.mp hline', hs]
    | cons next lines =>
      rw [List.intercalate_cons_cons, List.append_assoc] at hs
      obtain ⟨hline, hrest⟩ := h.parts _ _ hs
      intro line' hline'
      rcases List.mem_cons.mp hline' with rfl | hline'
      · exact hline
      · exact ih (h.parts _ _ hrest).2 line' hline'

/-- The lines of a text in fuzzy form. -/
def fuzzyLines (nfkc : JsString → JsString) (s : JsString) : List JsString :=
  ((nfkc s).splitOn 0x0A).map fun line => (trimEnd line).map plainUnit

theorem normalizeForFuzzyMatch_eq (nfkc : JsString → JsString) (s : JsString) :
    normalizeForFuzzyMatch nfkc s = [0x0A].intercalate (fuzzyLines nfkc s) := by
  rw [normalizeForFuzzyMatch, plain_eq_map, map_plainUnit_intercalate, List.map_map]
  rfl

theorem Nfkc.normalizeForFuzzyMatch_normal (h : Nfkc nfkc) (s : JsString) :
    nfkc (normalizeForFuzzyMatch nfkc s) = normalizeForFuzzyMatch nfkc s := by
  rw [normalizeForFuzzyMatch, plain_eq_map]
  refine h.map_plainUnit (h.intercalate ?_)
  intro line hline
  obtain ⟨whole, hwhole, rfl⟩ := List.mem_map.mp hline
  have hnormal : nfkc whole = whole := by
    refine h.lines ?_ whole hwhole
    rw [List.intercalate_splitOn, h.idempotent]
  obtain ⟨blank, hblank⟩ := trimEnd_append whole
  rw [hblank] at hnormal
  exact (h.parts _ _ hnormal).1

theorem Nfkc.normalizeForFuzzyMatch_idempotent (h : Nfkc nfkc) (s : JsString) :
    normalizeForFuzzyMatch nfkc (normalizeForFuzzyMatch nfkc s) =
      normalizeForFuzzyMatch nfkc s := by
  have hnormal := h.normalizeForFuzzyMatch_normal s
  have hlines : (normalizeForFuzzyMatch nfkc s).splitOn 0x0A = fuzzyLines nfkc s := by
    rw [normalizeForFuzzyMatch_eq]
    refine List.splitOn_intercalate _ ?_ ?_
    · intro line hline hmem
      obtain ⟨whole, hwhole, rfl⟩ := List.mem_map.mp hline
      obtain ⟨u, hu, hplain⟩ := List.mem_map.mp hmem
      obtain ⟨blank, hblank⟩ := trimEnd_append whole
      refine not_mem_of_mem_splitOn hwhole ?_
      rw [hblank, ← plainUnit_eq_line hplain]
      exact List.mem_append_left _ hu
    · rw [fuzzyLines]
      simp
  rw [normalizeForFuzzyMatch_eq nfkc (normalizeForFuzzyMatch nfkc s), fuzzyLines, hnormal, hlines,
    normalizeForFuzzyMatch_eq]
  congr 1
  rw [fuzzyLines, List.map_map]
  refine List.map_congr_left fun line _ => ?_
  rw [Function.comp_apply, trimEnd_map_plainUnit, List.map_map]
  exact List.map_congr_left fun u _ => plainUnit_plainUnit u

end Stable

end EditDiff

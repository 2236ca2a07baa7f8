import Crest.Utf8

/-!
# Cutting strings

The bytes of two strings side by side are their bytes side by side, unless the cut goes through a
surrogate pair.  A string without unpaired surrogates is never cut so before or behind a string that
has none either.
-/

namespace JsString

/-- A string that begins with no second half of a pair and ends with no first half. -/
structure Closed (s : JsString) : Prop where
  head : ∀ u ∈ s.head?, isLowSurrogate u = false
  last : ∀ u ∈ s.getLast?, isHighSurrogate u = false

theorem codePoints_append {a b : JsString}
    (h : (∀ u ∈ a.getLast?, isHighSurrogate u = false) ∨
      ∀ u ∈ b.head?, isLowSurrogate u = false) :
    codePoints (a ++ b) = codePoints a ++ codePoints b := by
  fun_induction codePoints a with
  | case1 => rfl
  | case2 u =>
    cases b with
    | nil => rfl
    | cons v rest =>
      have hpair : (isHighSurrogate u && isLowSurrogate v) = false := by
        rcases h with h | h
        · rw [h u rfl, Bool.false_and]
        · rw [h v rfl, Bool.and_false]
      rw [List.singleton_append, codePoints, hpair]
      rfl
  | case3 u v rest hpair ih =>
    rw [List.cons_append, List.cons_append, codePoints, if_pos hpair, List.cons_append, ih ?_]
    refine h.imp_left fun h w hw => h w ?_
    cases rest with
    | nil => cases hw
    | cons x rest => rwa [List.getLast?_cons_cons, List.getLast?_cons_cons]
  | case4 u v rest hpair ih =>
    rw [List.cons_append, List.cons_append, codePoints, if_neg hpair, List.cons_append,
      ← List.cons_append, ih ?_]
    refine h.imp_left fun h w hw => h w ?_
    rwa [List.getLast?_cons_cons]

theorem utf8_append {a b : JsString}
    (h : (∀ u ∈ a.getLast?, isHighSurrogate u = false) ∨
      ∀ u ∈ b.head?, isLowSurrogate u = false) :
    utf8 (a ++ b) = utf8 a ++ utf8 b := by
  rw [utf8, codePoints_append h, List.flatMap_append]
  rfl

theorem not_high_of_low {u : UInt16} (h : isLowSurrogate u = true) : isHighSurrogate u = false := by
  grind [isHighSurrogate, isLowSurrogate]

theorem closed_of_formed {s : JsString} (h : hasUnpairedSurrogate s = false) : Closed s := by
  constructor
  · intro u hu
    cases s with
    | nil => cases hu
    | cons w rest =>
      cases hu
      cases rest <;> grind [hasUnpairedSurrogate, not_high_of_low]
  · fun_induction hasUnpairedSurrogate s with
    | case1 =>
      intro u hu
      cases hu
    | case2 u =>
      intro w hw
      cases hw
      exact (Bool.or_eq_false_iff.mp h).1
    | case3 u v rest hhigh hlow ih =>
      intro w hw
      cases rest with
      | nil =>
        cases hw
        exact not_high_of_low hlow
      | cons x rest =>
        rw [List.getLast?_cons_cons, List.getLast?_cons_cons] at hw
        exact ih h w hw
    | case4 => cases h
    | case5 => cases h
    | case6 u v rest hhigh hlow ih =>
      intro w hw
      rw [List.getLast?_cons_cons] at hw
      exact ih h w hw

theorem formed_of_append {a b : JsString} (hformed : hasUnpairedSurrogate (a ++ b) = false)
    (h : (∀ u ∈ a.getLast?, isHighSurrogate u = false) ∨
      ∀ u ∈ b.head?, isLowSurrogate u = false) :
    hasUnpairedSurrogate a = false ∧ hasUnpairedSurrogate b = false := by
  fun_induction hasUnpairedSurrogate a with
  | case1 => exact ⟨rfl, hformed⟩
  | case2 u =>
    cases b with
    | nil => exact ⟨hformed, rfl⟩
    | cons v rest =>
      rw [List.singleton_append, hasUnpairedSurrogate] at hformed
      split at hformed
      · rename_i hhigh
        split at hformed
        · rename_i hlow
          rcases h with h | h
          · rw [h u rfl] at hhigh
            cases hhigh
          · rw [h v rfl] at hlow
            cases hlow
        · cases hformed
      · rename_i hhigh
        split at hformed
        · cases hformed
        · rename_i hlow
          refine ⟨?_, hformed⟩
          rw [Bool.or_eq_false_iff, ← Bool.not_eq_true, ← Bool.not_eq_true]
          exact ⟨hhigh, hlow⟩
  | case3 u v rest hhigh hlow ih =>
    rw [List.cons_append, List.cons_append, hasUnpairedSurrogate, if_pos hhigh, if_pos hlow]
      at hformed
    refine ih hformed (h.imp_left fun h w hw => h w ?_)
    cases rest with
    | nil => cases hw
    | cons x rest => rwa [List.getLast?_cons_cons, List.getLast?_cons_cons]
  | case4 u v rest hhigh hlow =>
    rw [List.cons_append, List.cons_append, hasUnpairedSurrogate, if_pos hhigh, if_neg hlow]
      at hformed
    cases hformed
  | case5 u v rest hhigh hlow =>
    rw [List.cons_append, List.cons_append, hasUnpairedSurrogate, if_neg hhigh, if_pos hlow]
      at hformed
    cases hformed
  | case6 u v rest hhigh hlow ih =>
    rw [List.cons_append, List.cons_append, hasUnpairedSurrogate, if_neg hhigh, if_neg hlow,
      ← List.cons_append] at hformed
    refine ih hformed (h.imp_left fun h w hw => h w ?_)
    rwa [List.getLast?_cons_cons]

end JsString

import Mathlib.Data.List.Basic

/-!
# Binary search

The loop that halves an interval of indices until the interval is empty.  On a list in which a
property holds of everything before an element that it holds of, the loop ends at the first
element that the property does not hold of.
-/

namespace BinarySearch

variable {α : Type*} (before : α → Bool) (xs : List α)

/-- The loop over the indices from `low` on and below `high`; every round shortens the interval, so
that its length is enough fuel. -/
def narrow : Nat → Nat → Nat → Nat
  | 0, low, _ => low
  | fuel + 1, low, high =>
    if low < high then
      let middle := (low + high) / 2
      match xs[middle]? with
      | none => low
      | some x =>
        if before x then narrow fuel (middle + 1) high else narrow fuel low middle
    else low

/-- The index at which the loop over the whole list ends. -/
def lowerBound : Nat := narrow before xs xs.length 0 xs.length

/-- What the loop keeps: the property holds of all elements below the interval and of none above
it. -/
structure Splits (low high : Nat) : Prop where
  low_le : low ≤ high
  high_le : high ≤ xs.length
  below : ∀ i x, i < low → xs[i]? = some x → before x = true
  above : ∀ i x, high ≤ i → xs[i]? = some x → before x = false

variable {before} {xs}

variable (hsorted : xs.Pairwise fun x y => before y = true → before x = true)
include hsorted

theorem narrow_splits
    {fuel low high : Nat} (h : Splits before xs low high) (hfuel : high - low ≤ fuel) :
    Splits before xs (narrow before xs fuel low high) (narrow before xs fuel low high) := by
  have hearlier : ∀ (i j : Nat) (x y : α), i ≤ j → (xs[i]? : Option α) = some x → (xs[j]? : Option α) = some y →
      before y = true → before x = true := by
    intro i j x y hij hx hy hbefore
    obtain ⟨hi, rfl⟩ := List.getElem?_eq_some_iff.mp hx
    obtain ⟨hj, rfl⟩ := List.getElem?_eq_some_iff.mp hy
    rcases Nat.lt_or_eq_of_le hij with hlt | rfl
    · exact List.pairwise_iff_getElem.mp hsorted i j hi hj hlt hbefore
    · exact hbefore
  induction fuel generalizing low high with
  | zero =>
    have heq : high = low := by
      have hle := h.low_le
      omega
    subst heq
    exact h
  | succ fuel ih =>
    rw [narrow]
    by_cases hlt : low < high
    · have hhigh := h.high_le
      have hmiddle : (low + high) / 2 < xs.length := by omega
      simp only [if_pos hlt, List.getElem?_eq_getElem hmiddle]
      have hat := List.getElem?_eq_getElem hmiddle
      cases hx : before xs[(low + high) / 2] with
      | true =>
        rw [if_pos rfl]
        refine ih ⟨by omega, hhigh, ?_, h.above⟩ (by omega)
        intro i x hi hget
        exact hearlier i ((low + high) / 2) x _ (by omega) hget hat hx
      | false =>
        rw [if_neg (by simp)]
        refine ih ⟨by omega, by omega, h.below, ?_⟩ (by omega)
        intro i x hi hget
        cases hbefore : before x with
        | false => rfl
        | true => exact absurd (hearlier _ i _ x hi hat hget hbefore) (by simp [hx])
    · rw [if_neg hlt]
      have heq : high = low := by
        have hle := h.low_le
        omega
      subst heq
      exact h

/-- **The search finds the first element that the property does not hold of.** -/
theorem getElem?_lowerBound :
    xs[lowerBound before xs]? = xs.find? fun x => !before x := by
  have hstart : Splits before xs 0 xs.length := by
    refine ⟨Nat.zero_le _, Nat.le_refl _, fun i x hi => absurd hi (Nat.not_lt_zero i), ?_⟩
    intro i x hi hget
    rw [List.getElem?_eq_none hi] at hget
    cases hget
  have hend : Splits before xs (lowerBound before xs) (lowerBound before xs) :=
    narrow_splits hsorted hstart (Nat.le_refl _)
  generalize lowerBound before xs = index at hend ⊢
  cases hget : xs[index]? with
  | none =>
    refine (List.find?_eq_none.mpr ?_).symm
    intro x hx
    obtain ⟨i, hi, rfl⟩ := List.mem_iff_getElem.mp hx
    have hlen := List.getElem?_eq_none_iff.mp hget
    simp [hend.below i _ (by omega) (List.getElem?_eq_getElem hi)]
  | some x =>
    obtain ⟨hi, rfl⟩ := List.getElem?_eq_some_iff.mp hget
    refine (List.find?_eq_some_iff_getElem.mpr ⟨?_, index, hi, rfl, ?_⟩).symm
    · simp [hend.above index _ (Nat.le_refl _) hget]
    · intro j hj
      simp [hend.below j _ hj (List.getElem?_eq_getElem (by omega))]

end BinarySearch

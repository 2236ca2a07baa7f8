import Mathlib.Data.List.Sort

/-!
# Sorting a slice in place

An unstable sort promises two things only: the result is a permutation of the
slice, and no element comes after one it is less than.  `SliceSort` is any
function that keeps both promises; elements that compare equal may come out in
any order.
-/

/-- A sort that may reorder equal elements. -/
structure SliceSort (β : Type*) where
  /-- The sorted slice. -/
  sort : (β → β → Bool) → List β → List β
  /-- Sorting permutes the slice. -/
  perm : ∀ less l, (sort less l).Perm l
  /-- For a strict weak order no element comes after a greater one. -/
  sorted : ∀ less l,
    (∀ a b, less a b = true → less b a = false) →
    (∀ a b c, less b a = false → less c b = false → less c a = false) →
    (sort less l).Pairwise fun a b => less b a = false

namespace SliceSort

variable {β : Type*} (s : SliceSort β)

theorem sorted_key {γ : Type*} [LinearOrder γ] (key : β → γ) {less : β → β → Bool}
    (hless : ∀ a b, less a b = decide (key a < key b)) (l : List β) :
    (s.sort less l).Pairwise fun a b => key a ≤ key b := by
  have h := s.sorted less l
    (by intro a b hab
        rw [hless, decide_eq_true_eq] at hab
        rw [hless, decide_eq_false_iff_not]
        exact not_lt_of_gt hab)
    (by intro a b c hba hcb
        rw [hless, decide_eq_false_iff_not, not_lt] at hba hcb ⊢
        exact le_trans hba hcb)
  refine h.imp ?_
  intro a b hab
  rwa [hless, decide_eq_false_iff_not, not_lt] at hab

/-- Insertion sort is one such sort. -/
def insertion : SliceSort β where
  sort less l := l.insertionSort fun a b => less b a = false
  perm less l := l.perm_insertionSort _
  sorted less l hasymm htrans := by
    have htotal : Std.Total fun a b => less b a = false := by
      refine ⟨fun a b => ?_⟩
      cases hba : less b a with
      | false => exact Or.inl rfl
      | true => exact Or.inr (hasymm b a hba)
    have htransitive : IsTrans β fun a b => less b a = false := ⟨htrans⟩
    exact l.pairwise_insertionSort _

end SliceSort

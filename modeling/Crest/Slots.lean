/-!
# Numbered slots

A list that only grows at its end, and changes in place, gives what it holds numbers that stay.
-/

namespace Slots

variable {α : Type} {items : List α} {a b : α} {i j : Nat}

theorem getElem?_concat_iff :
    (items ++ [a])[i]? = some b ↔ items[i]? = some b ∨ i = items.length ∧ a = b := by
  rcases Nat.lt_or_ge i items.length with hlt | hge
  · rw [List.getElem?_append_left hlt]
    exact ⟨.inl, fun h => h.resolve_right (by omega)⟩
  · rw [List.getElem?_append_right hge, List.getElem?_singleton, List.getElem?_eq_none hge]
    by_cases hi : i = items.length
    · simp [hi]
    · simp [hi, show i - items.length ≠ 0 by omega]

theorem getElem?_set_cases (h : (items.set i a)[j]? = some b) :
    j = i ∧ b = a ∨ j ≠ i ∧ items[j]? = some b := by
  rw [List.getElem?_set] at h
  split at h
  next heq =>
    split at h
    · exact .inl ⟨heq.symm, (Option.some.inj h).symm⟩
    · exact absurd h (by simp)
  next hne => exact .inr ⟨Ne.symm hne, h⟩

end Slots

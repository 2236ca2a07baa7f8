import Mathlib.Data.List.Basic
import Mathlib.Data.Nat.ModEq

/-!
# Reading a list in a circle

`ring cells pos n` is what one reads in `n` steps from position `pos` on, going back to
the start after the last cell.  Reading in two stretches is reading in one; a cell that
is not passed does not matter; and writing the cell after the last one read adds it to
what is read.
-/

namespace Ring

variable {α : Type*} [Inhabited α]

/-- The next `n` cells from `pos` on. -/
def ring (cells : List α) (pos : Nat) : Nat → List α
  | 0 => []
  | n + 1 => cells.getD pos default :: ring cells ((pos + 1) % cells.length) n

@[simp] theorem length_ring (cells : List α) (pos n : Nat) : (ring cells pos n).length = n := by
  induction n generalizing pos with
  | zero => rfl
  | succ n ih => simp [ring, ih]

theorem ring_append (cells : List α) {pos : Nat} (hpos : pos < cells.length) (m n : Nat) :
    ring cells pos (m + n) = ring cells pos m ++ ring cells ((pos + m) % cells.length) n := by
  induction m generalizing pos with
  | zero => simp [ring, Nat.mod_eq_of_lt hpos]
  | succ m ih =>
    have hnext : (pos + 1) % cells.length < cells.length := Nat.mod_lt _ (by omega)
    have hmod : ((pos + 1) % cells.length + m) % cells.length =
        (pos + (m + 1)) % cells.length := by
      rw [Nat.mod_add_mod, Nat.add_right_comm, Nat.add_assoc]
    rw [Nat.add_right_comm, ring, ring, ih hnext, hmod, List.cons_append]

theorem drop_ring (cells : List α) {pos : Nat} (hpos : pos < cells.length) {m n : Nat}
    (hle : m ≤ n) :
    (ring cells pos n).drop m = ring cells ((pos + m) % cells.length) (n - m) := by
  have hsplit : n = m + (n - m) := by omega
  conv_lhs => rw [hsplit, ring_append cells hpos]
  exact List.drop_left' (length_ring _ _ _)

theorem take_ring (cells : List α) {pos : Nat} (hpos : pos < cells.length) {m n : Nat}
    (hle : m ≤ n) :
    (ring cells pos n).take m = ring cells pos m := by
  have hsplit : n = m + (n - m) := by omega
  conv_lhs => rw [hsplit, ring_append cells hpos]
  exact List.take_left' (length_ring _ _ _)

theorem ring_set (cells : List α) {pos : Nat} (hpos : pos < cells.length) {slot n : Nat}
    (a : α) (hfree : ∀ i < n, (pos + i) % cells.length ≠ slot) :
    ring (cells.set slot a) pos n = ring cells pos n := by
  induction n generalizing pos with
  | zero => rfl
  | succ n ih =>
    have hhead : slot ≠ pos := by
      have hne := hfree 0 (by omega)
      rw [Nat.add_zero, Nat.mod_eq_of_lt hpos] at hne
      exact hne.symm
    have hnext : (pos + 1) % cells.length < cells.length := Nat.mod_lt _ (by omega)
    have hrest : ∀ i < n, ((pos + 1) % cells.length + i) % cells.length ≠ slot := by
      intro i hi
      rw [Nat.mod_add_mod, Nat.add_assoc, Nat.add_comm 1 i]
      exact hfree (i + 1) (by omega)
    rw [ring, ring, List.length_set, ih hnext hrest]
    simp [List.getD_eq_getElem?_getD, List.getElem?_set_ne hhead]

theorem pos_ne {size pos i n : Nat} (hi : i < n) (hn : n < size) :
    (pos + i) % size ≠ (pos + n) % size := by
  intro heq
  have hmod : Nat.ModEq size i n := Nat.ModEq.add_left_cancel' pos heq
  have := hmod.eq_of_lt_of_lt (by omega) hn
  omega

/-- **Writing the next cell adds it to what is read**, while there is a free one. -/
theorem ring_push (cells : List α) {pos n : Nat} (hpos : pos < cells.length)
    (hn : n < cells.length) (a : α) :
    ring (cells.set ((pos + n) % cells.length) a) pos (n + 1) = ring cells pos n ++ [a] := by
  have hset : ((pos + n) % cells.length) < cells.length := Nat.mod_lt _ (by omega)
  rw [ring_append _ (by rw [List.length_set]; exact hpos), ring_set cells hpos a
    (fun i hi => pos_ne hi hn)]
  simp [ring, List.getD_eq_getElem?_getD, List.getElem?_set_self hset]

theorem ring_overwrite (cells : List α) {pos : Nat} (hpos : pos < cells.length) (a : α) :
    ring (cells.set pos a) ((pos + 1) % cells.length) cells.length =
      (ring cells pos cells.length).drop 1 ++ [a] := by
  obtain ⟨n, hn⟩ : ∃ n, cells.length = n + 1 := ⟨cells.length - 1, by omega⟩
  have hnext : (pos + 1) % cells.length < cells.length := Nat.mod_lt _ (by omega)
  have hback : ((pos + 1) % cells.length + n) % cells.length = pos := by
    rw [Nat.mod_add_mod, Nat.add_assoc, Nat.add_comm 1 n, ← hn, Nat.add_mod_right,
      Nat.mod_eq_of_lt hpos]
  have hpush := ring_push cells hnext (n := n) (by omega) a
  rw [hback] at hpush
  rw [drop_ring cells hpos (by omega)]
  have hless : cells.length - 1 = n := by omega
  rw [hless, ← hpush, hn]

end Ring

import Mathlib.Data.List.Chain

/-!
# Replacing regions of a list

Regions of a list are replaced from the last to the first, so that the places of those before stay
what they were.  Where the regions are apart and in order, they cut the list into pieces, a gap and
a region each, and what comes out differs from the list in the regions only.
-/

namespace Splices

variable {α β : Type*}

/-- A region of a list, with a label that says what it becomes. -/
structure Splice (β : Type*) where
  start : Nat
  length : Nat
  label : β

/-- Where a region ends. -/
def Splice.stop (s : Splice β) : Nat := s.start + s.length

/-- The list with one region replaced. -/
def splice (text : β → List α) (s : Splice β) (l : List α) : List α :=
  l.take s.start ++ text s.label ++ l.drop s.stop

/-- The list with all regions replaced, the last first. -/
def spliceAll (text : β → List α) (l : List α) (splices : List (Splice β)) : List α :=
  splices.foldr (splice text) l

/-- Regions that begin behind a place, are apart, in order, and end before another place. -/
def InOrder (stop : Nat) : Nat → List (Splice β) → Prop
  | cursor, [] => cursor ≤ stop
  | cursor, s :: splices => cursor ≤ s.start ∧ InOrder stop s.stop splices

/-- A gap of a list and the region behind it. -/
structure Piece (α β : Type*) where
  gap : List α
  region : List α
  label : β

/-- The list that some pieces are cut from. -/
def before (pieces : List (Piece α β)) (tail : List α) : List α :=
  (pieces.flatMap fun piece => piece.gap ++ piece.region) ++ tail

/-- The list of the pieces with their regions replaced. -/
def after (text : β → List α) (pieces : List (Piece α β)) (tail : List α) : List α :=
  (pieces.flatMap fun piece => piece.gap ++ text piece.label) ++ tail

/-- A piece of another list. -/
def Piece.map {γ : Type*} (f : List α → List γ) (piece : Piece α β) : Piece γ β :=
  ⟨f piece.gap, f piece.region, piece.label⟩

/-- The pieces that regions cut a list into, behind a place. -/
def cut (l : List α) : Nat → List (Splice β) → List (Piece α β)
  | _, [] => []
  | cursor, s :: splices =>
    ⟨(l.drop cursor).take (s.start - cursor), (l.drop s.start).take s.length, s.label⟩ ::
      cut l s.stop splices

/-- What is left behind the last region. -/
def rest (l : List α) : Nat → List (Splice β) → List α
  | cursor, [] => l.drop cursor
  | _, s :: splices => rest l s.stop splices

@[simp] theorem before_nil (tail : List α) : before ([] : List (Piece α β)) tail = tail := rfl

theorem before_cons (piece : Piece α β) (pieces : List (Piece α β)) (tail : List α) :
    before (piece :: pieces) tail = piece.gap ++ piece.region ++ before pieces tail := by
  simp [before]

theorem after_cons (text : β → List α) (piece : Piece α β) (pieces : List (Piece α β))
    (tail : List α) :
    after text (piece :: pieces) tail = piece.gap ++ text piece.label ++ after text pieces tail := by
  simp [after]

theorem map_before {γ : Type*} {f : List α → List γ} (hf : ∀ a b, f (a ++ b) = f a ++ f b)
    (pieces : List (Piece α β)) (tail : List α) :
    f (before pieces tail) = before (pieces.map (Piece.map f)) (f tail) := by
  induction pieces with
  | nil => rfl
  | cons piece pieces ih => rw [before_cons, hf, hf, ih, List.map_cons, before_cons, Piece.map]

theorem map_after {γ : Type*} {f : List α → List γ} (hf : ∀ a b, f (a ++ b) = f a ++ f b)
    (text : β → List α) (pieces : List (Piece α β)) (tail : List α) :
    f (after text pieces tail) =
      after (fun label => f (text label)) (pieces.map (Piece.map f)) (f tail) := by
  induction pieces with
  | nil => rfl
  | cons piece pieces ih => rw [after_cons, hf, hf, ih, List.map_cons, after_cons, Piece.map]

theorem drop_take_append_drop (l : List α) {i j : Nat} (h : i ≤ j) :
    (l.drop i).take (j - i) ++ l.drop j = l.drop i := by
  rw [show l.drop j = (l.drop i).drop (j - i) by rw [List.drop_drop, Nat.add_sub_cancel' h]]
  exact List.take_append_drop _ _

variable {splices : List (Splice β)} {cursor : Nat}

theorem InOrder.cursor_le {stop : Nat} (h : InOrder stop cursor splices) :
    cursor ≤ stop := by
  induction splices generalizing cursor with
  | nil => exact h
  | cons s splices ih =>
    have hle := ih h.2
    rw [Splice.stop] at hle
    exact Nat.le_trans h.1 (by omega)

theorem inOrder_of_isChain {stop : Nat}
    (hchain : splices.IsChain fun s t => s.stop ≤ t.start)
    (hstop : ∀ s ∈ splices, s.stop ≤ stop) (hcursor : ∀ s ∈ splices.head?, cursor ≤ s.start)
    (hle : cursor ≤ stop) :
    InOrder stop cursor splices := by
  induction splices generalizing cursor with
  | nil => exact hle
  | cons s splices ih =>
    refine ⟨hcursor s rfl, ih hchain.tail (fun t ht => hstop t (List.mem_cons_of_mem _ ht)) ?_
      (hstop s List.mem_cons_self)⟩
    intro t ht
    cases splices with
    | nil => cases ht
    | cons t' splices =>
      cases ht
      exact (List.isChain_cons_cons.mp hchain).1

theorem before_cut {l : List α} {stop : Nat} (h : InOrder stop cursor splices) :
    before (cut l cursor splices) (rest l cursor splices) = l.drop cursor := by
  induction splices generalizing cursor with
  | nil => rfl
  | cons s splices ih =>
    have hregion := drop_take_append_drop l (Nat.le_add_right s.start s.length)
    rw [Nat.add_sub_cancel_left] at hregion
    rw [cut, rest, before_cons, ih h.2, List.append_assoc, Splice.stop, hregion,
      drop_take_append_drop l h.1]

theorem spliceAll_eq_after (text : β → List α) {l : List α}
    (h : InOrder l.length cursor splices) :
    spliceAll text l splices =
      l.take cursor ++ after text (cut l cursor splices) (rest l cursor splices) := by
  induction splices generalizing cursor with
  | nil => exact (List.take_append_drop cursor l).symm
  | cons s splices ih =>
    have hstop := h.2.cursor_le
    have hlength : (l.take s.stop).length = s.stop := by
      rw [List.length_take, Nat.min_eq_left hstop]
    have hstart : s.start ≤ s.stop := Nat.le_add_right s.start s.length
    have hgap : l.take s.start = l.take cursor ++ (l.drop cursor).take (s.start - cursor) := by
      conv_lhs => rw [← Nat.add_sub_cancel' h.1, List.take_add]
    rw [spliceAll, List.foldr_cons, ← spliceAll, ih h.2, splice, cut, rest, after_cons,
      List.take_append_of_le_length (by omega), List.take_take, Nat.min_eq_left hstart,
      List.drop_append_of_le_length (by omega), List.drop_eq_nil_of_le (by omega),
      List.nil_append, hgap]
    simp only [List.append_assoc]

theorem map_label_cut (l : List α) (cursor : Nat) (splices : List (Splice β)) :
    (cut l cursor splices).map Piece.label = splices.map Splice.label := by
  induction splices generalizing cursor with
  | nil => rfl
  | cons s splices ih => rw [cut, List.map_cons, List.map_cons, ih]

theorem cut_split {l : List α} (h : InOrder l.length cursor splices)
    {front : List (Piece α β)} {piece : Piece α β} {back : List (Piece α β)}
    (hpieces : cut l cursor splices = front ++ piece :: back) :
    ∃ s ∈ splices, piece.region = (l.drop s.start).take s.length ∧ piece.label = s.label ∧
      cursor + (before front piece.gap).length = s.start := by
  induction splices generalizing cursor front with
  | nil => exact absurd hpieces (by simp [cut])
  | cons s splices ih =>
    have hstop := h.2.cursor_le
    have hstart : s.start ≤ s.stop := Nat.le_add_right s.start s.length
    have hgap : ((l.drop cursor).take (s.start - cursor)).length = s.start - cursor := by
      rw [List.length_take, List.length_drop]
      omega
    have hle := h.1
    cases front with
    | nil =>
      rw [cut, List.nil_append, List.cons.injEq] at hpieces
      obtain ⟨rfl, -⟩ := hpieces
      refine ⟨s, List.mem_cons_self, rfl, rfl, ?_⟩
      rw [before_nil, hgap]
      omega
    | cons first front =>
      rw [cut, List.cons_append, List.cons.injEq] at hpieces
      obtain ⟨rfl, hpieces⟩ := hpieces
      obtain ⟨s', hs', hregion, hlabel, hplace⟩ := ih h.2 hpieces
      refine ⟨s', List.mem_cons_of_mem _ hs', hregion, hlabel, ?_⟩
      have hlength : ((l.drop s.start).take s.length).length = s.length := by
        rw [List.length_take, List.length_drop]
        rw [Splice.stop] at hstop
        omega
      rw [before_cons, List.length_append, List.length_append, hgap, hlength]
      rw [Splice.stop] at hplace
      omega

end Splices

import Crest.CommandBlocks
import Mathlib.Data.List.Pairwise
import Mathlib.Data.List.ReduceOption

/-!
# The rows of the table

What the changes of the table keep: ids and numbers are unique, of each block only the
last row may be open, the offsets of a row are in order, and so are the output ranges of
the rows of one tracker.  An open row moves forward; a row that is done stays as it is.
-/

namespace CommandBlocks

/-- The offsets of a row, as far as they are set. -/
def CmdBlock.offsets (r : CmdBlock) : List Nat :=
  r.promptOffset :: [r.cmdOffset, r.outputStartOffset, r.outputEndOffset].reduceOption

/-- A running row that `StartDirectCommand` made, before any `C`. -/
def CmdBlock.Direct (r : CmdBlock) : Prop := r.state = .running ∧ r.cmdOffset = none

instance (r : CmdBlock) : Decidable r.Direct := inferInstanceAs (Decidable (_ ∧ _))

/-- The offsets of a row fit to its state and to each other. -/
structure CmdBlock.Shaped (r : CmdBlock) : Prop where
  ordered : r.offsets.Pairwise (· ≤ ·)
  prompt : r.state = .prompt →
    r.cmdOffset = none ∧ r.outputStartOffset = none ∧ r.outputEndOffset = none
  running : r.state = .running → r.outputStartOffset.isSome ∧ r.outputEndOffset = none
  direct : r.Direct → r.outputStartOffset = some r.promptOffset

/-- How two rows stand, the first of which was inserted earlier. -/
structure CmdBlock.Before (a b : CmdBlock) : Prop where
  oid : a.oid ≠ b.oid
  seq : a.blockID = b.blockID → a.seq < b.seq
  last : a.blockID = b.blockID → a.state = .done
  block : a.tracker = b.tracker → a.blockID = b.blockID
  ranges : a.tracker = b.tracker →
    ∀ e ∈ a.outputEndOffset, ∀ st ∈ b.outputStartOffset, e ≤ st

structure Table (nextOID : Nat) (rows : List CmdBlock) : Prop where
  fresh : ∀ r ∈ rows, r.oid < nextOID
  before : rows.Pairwise CmdBlock.Before
  shaped : ∀ r ∈ rows, r.Shaped

variable {n : Nat} {rows : List CmdBlock}

theorem Table.cases (h : Table n rows) {a b : CmdBlock} (ha : a ∈ rows) (hb : b ∈ rows) :
    a = b ∨ a.Before b ∨ b.Before a := by
  have hforward : rows.Pairwise fun x y => x = y ∨ x.Before y ∨ y.Before x :=
    h.before.imp fun hxy => Or.inr (Or.inl hxy)
  have hbackward : rows.Pairwise (flip fun x y => x = y ∨ x.Before y ∨ y.Before x) :=
    h.before.imp fun hxy => Or.inr (Or.inr hxy)
  have hrefl : ∀ x ∈ rows, x = x ∨ x.Before x ∨ x.Before x := fun _ _ => Or.inl rfl
  exact List.Pairwise.forall_of_forall_of_flip hrefl hforward hbackward ha hb

theorem Table.eq_of_oid (h : Table n rows) {a b : CmdBlock} (ha : a ∈ rows) (hb : b ∈ rows)
    (hoid : a.oid = b.oid) :
    a = b := by
  rcases h.cases ha hb with heq | hab | hba
  · exact heq
  · exact absurd hoid hab.oid
  · exact absurd hoid.symm hba.oid

theorem Table.open_unique (h : Table n rows) {a b : CmdBlock} (ha : a ∈ rows)
    (hb : b ∈ rows) (hblock : a.blockID = b.blockID) (hopen : a.state ≠ .done)
    (hopen' : b.state ≠ .done) :
    a = b := by
  rcases h.cases ha hb with heq | hab | hba
  · exact heq
  · exact absurd (hab.last hblock) hopen
  · exact absurd (hba.last hblock.symm) hopen'

/-- What no change of a row changes. -/
structure CmdBlock.Same (r r' : CmdBlock) : Prop where
  oid : r'.oid = r.oid
  blockID : r'.blockID = r.blockID
  seq : r'.seq = r.seq
  tracker : r'.tracker = r.tracker

/-- What a change may do to a row of the table. -/
structure Moves (rows : List CmdBlock) (r r' : CmdBlock) : Prop where
  isOpen : r.state ≠ .done
  rank : r.state.rank ≤ r'.state.rank
  shaped : r'.Shaped
  range : r'.outputStartOffset = r.outputStartOffset ∨
    ∀ a ∈ rows, a.tracker = r.tracker →
      ∀ e ∈ a.outputEndOffset, ∀ st ∈ r'.outputStartOffset, e ≤ st

theorem Table.map (h : Table n rows) {g : CmdBlock → CmdBlock}
    (hsame : ∀ r : CmdBlock, r.Same (g r)) (hmoves : ∀ r ∈ rows, g r = r ∨ Moves rows r (g r)) :
    Table n (rows.map g) := by
  refine ⟨?_, ?_, ?_⟩
  · intro r' hr'
    obtain ⟨r, hr, rfl⟩ := List.mem_map.mp hr'
    rw [(hsame r).oid]
    exact h.fresh r hr
  · rw [List.pairwise_map]
    refine h.before.imp_of_mem ?_
    intro a b ha hb hab
    -- a row with a later one of its block is done, so it has not changed
    have hstays : a.blockID = b.blockID → g a = a := by
      intro hblock
      rcases hmoves a ha with heq | hmove
      · exact heq
      · exact absurd (hab.last hblock) hmove.isOpen
    refine ⟨?_, ?_, ?_, ?_, ?_⟩
    · rw [(hsame a).oid, (hsame b).oid]
      exact hab.oid
    · rw [(hsame a).blockID, (hsame b).blockID, (hsame a).seq, (hsame b).seq]
      exact hab.seq
    · rw [(hsame a).blockID, (hsame b).blockID]
      intro hblock
      rw [hstays hblock]
      exact hab.last hblock
    · rw [(hsame a).blockID, (hsame b).blockID, (hsame a).tracker, (hsame b).tracker]
      exact hab.block
    · rw [(hsame a).tracker, (hsame b).tracker]
      intro htracker
      rw [hstays (hab.block htracker)]
      intro e he st hst
      rcases hmoves b hb with heq | hmove
      · rw [heq] at hst
        exact hab.ranges htracker e he st hst
      · rcases hmove.range with hstart | hrange
        · rw [hstart] at hst
          exact hab.ranges htracker e he st hst
        · exact hrange a ha htracker e he st hst
  · intro r' hr'
    obtain ⟨r, hr, rfl⟩ := List.mem_map.mp hr'
    rcases hmoves r hr with heq | hmove
    · rw [heq]
      exact h.shaped r hr
    · exact hmove.shaped

theorem Table.append (h : Table n rows) {r : CmdBlock} (hoid : r.oid = n)
    (hseq : ∀ a ∈ rows, a.blockID = r.blockID → a.seq < r.seq)
    (hlast : ∀ a ∈ rows, a.blockID = r.blockID → a.state = .done)
    (hblock : ∀ a ∈ rows, a.tracker = r.tracker → a.blockID = r.blockID)
    (hrange : ∀ a ∈ rows, a.tracker = r.tracker →
      ∀ e ∈ a.outputEndOffset, ∀ st ∈ r.outputStartOffset, e ≤ st)
    (hshaped : r.Shaped) :
    Table (n + 1) (rows ++ [r]) := by
  refine ⟨?_, ?_, ?_⟩
  · intro a ha
    rcases List.mem_append.mp ha with ha | ha
    · exact Nat.lt_succ_of_lt (h.fresh a ha)
    · rw [List.mem_singleton.mp ha]
      omega
  · rw [List.pairwise_append]
    refine ⟨h.before, List.pairwise_singleton _ _, ?_⟩
    intro a ha b hb
    rw [List.mem_singleton.mp hb]
    have hlt := h.fresh a ha
    exact ⟨by omega, hseq a ha, hlast a ha, hblock a ha, hrange a ha⟩
  · intro a ha
    rcases List.mem_append.mp ha with ha | ha
    · exact h.shaped a ha
    · rw [List.mem_singleton.mp ha]
      exact hshaped

theorem Table.filter (h : Table n rows) (p : CmdBlock → Bool) : Table n (rows.filter p) where
  fresh := fun r hr => h.fresh r (List.mem_of_mem_filter hr)
  before := h.before.sublist List.filter_sublist
  shaped := fun r hr => h.shaped r (List.mem_of_mem_filter hr)

theorem lt_nextSeq {r : CmdBlock} (hr : r ∈ rows) : r.seq < nextSeq rows r.blockID := by
  have hle : ∀ (l : List Nat) (m x : Nat), x ≤ m ∨ x ∈ l → x ≤ l.foldl max m := by
    intro l
    induction l with
    | nil =>
      intro m x hx
      simpa using hx
    | cons y l ih =>
      intro m x hx
      refine ih (max m y) x ?_
      rcases hx with hx | hx
      · exact Or.inl (Nat.le_trans hx (Nat.le_max_left _ _))
      · rcases List.mem_cons.mp hx with rfl | hx
        · exact Or.inl (Nat.le_max_right _ _)
        · exact Or.inr hx
  refine Nat.lt_succ_of_le (hle _ 0 r.seq (Or.inr ?_))
  exact List.mem_map_of_mem (List.mem_filter.mpr ⟨hr, by simp⟩)

section Kept

/-- What happens to the rows there are: one that is done stays as it is, the others move
forward or go, and none comes back. -/
structure Kept (n : Nat) (rows : List CmdBlock) (n' : Nat) (rows' : List CmdBlock) :
    Prop where
  next : n ≤ n'
  done : ∀ r ∈ rows, r.state = .done → r ∈ rows'
  old : ∀ r' ∈ rows', r'.oid < n → ∃ r ∈ rows, r.Same r' ∧
    r.state.rank ≤ r'.state.rank ∧ (r.state = .done → r' = r)

theorem Kept.refl (n : Nat) (rows : List CmdBlock) : Kept n rows n rows where
  next := Nat.le_refl _
  done := fun _ hr _ => hr
  old := fun r hr _ => ⟨r, hr, ⟨rfl, rfl, rfl, rfl⟩, Nat.le_refl _, fun _ => rfl⟩

theorem Kept.trans {n' n'' : Nat} {rows' rows'' : List CmdBlock} (h : Kept n rows n' rows')
    (h' : Kept n' rows' n'' rows'') :
    Kept n rows n'' rows'' := by
  refine ⟨Nat.le_trans h.next h'.next, ?_, ?_⟩
  · intro r hr hdone
    exact h'.done r (h.done r hr hdone) hdone
  · intro r'' hr'' hlt
    obtain ⟨r', hr', hsame', hrank', hdone'⟩ := h'.old r'' hr'' (Nat.lt_of_lt_of_le hlt h.next)
    obtain ⟨r, hr, hsame, hrank, hdone⟩ := h.old r' hr' (by rw [← hsame'.oid]; exact hlt)
    refine ⟨r, hr, ⟨hsame'.oid.trans hsame.oid, hsame'.blockID.trans hsame.blockID,
      hsame'.seq.trans hsame.seq, hsame'.tracker.trans hsame.tracker⟩,
      Nat.le_trans hrank hrank', ?_⟩
    intro hd
    have heq := hdone hd
    rw [heq] at hdone'
    exact hdone' hd

theorem Kept.map {g : CmdBlock → CmdBlock} (hsame : ∀ r : CmdBlock, r.Same (g r))
    (hmoves : ∀ r ∈ rows, g r = r ∨ Moves rows r (g r)) :
    Kept n rows n (rows.map g) := by
  refine ⟨Nat.le_refl _, ?_, ?_⟩
  · intro r hr hdone
    rcases hmoves r hr with heq | hmove
    · exact List.mem_map.mpr ⟨r, hr, heq⟩
    · exact absurd hdone hmove.isOpen
  · intro r' hr' _
    obtain ⟨r, hr, rfl⟩ := List.mem_map.mp hr'
    refine ⟨r, hr, hsame r, ?_, ?_⟩
    · rcases hmoves r hr with heq | hmove
      · exact Nat.le_of_eq (by rw [heq])
      · exact hmove.rank
    · intro hdone
      rcases hmoves r hr with heq | hmove
      · exact heq
      · exact absurd hdone hmove.isOpen

theorem Kept.append {r : CmdBlock} (hoid : r.oid = n) : Kept n rows (n + 1) (rows ++ [r]) := by
  refine ⟨Nat.le_succ n, fun a ha _ => List.mem_append_left _ ha, ?_⟩
  intro a ha hlt
  rcases List.mem_append.mp ha with ha | ha
  · exact (Kept.refl n rows).old a ha hlt
  · rw [List.mem_singleton.mp ha] at hlt
    omega

theorem Kept.filter {p : CmdBlock → Bool} (hp : ∀ r ∈ rows, r.state = .done → p r = true) :
    Kept n rows n (rows.filter p) := by
  refine ⟨Nat.le_refl _, ?_, ?_⟩
  · intro r hr hdone
    exact List.mem_filter.mpr ⟨hr, hp r hr hdone⟩
  · intro r hr hlt
    exact (Kept.refl n rows).old r (List.mem_of_mem_filter hr) hlt

end Kept

end CommandBlocks

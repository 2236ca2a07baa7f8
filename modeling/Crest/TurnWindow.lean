import Crest.TurnRestorePlan

/-!
# The checkpoint that closes a turn

Whichever entries count, a turn is closed when one counted entry of its window is
a checkpoint, that checkpoint can be decoded, is available and belongs to the turn
and the session, and no counted entry after it is anything but workspace control.
The session state counts every entry of the window, the planners count the
committed ones.
-/

namespace Session

open Workspace

variable (digest : Digest)

/-- A window that a checkpoint closes, as what comes before it, the checkpoint
and what comes after it. -/
structure ClosedBy (counted : SessionTreeEntry → Bool) (before : List SessionTreeEntry)
    (entry : SessionTreeEntry) (after : List SessionTreeEntry) (turnId sessionId : JsString)
    (checkpoint : AvailableCheckpoint) : Prop where
  /-- The checkpoint counts. -/
  entryCounted : counted entry = true
  /-- It claims to be one. -/
  isCheckpoint : isCheckpointEntry entry = true
  /-- It is available. -/
  decoded : decodeWorkspaceCheckpointEntry entry = some (.available checkpoint)
  /-- It belongs to the turn. -/
  turnId : checkpoint.turnId = turnId
  /-- It belongs to the session. -/
  sessionId : checkpoint.originSessionId = sessionId
  /-- No counted entry before it is a checkpoint. -/
  noneBefore : ∀ e ∈ before, counted e = true → isCheckpointEntry e = false
  /-- No counted entry after it is one, or anything but workspace control. -/
  controlAfter : ∀ e ∈ after, counted e = true →
    isCheckpointEntry e = false ∧ isWorkspaceControlEntry e = true

theorem filter_eq_singleton_iff {α : Type} (p : α → Bool) (l : List α) (a : α) :
    l.filter p = [a] ↔
      ∃ before after, l = before ++ a :: after ∧ p a = true ∧
        (∀ b ∈ before, p b = false) ∧ ∀ b ∈ after, p b = false := by
  rw [List.filter_eq_cons_iff]
  constructor
  · rintro ⟨before, after, hl, hbefore, ha, hafter⟩
    refine ⟨before, after, hl, ha, fun b hb => by simpa using hbefore b hb, ?_⟩
    intro b hb
    simpa using List.filter_eq_nil_iff.mp hafter b hb
  · rintro ⟨before, after, hl, ha, hbefore, hafter⟩
    exact ⟨before, after, hl, fun b hb => by simp [hbefore b hb], ha,
      List.filter_eq_nil_iff.mpr fun b hb => by simp [hafter b hb]⟩

/-- **The session state finds a checkpoint exactly when it closes the window among
all entries.** -/
theorem checkpointOfTurn_ok_iff (window : List SessionTreeEntry)
    (turnId sessionId : JsString) (checkpoint : AvailableCheckpoint) (offset : Nat) :
    checkpointOfTurn window turnId sessionId = .ok (.available checkpoint, offset) ↔
      ∃ before entry after, window = before ++ entry :: after ∧ before.length = offset ∧
        ClosedBy (fun _ => true) before entry after turnId sessionId checkpoint := by
  have hposition (before after : List SessionTreeEntry) (entry : SessionTreeEntry)
      (hbefore : ∀ e ∈ before, isCheckpointEntry e = false)
      (hentry : isCheckpointEntry entry = true) :
      (before ++ entry :: after).findIdx (fun e => e == entry) = before.length := by
    have hnone : before.findIdx (fun e => e == entry) = before.length := by
      rw [List.findIdx_eq_length]
      intro e he
      rw [beq_eq_false_iff_ne]
      rintro rfl
      simp [hbefore e he] at hentry
    rw [List.findIdx_append, hnone, if_neg (by simp)]
    simp [List.findIdx_cons]
  have hdrop (before after : List SessionTreeEntry) (entry : SessionTreeEntry) :
      (before ++ entry :: after).drop (before.length + 1) = after := by
    rw [List.drop_append, List.drop_of_length_le (Nat.le_succ _)]
    simp
  constructor
  · intro h
    unfold checkpointOfTurn at h
    split at h
    · cases h
    · rename_i entry hfilter
      obtain ⟨before, after, rfl, hentry, hbefore, hafter⟩ :=
        (filter_eq_singleton_iff _ _ _).mp hfilter
      split at h
      · cases h
      rename_i decoded hdecoded
      simp only [hposition before after entry hbefore hentry] at h
      split at h
      · cases h
      rename_i hturn
      split at h
      · cases h
      rename_i hsession
      split at h
      · cases h
      rename_i hterminal
      simp only [Except.ok.injEq, Prod.mk.injEq] at h
      obtain ⟨rfl, rfl⟩ := h
      refine ⟨before, entry, after, rfl, rfl, ?_⟩
      refine { entryCounted := rfl, isCheckpoint := hentry, decoded := hdecoded,
               turnId := not_not.mp hturn, sessionId := not_not.mp hsession,
               noneBefore := fun e he _ => hbefore e he,
               controlAfter := fun e he _ => ⟨hafter e he, ?_⟩ }
      rw [hdrop, Bool.not_eq_true, List.any_eq_false] at hterminal
      simpa using hterminal e he
    · cases h
  · rintro ⟨before, entry, after, rfl, rfl, hclosed⟩
    have hbefore : ∀ e ∈ before, isCheckpointEntry e = false :=
      fun e he => hclosed.noneBefore e he rfl
    have hafter : ∀ e ∈ after, isCheckpointEntry e = false :=
      fun e he => (hclosed.controlAfter e he rfl).1
    have hfilter := (filter_eq_singleton_iff isCheckpointEntry _ entry).mpr
      ⟨before, after, rfl, hclosed.isCheckpoint, hbefore, hafter⟩
    have hterminal : (after.any fun e => !isWorkspaceControlEntry e) = false := by
      rw [List.any_eq_false]
      intro e he
      simp [(hclosed.controlAfter e he rfl).2]
    have hturn : WorkspaceCheckpointV1.turnId (.available checkpoint) = turnId := hclosed.turnId
    have hsession : WorkspaceCheckpointV1.originSessionId (.available checkpoint) = sessionId :=
      hclosed.sessionId
    simp [checkpointOfTurn, hfilter, hclosed.decoded, hturn, hsession,
      hposition before after entry hbefore hclosed.isCheckpoint, hdrop before after entry,
      hterminal]

theorem slice_drop (branch : List SessionTreeEntry) (start stop offset : Nat) :
    slice branch (start + offset) stop = (slice branch start stop).drop offset := by
  simp [slice, List.drop_drop]

theorem mem_zipIdx_fst {l : List SessionTreeEntry} {start : Nat} {e : SessionTreeEntry} :
    (∃ item ∈ l.zipIdx start, item.1 = e) ↔ e ∈ l := by
  rw [← List.mem_map, List.zipIdx_map_fst]

/-- **A planner finds a checkpoint exactly when it closes the window among the
committed entries.** -/
theorem terminalCheckpoint_ok_iff (branch : List SessionTreeEntry) (sourceIndex : Nat)
    (turnId sessionId : JsString) (checkpoint : AvailableCheckpoint) (index : Nat) :
    terminalCheckpoint digest branch sourceIndex turnId sessionId = .ok (checkpoint, index) ↔
      ∃ before entry after,
        slice branch (sourceIndex + 1) (restoreEnd digest branch sourceIndex) =
          before ++ entry :: after ∧
        sourceIndex + 1 + before.length = index ∧
        ClosedBy (isCommitted digest branch) before entry after turnId sessionId checkpoint := by
  have hafterSlice (before after : List SessionTreeEntry) (entry : SessionTreeEntry)
      (hslice : slice branch (sourceIndex + 1) (restoreEnd digest branch sourceIndex) =
        before ++ entry :: after) :
      slice branch (sourceIndex + 1 + before.length + 1)
        (restoreEnd digest branch sourceIndex) = after := by
    rw [Nat.add_assoc (sourceIndex + 1), slice_drop, hslice, List.drop_append,
      List.drop_of_length_le (Nat.le_succ _)]
    simp
  constructor
  · intro h
    unfold terminalCheckpoint at h
    dsimp only at h
    split at h
    · cases h
    · rename_i selected hfilter
      obtain ⟨beforeItems, afterItems, hitems, hselected, hbefore, hafter⟩ :=
        (filter_eq_singleton_iff _ _ _).mp hfilter
      obtain ⟨before, others, hslice, rfl, hothers⟩ := List.zipIdx_eq_append_iff.mp hitems
      obtain ⟨entry, after, rfl, rfl, rfl⟩ := List.zipIdx_eq_cons_iff.mp hothers.symm
      rw [Bool.and_eq_true] at hselected
      split at h
      · cases h
      rename_i decoded hdecoded
      split at h
      · cases h
      rename_i hsession
      split at h
      · cases h
      rename_i hturn
      split at h
      · cases h
      rename_i hterminal
      rw [hafterSlice before after entry hslice, Bool.not_eq_true, List.any_eq_false] at hterminal
      split at h
      · cases h
      rename_i available
      simp only [Except.ok.injEq, Prod.mk.injEq] at h
      obtain ⟨rfl, rfl⟩ := h
      refine ⟨before, entry, after, hslice, rfl, ?_⟩
      refine { entryCounted := hselected.1, isCheckpoint := hselected.2, decoded := hdecoded,
               turnId := not_not.mp hturn, sessionId := not_not.mp hsession,
               noneBefore := fun e he hcounted => ?_,
               controlAfter := fun e he hcounted => ⟨?_, ?_⟩ }
      · obtain ⟨item, hitem, rfl⟩ := mem_zipIdx_fst.mpr he
        simpa [hcounted] using hbefore item hitem
      · obtain ⟨item, hitem, rfl⟩ := mem_zipIdx_fst.mpr he
        simpa [hcounted] using hafter item hitem
      · simpa [hcounted] using hterminal e he
    · cases h
  · rintro ⟨before, entry, after, hslice, rfl, hclosed⟩
    have hfilter : ((slice branch (sourceIndex + 1)
        (restoreEnd digest branch sourceIndex)).zipIdx (sourceIndex + 1)).filter (fun item =>
          isCommitted digest branch item.1 && isCheckpointEntry item.1) =
        [(entry, sourceIndex + 1 + before.length)] := by
      rw [filter_eq_singleton_iff, hslice]
      refine ⟨before.zipIdx (sourceIndex + 1),
        after.zipIdx (sourceIndex + 1 + before.length + 1), ?_, ?_, ?_, ?_⟩
      · rw [List.zipIdx_append, List.zipIdx_cons]
      · rw [hclosed.entryCounted, hclosed.isCheckpoint]
        rfl
      · intro item hitem
        have hmem := mem_zipIdx_fst.mp ⟨item, hitem, rfl⟩
        rw [Bool.and_eq_false_imp]
        exact hclosed.noneBefore _ hmem
      · intro item hitem
        have hmem := mem_zipIdx_fst.mp ⟨item, hitem, rfl⟩
        rw [Bool.and_eq_false_imp]
        exact fun hcounted => (hclosed.controlAfter _ hmem hcounted).1
    have hterminal : (after.any fun e =>
        isCommitted digest branch e && !isWorkspaceControlEntry e) = false := by
      rw [List.any_eq_false]
      intro e he hboth
      rw [Bool.and_eq_true] at hboth
      simp [(hclosed.controlAfter e he hboth.1).2] at hboth
    have hturn : WorkspaceCheckpointV1.turnId (.available checkpoint) = turnId := hclosed.turnId
    have hsession : WorkspaceCheckpointV1.originSessionId (.available checkpoint) = sessionId :=
      hclosed.sessionId
    simp only [terminalCheckpoint, hfilter, hclosed.decoded, hsession, hturn,
      hafterSlice before after entry hslice, hterminal]
    simp

end Session

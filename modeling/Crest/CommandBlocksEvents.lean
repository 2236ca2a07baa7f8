import Crest.CommandBlocksInvariant

/-!
# The shell's sequences, one by one

When the table takes a row, moves it on or finishes it, what the tracker knows stays true,
provided that the sequence comes in the right place: `A` when no row of the block is open,
`C` and `D` when the current row is, and for a direct command not with a sequence that
began before the command did.
-/

namespace CommandBlocks

/-- When a sequence comes in the right place. -/
def EventOk (s : State) (t : Nat) (tr : Tracker) (ev : OscParser.Event) : Prop :=
  if ev.command = cmdA then
    s.byBlock tr.blockID = some t ∧ ∀ r ∈ s.rows, r.blockID = tr.blockID → r.state = .done
  else if ev.command = cmdC ∨ ev.command = cmdD then
    ∀ r ∈ s.rows, tr.currentOID = some r.oid →
      r.state ≠ .done ∧ (r.Direct → r.promptOffset ≤ ev.offset)
  else True

instance (s : State) (t : Nat) (tr : Tracker) (ev : OscParser.Event) :
    Decidable (EventOk s t tr ev) :=
  inferInstanceAs (Decidable (if ev.command = cmdA then
      s.byBlock tr.blockID = some t ∧
        ∀ r ∈ s.rows, r.blockID = tr.blockID → r.state = .done
    else if ev.command = cmdC ∨ ev.command = cmdD then
      ∀ r ∈ s.rows, tr.currentOID = some r.oid →
        r.state ≠ .done ∧ (r.Direct → r.promptOffset ≤ ev.offset)
    else True))

/-- The rows of a tracker end before the sequence at hand does. -/
def Ends (rows : List CmdBlock) (t : Nat) (x : Nat) : Prop :=
  ∀ r ∈ rows, r.tracker = t → ∀ e ∈ r.outputEndOffset, e ≤ x

theorem mem_updateRow {oid : Nat} {f : CmdBlock → CmdBlock} {rows : List CmdBlock}
    {r' : CmdBlock} (h : r' ∈ updateRow oid f rows) :
    ∃ r ∈ rows, (r.oid = oid ∧ r' = f r) ∨ (r.oid ≠ oid ∧ r' = r) := by
  obtain ⟨r, hr, rfl⟩ := List.mem_map.mp h
  refine ⟨r, hr, ?_⟩
  by_cases hoid : r.oid = oid
  · exact Or.inl ⟨hoid, if_pos hoid⟩
  · exact Or.inr ⟨hoid, if_neg hoid⟩

variable {s : State} {t : Nat} {tr : Tracker}

/-- What a new row has to be. -/
structure NewRow (s : State) (t : Nat) (tr : Tracker) (r : CmdBlock) : Prop where
  oid : r.oid = s.nextOID
  block : r.blockID = tr.blockID
  seq : r.seq = nextSeq s.rows tr.blockID
  tracker : r.tracker = t
  shaped : r.Shaped
  inside : ∀ x ∈ r.offsets, x ≤ tr.parser.Offset
  ends : ∀ a ∈ s.rows, a.tracker = t →
    ∀ e ∈ a.outputEndOffset, ∀ st ∈ r.outputStartOffset, e ≤ st

theorem Core.insert (h : Core s t tr) (hreg : s.byBlock tr.blockID = some t)
    (hclosed : ∀ r ∈ s.rows, r.blockID = tr.blockID → r.state = .done) {r : CmdBlock}
    (hr : NewRow s t tr r) {tr' : Tracker} (hblock : tr'.blockID = tr.blockID)
    (hparser : tr'.parser = tr.parser)
    (hcurrent : tr'.currentOID = tr.currentOID ∨ tr'.currentOID = some s.nextOID)
    (hcalls : ∀ c ∈ tr'.calls, c ∈ tr.calls ∨ c.startedOID = some s.nextOID)
    (honce : tr'.startedOIDs.Nodup)
    (honly : ∀ oid ∈ tr'.startedOIDs, tr'.currentOID ≠ some oid ∧
      ∀ c ∈ tr'.calls, c.finishingOID ≠ some oid)
    (hheld : tr'.Held s.nextOID) :
    Core { s with rows := s.rows ++ [r], nextOID := s.nextOID + 1 } t tr' := by
  have hkept : Kept s.nextOID s.rows (s.nextOID + 1) (s.rows ++ [r]) := Kept.append hr.oid
  have howner : State.Own { s with rows := s.rows ++ [r], nextOID := s.nextOID + 1 } t
      s.nextOID := by
    refine ⟨Nat.lt_succ_self _, ?_⟩
    intro a ha hoid
    rcases List.mem_append.mp ha with ha | ha
    · have hlt := h.table.fresh a ha
      omega
    · rw [List.mem_singleton.mp ha]
      exact hr.tracker
  refine h.change ?_ hkept rfl rfl hblock ?_ ?_
  · refine h.table.append hr.oid ?_ ?_ ?_ ?_ hr.shaped
    · intro a ha hab
      rw [hr.seq, ← hr.block, ← hab]
      exact lt_nextSeq ha
    · intro a ha hab
      exact hclosed a ha (hab.trans hr.block)
    · intro a ha hab
      rw [hr.block]
      exact h.self.block a ha (hab.trans hr.tracker)
    · intro a ha hab
      exact hr.ends a ha (hab.trans hr.tracker)
  · intro a ha hne
    rcases List.mem_append.mp ha with ha | ha
    · exact ha
    · rw [List.mem_singleton.mp ha] at hne
      exact absurd hr.tracker hne
  · refine ⟨?_, ?_, ?_, ?_, ?_, honce, honly, ?_⟩
    · rw [hparser]
      exact h.self.parser
    · intro a ha ht
      rw [hblock]
      rcases List.mem_append.mp ha with ha | ha
      · exact h.self.block a ha ht
      · rw [List.mem_singleton.mp ha]
        exact hr.block
    · intro a ha ht
      rw [hparser]
      rcases List.mem_append.mp ha with ha | ha
      · exact h.self.inside a ha ht
      · rw [List.mem_singleton.mp ha]
        exact hr.inside
    · intro oid hoid
      rcases hcurrent with hsame | hnew
      · rw [hsame] at hoid
        exact (h.self.current oid hoid).kept hkept
      · rw [hnew, Option.mem_some_iff] at hoid
        exact hoid ▸ howner
    · intro c hc
      rcases hcalls c hc with hold | hnew
      · exact (h.self.calls c hold).kept hkept (Nat.le_of_eq (by rw [hparser]))
      · cases c with
        | started oid shellType =>
          rw [Call.startedOID, Option.some.injEq] at hnew
          exact hnew ▸ howner
        | _ => simp [Call.startedOID] at hnew
    · intro a ha hopen ht
      rcases List.mem_append.mp ha with ha | ha
      · exact absurd (hclosed a ha (h.self.block a ha ht)) hopen
      · rw [List.mem_singleton.mp ha, hr.block, hr.oid]
        exact ⟨hreg, hheld⟩

theorem mem_of_updateRow {r : CmdBlock} (f : CmdBlock → CmdBlock)
    (hf : ∀ r : CmdBlock, r.Same (f r)) (hown : s.Own t r.oid) {a : CmdBlock}
    (ha : a ∈ updateRow r.oid f s.rows) (hne : a.tracker ≠ t) :
    a ∈ s.rows := by
  obtain ⟨b, hb, ⟨hoid, heq⟩ | ⟨-, heq⟩⟩ := mem_updateRow ha
  · rw [heq, (hf b).tracker] at hne
    exact absurd (hown.2 b hb hoid) hne
  · exact heq ▸ hb

theorem Core.open_unique (h : Core s t tr) {a b : CmdBlock} (ha : a ∈ s.rows)
    (hb : b ∈ s.rows) (hat : a.tracker = t) (hbt : b.tracker = t) (hopen : a.state ≠ .done)
    (hopen' : b.state ≠ .done) :
    a = b :=
  h.table.open_unique ha hb
    ((h.self.block a ha hat).trans (h.self.block b hb hbt).symm) hopen hopen'

section Submission

variable {r : CmdBlock}

theorem Core.submit (h : Core s t tr) (hr : r ∈ s.rows)
    (hcurrent : tr.currentOID = some r.oid) (hopen : r.state ≠ .done) {cmd cwd : String}
    {cmdOffset outputStart : Nat} (hprompt : r.promptOffset ≤ cmdOffset)
    (hcmd : cmdOffset ≤ outputStart) (hinside : outputStart ≤ tr.parser.Offset)
    (hends : Ends s.rows t outputStart) :
    Core { s with
        rows := updateRow r.oid (CmdBlock.submitted cmd cwd cmdOffset outputStart) s.rows } t
        { tr with state := some .running } ∧
      Kept s.nextOID s.rows s.nextOID
        (updateRow r.oid (CmdBlock.submitted cmd cwd cmdOffset outputStart) s.rows) := by
  have hown := h.self.current r.oid hcurrent
  have ht := hown.2 r hr rfl
  have hsame : ∀ a : CmdBlock,
      a.Same (if a.oid = r.oid then a.submitted cmd cwd cmdOffset outputStart else a) := by
    intro a
    split <;> exact ⟨rfl, rfl, rfl, rfl⟩
  have hmoves : ∀ a ∈ s.rows,
      (if a.oid = r.oid then a.submitted cmd cwd cmdOffset outputStart else a) = a ∨
      Moves s.rows a
        (if a.oid = r.oid then a.submitted cmd cwd cmdOffset outputStart else a) := by
    intro a ha
    split
    next hoid =>
        have heq := h.table.eq_of_oid ha hr hoid
        subst heq
        refine Or.inr (Moves.submitted (h.table.shaped a ha) hopen hprompt hcmd ?_)
        intro b hb hbt
        exact hends b hb (hbt.trans ht)
    next => exact Or.inl rfl
  have hkept : Kept s.nextOID s.rows s.nextOID
      (updateRow r.oid (CmdBlock.submitted cmd cwd cmdOffset outputStart) s.rows) :=
    Kept.map hsame hmoves
  refine ⟨h.change (h.table.map hsame hmoves) hkept rfl rfl rfl ?_ ?_, hkept⟩
  · intro a ha hne
    exact mem_of_updateRow (CmdBlock.submitted cmd cwd cmdOffset outputStart)
      (fun _ => ⟨rfl, rfl, rfl, rfl⟩) hown ha hne
  · refine ⟨h.self.parser, ?_, ?_, ?_, ?_, h.self.once, h.self.only, ?_⟩
    · intro a ha hat
      obtain ⟨b, hb, ⟨-, heq⟩ | ⟨-, heq⟩⟩ := mem_updateRow ha
      all_goals
        rw [heq] at hat ⊢
        exact h.self.block b hb hat
    · intro a ha hat x hx
      obtain ⟨b, hb, ⟨hoid, heq⟩ | ⟨-, heq⟩⟩ := mem_updateRow ha
      · have hbr := h.table.eq_of_oid hb hr hoid
        subst hbr
        have hend := (h.table.shaped b hb).end_none hopen
        rw [heq] at hx
        simp [CmdBlock.offsets, CmdBlock.submitted, hend] at hx
        dsimp only
        omega
      · rw [heq] at hx hat
        exact h.self.inside b hb hat x hx
    · intro oid hoid
      exact (h.self.current oid hoid).kept hkept
    · intro c hc
      exact (h.self.calls c hc).kept hkept (Nat.le_refl _)
    · intro a ha hopen' hat
      obtain ⟨b, hb, ⟨hoid, heq⟩ | ⟨-, heq⟩⟩ := mem_updateRow ha
      · have hbr := h.table.eq_of_oid hb hr hoid
        subst hbr
        rw [heq]
        exact h.self.held b hb hopen ht
      · rw [heq] at hopen' hat ⊢
        exact h.self.held b hb hopen' hat

end Submission

section Finishing

variable {r : CmdBlock} {exitCode : Int} {outputEnd : Nat}

/-- What the end of an open row comes to: no row of the tracker is open. -/
structure Closed (s : State) (t : Nat) (tr : Tracker) (outputEnd : Nat)
    (rows : List CmdBlock) : Prop where
  table : Table s.nextOID rows
  kept : Kept s.nextOID s.rows s.nextOID rows
  closed : ∀ a ∈ rows, a.tracker = t → a.state = .done
  block : ∀ a ∈ rows, a.tracker = t → a.blockID = tr.blockID
  inside : ∀ a ∈ rows, a.tracker = t → ∀ x ∈ a.offsets, x ≤ tr.parser.Offset
  others : ∀ a ∈ rows, a.tracker ≠ t → a ∈ s.rows
  ends : ∀ a ∈ rows, a.tracker = t → ∀ e ∈ a.outputEndOffset, e = outputEnd ∨
    ∃ b ∈ s.rows, b.tracker = t ∧ e ∈ b.outputEndOffset

theorem Core.markCommandDone (h : Core s t tr) (hr : r ∈ s.rows) (hown : s.Own t r.oid)
    (hopen : r.state ≠ .done) (hstart : ∀ st ∈ r.outputStartOffset, st ≤ outputEnd)
    (hinside : outputEnd ≤ tr.parser.Offset) :
    ∃ rows, MarkCommandDone r.oid exitCode outputEnd s.rows = some rows ∧
      Closed s t tr outputEnd rows := by
  have ht := hown.2 r hr rfl
  have hfind : s.rows.find? (fun a => a.oid = r.oid) = some r := by
    cases hfound : s.rows.find? (fun a => a.oid = r.oid) with
    | none =>
      have hnone := List.find?_eq_none.mp hfound r hr
      simp at hnone
    | some cb =>
      have hmem := List.mem_of_find?_eq_some hfound
      have hoid : cb.oid = r.oid := by simpa using List.find?_some hfound
      rw [h.table.eq_of_oid hmem hr hoid]
  rw [MarkCommandDone, hfind]
  dsimp only
  split
  next hprompt =>
      refine ⟨_, rfl, h.table.filter _, Kept.filter ?_, ?_, ?_, ?_, ?_, ?_⟩
      · intro a ha hdone
        have hne : a.oid ≠ r.oid := by
          intro hoid
          rw [h.table.eq_of_oid ha hr hoid] at hdone
          exact hopen hdone
        simpa using hne
      · intro a ha hat
        obtain ⟨hmem, hne⟩ := List.mem_filter.mp ha
        by_contra hopen'
        have heq := h.open_unique hmem hr hat ht hopen' hopen
        simp [heq] at hne
      · exact fun a ha hat => h.self.block a (List.mem_of_mem_filter ha) hat
      · exact fun a ha hat => h.self.inside a (List.mem_of_mem_filter ha) hat
      · exact fun a ha _ => List.mem_of_mem_filter ha
      · exact fun a ha hat e he => Or.inr ⟨a, List.mem_of_mem_filter ha, hat, he⟩
  next hprompt =>
      have hrunning : r.state = .running := by
        cases hstate : r.state with
        | prompt => exact absurd hstate hprompt
        | running => rfl
        | done => exact absurd hstate hopen
      have hsame : ∀ a : CmdBlock,
          a.Same (if a.oid = r.oid then a.finished exitCode outputEnd else a) := by
        intro a
        split <;> exact ⟨rfl, rfl, rfl, rfl⟩
      have hmoves : ∀ a ∈ s.rows,
          (if a.oid = r.oid then a.finished exitCode outputEnd else a) = a ∨
          Moves s.rows a (if a.oid = r.oid then a.finished exitCode outputEnd else a) := by
        intro a ha
        split
        next hoid =>
            have heq := h.table.eq_of_oid ha hr hoid
            subst heq
            exact Or.inr (Moves.finished (h.table.shaped a ha) hrunning hstart)
        next => exact Or.inl rfl
      refine ⟨_, rfl, h.table.map hsame hmoves, Kept.map hsame hmoves, ?_, ?_, ?_, ?_, ?_⟩
      · intro a ha hat
        obtain ⟨b, hb, ⟨-, heq⟩ | ⟨hoid, heq⟩⟩ := mem_updateRow ha
        · rw [heq]
          rfl
        · rw [heq] at hat ⊢
          by_contra hopen'
          have hbr := h.open_unique hb hr hat ht hopen' hopen
          exact hoid (by rw [hbr])
      · intro a ha hat
        obtain ⟨b, hb, ⟨-, heq⟩ | ⟨-, heq⟩⟩ := mem_updateRow ha
        all_goals
          rw [heq] at hat ⊢
          exact h.self.block b hb hat
      · intro a ha hat x hx
        obtain ⟨b, hb, ⟨-, heq⟩ | ⟨-, heq⟩⟩ := mem_updateRow ha
        · rw [heq] at hx hat
          have hold : x ∈ b.offsets ∨ x = outputEnd := by
            simp only [CmdBlock.offsets, CmdBlock.finished, List.mem_cons,
              List.reduceOption_mem_iff, List.not_mem_nil, or_false, Option.some.injEq] at hx ⊢
            grind
          rcases hold with hold | hnew
          · exact h.self.inside b hb hat x hold
          · rw [hnew]
            exact hinside
        · rw [heq] at hx hat
          exact h.self.inside b hb hat x hx
      · intro a ha hne
        exact mem_of_updateRow (CmdBlock.finished exitCode outputEnd)
          (fun _ => ⟨rfl, rfl, rfl, rfl⟩) hown ha hne
      · intro a ha hat e he
        obtain ⟨b, hb, ⟨-, heq⟩ | ⟨-, heq⟩⟩ := mem_updateRow ha
        · rw [heq] at he
          rw [CmdBlock.finished, Option.mem_some_iff] at he
          exact Or.inl he.symm
        · rw [heq] at he hat
          exact Or.inr ⟨b, hb, hat, he⟩

theorem Core.close (h : Core s t tr) {rows : List CmdBlock}
    (hclosed : Closed s t tr outputEnd rows) {tr' : Tracker}
    (hblock : tr'.blockID = tr.blockID) (hparser : tr'.parser = tr.parser)
    (hcurrent : ∀ oid ∈ tr'.currentOID, oid ∈ tr.currentOID)
    (hcalls : ∀ c ∈ tr'.calls, c ∈ tr.calls ∨ c.Sound { s with rows := rows } t tr')
    (honce : tr'.startedOIDs.Nodup)
    (honly : ∀ oid ∈ tr'.startedOIDs, tr'.currentOID ≠ some oid ∧
      ∀ c ∈ tr'.calls, c.finishingOID ≠ some oid) :
    Core { s with rows := rows } t tr' := by
  refine h.change hclosed.table hclosed.kept rfl rfl hblock hclosed.others ?_
  refine ⟨?_, ?_, ?_, ?_, ?_, honce, honly, ?_⟩
  · rw [hparser]
    exact h.self.parser
  · rw [hblock]
    exact hclosed.block
  · rw [hparser]
    exact hclosed.inside
  · intro oid hoid
    exact (h.self.current oid (hcurrent oid hoid)).kept hclosed.kept
  · intro c hc
    rcases hcalls c hc with hold | hnew
    · exact (h.self.calls c hold).kept hclosed.kept (Nat.le_of_eq (by rw [hparser]))
    · exact hnew
  · intro a ha hopen ht
    exact absurd (hclosed.closed a ha ht) hopen

end Finishing

end CommandBlocks

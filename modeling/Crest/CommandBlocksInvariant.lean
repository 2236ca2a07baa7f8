import Crest.CommandBlocksTable

/-!
# What a tracker knows of its rows

The open row of a block is in the hands of the registered tracker: it is the current one,
or a `StartDirectCommand` has inserted it and is about to make it the current one.  The
offsets of a tracker's rows lie inside the stream that it was fed, and those that the
parser reported lie behind the sequences to come.
-/

namespace CommandBlocks

/-- The row that a call has inserted and not made current yet. -/
def Call.startedOID : Call → Option Nat
  | .started oid _ => some oid
  | _ => none

/-- The row that a call is going to finish. -/
def Call.finishingOID : Call → Option Nat
  | .finishing oid _ _ => some oid
  | _ => none

/-- The rows that calls of the tracker have inserted and not made current yet. -/
def Tracker.startedOIDs (tr : Tracker) : List Nat := tr.calls.filterMap Call.startedOID

/-- An open row is in the hands of the tracker. -/
def Tracker.Held (tr : Tracker) (oid : Nat) : Prop :=
  tr.currentOID = some oid ∨ oid ∈ tr.startedOIDs

/-- An id that was given to a row of the tracker. -/
def State.Own (s : State) (t : Nat) (oid : Nat) : Prop :=
  oid < s.nextOID ∧ ∀ r ∈ s.rows, r.oid = oid → r.tracker = t

/-- What a call under way has read still makes sense. -/
def Call.Sound (s : State) (t : Nat) (tr : Tracker) : Call → Prop
  | .starting _ _ _ outputStart => outputStart ≤ tr.parser.Offset
  | .started oid _ => s.Own t oid
  | .finishing oid _ outputEnd => s.Own t oid ∧ outputEnd ≤ tr.parser.Offset
  | .finished oid => s.Own t oid ∧ ∀ r ∈ s.rows, r.oid = oid → r.state = .done

structure TrackerSound (s : State) (t : Nat) (tr : Tracker) : Prop where
  parser : OscParser.Unfinished tr.parser.buf
  block : ∀ r ∈ s.rows, r.tracker = t → r.blockID = tr.blockID
  inside : ∀ r ∈ s.rows, r.tracker = t → ∀ x ∈ r.offsets, x ≤ tr.parser.Offset
  current : ∀ oid ∈ tr.currentOID, s.Own t oid
  calls : ∀ c ∈ tr.calls, c.Sound s t tr
  /-- A row that was inserted and not made current is so once, and nowhere else. -/
  once : tr.startedOIDs.Nodup
  only : ∀ oid ∈ tr.startedOIDs,
    tr.currentOID ≠ some oid ∧ ∀ c ∈ tr.calls, c.finishingOID ≠ some oid
  held : ∀ r ∈ s.rows, r.state ≠ .done → r.tracker = t →
    s.byBlock r.blockID = some t ∧ tr.Held r.oid

/-- What the parser reported of an open row lies behind. -/
def Behind (rows : List CmdBlock) (t : Nat) (lo : Nat) : Prop :=
  ∀ r ∈ rows, r.tracker = t → r.state ≠ .done → ¬ r.Direct →
    r.promptOffset ≤ lo ∧ ∀ st ∈ r.outputStartOffset, st ≤ lo

theorem Behind.mono {rows : List CmdBlock} {t lo lo' : Nat} (h : Behind rows t lo)
    (hle : lo ≤ lo') : Behind rows t lo' := by
  intro r hr ht hopen hdirect
  obtain ⟨hprompt, hstart⟩ := h r hr ht hopen hdirect
  exact ⟨Nat.le_trans hprompt hle, fun st hst => Nat.le_trans (hstart st hst) hle⟩

/-- The invariant, with one tracker at hand. -/
structure Core (s : State) (t : Nat) (tr : Tracker) : Prop where
  table : Table s.nextOID s.rows
  there : t < s.trackers.length
  self : TrackerSound s t tr
  others : ∀ t' tr', t' ≠ t → s.trackers[t']? = some tr' →
    TrackerSound s t' tr' ∧ Behind s.rows t' tr'.parser.bufBase
  owner : ∀ r ∈ s.rows, r.tracker < s.trackers.length
  registered : ∀ b t', s.byBlock b = some t' →
    if t' = t then tr.blockID = b
    else ∃ tr', s.trackers[t']? = some tr' ∧ tr'.blockID = b

structure Inv (s : State) : Prop where
  table : Table s.nextOID s.rows
  trackers : ∀ t tr, s.trackers[t]? = some tr →
    TrackerSound s t tr ∧ Behind s.rows t tr.parser.bufBase
  owner : ∀ r ∈ s.rows, r.tracker < s.trackers.length
  registered : ∀ b t, s.byBlock b = some t →
    ∃ tr, s.trackers[t]? = some tr ∧ tr.blockID = b

variable {t : Nat} {s : State} {tr : Tracker}

theorem Inv.core (h : Inv s) (ht : s.trackers[t]? = some tr) :
    Core s t tr ∧ Behind s.rows t tr.parser.bufBase := by
  obtain ⟨hself, hbehind⟩ := h.trackers t tr ht
  refine ⟨⟨h.table, ?_, hself, ?_, h.owner, ?_⟩, hbehind⟩
  · by_contra hlt
    rw [List.getElem?_eq_none (by omega)] at ht
    simp at ht
  · intro t' tr' _ ht'
    exact h.trackers t' tr' ht'
  · intro b t' hb
    obtain ⟨tr', ht', hblock⟩ := h.registered b t' hb
    split
    next heq =>
        subst heq
        rw [ht] at ht'
        cases ht'
        exact hblock
    next => exact ⟨tr', ht', hblock⟩

theorem Core.install (h : Core s t tr) (hbehind : Behind s.rows t tr.parser.bufBase) :
    Inv (s.setTracker t tr) := by
  have hself : (s.setTracker t tr).trackers[t]? = some tr := by
    simp [State.setTracker, h.there]
  have hother : ∀ {t' : Nat}, t' ≠ t → (s.setTracker t tr).trackers[t']? = s.trackers[t']? := by
    intro t' hne
    simp only [State.setTracker]
    exact List.getElem?_set_ne (Ne.symm hne)
  refine ⟨h.table, ?_, ?_, ?_⟩
  · intro t' tr' ht'
    by_cases heq : t' = t
    · subst heq
      rw [hself] at ht'
      cases ht'
      exact ⟨⟨h.self.parser, h.self.block, h.self.inside, h.self.current, h.self.calls,
        h.self.once, h.self.only, h.self.held⟩, hbehind⟩
    · rw [hother heq] at ht'
      obtain ⟨hsound, hb⟩ := h.others t' tr' heq ht'
      exact ⟨⟨hsound.parser, hsound.block, hsound.inside, hsound.current, hsound.calls,
        hsound.once, hsound.only, hsound.held⟩, hb⟩
  · intro r hr
    rw [State.setTracker, List.length_set]
    exact h.owner r hr
  · intro b t' hb
    have hreg := h.registered b t' hb
    split at hreg
    next heq =>
        subst heq
        exact ⟨tr, hself, hreg⟩
    next hne =>
        obtain ⟨tr', ht', hblock⟩ := hreg
        exact ⟨tr', by rw [hother hne]; exact ht', hblock⟩

variable {s' : State}

theorem State.Own.kept {oid : Nat} (h : s.Own t oid)
    (hkept : Kept s.nextOID s.rows s'.nextOID s'.rows) :
    s'.Own t oid := by
  refine ⟨Nat.lt_of_lt_of_le h.1 hkept.next, ?_⟩
  intro r' hr' heq
  obtain ⟨r, hr, hsame, -, -⟩ := hkept.old r' hr' (by rw [heq]; exact h.1)
  rw [hsame.tracker]
  exact h.2 r hr (hsame.oid.symm.trans heq)

theorem Call.Sound.kept {tr' : Tracker} {c : Call} (h : c.Sound s t tr)
    (hkept : Kept s.nextOID s.rows s'.nextOID s'.rows)
    (hoffset : tr.parser.Offset ≤ tr'.parser.Offset) :
    c.Sound s' t tr' := by
  cases c with
  | starting cmd cwd shellType outputStart => exact Nat.le_trans h hoffset
  | started oid shellType => exact State.Own.kept h hkept
  | finishing oid exitCode outputEnd =>
    exact ⟨h.1.kept hkept, Nat.le_trans h.2 hoffset⟩
  | finished oid =>
    obtain ⟨hown, hdone⟩ := h
    refine ⟨hown.kept hkept, ?_⟩
    intro r' hr' heq
    obtain ⟨r, hr, hsame, -, hd⟩ := hkept.old r' hr' (by rw [heq]; exact hown.1)
    have hstate := hdone r hr (hsame.oid.symm.trans heq)
    rw [hd hstate]
    exact hstate

theorem TrackerSound.frame (h : TrackerSound s t tr)
    (hkept : Kept s.nextOID s.rows s'.nextOID s'.rows) (hby : s'.byBlock = s.byBlock)
    (hnew : ∀ r ∈ s'.rows, r.tracker = t → r ∈ s.rows) :
    TrackerSound s' t tr where
  parser := h.parser
  block := fun r hr ht => h.block r (hnew r hr ht) ht
  inside := fun r hr ht => h.inside r (hnew r hr ht) ht
  current := fun oid hoid => (h.current oid hoid).kept hkept
  calls := fun c hc => (h.calls c hc).kept hkept (Nat.le_refl _)
  once := h.once
  only := h.only
  held := fun r hr hopen ht => hby ▸ h.held r (hnew r hr ht) hopen ht

theorem Behind.frame {rows rows' : List CmdBlock} {lo : Nat} (h : Behind rows t lo)
    (hnew : ∀ r ∈ rows', r.tracker = t → r ∈ rows) :
    Behind rows' t lo := fun r hr ht => h r (hnew r hr ht) ht

theorem Core.change {tr' : Tracker} (h : Core s t tr) (htable : Table s'.nextOID s'.rows)
    (hkept : Kept s.nextOID s.rows s'.nextOID s'.rows) (hby : s'.byBlock = s.byBlock)
    (htrackers : s'.trackers = s.trackers) (hblock : tr'.blockID = tr.blockID)
    (hnew : ∀ r ∈ s'.rows, r.tracker ≠ t → r ∈ s.rows) (hself : TrackerSound s' t tr') :
    Core s' t tr' := by
  refine ⟨htable, ?_, hself, ?_, ?_, ?_⟩
  · rw [htrackers]
    exact h.there
  · intro t' tr'' hne ht'
    rw [htrackers] at ht'
    obtain ⟨hsound, hbehind⟩ := h.others t' tr'' hne ht'
    have hnew' : ∀ r ∈ s'.rows, r.tracker = t' → r ∈ s.rows :=
      fun r hr ht => hnew r hr (by rw [ht]; exact hne)
    exact ⟨hsound.frame hkept hby hnew', hbehind.frame hnew'⟩
  · intro r hr
    rw [htrackers]
    by_cases ht : r.tracker = t
    · rw [ht]
      exact h.there
    · exact h.owner r (hnew r hr ht)
  · intro b t' hb
    rw [hby] at hb
    rw [htrackers, hblock]
    exact h.registered b t' hb

section Rows

variable {rows : List CmdBlock} {r : CmdBlock}

theorem CmdBlock.Shaped.end_none (h : r.Shaped) (hopen : r.state ≠ .done) :
    r.outputEndOffset = none := by
  cases hstate : r.state with
  | prompt => exact (h.prompt hstate).2.2
  | running => exact (h.running hstate).2
  | done => exact absurd hstate hopen

theorem CmdBlock.end_mem_offsets {e : Nat} (he : e ∈ r.outputEndOffset) : e ∈ r.offsets := by
  rw [Option.mem_def] at he
  unfold CmdBlock.offsets
  rw [he]
  cases r.cmdOffset <;> cases r.outputStartOffset <;> simp

theorem Moves.submitted {cmd cwd : String} {cmdOffset outputStart : Nat}
    (hshaped : r.Shaped) (hopen : r.state ≠ .done) (hprompt : r.promptOffset ≤ cmdOffset)
    (hcmd : cmdOffset ≤ outputStart)
    (hends : ∀ a ∈ rows, a.tracker = r.tracker → ∀ e ∈ a.outputEndOffset, e ≤ outputStart) :
    Moves rows r (r.submitted cmd cwd cmdOffset outputStart) := by
  have hend := hshaped.end_none hopen
  refine ⟨hopen, ?_, ⟨?_, ?_, ?_, ?_⟩, Or.inr ?_⟩
  · cases hstate : r.state with
    | prompt => exact Nat.zero_le _
    | running => exact Nat.le_refl _
    | done => exact absurd hstate hopen
  · simp [CmdBlock.offsets, CmdBlock.submitted, hend]
    omega
  · simp [CmdBlock.submitted]
  · simp [CmdBlock.submitted, hend]
  · simp [CmdBlock.Direct, CmdBlock.submitted]
  · intro a ha ht e he st hst
    cases hst
    exact hends a ha ht e he

theorem Moves.finished {exitCode : Int} {outputEnd : Nat} (hshaped : r.Shaped)
    (hrunning : r.state = .running) (hstart : ∀ st ∈ r.outputStartOffset, st ≤ outputEnd) :
    Moves rows r (r.finished exitCode outputEnd) := by
  obtain ⟨hsome, hend⟩ := hshaped.running hrunning
  obtain ⟨st, hst⟩ := Option.isSome_iff_exists.mp hsome
  have hle := hstart st hst
  have hordered := hshaped.ordered
  refine ⟨by simp [hrunning], ?_, ⟨?_, ?_, ?_, ?_⟩, Or.inl rfl⟩
  · rw [hrunning]
    exact Nat.le_succ 1
  · cases hcmd : r.cmdOffset with
    | none | some _ =>
      simp [CmdBlock.offsets, hcmd, hst, hend] at hordered
      simp [CmdBlock.offsets, CmdBlock.finished, hcmd, hst]
      omega
  · simp [CmdBlock.finished]
  · simp [CmdBlock.finished]
  · simp [CmdBlock.Direct, CmdBlock.finished]

theorem Moves.interrupted (hshaped : r.Shaped) (hrunning : r.state = .running) :
    Moves rows r r.interrupted := by
  refine ⟨by simp [hrunning], ?_, ⟨hshaped.ordered, ?_, ?_, ?_⟩, Or.inl rfl⟩
  · rw [hrunning]
    exact Nat.le_succ 1
  · simp [CmdBlock.interrupted]
  · simp [CmdBlock.interrupted]
  · simp [CmdBlock.Direct, CmdBlock.interrupted]

end Rows

end CommandBlocks

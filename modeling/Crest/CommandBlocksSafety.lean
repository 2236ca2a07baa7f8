import Crest.CommandBlocksEvents
import Crest.Runs
import Crest.Slots
import Mathlib.Data.List.Nodup

/-!
# The life of a command block

In a run whose steps all come in the right place every block has at most one row that is
not done, in the hands of its registered tracker; a row moves forward only and stays as it
is when it is done; and the offsets of a tracker's rows are in order, inside the stream
that the tracker was fed, with output ranges one behind the other.
-/

namespace CommandBlocks

open Slots

variable (d : Decoders) {s : State} {t : Nat} {tr : Tracker}

attribute [local simp] MakePromptStarted MakeDirectCommandStarted Call.finishingOID

section Sequences

/-- What one sequence, or several, leave as it was. -/
structure Frame (s : State) (tr : Tracker) (result : Tracker × State) : Prop where
  byBlock : result.2.byBlock = s.byBlock
  trackers : result.2.trackers = s.trackers
  making : result.2.making = s.making
  blockID : result.1.blockID = tr.blockID
  parser : result.1.parser = tr.parser
  calls : result.1.calls = tr.calls

theorem Frame.trans {result result' : Tracker × State} (h : Frame s tr result)
    (h' : Frame result.2 result.1 result') :
    Frame s tr result' :=
  ⟨h'.byBlock.trans h.byBlock, h'.trackers.trans h.trackers, h'.making.trans h.making,
    h'.blockID.trans h.blockID, h'.parser.trans h.parser, h'.calls.trans h.calls⟩

/-- What a sequence in the right place comes to. -/
structure Handled (s : State) (t : Nat) (tr : Tracker) (hi : Nat)
    (result : Tracker × State) : Prop where
  core : Core result.2 t result.1
  frame : Frame s tr result
  kept : Kept s.nextOID s.rows result.2.nextOID result.2.rows
  behind : Behind result.2.rows t hi

theorem Handled.refl {lo hi : Nat} (h : Core s t tr) (hbehind : Behind s.rows t lo)
    (hle : lo ≤ hi) : Handled s t tr hi (tr, s) :=
  ⟨h, ⟨rfl, rfl, rfl, rfl, rfl, rfl⟩, Kept.refl _ _, hbehind.mono hle⟩

theorem newRow_prompt {offset : Nat} (hle : offset ≤ tr.parser.Offset) :
    NewRow s t tr
      (MakePromptStarted s.rows s.nextOID tr.blockID offset tr.shellType t) := by
  refine ⟨rfl, rfl, rfl, rfl, ⟨?_, ?_, ?_, ?_⟩, ?_, ?_⟩
  · simp [CmdBlock.offsets]
  · simp
  · simp
  · simp [CmdBlock.Direct]
  · simpa [CmdBlock.offsets] using hle
  · simp

theorem newRow_direct {cmd cwd shellType : String} {offset : Nat}
    (hle : offset ≤ tr.parser.Offset) (hends : Ends s.rows t offset) :
    NewRow s t tr
      (MakeDirectCommandStarted s.rows s.nextOID tr.blockID cmd cwd offset shellType t) := by
  refine ⟨rfl, rfl, rfl, rfl, ⟨?_, ?_, ?_, ?_⟩, ?_, ?_⟩
  · simp [CmdBlock.offsets]
  · simp
  · simp
  · simp
  · simpa [CmdBlock.offsets] using hle
  · intro a ha ht e he st hst
    cases hst
    exact hends a ha ht e he

variable {lo : Nat}

theorem offsets_le_of_ok {offset : Nat} {r : CmdBlock} (hshaped : r.Shaped)
    (hbehind : ¬ r.Direct → r.promptOffset ≤ lo ∧ ∀ st ∈ r.outputStartOffset, st ≤ lo)
    (hdirect : r.Direct → r.promptOffset ≤ offset) (hle : lo ≤ offset) :
    r.promptOffset ≤ offset ∧ ∀ st ∈ r.outputStartOffset, st ≤ offset := by
  by_cases hd : r.Direct
  · refine ⟨hdirect hd, ?_⟩
    intro st hst
    rw [hshaped.direct hd, Option.mem_some_iff] at hst
    exact hst ▸ hdirect hd
  · obtain ⟨hprompt, hstart⟩ := hbehind hd
    exact ⟨Nat.le_trans hprompt hle, fun st hst => Nat.le_trans (hstart st hst) hle⟩

variable {hi : Nat} {ev : OscParser.Event}

section

variable (h : Core s t tr) (hbehind : Behind s.rows t lo)
include h hbehind

theorem handle_A (hcommand : ev.command = cmdA) (hok : EventOk s t tr ev) (hlo : lo ≤ hi)
    (hoffset : ev.offset ≤ hi) (hinside : hi ≤ tr.parser.Offset) :
    Handled s t tr hi (handleEvent d t tr s ev) ∧
      ∀ x, Ends s.rows t x → Ends (handleEvent d t tr s ev).2.rows t x := by
  rw [EventOk, if_pos hcommand] at hok
  rw [handleEvent, if_pos hcommand]
  have hrow : NewRow s t tr
      (MakePromptStarted s.rows s.nextOID tr.blockID ev.offset tr.shellType t) :=
    newRow_prompt (Nat.le_trans hoffset hinside)
  have hold : ∀ oid ∈ tr.startedOIDs, oid < s.nextOID := by
    intro oid hoid
    obtain ⟨c, hc, hstarted⟩ := List.mem_filterMap.mp hoid
    have hsound := h.self.calls c hc
    cases c with
    | started o shellType =>
      cases hstarted
      exact hsound.1
    | _ => simp [Call.startedOID] at hstarted
  refine ⟨⟨?_, ⟨rfl, rfl, rfl, rfl, rfl, rfl⟩, Kept.append rfl, ?_⟩, ?_⟩
  · refine h.insert hok.1 hok.2 hrow rfl rfl (Or.inr rfl) (fun c hc => Or.inl hc)
      h.self.once ?_ (Or.inl rfl)
    intro oid hoid
    refine ⟨?_, (h.self.only oid hoid).2⟩
    have hlt := hold oid hoid
    intro heq
    rw [Option.some.injEq] at heq
    omega
  · intro a ha ht hopen hdirect
    rcases List.mem_append.mp ha with ha | ha
    · exact hbehind.mono hlo a ha ht hopen hdirect
    · rw [List.mem_singleton.mp ha]
      exact ⟨hoffset, by simp⟩
  · intro x hx a ha ht e he
    rcases List.mem_append.mp ha with ha | ha
    · exact hx a ha ht e he
    · rw [List.mem_singleton.mp ha] at he
      simp at he

theorem handle_C (hcommand : ev.command = cmdC) (hok : EventOk s t tr ev) (hlo : lo ≤ ev.offset)
    (hstop : ev.stop ≤ hi) (hinside : hi ≤ tr.parser.Offset) (hends : Ends s.rows t ev.stop) :
    Handled s t tr hi (handleEvent d t tr s ev) ∧
      ∀ x, Ends s.rows t x → Ends (handleEvent d t tr s ev).2.rows t x := by
  have hne : cmdC ≠ cmdA := by decide
  have hlt : ev.offset ≤ ev.stop := Nat.le_add_right _ _
  rw [EventOk, hcommand, if_neg hne, if_pos (Or.inl rfl)] at hok
  rw [handleEvent, hcommand, if_neg hne, if_pos rfl]
  cases hcurrent : tr.currentOID with
  | none => exact ⟨Handled.refl h hbehind (by omega), fun _ hx => hx⟩
  | some oid =>
    dsimp only
    cases hfind : s.rows.find? (fun a => a.oid = oid) with
    | none =>
      rw [MarkCommandSubmitted, hfind]
      exact ⟨Handled.refl h hbehind (by omega), fun _ hx => hx⟩
    | some r =>
      have hr := List.mem_of_find?_eq_some hfind
      have hoid : r.oid = oid := by simpa using List.find?_some hfind
      subst hoid
      rw [MarkCommandSubmitted, hfind]
      dsimp only
      obtain ⟨hopen, hdirect⟩ := hok r hr hcurrent
      have ht := (h.self.current r.oid hcurrent).2 r hr rfl
      obtain ⟨hprompt, -⟩ := offsets_le_of_ok (h.table.shaped r hr)
        (hbehind r hr ht hopen) hdirect hlo
      obtain ⟨hcore, hkept⟩ := h.submit hr hcurrent hopen hprompt hlt
        (Nat.le_trans hstop hinside) hends
      rw [hcurrent] at hcore
      refine ⟨⟨hcore, ⟨rfl, rfl, rfl, rfl, rfl, rfl⟩, hkept, ?_⟩, ?_⟩
      · intro a ha hat hopen' hdirect'
        obtain ⟨b, hb, ⟨hoid, heq⟩ | ⟨-, heq⟩⟩ := mem_updateRow ha
        · have hbr := h.table.eq_of_oid hb hr hoid
          subst hbr
          rw [heq]
          refine ⟨?_, ?_⟩
          · dsimp only [CmdBlock.submitted]
            omega
          · intro st hst
            cases hst
            exact hstop
        · rw [heq] at hat hopen' hdirect' ⊢
          exact hbehind.mono (by omega) b hb hat hopen' hdirect'
      · intro x hx a ha hat e he
        obtain ⟨b, hb, ⟨-, heq⟩ | ⟨-, heq⟩⟩ := mem_updateRow ha
        all_goals
          rw [heq] at hat he
          exact hx b hb hat e he

theorem handle_D (hcommand : ev.command = cmdD) (hok : EventOk s t tr ev) (hlo : lo ≤ ev.offset)
    (hstop : ev.stop ≤ hi) (hinside : hi ≤ tr.parser.Offset) :
    Handled s t tr hi (handleEvent d t tr s ev) ∧
      ∀ x, ev.stop ≤ x → Ends s.rows t x → Ends (handleEvent d t tr s ev).2.rows t x := by
  have hne : cmdD ≠ cmdA := by decide
  have hne' : cmdD ≠ cmdC := by decide
  have hlt : ev.offset ≤ ev.stop := Nat.le_add_right _ _
  rw [EventOk, hcommand, if_neg hne, if_pos (Or.inr rfl)] at hok
  rw [handleEvent, hcommand, if_neg hne, if_neg hne', if_pos rfl]
  cases hcurrent : tr.currentOID with
  | none => exact ⟨Handled.refl h hbehind (by omega), fun _ _ hx => hx⟩
  | some oid =>
    dsimp only
    have honly : ∀ o ∈ tr.startedOIDs, (none : Option Nat) ≠ some o ∧
        ∀ c ∈ tr.calls, c.finishingOID ≠ some o :=
      fun o ho => ⟨by simp, (h.self.only o ho).2⟩
    cases hfind : s.rows.find? (fun a => a.oid = oid) with
    | none =>
      rw [MarkCommandDone, hfind]
      refine ⟨⟨?_, ⟨rfl, rfl, rfl, rfl, rfl, rfl⟩, Kept.refl _ _,
        hbehind.mono (by omega)⟩, fun _ _ hx => hx⟩
      refine h.change h.table (Kept.refl _ _) rfl rfl rfl (fun a ha _ => ha) ?_
      refine ⟨h.self.parser, h.self.block, h.self.inside, by simp, ?_, h.self.once,
        honly, ?_⟩
      · intro c hc
        exact (h.self.calls c hc).kept (Kept.refl _ _) (Nat.le_refl _)
      · intro r hr hopen ht
        obtain ⟨hby, hheld⟩ := h.self.held r hr hopen ht
        refine ⟨hby, Or.inr ?_⟩
        rcases hheld with hcur | hstarted
        · rw [hcurrent, Option.some.injEq] at hcur
          have hnone := List.find?_eq_none.mp hfind r hr
          simp [hcur] at hnone
        · exact hstarted
    | some r =>
      have hr := List.mem_of_find?_eq_some hfind
      have hoid : r.oid = oid := by simpa using List.find?_some hfind
      subst hoid
      have hown := h.self.current r.oid hcurrent
      have ht := hown.2 r hr rfl
      obtain ⟨hopen, hdirect⟩ := hok r hr hcurrent
      obtain ⟨-, hstart⟩ := offsets_le_of_ok (h.table.shaped r hr)
        (hbehind r hr ht hopen) hdirect hlo
      have hdone : ∃ rows, MarkCommandDone r.oid (decodeExitCode d ev.payload) ev.offset
          s.rows = some rows ∧ Closed s t tr ev.offset rows :=
        h.markCommandDone hr hown hopen hstart (by omega)
      obtain ⟨rows, hrows, hclosed⟩ := hdone
      rw [hrows]
      dsimp only [Option.getD_some]
      refine ⟨⟨?_, ⟨rfl, rfl, rfl, rfl, rfl, rfl⟩, hclosed.kept, ?_⟩, ?_⟩
      · exact h.close hclosed rfl rfl (by simp) (fun c hc => Or.inl hc) h.self.once honly
      · intro a ha hat hopen' _
        exact absurd (hclosed.closed a ha hat) hopen'
      · intro x hx hends a ha hat e he
        rcases hclosed.ends a ha hat e he with heq | ⟨b, hb, hbt, hbe⟩
        · omega
        · exact hends b hb hbt e hbe

theorem handle_other (hA : ev.command ≠ cmdA) (hC : ev.command ≠ cmdC) (hD : ev.command ≠ cmdD)
    (hlo : lo ≤ hi) :
    Handled s t tr hi (handleEvent d t tr s ev) ∧ (handleEvent d t tr s ev).2 = s := by
  rw [handleEvent, if_neg hA, if_neg hC, if_neg hD]
  split
  · refine ⟨?_, rfl⟩
    dsimp only
    split
    · exact Handled.refl h hbehind hlo
    · refine ⟨?_, ⟨rfl, rfl, rfl, rfl, rfl, rfl⟩, Kept.refl _ _, hbehind.mono hlo⟩
      refine h.change h.table (Kept.refl _ _) rfl rfl rfl (fun a ha _ => ha) ?_
      refine ⟨h.self.parser, h.self.block, h.self.inside, h.self.current, ?_, h.self.once,
        h.self.only, h.self.held⟩
      intro c hc
      exact (h.self.calls c hc).kept (Kept.refl _ _) (Nat.le_refl _)
  · exact ⟨Handled.refl h hbehind hlo, rfl⟩

theorem handleEvent_handled
    (hok : EventOk s t tr ev) (hlo : lo ≤ ev.offset) (hinside : ev.stop ≤ tr.parser.Offset)
    (hends : Ends s.rows t ev.stop) :
    Handled s t tr ev.stop (handleEvent d t tr s ev) ∧
      ∀ x, ev.stop ≤ x → Ends s.rows t x → Ends (handleEvent d t tr s ev).2.rows t x := by
  have hlt : ev.offset ≤ ev.stop := Nat.le_add_right _ _
  by_cases hA : ev.command = cmdA
  · obtain ⟨hhandled, hrest⟩ :=
      handle_A d h hbehind hA hok (Nat.le_trans hlo hlt) hlt hinside
    exact ⟨hhandled, fun x _ => hrest x⟩
  by_cases hC : ev.command = cmdC
  · obtain ⟨hhandled, hrest⟩ :=
      handle_C d h hbehind hC hok hlo (Nat.le_refl _) hinside hends
    exact ⟨hhandled, fun x _ => hrest x⟩
  by_cases hD : ev.command = cmdD
  · exact handle_D d h hbehind hD hok hlo (Nat.le_refl _) hinside
  · obtain ⟨hhandled, hsame⟩ := handle_other d h hbehind hA hC hD (Nat.le_trans hlo hlt)
    rw [hsame]
    exact ⟨hhandled, fun _ _ hx => hx⟩

end

/-- Every sequence of a chunk comes in the right place. -/
def EventsOk (t : Nat) : State → Tracker → List OscParser.Event → Prop
  | _, _, [] => True
  | s, tr, ev :: rest =>
    EventOk s t tr ev ∧
      EventsOk t (handleEvent d t tr s ev).2 (handleEvent d t tr s ev).1 rest

instance decidableEventsOk (t : Nat) : (s : State) → (tr : Tracker) →
    (events : List OscParser.Event) → Decidable (EventsOk d t s tr events)
  | _, _, [] => inferInstanceAs (Decidable True)
  | s, tr, ev :: rest =>
    have := decidableEventsOk t (handleEvent d t tr s ev).2 (handleEvent d t tr s ev).1 rest
    inferInstanceAs (Decidable (EventOk s t tr ev ∧
      EventsOk d t (handleEvent d t tr s ev).2 (handleEvent d t tr s ev).1 rest))

/-- **The sequences of a chunk, each in the right place.** -/
theorem handleEvents_handled {events : List OscParser.Event} (h : Core s t tr)
    (hbehind : Behind s.rows t lo) (hspans : OscParser.Spans lo events hi)
    (hok : EventsOk d t s tr events) (hinside : hi ≤ tr.parser.Offset)
    (hends : ∀ ev ∈ events, Ends s.rows t ev.stop) :
    Handled s t tr hi (handleEvents d t tr s events) := by
  induction events generalizing s tr lo with
  | nil => exact Handled.refl h hbehind hspans
  | cons ev rest ih =>
    obtain ⟨hfirst, hrest⟩ := hok
    have hstop := (hspans.mem List.mem_cons_self).2
    obtain ⟨hlo, hspans⟩ := hspans
    obtain ⟨hhandled, hlater⟩ := handleEvent_handled d h hbehind hfirst hlo (by omega)
      (hends ev List.mem_cons_self)
    have hnext := ih hhandled.core hhandled.behind hspans hrest
      (by rw [hhandled.frame.parser]; exact hinside) ?_
    · exact ⟨hnext.core, hhandled.frame.trans hnext.frame, hhandled.kept.trans hnext.kept,
        hnext.behind⟩
    · intro ev' hev'
      have hafter : ev.stop ≤ ev'.stop :=
        Nat.le_trans (hspans.mem hev').1 (Nat.le_add_right _ _)
      exact hlater ev'.stop hafter (hends ev' (List.mem_cons_of_mem _ hev'))

end Sequences

section Calls

/-- When a call may be taken up. -/
def CallOk (s : State) (t : Nat) (tr : Tracker) : Call → Prop
  | .starting _ _ _ outputStart =>
    s.byBlock tr.blockID = some t ∧
      (∀ r ∈ s.rows, r.blockID = tr.blockID → r.state = .done) ∧
      ∀ r ∈ s.rows, r.tracker = t → ∀ e ∈ r.outputEndOffset, e ≤ outputStart
  | .started oid _ => ∀ r ∈ s.rows, r.tracker = t → r.state ≠ .done → r.oid = oid
  | .finishing oid _ outputEnd =>
    ∀ r ∈ s.rows, r.oid = oid →
      r.state ≠ .done ∧ ∀ st ∈ r.outputStartOffset, st ≤ outputEnd
  | .finished _ => True

theorem split_at {α : Type*} {l : List α} {i : Nat} {c : α} (h : l[i]? = some c) :
    ∃ before after, l = before ++ c :: after ∧ l.eraseIdx i = before ++ after ∧
      ∀ c', l.set i c' = before ++ c' :: after := by
  induction l generalizing i with
  | nil => simp at h
  | cons x l ih =>
    cases i with
    | zero =>
      rw [List.getElem?_cons_zero, Option.some.injEq] at h
      subst h
      exact ⟨[], l, rfl, rfl, fun _ => rfl⟩
    | succ i =>
      rw [List.getElem?_cons_succ] at h
      obtain ⟨before, after, rfl, herase, hset⟩ := ih h
      refine ⟨x :: before, after, rfl, ?_, ?_⟩
      · rw [List.eraseIdx_cons_succ, herase, List.cons_append]
      · intro c'
        rw [List.set_cons_succ, hset, List.cons_append]

/-- What taking up a call comes to. -/
structure Resumed (s : State) (t : Nat) (lo : Nat) (result : Tracker × State) : Prop where
  core : Core result.2 t result.1
  kept : Kept s.nextOID s.rows result.2.nextOID result.2.rows
  behind : Behind result.2.rows t lo

theorem Core.startedOID_lt (h : Core s t tr) {oid : Nat} (hoid : oid ∈ tr.startedOIDs) :
    oid < s.nextOID := by
  obtain ⟨c, hc, hstarted⟩ := List.mem_filterMap.mp hoid
  have hsound := h.self.calls c hc
  cases c with
  | started o shellType =>
    cases hstarted
    exact hsound.1
  | _ => simp [Call.startedOID] at hstarted

theorem Core.finishingOID_lt (h : Core s t tr) {c : Call} (hc : c ∈ tr.calls) {oid : Nat}
    (hoid : c.finishingOID = some oid) : oid < s.nextOID := by
  have hsound := h.self.calls c hc
  cases c with
  | finishing o exitCode outputEnd =>
    cases hoid
    exact hsound.1.1
  | _ => simp at hoid

theorem Core.rearrange (h : Core s t tr) {tr' : Tracker} (hblock : tr'.blockID = tr.blockID)
    (hparser : tr'.parser = tr.parser) (hcurrent : ∀ oid ∈ tr'.currentOID, s.Own t oid)
    (hcalls : ∀ c ∈ tr'.calls, c ∈ tr.calls) (honce : tr'.startedOIDs.Nodup)
    (honly : ∀ oid ∈ tr'.startedOIDs, tr'.currentOID ≠ some oid ∧
      ∀ c ∈ tr'.calls, c.finishingOID ≠ some oid)
    (hheld : ∀ r ∈ s.rows, r.state ≠ .done → r.tracker = t → tr.Held r.oid → tr'.Held r.oid) :
    Core s t tr' := by
  refine h.change h.table (Kept.refl _ _) rfl rfl hblock (fun a ha _ => ha) ?_
  refine ⟨?_, ?_, ?_, hcurrent, ?_, honce, honly, ?_⟩
  · rw [hparser]
    exact h.self.parser
  · rw [hblock]
    exact h.self.block
  · rw [hparser]
    exact h.self.inside
  · intro c hc
    exact (h.self.calls c (hcalls c hc)).kept (Kept.refl _ _) (Nat.le_of_eq (by rw [hparser]))
  · intro r hr hopen ht
    obtain ⟨hby, hold⟩ := h.self.held r hr hopen ht
    exact ⟨hby, hheld r hr hopen ht hold⟩

variable {i lo : Nat}

variable (h : Core s t tr)
include h

theorem resume_starting (hbehind : Behind s.rows t lo)
    {cmd cwd shellType : String} {outputStart : Nat}
    (hc : tr.calls[i]? = some (.starting cmd cwd shellType outputStart))
    (hok : CallOk s t tr (.starting cmd cwd shellType outputStart)) :
    Resumed s t lo (resumeCall t tr s i (.starting cmd cwd shellType outputStart)) := by
  obtain ⟨hreg, hclosed, hends⟩ := hok
  obtain ⟨before, after, hsplit, -, hset⟩ := split_at hc
  have hsound := h.self.calls _ (List.mem_of_getElem? hc)
  have hstarted : tr.startedOIDs =
      before.filterMap Call.startedOID ++ after.filterMap Call.startedOID := by
    rw [Tracker.startedOIDs, hsplit]
    simp [List.filterMap_cons, Call.startedOID]
  have hnew : (before ++ Call.started s.nextOID shellType :: after).filterMap
      Call.startedOID = before.filterMap Call.startedOID ++
        s.nextOID :: after.filterMap Call.startedOID := by
    simp [Call.startedOID]
  have hfresh : s.nextOID ∉ tr.startedOIDs := fun hmem =>
    Nat.lt_irrefl _ (h.startedOID_lt hmem)
  have hmem : ∀ c ∈ before ++ Call.started s.nextOID shellType :: after,
      c ∈ tr.calls ∨ c = .started s.nextOID shellType := by
    intro c hc
    rw [hsplit]
    simp only [List.mem_append, List.mem_cons] at hc ⊢
    tauto
  simp only [resumeCall, hset]
  refine ⟨?_, Kept.append rfl, ?_⟩
  · refine h.insert hreg hclosed (newRow_direct hsound hends) rfl rfl (Or.inl rfl) ?_ ?_ ?_ ?_
    · intro c hc
      rcases hmem c hc with hold | hnew
      · exact Or.inl hold
      · rw [hnew]
        exact Or.inr rfl
    · rw [Tracker.startedOIDs, hnew, List.nodup_middle, ← hstarted]
      exact List.nodup_cons.mpr ⟨hfresh, h.self.once⟩
    · intro oid hoid
      rw [Tracker.startedOIDs, hnew] at hoid
      have hcases : oid = s.nextOID ∨ oid ∈ tr.startedOIDs := by
        rw [hstarted]
        simp only [List.mem_append, List.mem_cons] at hoid ⊢
        tauto
      rcases hcases with rfl | hold
      · refine ⟨?_, ?_⟩
        · intro hcurrent
          exact Nat.lt_irrefl _ (h.self.current _ hcurrent).1
        · intro c hc hfinishing
          rcases hmem c hc with hc | rfl
          · exact Nat.lt_irrefl _ (h.finishingOID_lt hc hfinishing)
          · simp at hfinishing
      · refine ⟨(h.self.only oid hold).1, ?_⟩
        intro c hc hfinishing
        rcases hmem c hc with hc | rfl
        · exact (h.self.only oid hold).2 c hc hfinishing
        · simp at hfinishing
    · refine Or.inr ?_
      rw [Tracker.startedOIDs, hnew]
      simp
  · intro a ha ht hopen hdirect
    rcases List.mem_append.mp ha with ha | ha
    · exact hbehind a ha ht hopen hdirect
    · rw [List.mem_singleton.mp ha] at hdirect
      exact absurd ⟨rfl, rfl⟩ hdirect

theorem resume_started (hbehind : Behind s.rows t lo) {oid : Nat}
    {shellType : String} (hc : tr.calls[i]? = some (.started oid shellType))
    (hok : CallOk s t tr (.started oid shellType)) :
    Resumed s t lo (resumeCall t tr s i (.started oid shellType)) := by
  obtain ⟨before, after, hsplit, herase, -⟩ := split_at hc
  have hsound := h.self.calls _ (List.mem_of_getElem? hc)
  have hstarted : tr.startedOIDs =
      before.filterMap Call.startedOID ++ oid :: after.filterMap Call.startedOID := by
    rw [Tracker.startedOIDs, hsplit]
    simp [Call.startedOID]
  have hrest : (before ++ after).filterMap Call.startedOID =
      before.filterMap Call.startedOID ++ after.filterMap Call.startedOID := by simp
  have honce := h.self.once
  rw [hstarted, List.nodup_middle, List.nodup_cons] at honce
  have hold : ∀ o ∈ (before ++ after).filterMap Call.startedOID, o ∈ tr.startedOIDs := by
    intro o ho
    rw [hrest, List.mem_append] at ho
    rw [hstarted, List.mem_append, List.mem_cons]
    tauto
  have hmem : ∀ c ∈ before ++ after, c ∈ tr.calls := by
    intro c hc
    rw [hsplit]
    simp only [List.mem_append, List.mem_cons] at hc ⊢
    tauto
  simp only [resumeCall, herase]
  refine ⟨?_, Kept.refl _ _, hbehind⟩
  refine h.rearrange rfl rfl ?_ hmem ?_ ?_ ?_
  · intro o ho
    rw [Option.mem_some_iff] at ho
    exact ho ▸ hsound
  · rw [Tracker.startedOIDs, hrest]
    exact honce.2
  · intro o ho
    rw [Tracker.startedOIDs] at ho
    refine ⟨?_, fun c hc => (h.self.only o (hold o ho)).2 c (hmem c hc)⟩
    intro heq
    rw [Option.some.injEq] at heq
    subst heq
    rw [hrest] at ho
    exact honce.1 ho
  · intro r hr hopen ht _
    refine Or.inl ?_
    rw [hok r hr ht hopen]

theorem Core.erase {c : Call} (hc : tr.calls[i]? = some c)
    (hnone : c.startedOID = none) {tr' : Tracker} (hblock : tr'.blockID = tr.blockID)
    (hparser : tr'.parser = tr.parser) (hcurrent : ∀ oid ∈ tr'.currentOID, oid ∈ tr.currentOID)
    (hcalls : tr'.calls = tr.calls.eraseIdx i)
    (hheld : ∀ r ∈ s.rows, r.state ≠ .done → r.tracker = t →
      tr.currentOID = some r.oid → tr'.currentOID = some r.oid) :
    Core s t tr' := by
  obtain ⟨before, after, hsplit, herase, -⟩ := split_at hc
  have hstarted : tr'.startedOIDs = tr.startedOIDs := by
    rw [Tracker.startedOIDs, Tracker.startedOIDs, hcalls, herase, hsplit]
    simp [hnone]
  have hmem : ∀ c ∈ tr'.calls, c ∈ tr.calls := by
    intro c hc
    rw [hcalls] at hc
    exact List.mem_of_mem_eraseIdx hc
  refine h.rearrange hblock hparser ?_ hmem ?_ ?_ ?_
  · exact fun oid hoid => h.self.current oid (hcurrent oid hoid)
  · rw [hstarted]
    exact h.self.once
  · rw [hstarted]
    intro oid hoid
    obtain ⟨hne, hfinishing⟩ := h.self.only oid hoid
    exact ⟨fun heq => hne (hcurrent oid heq), fun c hc => hfinishing c (hmem c hc)⟩
  · intro r hr hopen ht hold
    rcases hold with hcur | hstart
    · exact Or.inl (hheld r hr hopen ht hcur)
    · exact Or.inr (by rwa [hstarted])

variable (hbehind : Behind s.rows t lo)
include hbehind

theorem resume_finishing {oid outputEnd : Nat} {exitCode : Int}
    (hc : tr.calls[i]? = some (.finishing oid exitCode outputEnd))
    (hok : CallOk s t tr (.finishing oid exitCode outputEnd)) :
    Resumed s t lo (resumeCall t tr s i (.finishing oid exitCode outputEnd)) := by
  have hmem := List.mem_of_getElem? hc
  obtain ⟨hown, hinside⟩ := h.self.calls _ hmem
  rw [resumeCall]
  cases hfind : s.rows.find? (fun a => a.oid = oid) with
  | none =>
    rw [MarkCommandDone, hfind]
    refine ⟨?_, Kept.refl _ _, hbehind⟩
    exact h.erase hc rfl rfl rfl (fun _ ho => ho) rfl (fun _ _ _ _ ho => ho)
  | some r =>
    have hr := List.mem_of_find?_eq_some hfind
    have hoid : r.oid = oid := by simpa using List.find?_some hfind
    subst hoid
    obtain ⟨hopen, hstart⟩ := hok r hr rfl
    have hdone : ∃ rows, MarkCommandDone r.oid exitCode outputEnd s.rows = some rows ∧
        Closed s t tr outputEnd rows := h.markCommandDone hr hown hopen hstart hinside
    obtain ⟨rows, hrows, hclosed⟩ := hdone
    obtain ⟨before, after, hsplit, -, hset⟩ := split_at hc
    have hstarted : (before ++ Call.finished r.oid :: after).filterMap Call.startedOID =
        tr.startedOIDs := by
      rw [Tracker.startedOIDs, hsplit]
      simp [List.filterMap_cons, Call.startedOID]
    have hcalls : ∀ c ∈ before ++ Call.finished r.oid :: after,
        c ∈ tr.calls ∨ c = .finished r.oid := by
      intro c hc
      rw [hsplit]
      simp only [List.mem_append, List.mem_cons] at hc ⊢
      tauto
    rw [hrows]
    simp only [hset]
    refine ⟨?_, hclosed.kept, ?_⟩
    · refine h.close hclosed rfl rfl (fun _ ho => ho) ?_ ?_ ?_
      · intro c hc
        rcases hcalls c hc with hold | rfl
        · exact Or.inl hold
        · refine Or.inr ⟨hown.kept hclosed.kept, ?_⟩
          intro a ha hoid
          exact hclosed.closed a ha ((hown.kept hclosed.kept).2 a ha hoid)
      · rw [Tracker.startedOIDs, hstarted]
        exact h.self.once
      · intro o ho
        rw [Tracker.startedOIDs, hstarted] at ho
        obtain ⟨hne, hfinishing⟩ := h.self.only o ho
        refine ⟨hne, ?_⟩
        intro c hc
        rcases hcalls c hc with hold | rfl
        · exact hfinishing c hold
        · simp
    · intro a ha ht hopen' _
      exact absurd (hclosed.closed a ha ht) hopen'

theorem resume_finished {oid : Nat} (hc : tr.calls[i]? = some (.finished oid)) :
    Resumed s t lo (resumeCall t tr s i (.finished oid)) := by
  obtain ⟨-, hdone⟩ := h.self.calls _ (List.mem_of_getElem? hc)
  rw [resumeCall]
  refine ⟨?_, Kept.refl _ _, hbehind⟩
  dsimp only
  split
  next hcurrent =>
      refine h.erase hc rfl rfl rfl (by simp) rfl ?_
      intro r hr hopen _ hcur
      rw [hcurrent, Option.some.injEq] at hcur
      exact absurd (hdone r hr hcur.symm) hopen
  next => exact h.erase hc rfl rfl rfl (fun _ ho => ho) rfl (fun _ _ _ _ ho => ho)

/-- **A call that is taken up at the right moment.** -/
theorem resumeCall_resumed {c : Call} (hc : tr.calls[i]? = some c) (hok : CallOk s t tr c) :
    Resumed s t lo (resumeCall t tr s i c) := by
  cases c with
  | starting cmd cwd shellType outputStart => exact resume_starting h hbehind hc hok
  | started oid shellType => exact resume_started h hbehind hc hok
  | finishing oid exitCode outputEnd => exact resume_finishing h hbehind hc hok
  | finished oid => exact resume_finished h hbehind hc

end Calls

section Steps

instance (s : State) (t : Nat) (tr : Tracker) : (c : Call) → Decidable (CallOk s t tr c)
  | .starting _ _ _ outputStart =>
    inferInstanceAs (Decidable (s.byBlock tr.blockID = some t ∧
      (∀ r ∈ s.rows, r.blockID = tr.blockID → r.state = .done) ∧
      ∀ r ∈ s.rows, r.tracker = t → ∀ e ∈ r.outputEndOffset, e ≤ outputStart))
  | .started oid _ =>
    inferInstanceAs (Decidable (∀ r ∈ s.rows, r.tracker = t → r.state ≠ .done → r.oid = oid))
  | .finishing oid _ outputEnd =>
    inferInstanceAs (Decidable (∀ r ∈ s.rows, r.oid = oid →
      r.state ≠ .done ∧ ∀ st ∈ r.outputStartOffset, st ≤ outputEnd))
  | .finished _ => inferInstanceAs (Decidable True)

/-- When a step comes in the right place: each sequence of a chunk does; a call is taken up
at the right moment; and a new tracker is registered when no row of its block is open. -/
def StepOk (s : State) : Event → Prop
  | .onBytes t chunk =>
    ∀ tr ∈ s.trackers[t]?,
      EventsOk d t s { tr with parser := (tr.parser.Feed chunk).2 } (tr.parser.Feed chunk).1
  | .resume t i => ∀ tr ∈ s.trackers[t]?, ∀ c ∈ tr.calls[i]?, CallOk s t tr c
  | .register i => ∀ b ∈ s.making[i]?, ∀ r ∈ s.rows, r.blockID = b → r.state = .done
  | _ => True

instance (s : State) : (e : Event) → Decidable (StepOk d s e)
  | .onBytes t chunk =>
    inferInstanceAs (Decidable (∀ tr ∈ s.trackers[t]?,
      EventsOk d t s { tr with parser := (tr.parser.Feed chunk).2 }
        (tr.parser.Feed chunk).1))
  | .resume t i =>
    inferInstanceAs (Decidable (∀ tr ∈ s.trackers[t]?, ∀ c ∈ tr.calls[i]?, CallOk s t tr c))
  | .register i =>
    inferInstanceAs (Decidable (∀ b ∈ s.making[i]?, ∀ r ∈ s.rows,
      r.blockID = b → r.state = .done))
  | .startDirectCommand _ _ _ _ | .finishRunningCommand _ _ | .makeTracker _ =>
    inferInstanceAs (Decidable True)

/-- What a step comes to. -/
structure Stepped (s s' : State) : Prop where
  inv : Inv s'
  kept : Kept s.nextOID s.rows s'.nextOID s'.rows

theorem Core.feed (h : Core s t tr) (chunk : List UInt8) :
    Core s t { tr with parser := (tr.parser.Feed chunk).2 } := by
  have hoffset : tr.parser.Offset ≤ (tr.parser.Feed chunk).2.Offset := by
    rw [OscParser.Offset_Feed]
    exact Nat.le_add_right _ _
  refine h.change h.table (Kept.refl _ _) rfl rfl rfl (fun a ha _ => ha) ?_
  refine ⟨OscParser.Feed_unfinished h.self.parser, h.self.block, ?_, h.self.current, ?_,
    h.self.once, h.self.only, h.self.held⟩
  · intro r hr ht x hx
    exact Nat.le_trans (h.self.inside r hr ht x hx) hoffset
  · intro c hc
    exact (h.self.calls c hc).kept (Kept.refl _ _) hoffset

theorem step_onBytes (h : Inv s) {t : Nat} {chunk : List UInt8}
    (hok : StepOk d s (.onBytes t chunk)) :
    Stepped s (step d s (.onBytes t chunk)) := by
  rw [step]
  cases ht : s.trackers[t]? with
  | none => exact ⟨h, Kept.refl _ _⟩
  | some tr =>
    obtain ⟨hcore, hbehind⟩ := h.core ht
    have hfed : (tr.parser.Feed chunk).2.bufBase ≤ (tr.parser.Feed chunk).2.Offset :=
      Nat.le_add_right _ _
    have hends : ∀ ev ∈ (tr.parser.Feed chunk).1, Ends s.rows t ev.stop := by
      intro ev hev r hr hrt e he
      have hinside := hcore.self.inside r hr hrt e (CmdBlock.end_mem_offsets he)
      have hlt := OscParser.offset_lt_stop hcore.self.parser hev
      omega
    have hhandled := handleEvents_handled d (hcore.feed chunk) hbehind
      (OscParser.Feed_spans tr.parser chunk) (hok tr ht) hfed hends
    refine ⟨hhandled.core.install ?_, hhandled.kept⟩
    rw [hhandled.frame.parser]
    exact hhandled.behind

theorem step_resume (h : Inv s) {t i : Nat} (hok : StepOk d s (.resume t i)) :
    Stepped s (step d s (.resume t i)) := by
  rw [step]
  cases ht : s.trackers[t]? with
  | none => exact ⟨h, Kept.refl _ _⟩
  | some tr =>
    dsimp only
    cases hc : tr.calls[i]? with
    | none => exact ⟨h, Kept.refl _ _⟩
    | some c =>
      obtain ⟨hcore, hbehind⟩ := h.core ht
      have hresumed := resumeCall_resumed hcore hbehind hc (hok tr ht c hc)
      refine ⟨hresumed.core.install ?_, hresumed.kept⟩
      have hparser : (resumeCall t tr s i c).1.parser = tr.parser := by
        cases c with
        | starting _ _ _ _ | started _ _ => rfl
        | finishing oid exitCode outputEnd =>
          rw [resumeCall]
          split <;> rfl
        | finished oid =>
          rw [resumeCall]
          dsimp only
          split <;> rfl
      rw [hparser]
      exact hresumed.behind

theorem Core.call (h : Core s t tr) {c : Call} (hsound : c.Sound s t tr)
    (hnone : c.startedOID = none)
    (hfinishing : ∀ oid, c.finishingOID = some oid → tr.currentOID = some oid) :
    Core s t { tr with calls := tr.calls ++ [c] } := by
  have hstarted : ({ tr with calls := tr.calls ++ [c] } : Tracker).startedOIDs =
      tr.startedOIDs := by
    simp [Tracker.startedOIDs, hnone]
  refine h.change h.table (Kept.refl _ _) rfl rfl rfl (fun a ha _ => ha) ?_
  refine ⟨h.self.parser, h.self.block, h.self.inside, h.self.current, ?_, ?_, ?_, ?_⟩
  · intro c' hc'
    rcases List.mem_append.mp hc' with hold | hnew
    · exact (h.self.calls c' hold).kept (Kept.refl _ _) (Nat.le_refl _)
    · rw [List.mem_singleton.mp hnew]
      exact hsound.kept (Kept.refl _ _) (Nat.le_refl _)
  · rw [hstarted]
    exact h.self.once
  · rw [hstarted]
    intro oid hoid
    obtain ⟨hne, hothers⟩ := h.self.only oid hoid
    refine ⟨hne, ?_⟩
    intro c' hc' hf
    rcases List.mem_append.mp hc' with hold | hnew
    · exact hothers c' hold hf
    · rw [List.mem_singleton.mp hnew] at hf
      exact hne (hfinishing oid hf)
  · intro r hr hopen ht
    obtain ⟨hby, hheld⟩ := h.self.held r hr hopen ht
    exact ⟨hby, hheld.imp id fun hmem => by rwa [hstarted]⟩

theorem step_startDirectCommand (h : Inv s) (t : Nat) (cmd cwd shellType : String) :
    Stepped s (step d s (.startDirectCommand t cmd cwd shellType)) := by
  rw [step]
  cases ht : s.trackers[t]? with
  | none => exact ⟨h, Kept.refl _ _⟩
  | some tr =>
    obtain ⟨hcore, hbehind⟩ := h.core ht
    have hcall := hcore.call (c := .starting cmd cwd shellType tr.parser.Offset)
      (Nat.le_refl _) rfl (by simp)
    exact ⟨hcall.install hbehind, Kept.refl _ _⟩

theorem step_finishRunningCommand (h : Inv s) (t : Nat) (exitCode : Int) :
    Stepped s (step d s (.finishRunningCommand t exitCode)) := by
  rw [step]
  cases ht : s.trackers[t]? with
  | none => exact ⟨h, Kept.refl _ _⟩
  | some tr =>
    obtain ⟨hcore, hbehind⟩ := h.core ht
    dsimp only
    split
    · exact ⟨h, Kept.refl _ _⟩
    next oid hoid =>
        have hcall := hcore.call (c := .finishing oid exitCode tr.parser.Offset)
          ⟨hcore.self.current oid hoid, Nat.le_refl _⟩ rfl
          (by intro o ho
              rw [Call.finishingOID, Option.some.injEq] at ho
              rw [hoid, ho])
        exact ⟨hcall.install hbehind, Kept.refl _ _⟩

theorem step_makeTracker (h : Inv s) (blockID : String) :
    Stepped s (step d s (.makeTracker blockID)) := by
  have hsame : ∀ r : CmdBlock, r.Same
      (if r.blockID = blockID ∧ r.state = .running then r.interrupted else r) := by
    intro r
    split <;> exact ⟨rfl, rfl, rfl, rfl⟩
  have hmoves : ∀ r ∈ s.rows,
      (if r.blockID = blockID ∧ r.state = .running then r.interrupted else r) = r ∨
      Moves s.rows r
        (if r.blockID = blockID ∧ r.state = .running then r.interrupted else r) := by
    intro r hr
    split
    next hcond => exact Or.inr (Moves.interrupted (h.table.shaped r hr) hcond.2)
    next => exact Or.inl rfl
  have hkept : Kept s.nextOID s.rows s.nextOID (MarkRunningAsInterrupted blockID s.rows) :=
    Kept.map hsame hmoves
  -- a row that is still open has not been touched
  have hrow : ∀ r' ∈ MarkRunningAsInterrupted blockID s.rows,
      ∃ r ∈ s.rows, r.tracker = r'.tracker ∧ r.blockID = r'.blockID ∧
        r.offsets = r'.offsets ∧ (r'.state ≠ .done → r' = r) := by
    intro r' hr'
    obtain ⟨r, hr, rfl⟩ := List.mem_map.mp hr'
    refine ⟨r, hr, ?_⟩
    split
    · exact ⟨rfl, rfl, rfl, fun hopen => absurd rfl hopen⟩
    · exact ⟨rfl, rfl, rfl, fun _ => rfl⟩
  rw [step]
  refine ⟨⟨h.table.map hsame hmoves, ?_, ?_, h.registered⟩, hkept⟩
  · intro t tr ht
    obtain ⟨hsound, hbehind⟩ := h.trackers t tr ht
    refine ⟨⟨hsound.parser, ?_, ?_, ?_, ?_, hsound.once, hsound.only, ?_⟩, ?_⟩
    · intro r' hr' hrt
      obtain ⟨r, hr, htracker, hblock, -, -⟩ := hrow r' hr'
      rw [← hblock]
      exact hsound.block r hr (htracker.trans hrt)
    · intro r' hr' hrt x hx
      obtain ⟨r, hr, htracker, -, hoffsets, -⟩ := hrow r' hr'
      exact hsound.inside r hr (htracker.trans hrt) x (by rw [hoffsets]; exact hx)
    · exact fun oid hoid => (hsound.current oid hoid).kept hkept
    · exact fun c hc => (hsound.calls c hc).kept hkept (Nat.le_refl _)
    · intro r' hr' hopen hrt
      obtain ⟨r, hr, -, -, -, hsame⟩ := hrow r' hr'
      have heq := hsame hopen
      subst heq
      exact hsound.held _ hr hopen hrt
    · intro r' hr' hrt hopen hdirect
      obtain ⟨r, hr, -, -, -, hsame⟩ := hrow r' hr'
      have heq := hsame hopen
      subst heq
      exact hbehind _ hr hrt hopen hdirect
  · intro r' hr'
    obtain ⟨r, hr, htracker, -⟩ := hrow r' hr'
    rw [← htracker]
    exact h.owner r hr

theorem step_register (h : Inv s) {i : Nat} (hok : StepOk d s (.register i)) :
    Stepped s (step d s (.register i)) := by
  rw [step]
  cases hb : s.making[i]? with
  | none => exact ⟨h, Kept.refl _ _⟩
  | some b =>
    have hclosed := hok b hb
    refine ⟨⟨h.table, ?_, ?_, ?_⟩, Kept.refl _ _⟩
    · intro t tr ht
      dsimp only at ht
      rcases getElem?_concat_iff.mp ht with ht | ⟨rfl, rfl⟩
      · obtain ⟨hsound, hbehind⟩ := h.trackers t tr ht
        refine ⟨⟨hsound.parser, hsound.block, hsound.inside, hsound.current, hsound.calls,
          hsound.once, hsound.only, ?_⟩, hbehind⟩
        intro r hr hopen hrt
        obtain ⟨hby, hheld⟩ := hsound.held r hr hopen hrt
        refine ⟨?_, hheld⟩
        have hne : r.blockID ≠ b := fun heq => hopen (hclosed r hr heq)
        dsimp only
        rw [if_neg hne]
        exact hby
      · have hnone : ∀ r ∈ s.rows, r.tracker ≠ s.trackers.length := by
          intro r hr
          exact Nat.ne_of_lt (h.owner r hr)
        refine ⟨⟨?_, ?_, ?_, by simp, by simp, by simp [Tracker.startedOIDs],
          by simp [Tracker.startedOIDs], ?_⟩, ?_⟩
        · intro k hk
          simp [OscParser.MakeParser, OscParser.terminator]
        · exact fun r hr hrt => absurd hrt (hnone r hr)
        · exact fun r hr hrt => absurd hrt (hnone r hr)
        · exact fun r hr _ hrt => absurd hrt (hnone r hr)
        · exact fun r hr hrt => absurd hrt (hnone r hr)
    · intro r hr
      rw [List.length_append]
      exact Nat.lt_add_right _ (h.owner r hr)
    · intro b' t hby
      dsimp only at hby ⊢
      split at hby
      next heq =>
          rw [Option.some.injEq] at hby
          subst hby
          exact ⟨_, List.getElem?_concat_length, heq.symm⟩
      next =>
          obtain ⟨tr, ht, hblock⟩ := h.registered b' t hby
          exact ⟨tr, getElem?_concat_iff.mpr (.inl ht), hblock⟩

/-- **A step in the right place.** -/
theorem step_stepped (h : Inv s) {e : Event} (hok : StepOk d s e) :
    Stepped s (step d s e) := by
  cases e with
  | onBytes t chunk => exact step_onBytes d h hok
  | startDirectCommand t cmd cwd shellType => exact step_startDirectCommand d h t cmd cwd shellType
  | finishRunningCommand t exitCode => exact step_finishRunningCommand d h t exitCode
  | resume t i => exact step_resume d h hok
  | makeTracker blockID => exact step_makeTracker d h blockID
  | register i => exact step_register d h hok

theorem init_inv : Inv init where
  table := ⟨by simp [init], by simp [init], by simp [init]⟩
  trackers := by simp [init]
  owner := by simp [init]
  registered := by simp [init]

end Steps

section Runs

/-- What is to hold at every moment: of a block at most one row is not done, and it is in
the hands of the registered tracker; the offsets of a row are in order and inside the
stream; and the output ranges of a tracker's rows do not overlap. -/
structure Sound (s : State) : Prop where
  single : ∀ r ∈ s.rows, r.state ≠ .done →
    (∀ r' ∈ s.rows, r'.blockID = r.blockID → r'.state ≠ .done → r' = r) ∧
    ∃ t tr, s.byBlock r.blockID = some t ∧ s.trackers[t]? = some tr ∧
      (tr.currentOID = some r.oid ∨ ∃ shellType, Call.started r.oid shellType ∈ tr.calls)
  offsets : ∀ r ∈ s.rows, r.offsets.Pairwise (· ≤ ·) ∧
    ∃ tr, s.trackers[r.tracker]? = some tr ∧ ∀ x ∈ r.offsets, x ≤ tr.parser.Offset
  ranges : ∀ a ∈ s.rows, ∀ b ∈ s.rows, a.tracker = b.tracker → a.seq < b.seq →
    ∀ e ∈ a.outputEndOffset, ∀ st ∈ b.outputStartOffset, e ≤ st

theorem Inv.sound (h : Inv s) : Sound s := by
  have htracker : ∀ r ∈ s.rows, ∃ tr, s.trackers[r.tracker]? = some tr ∧
      TrackerSound s r.tracker tr := by
    intro r hr
    have hget := List.getElem?_eq_getElem (h.owner r hr)
    exact ⟨_, hget, (h.trackers _ _ hget).1⟩
  refine ⟨?_, ?_, ?_⟩
  · intro r hr hopen
    refine ⟨?_, ?_⟩
    · intro r' hr' hblock hopen'
      exact h.table.open_unique hr' hr hblock hopen' hopen
    · obtain ⟨tr, hget, hsound⟩ := htracker r hr
      obtain ⟨hby, hheld⟩ := hsound.held r hr hopen rfl
      refine ⟨r.tracker, tr, hby, hget, ?_⟩
      rcases hheld with hcurrent | hstarted
      · exact Or.inl hcurrent
      · obtain ⟨c, hc, hoid⟩ := List.mem_filterMap.mp hstarted
        cases c with
        | started o shellType =>
          cases hoid
          exact Or.inr ⟨shellType, hc⟩
        | _ => simp [Call.startedOID] at hoid
  · intro r hr
    obtain ⟨tr, hget, hsound⟩ := htracker r hr
    exact ⟨(h.table.shaped r hr).ordered, tr, hget, hsound.inside r hr rfl⟩
  · intro a ha b hb ht hseq e he st hst
    rcases h.table.cases ha hb with heq | hab | hba
    · rw [heq] at hseq
      exact absurd hseq (Nat.lt_irrefl _)
    · exact hab.ranges ht e he st hst
    · have hlt := hba.seq (hba.block ht.symm)
      omega

theorem run_stepped (h : Inv s) {events : List Event}
    (hok : Runs.Guarded (step d) (StepOk d) s events) :
    Stepped s (Runs.run (step d) s events) := by
  induction events generalizing s with
  | nil => exact ⟨h, Kept.refl _ _⟩
  | cons e rest ih =>
    obtain ⟨hfirst, hrest⟩ := hok
    have hstep := step_stepped d h hfirst
    have hlater := ih hstep.inv hrest
    exact ⟨hlater.inv, hstep.kept.trans hlater.kept⟩

/-- **The life of a command block.**  In a run whose steps all come in the right place the
table is sound at every moment, and what happens to its rows between any two moments is
that they move forward, or go, and stay as they are when they are done. -/
theorem life_cycle (before after : List Event)
    (hok : Runs.Guarded (step d) (StepOk d) init before)
    (hok' : Runs.Guarded (step d) (StepOk d) (Runs.run (step d) init before) after) :
    Sound (Runs.run (step d) init before) ∧
    Kept (Runs.run (step d) init before).nextOID (Runs.run (step d) init before).rows
      (Runs.run (step d) init (before ++ after)).nextOID
      (Runs.run (step d) init (before ++ after)).rows := by
  have hbefore := run_stepped d init_inv hok
  refine ⟨hbefore.inv.sound, ?_⟩
  rw [Runs.run_append]
  exact (run_stepped d hbefore.inv hok').kept

/-- A sequence without payload. -/
def sequence (command : List UInt8) : List UInt8 := OscParser.oscPrefix ++ command ++ [0x07]

/-- What is decoded where no payload is. -/
def noPayload : Decoders := ⟨fun _ => ("", ""), fun _ => -1, fun _ => ""⟩

def promptAndCommand : List Event :=
  [.makeTracker "b", .register 0, .onBytes 0 (sequence cmdA ++ sequence cmdC),
    .onBytes 0 (sequence cmdD)]

/-- A direct command from its start to its end. -/
def directCommand : List Event :=
  [.startDirectCommand 0 "ls" "" "", .resume 0 0, .resume 0 0, .finishRunningCommand 0 0,
    .resume 0 0, .resume 0 0]

/-- A prompt with its command, and then a direct command. -/
theorem life_cycle_of_commands :
    Sound (Runs.run (step noPayload) init promptAndCommand) ∧
    Kept (Runs.run (step noPayload) init promptAndCommand).nextOID
      (Runs.run (step noPayload) init promptAndCommand).rows
      (Runs.run (step noPayload) init (promptAndCommand ++ directCommand)).nextOID
      (Runs.run (step noPayload) init (promptAndCommand ++ directCommand)).rows :=
  life_cycle noPayload promptAndCommand directCommand (by decide +kernel) (by decide +kernel)

/-- A prompt that the shell repeats. -/
def repeatedPrompt : List Event :=
  [.makeTracker "b", .register 0, .onBytes 0 (sequence cmdA), .onBytes 0 (sequence cmdA)]

/-- **A repeated prompt leaves an orphan:** two rows are open. -/
theorem repeated_prompt_leaves_orphan :
    ¬ Sound (Runs.run (step noPayload) init repeatedPrompt) := by
  intro hsound
  have hunique : ∀ r ∈ (Runs.run (step noPayload) init repeatedPrompt).rows, r.state ≠ .done →
      ∀ r' ∈ (Runs.run (step noPayload) init repeatedPrompt).rows,
        r'.blockID = r.blockID → r'.state ≠ .done → r' = r :=
    fun r hr hopen => (hsound.single r hr hopen).1
  revert hunique
  decide +kernel

end Runs

end CommandBlocks

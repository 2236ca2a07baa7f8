import Crest.TurnTransactions

/-!
# What is offered and what can be planned

Both sides come down to the same two questions: does a checkpoint close the turn,
and what do the committed markers after it allow.  The first is answered among all
entries by the session state and among the committed ones by the planners; the
second is answered alike.
-/

namespace Session

open Workspace

variable (digest : Digest)

/-- The entries after a turn, up to the transaction of the next one. -/
def turnWindow (branch : List SessionTreeEntry) (sourceIndex : Nat) : List SessionTreeEntry :=
  slice branch (sourceIndex + 1) (turnEnd digest branch (nextUserIndex branch sourceIndex))

/-- A turn with its window taken apart at one entry. -/
structure TurnParts where
  /-- Where the user entry of the turn stands. -/
  sourceIndex : Nat
  source : SessionTreeEntry
  before : List SessionTreeEntry
  entry : SessionTreeEntry
  after : List SessionTreeEntry

/-- Where the entry stands on the branch. -/
def TurnParts.index (parts : TurnParts) : Nat := parts.sourceIndex + 1 + parts.before.length

/-- A checkpoint closes a turn of a branch, as far as the counted entries go. -/
structure ClosesTurn (counted : SessionTreeEntry → Bool) (branch : List SessionTreeEntry)
    (turnId sessionId : JsString) (checkpoint : AvailableCheckpoint) (parts : TurnParts) :
    Prop where
  /-- The turn is on the branch. -/
  source : branch[parts.sourceIndex]? = some parts.source
  /-- It has the id asked for. -/
  sourceId : parts.source.id = turnId
  /-- It is a user turn. -/
  isUser : isUserTurn parts.source = true
  /-- It counts. -/
  sourceCounted : counted parts.source = true
  window : turnWindow digest branch parts.sourceIndex =
    parts.before ++ parts.entry :: parts.after
  closed : ClosedBy counted parts.before parts.entry parts.after turnId sessionId checkpoint

theorem isUserTurn_of_customType {entry : SessionTreeEntry} {customType : JsString}
    (h : entry.customType = some customType) :
    isUserTurn entry = false := by
  unfold SessionTreeEntry.customType at h
  unfold isUserTurn
  split at h
  · rename_i hbody
    rw [hbody]
  · cases h

theorem not_closedBy_of_manifest {counted : SessionTreeEntry → Bool}
    {before after : List SessionTreeEntry} {entry previous : SessionTreeEntry}
    {turnId sessionId : JsString} {checkpoint : AvailableCheckpoint}
    (hlast : (before ++ entry :: after).getLast? = some previous)
    (htype : previous.customType = some sessionTransactionManifestCustomType)
    (hcounted : counted previous = true) :
    ¬ ClosedBy counted before entry after turnId sessionId checkpoint := by
  intro hclosed
  rcases List.eq_nil_or_concat after with rfl | ⟨init, last, rfl⟩
  · rw [List.getLast?_concat, Option.some.injEq] at hlast
    have hcheckpoint := hclosed.isCheckpoint
    rw [hlast] at hcheckpoint
    simp [isCheckpointEntry, htype, sessionTransactionManifestCustomType,
      checkpointCustomType] at hcheckpoint
  · have hmem : previous ∈ init.concat last := by
      rw [List.concat_eq_append, ← List.cons_append, ← List.append_assoc, List.getLast?_concat,
        Option.some.injEq] at hlast
      simp [hlast]
    have hcontrol := (hclosed.controlAfter previous hmem hcounted).2
    simp [isWorkspaceControlEntry, htype, sessionTransactionManifestCustomType,
      checkpointCustomType, stateCustomType] at hcontrol

theorem split_at_getElem? {l : List SessionTreeEntry} {i : Nat} {e : SessionTreeEntry}
    (h : l[i]? = some e) :
    l = l.take i ++ e :: l.drop (i + 1) := by
  obtain ⟨hlt, he⟩ := List.getElem?_eq_some_iff.mp h
  rw [← he, ← List.drop_eq_getElem_cons hlt, List.take_append_drop]

variable {branch entries : List SessionTreeEntry}

/-- **The planners cut the window of a turn as the session state does**, or there
is a manifest in it that keeps it from being closed. -/
theorem restoreEnd_cases (hbranch : IsActiveBranch entries branch) {sourceIndex : Nat}
    {source : SessionTreeEntry} (hsource : branch[sourceIndex]? = some source)
    (huser : isUserTurn source = true) :
    slice branch (sourceIndex + 1) (restoreEnd digest branch sourceIndex) =
        turnWindow digest branch sourceIndex ∨
      turnWindow digest branch sourceIndex = [] ∧
        ∀ before entry after turnId sessionId checkpoint,
          slice branch (sourceIndex + 1) (restoreEnd digest branch sourceIndex) =
            before ++ entry :: after →
          ¬ ClosedBy (isCommitted digest branch) before entry after turnId sessionId
            checkpoint := by
  have hstarts := restoreTransactionStarts_eq digest hbranch
  cases hnext : nextUserIndex branch sourceIndex with
  | none => exact Or.inl (by simp [turnWindow, restoreEnd, turnEnd, hnext])
  | some next =>
    have hfound := List.find?_some hnext
    simp only [Bool.and_eq_true, decide_eq_true_eq] at hfound
    obtain ⟨hlt, hnextUser⟩ := hfound
    obtain ⟨user, huserAt⟩ : ∃ user, branch[next]? = some user := by
      cases hat : branch[next]? with
      | none => simp [hat] at hnextUser
      | some user => exact ⟨user, rfl⟩
    cases hstart : (committedTransactionStartsByUserId digest branch).get user.id with
    | none =>
      refine Or.inl ?_
      simp [turnWindow, restoreEnd, turnEnd, hnext, huserAt, hstarts, hstart]
    | some start =>
      by_cases hbehind : sourceIndex < start
      · refine Or.inl ?_
        simp [turnWindow, restoreEnd, turnEnd, hnext, huserAt, hstarts, hstart, hbehind]
      · refine Or.inr ⟨?_, ?_⟩
        · simp only [turnWindow, turnEnd, hnext, huserAt, Option.bind_some, hstart,
            Option.getD_some, slice]
          rw [List.drop_eq_nil_iff, List.length_take]
          omega
        · -- the entry before the next user turn is a manifest
          have hnextLt : next < branch.length := (List.getElem?_eq_some_iff.mp huserAt).1
          obtain ⟨previous, hprevious⟩ : ∃ previous, branch[next - 1]? = some previous :=
            ⟨_, List.getElem?_eq_getElem (by omega)⟩
          have hsplit : branch =
              branch.take (next - 1) ++ previous :: user :: branch.drop (next + 1) := by
            have htail : branch.drop next = user :: branch.drop (next + 1) := by
              obtain ⟨hbound, huserEq⟩ := List.getElem?_eq_some_iff.mp huserAt
              rw [List.drop_eq_getElem_cons hbound, huserEq]
            have hall := split_at_getElem? hprevious
            rwa [show next - 1 + 1 = next by omega, htail] at hall
          obtain ⟨htype, hcommitted⟩ := manifest_before_user digest hbranch hsplit hstart
          have hne : sourceIndex ≠ next - 1 := by
            rintro rfl
            rw [hsource, Option.some.injEq] at hprevious
            rw [hprevious, isUserTurn_of_customType htype] at huser
            cases huser
          intro before entry after turnId sessionId checkpoint hslice hclosed
          have hend : restoreEnd digest branch sourceIndex = next := by
            simp [restoreEnd, hnext, huserAt, hstarts, hstart, hbehind]
          have hlast : (before ++ entry :: after).getLast? = some previous := by
            rw [← hslice, hend, slice, List.getLast?_drop, List.length_take,
              if_neg (by omega), List.getLast?_take, if_neg (by omega), hprevious]
            rfl
          exact not_closedBy_of_manifest hlast htype hcommitted hclosed

theorem mem_zip_tail_iff (l : List Nat) (hsorted : l.Pairwise (· < ·)) (a : Nat)
    (b : Option Nat) :
    (a, b) ∈ l.zip (l.tail.map some ++ [none]) ↔ a ∈ l ∧ b = l.find? (a < ·) := by
  induction l with
  | nil => simp
  | cons x xs ih =>
    rw [List.pairwise_cons] at hsorted
    cases xs with
    | nil => simp +contextual [eq_comm]
    | cons y ys =>
      have hxy := hsorted.1 y List.mem_cons_self
      have ih := ih hsorted.2
      simp only [List.tail_cons, List.map_cons, List.cons_append, List.zip_cons_cons,
        List.mem_cons, Prod.mk.injEq] at ih ⊢
      rw [ih]
      have hskip (hlt : x < a) :
          (x :: y :: ys).find? (a < ·) = (y :: ys).find? (a < ·) :=
        List.find?_cons_of_neg (by simpa using Nat.le_of_lt hlt)
      constructor
      · rintro (⟨rfl, rfl⟩ | ⟨hmem, rfl⟩)
        · simp [hxy]
        · exact ⟨Or.inr hmem, (hskip (hsorted.1 a (by simpa using hmem))).symm⟩
      · rintro ⟨rfl | hmem, rfl⟩
        · exact Or.inl ⟨rfl, by simp [hxy]⟩
        · exact Or.inr ⟨hmem, hskip (hsorted.1 a (by simpa using hmem))⟩

theorem pairwise_userIndexes (branch : List SessionTreeEntry) :
    (userIndexes branch).Pairwise (· < ·) :=
  List.Pairwise.filter _ List.pairwise_lt_range

theorem mem_turnsWithNext (branch : List SessionTreeEntry) (turn : Nat × Option Nat) :
    turn ∈ turnsWithNext branch ↔
      turn.1 ∈ userIndexes branch ∧ turn.2 = nextUserIndex branch turn.1 := by
  rw [turnsWithNext, mem_zip_tail_iff _ (pairwise_userIndexes branch)]
  refine and_congr_right fun _ => ?_
  rw [userIndexes, List.find?_filter, nextUserIndex]
  have hsame : (fun index => decide ((branch[index]?).any isUserTurn = true ∧
      decide (turn.1 < index) = true)) =
      fun index => decide (turn.1 < index) && (branch[index]?).any isUserTurn := by
    funext index
    rw [Bool.decide_and, Bool.decide_eq_true, Bool.decide_eq_true, Bool.and_comm]
  rw [hsame]

theorem mem_userIndexes (branch : List SessionTreeEntry) (index : Nat) :
    index ∈ userIndexes branch ↔ ∃ e, branch[index]? = some e ∧ isUserTurn e = true := by
  rw [userIndexes, List.mem_filter, List.mem_range]
  constructor
  · rintro ⟨hlt, hany⟩
    rw [List.getElem?_eq_getElem hlt] at hany ⊢
    exact ⟨_, rfl, hany⟩
  · rintro ⟨e, hat, huser⟩
    exact ⟨(List.getElem?_eq_some_iff.mp hat).1, by simp [hat, huser]⟩

theorem index_inj (hbranch : IsActiveBranch entries branch) {i j : Nat}
    {a b : SessionTreeEntry} (ha : branch[i]? = some a) (hb : branch[j]? = some b)
    (hid : a.id = b.id) :
    i = j ∧ a = b := by
  have hlt : i < (branch.map SessionTreeEntry.id).length := by
    simpa using (List.getElem?_eq_some_iff.mp ha).1
  have hij : i = j := (List.getElem?_inj hlt hbranch.nodup).mp (by simp [ha, hb, hid])
  subst hij
  rw [ha, Option.some.injEq] at hb
  exact ⟨rfl, hb⟩

theorem mem_foldedTurns (branch : List SessionTreeEntry) (sessionId : JsString)
    (turn : FoldedTurn) :
    turn ∈ foldedTurns digest branch sessionId ↔
      ∃ sourceIndex source, branch[sourceIndex]? = some source ∧ isUserTurn source = true ∧
        turn = foldTurn digest branch sessionId
          (sourceIndex, nextUserIndex branch sourceIndex) := by
  simp only [foldedTurns, List.mem_map, mem_turnsWithNext, mem_userIndexes]
  constructor
  · rintro ⟨⟨sourceIndex, next⟩, ⟨⟨source, hsource, huser⟩, hnext⟩, rfl⟩
    exact ⟨sourceIndex, source, hsource, huser, by rw [show next = _ from hnext]⟩
  · rintro ⟨sourceIndex, source, hsource, huser, rfl⟩
    exact ⟨_, ⟨⟨source, hsource, huser⟩, rfl⟩, rfl⟩

theorem nodup_foldedTurns (hbranch : IsActiveBranch entries branch) (sessionId : JsString) :
    ((foldedTurns digest branch sessionId).map FoldedTurn.turnId).Nodup := by
  have hindexes : (turnsWithNext branch).map Prod.fst = userIndexes branch := by
    rw [turnsWithNext, List.map_fst_zip]
    cases userIndexes branch <;> simp
  have hturns : (turnsWithNext branch).Nodup := by
    refine List.Nodup.of_map Prod.fst ?_
    rw [hindexes]
    exact (pairwise_userIndexes branch).imp Nat.ne_of_lt
  rw [foldedTurns, List.map_map]
  refine hturns.map_on ?_
  intro turn hturn other hother hid
  rw [mem_turnsWithNext, mem_userIndexes] at hturn hother
  obtain ⟨⟨source, hsource, -⟩, hnext⟩ := hturn
  obtain ⟨⟨source', hsource', -⟩, hnext'⟩ := hother
  have hplaces := index_inj hbranch hsource hsource'
    (by simpa [foldTurn, hsource, hsource'] using hid)
  exact Prod.ext hplaces.1 (by rw [hnext, hnext', hplaces.1])

/-- **The session state has a source for a turn exactly when a checkpoint closes
the turn among all entries.** -/
theorem mutationSource_iff (branch : List SessionTreeEntry) (turnId sessionId : JsString)
    (checkpoint : AvailableCheckpoint) (index : Nat) :
    (∃ turn ∈ foldedTurns digest branch sessionId, turn.turnId = turnId ∧
        turn.checkpoint = .ok (.available checkpoint, index)) ↔
      ∃ parts, ClosesTurn digest (fun _ => true) branch turnId sessionId checkpoint parts ∧
        parts.index = index := by
  constructor
  · rintro ⟨turn, hmem, hid, hcheckpoint⟩
    obtain ⟨sourceIndex, source, hsource, huser, rfl⟩ :=
      (mem_foldedTurns digest branch sessionId turn).mp hmem
    obtain rfl : source.id = turnId := by simpa [foldTurn, hsource] using hid
    simp only [foldTurn, hsource, Option.map_some, Option.getD_some] at hcheckpoint
    cases hfound : checkpointOfTurn (slice branch (sourceIndex + 1)
        (turnEnd digest branch (nextUserIndex branch sourceIndex))) source.id sessionId with
    | error reason => simp [hfound, Except.map] at hcheckpoint
    | ok found =>
      obtain ⟨decoded, offset⟩ := found
      simp only [hfound, Except.map, Except.ok.injEq, Prod.mk.injEq] at hcheckpoint
      obtain ⟨rfl, rfl⟩ := hcheckpoint
      obtain ⟨before, entry, after, hwindow, rfl, hclosed⟩ :=
        (checkpointOfTurn_ok_iff _ _ _ _ _).mp hfound
      exact ⟨{ sourceIndex, source, before, entry, after },
        { source := hsource, sourceId := rfl, isUser := huser, sourceCounted := rfl,
          window := hwindow, closed := hclosed }, rfl⟩
  · rintro ⟨parts, hcloses, rfl⟩
    refine ⟨foldTurn digest branch sessionId
      (parts.sourceIndex, nextUserIndex branch parts.sourceIndex),
      (mem_foldedTurns digest branch sessionId _).mpr
        ⟨parts.sourceIndex, parts.source, hcloses.source, hcloses.isUser, rfl⟩, ?_, ?_⟩
    · simp [foldTurn, hcloses.source, hcloses.sourceId]
    · have hfound := (checkpointOfTurn_ok_iff _ turnId sessionId checkpoint _).mpr
        ⟨parts.before, parts.entry, parts.after, hcloses.window, rfl, hcloses.closed⟩
      rw [turnWindow] at hfound
      simp [foldTurn, hcloses.source, hcloses.sourceId, hfound, Except.map, TurnParts.index]

/-- **The planners find a checkpoint exactly when it closes the turn among the
committed entries.** -/
theorem prepareStructure_iff (input : PlanTurnRestoreInput) (branch : List SessionTreeEntry)
    (checkpoint : AvailableCheckpoint) (index : Nat) :
    prepareStructure digest input =
        .ok { branch, checkpoint, checkpointIndex := index } ↔
      activeBranchForRestore input.rawEntries input.semanticLeafId = .ok branch ∧
        ∃ parts, ClosesTurn digest (isCommitted digest branch) branch input.sourceTurnId
          input.sessionId checkpoint parts ∧ parts.index = index := by
  unfold prepareStructure
  cases hactive : activeBranchForRestore input.rawEntries input.semanticLeafId with
  | error reason => simp
  | ok active =>
    have hbranch := (activeBranchForRestore_spec hactive).1
    simp only [Except.ok.injEq]
    constructor
    · intro h
      split at h
      · cases h
      rename_i sourceIndex hsourceIndex
      split at h
      · cases h
      rename_i hcommitted
      split at h
      · cases h
      rename_i found position hfound
      simp only [Except.ok.injEq, PreparedTurn.mk.injEq] at h
      obtain ⟨rfl, rfl, rfl⟩ := h
      obtain ⟨source, hsource, htest⟩ : ∃ source, active[sourceIndex]? = some source ∧
          (source.id == input.sourceTurnId && isUserTurn source) = true := by
        obtain ⟨hlt, htest, -⟩ := List.findIdx?_eq_some_iff_getElem.mp hsourceIndex
        exact ⟨_, List.getElem?_eq_getElem hlt, htest⟩
      rw [Bool.and_eq_true, beq_iff_eq] at htest
      have hsourceCommitted : isCommitted digest active source = true := by
        simpa [hsource] using hcommitted
      obtain ⟨before, entry, after, hslice, rfl, hclosed⟩ :=
        (terminalCheckpoint_ok_iff digest _ _ _ _ _ _).mp hfound
      refine ⟨rfl, { sourceIndex, source, before, entry, after }, ?_, rfl⟩
      refine { source := hsource, sourceId := htest.1, isUser := htest.2,
               sourceCounted := hsourceCommitted, window := ?_, closed := hclosed }
      rcases restoreEnd_cases digest hbranch hsource htest.2 with hsame | ⟨-, hnone⟩
      · rw [← hsame, hslice]
      · exact absurd hclosed (hnone _ _ _ _ _ _ hslice)
    · rintro ⟨rfl, parts, hcloses, rfl⟩
      have hsourceIndex : active.findIdx? (fun entry =>
          entry.id == input.sourceTurnId && isUserTurn entry) = some parts.sourceIndex := by
        rw [split_at_getElem? hcloses.source]
        have hlength : parts.sourceIndex = (active.take parts.sourceIndex).length := by
          have hlt := (List.getElem?_eq_some_iff.mp hcloses.source).1
          rw [List.length_take]
          omega
        conv_rhs => rw [hlength]
        refine findIdx?_split _ _ _ _ (by simp [hcloses.sourceId, hcloses.isUser]) ?_
        intro other hother
        obtain ⟨i, hi, rfl⟩ := List.mem_take_iff_getElem.mp hother
        have hne : active[i].id ≠ parts.source.id := by
          intro hid
          have hplace := index_inj hbranch (List.getElem?_eq_getElem (by omega))
            hcloses.source hid
          omega
        simp [← hcloses.sourceId, hne]
      have hfound : terminalCheckpoint digest active parts.sourceIndex input.sourceTurnId
          input.sessionId = .ok (checkpoint, parts.index) := by
        refine (terminalCheckpoint_ok_iff digest _ _ _ _ _ _).mpr
          ⟨parts.before, parts.entry, parts.after, ?_, rfl, hcloses.closed⟩
        rw [← hcloses.window]
        rcases restoreEnd_cases digest hbranch hcloses.source hcloses.isUser with
          hsame | ⟨hempty, -⟩
        · exact hsame
        · rw [hcloses.window] at hempty
          simp at hempty
      simp [hsourceIndex, hcloses.source, hcloses.sourceCounted, hfound]

end Session

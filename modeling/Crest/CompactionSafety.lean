import Crest.CompactionContext

/-!
# What a compaction preserves

A compaction preserves a branch when nothing of the context is lost: every message is
summarized or kept, a kept tool result has its call, the turn is reported as split when it
is, and the summary of an earlier compaction goes into the new one.

The entries decide this through two places: where the context begins, and where the kept
entries begin.
-/

namespace Compaction

open Session

/-- Where the messages of the context begin: at the entry that the last compaction keeps
first, if it is there. -/
def ContextStart (entries : List SessionTreeEntry) (start : Nat) : Prop :=
  match lastCompaction entries with
  | none => start = 0
  | some (j, c) =>
    (∃ e, entries[start]? = some e ∧ e.id = c.firstKeptEntryId) ∨
      (∀ e ∈ entries, e.id ≠ c.firstKeptEntryId) ∧ start = j + 1

/-- The entry has a message that can be summarized. -/
def hasMessage (entry : SessionTreeEntry) : Bool :=
  (getMessageFromEntryForCompaction entry).isSome

/-- The entry is a branch summary without a text, which is summarized and never shown. -/
def isBlankSummary (entry : SessionTreeEntry) : Bool :=
  hasMessage entry && (contextMessage entry).isNone

section Preserves

variable (entries : List SessionTreeEntry) (start cut : Nat)

/-- The first entry with a message from the cut on. -/
structure FirstMessage (f : Nat) : Prop where
  cut_le : cut ≤ f
  message : At hasMessage entries f
  first : ∀ d, cut ≤ d → d < f → ¬ At hasMessage entries d

/-- The kept entries begin inside a turn: their first message starts none, and one has
started before them. -/
def BeginsInsideTurn : Prop :=
  ∃ f, FirstMessage entries cut f ∧ ¬ At startsTurn entries f ∧
    ∃ t, start ≤ t ∧ t < cut ∧ At startsTurn entries t

/-- What a cut has to be like for a compaction to preserve the branch. -/
structure CutsWell : Prop where
  /-- No blank branch summary is summarized. -/
  shown : ∀ d, start ≤ d → d < cut → ¬ At isBlankSummary entries d
  /-- Before every kept tool result the user or the assistant speaks. -/
  results : ∀ q, cut ≤ q → At isToolResult entries q →
    ∃ d, cut ≤ d ∧ d < q ∧ At speaks entries d
  /-- If the first kept message starts a turn, then it is a message of the user and the first
  kept entry, or it is not the first kept entry and no turn starts before the cut. -/
  turn : ∀ f, FirstMessage entries cut f → At startsTurn entries f →
    At isUserMessage entries cut ∨
      f ≠ cut ∧ ∀ t, start ≤ t → t < cut → ¬ At startsTurn entries t
  /-- After an earlier compaction, a turn that is cut is not the first thing in the
  context. -/
  summary : entries.any isCompaction = true → ∀ t, start ≤ t → t < cut →
    At startsTurn entries t → (∀ d, t < d → d < cut → ¬ At startsTurn entries d) →
    At isUserMessage entries cut ∨ ∃ d, start ≤ d ∧ d < t ∧ At hasMessage entries d

end Preserves

/-- The index of the entry with which the kept ones begin. -/
def KeptFrom (entries : List SessionTreeEntry) (preparation : CompactionPreparation)
    (cut : Nat) : Prop :=
  ∃ e, entries[cut]? = some e ∧ e.id = preparation.firstKeptEntryId

/-- A compaction entry, appended with what was prepared, preserves the branch. -/
structure Preserves (digest : Digest) (entries : List SessionTreeEntry)
    (preparation : CompactionPreparation) (entry : SessionTreeEntry) : Prop where
  messages : shownMessages digest entries =
    preparation.messagesToSummarize ++ preparation.turnPrefixMessages ++
      (buildSessionContext digest (entries ++ [entry])).messages.tail
  results : ∀ cut, KeptFrom entries preparation cut →
    ∀ (q : Nat) (result : SessionTreeEntry), cut ≤ q → entries[q]? = some result →
    isToolResult result = true →
      ∃ p call, cut ≤ p ∧ p < q ∧ entries[p]? = some call ∧ calls call result = true
  turn : ∀ start cut, ContextStart entries start → KeptFrom entries preparation cut →
    (preparation.isSplitTurn = true ↔ BeginsInsideTurn entries start cut)
  summary : ∀ j c, lastCompaction entries = some (j, c) →
    ∀ (complete : SummaryRequest → Except CompactionError JsString)
      (customInstructions : Option JsString),
      ∃ request ∈ (compact complete preparation customInstructions).requests,
        request.previousSummary = some c.summary

/-- What `prepareCompaction` returns for a cut. -/
structure Prepared (entries : List SessionTreeEntry) (preparation : CompactionPreparation)
    (start cut : Nat) : Prop where
  kept : KeptFrom entries preparation cut
  id_ne : preparation.firstKeptEntryId ≠ []
  start_le : start ≤ cut
  previous : preparation.previousSummary =
    (lastCompaction entries).map fun found => found.2.summary
  split :
    (∃ t, start ≤ t ∧ t ≤ cut ∧ At startsTurn entries t ∧
      (∀ d, t < d → d ≤ cut → ¬ At startsTurn entries d) ∧ ¬ At isUserMessage entries cut ∧
      preparation.isSplitTurn = true ∧
      preparation.messagesToSummarize = messagesBetween entries start t ∧
      preparation.turnPrefixMessages = messagesBetween entries t cut) ∨
    (At isUserMessage entries cut ∨ ∀ d, start ≤ d → d ≤ cut → ¬ At startsTurn entries d) ∧
      preparation.isSplitTurn = false ∧
      preparation.messagesToSummarize = messagesBetween entries start cut ∧
      preparation.turnPrefixMessages = []

section Prepare

variable {numberText : ℚ → JsString} {digest : Digest} {entries : List SessionTreeEntry}
  {settings : CompactionSettings} {preparation : CompactionPreparation}

theorem contextStart_iff (h : Branch digest entries) {start : Nat} :
    ContextStart entries start ↔ start = boundaryStart entries := by
  unfold ContextStart boundaryStart
  cases lastCompaction entries with
  | none => exact Iff.rfl
  | some found =>
    obtain ⟨j, c⟩ := found
    dsimp only
    cases hfind : entries.findIdx? fun entry => decide (entry.id = c.firstKeptEntryId) with
    | none =>
      have hnone : ∀ e ∈ entries, e.id ≠ c.firstKeptEntryId := by
        intro e he
        simpa using List.findIdx?_eq_none_iff.mp hfind e he
      constructor
      · rintro (⟨e, he, hid⟩ | ⟨-, hstart⟩)
        · exact absurd hid (hnone e (List.mem_of_getElem? he))
        · exact hstart
      · exact fun hstart => Or.inr ⟨hnone, hstart⟩
    | some k =>
      obtain ⟨hk, hkidx⟩ := List.findIdx?_eq_some_iff_findIdx_eq.mp hfind
      obtain ⟨_, hkept, _⟩ := List.findIdx?_eq_some_iff_getElem.mp hfind
      rw [decide_eq_true_eq] at hkept
      constructor
      · rintro (⟨e, he, hid⟩ | ⟨hnone, -⟩)
        · have hidx := findIdx_id h.ids.1 he
            (p := fun entry => decide (entry.id = c.firstKeptEntryId)) (by simpa using hid)
            (fun x hx => by rw [decide_eq_true_eq] at hx; rw [hx, hid])
          rw [← hidx, hkidx]
          rfl
        · exact absurd hkept (hnone _ (List.getElem_mem hk))
      · intro hstart
        rw [Option.getD_some] at hstart
        subst hstart
        exact Or.inl ⟨_, List.getElem?_eq_getElem hk, hkept⟩

theorem isCutPoint_of_startsTurn {e : SessionTreeEntry} (h : startsTurn e = true) :
    isCutPoint e = true := by
  unfold startsTurn at h
  unfold isCutPoint cutRoles
  cases hbody : e.body <;> rw [hbody] at h <;> simp at h ⊢
  rcases h with h | h <;> simp [h]

theorem hasMessage_of_isCutPoint {e : SessionTreeEntry} (h : isCutPoint e = true) :
    hasMessage e = true := by
  unfold isCutPoint at h
  unfold hasMessage getMessageFromEntryForCompaction getMessageFromEntry isCompaction
  cases hbody : e.body <;> rw [hbody] at h <;> simp at h ⊢

theorem startsTurn_of_isUserMessage {e : SessionTreeEntry} (h : isUserMessage e = true) :
    startsTurn e = true := by
  unfold isUserMessage storedMessage at h
  unfold startsTurn
  cases hbody : e.body <;> rw [hbody] at h <;> simp at h ⊢
  exact Or.inl h

theorem At.mono {p q : SessionTreeEntry → Bool} (hpq : ∀ e, p e = true → q e = true) {i : Nat}
    (h : At p entries i) : At q entries i := by
  rw [at_iff] at h ⊢
  obtain ⟨e, he, hp⟩ := h
  exact ⟨e, he, hpq e hp⟩

theorem findCutPoint_turn {start : Nat} {keep : ℚ} {found : CutPointResult}
    (hfound : findCutPoint numberText entries start entries.length keep = found) :
    (∃ t, found.turnStartIndex = some t ∧ found.isSplitTurn = true ∧
      start ≤ t ∧ t ≤ found.firstKeptEntryIndex ∧ At startsTurn entries t ∧
      (∀ d, t < d → d ≤ found.firstKeptEntryIndex → ¬ At startsTurn entries d) ∧
      ¬ At isUserMessage entries found.firstKeptEntryIndex) ∨
    found.turnStartIndex = none ∧ found.isSplitTurn = false ∧
      (At isUserMessage entries found.firstKeptEntryIndex ∨
        ∀ d, start ≤ d → d ≤ found.firstKeptEntryIndex → ¬ At startsTurn entries d) := by
  unfold findCutPoint at hfound
  cases hpoints : findValidCutPoints entries start entries.length with
  | nil =>
    rw [hpoints] at hfound
    subst hfound
    refine Or.inr ⟨rfl, rfl, Or.inr fun d hd _ hat => ?_⟩
    exact findValidCutPoints_eq_nil.mp hpoints d hd
      (hat.mono fun e => isCutPoint_of_startsTurn)
  | cons first others =>
    rw [hpoints] at hfound
    dsimp only at hfound
    subst hfound
    dsimp only
    generalize walkBack entries start _ = cut
    cases huser : entries[cut]?.any isUserMessage with
    | true => exact Or.inr ⟨rfl, rfl, Or.inl huser⟩
    | false =>
      have hnot : ¬ At isUserMessage entries cut := by
        rw [At, huser]
        simp
      cases hturn : findTurnStartIndex entries start cut with
      | none => exact Or.inr ⟨rfl, rfl, Or.inr (findTurnStartIndex_eq_none hturn)⟩
      | some t =>
        obtain ⟨hstart, hle, hat, hlast⟩ := findTurnStartIndex_eq_some hturn
        exact Or.inl ⟨t, rfl, rfl, hstart, hle, hat, hlast, hnot⟩

/-- **What `prepareCompaction` returns.** -/
theorem prepareCompaction_spec
    (h : prepareCompaction numberText digest entries settings = .ok (some preparation)) :
    ∃ cut, CutAt numberText entries (boundaryStart entries) settings.keepRecentTokens cut ∧
      Prepared entries preparation (boundaryStart entries) cut := by
  have hcut := @cutAt_findCutPoint numberText entries (boundaryStart entries)
    settings.keepRecentTokens
  unfold prepareCompaction at h
  split at h
  · simp at h
  dsimp only at h
  generalize hfound : findCutPoint numberText entries (boundaryStart entries) entries.length
    settings.keepRecentTokens = found at hcut h
  have hturn := findCutPoint_turn hfound
  cases hfirst : entries[found.firstKeptEntryIndex]? with
  | none =>
    rw [hfirst] at h
    simp at h
  | some first =>
    rw [hfirst] at h
    dsimp only at h
    by_cases hid : first.id = []
    · rw [if_pos hid] at h
      simp at h
    rw [if_neg hid, Except.ok.injEq, Option.some.injEq] at h
    subst h
    refine ⟨_, hcut, ⟨_, hfirst, rfl⟩, hid, ?_, by rw [Option.map_map]; rfl, ?_⟩
    · rcases hcut with ⟨c, -, hmoved⟩ | ⟨-, hstart⟩
      · exact hmoved.start_le
      · exact le_of_eq hstart.symm
    · rcases hturn with ⟨t, ht, hsplit, hstart, hle, hat, hlast, huser⟩ | ⟨ht, hsplit, hnot⟩
      · refine Or.inl ⟨t, hstart, hle, hat, hlast, huser, hsplit, ?_, ?_⟩
        · rw [ht, Option.getD_some]
        · rw [if_pos hsplit, ht, Option.getD_some]
      · refine Or.inr ⟨hnot, hsplit, ?_, ?_⟩
        · rw [ht, Option.getD_none]
        · rw [hsplit, if_neg (by simp)]

theorem mem_between {start stop : Nat} {e : SessionTreeEntry} :
    e ∈ (entries.take stop).drop start ↔
      ∃ d, start ≤ d ∧ d < stop ∧ entries[d]? = some e := by
  rw [List.mem_iff_getElem?]
  constructor
  · rintro ⟨i, hi⟩
    rw [List.getElem?_drop, List.getElem?_take] at hi
    split_ifs at hi with hlt
    exact ⟨start + i, by omega, hlt, hi⟩
  · rintro ⟨d, hstart, hstop, hd⟩
    refine ⟨d - start, ?_⟩
    rw [List.getElem?_drop, List.getElem?_take, Nat.add_sub_cancel' hstart, if_pos hstop, hd]

theorem drop_eq_append {α : Type} {l : List α} {start stop : Nat} (hle : start ≤ stop)
    (hlength : stop ≤ l.length) : l.drop start = (l.take stop).drop start ++ l.drop stop := by
  conv_lhs => rw [← List.take_append_drop stop l]
  rw [List.drop_append_of_le_length]
  rw [List.length_take]
  omega

theorem messagesBetween_append {start t cut : Nat} (hstart : start ≤ t) (hcut : t ≤ cut) :
    messagesBetween entries start t ++ messagesBetween entries t cut =
      messagesBetween entries start cut := by
  have hdivide : (entries.take cut).drop start =
      (entries.take t).drop start ++ (entries.take cut).drop t := by
    rcases Nat.lt_or_ge entries.length t with hlt | hge
    · rw [List.take_of_length_le (by omega), List.take_of_length_le (by omega),
        List.drop_eq_nil_of_le (i := t) (by omega), List.append_nil]
    · have htake : entries.take t = (entries.take cut).take t := by
        rw [List.take_take, Nat.min_eq_left hcut]
      rw [htake]
      exact drop_eq_append hstart (by rw [List.length_take]; omega)
  rw [messagesBetween, messagesBetween, messagesBetween, hdivide, List.filterMap_append]

theorem messagesBetween_eq_nil {start stop : Nat} :
    messagesBetween entries start stop = [] ↔
      ∀ d, start ≤ d → d < stop → ¬ At hasMessage entries d := by
  rw [messagesBetween, List.filterMap_eq_nil_iff]
  constructor
  · intro h d hd hstop hat
    obtain ⟨e, he, hmessage⟩ := at_iff.mp hat
    rw [hasMessage, h e (mem_between.mpr ⟨d, hd, hstop, he⟩)] at hmessage
    simp at hmessage
  · intro h e hmem
    obtain ⟨d, hd, hstop, he⟩ := mem_between.mp hmem
    have hnone := h d hd hstop
    rw [at_iff] at hnone
    rw [← Option.not_isSome_iff_eq_none]
    exact fun hmessage => hnone ⟨e, he, hmessage⟩

theorem contextMessage_cases (e : SessionTreeEntry) :
    contextMessage e = getMessageFromEntryForCompaction e ∧ isBlankSummary e = false ∨
      contextMessage e = none ∧ isBlankSummary e = true ∧
        (getMessageFromEntryForCompaction e).isSome = true := by
  unfold isBlankSummary hasMessage getMessageFromEntryForCompaction getMessageFromEntry
    contextMessage isCompaction
  cases e.body with
  | branchSummary fromId summary details fromHook =>
    by_cases hblank : summary = []
    · simp [hblank]
    · simp [hblank]
  | _ => simp

theorem filterMap_contextMessage_iff (l : List SessionTreeEntry) :
    l.filterMap contextMessage = l.filterMap getMessageFromEntryForCompaction ↔
      ∀ e ∈ l, isBlankSummary e = false := by
  have hlength : ∀ l : List SessionTreeEntry, (l.filterMap contextMessage).length ≤
      (l.filterMap getMessageFromEntryForCompaction).length := by
    intro l
    induction l with
    | nil => exact le_refl _
    | cons e l ih =>
      rw [List.filterMap_cons, List.filterMap_cons]
      rcases contextMessage_cases e with ⟨hsame, -⟩ | ⟨hnone, -, hsome⟩
      · rw [hsame]
        cases getMessageFromEntryForCompaction e with
        | none => exact ih
        | some _ => simpa using ih
      · obtain ⟨message, hmessage⟩ := Option.isSome_iff_exists.mp hsome
        rw [hnone, hmessage, List.length_cons]
        exact Nat.le_succ_of_le ih
  induction l with
  | nil => simp
  | cons e l ih =>
    rw [List.filterMap_cons, List.filterMap_cons, List.forall_mem_cons]
    rcases contextMessage_cases e with ⟨hsame, hnot⟩ | ⟨hnone, hblank, hsome⟩
    · rw [hsame, hnot]
      refine Iff.trans ?_ (ih.trans (and_iff_right rfl).symm)
      cases getMessageFromEntryForCompaction e with
      | none | some _ => simp
    · obtain ⟨message, hmessage⟩ := Option.isSome_iff_exists.mp hsome
      rw [hnone, hmessage, hblank]
      simp only [Bool.true_eq_false, false_and, iff_false]
      intro heq
      have hle := hlength l
      rw [heq, List.length_cons] at hle
      omega

section Cut

variable {entry : SessionTreeEntry} {start cut : Nat}

theorem KeptFrom.unique (h : Branch digest entries)
    {cut cut' : Nat} (hcut : KeptFrom entries preparation cut)
    (hcut' : KeptFrom entries preparation cut') :
    cut = cut' := by
  obtain ⟨e, he, hid⟩ := hcut
  obtain ⟨e', he', hid'⟩ := hcut'
  have hidx := findIdx_id h.ids.1 he (p := fun x => decide (x.id = e.id)) (by simp)
    (fun x hx => by simpa using hx)
  have hidx' := findIdx_id h.ids.1 he' (p := fun x => decide (x.id = e.id))
    (by simp [hid, hid']) (fun x hx => by rw [hid', ← hid]; simpa using hx)
  rw [← hidx, ← hidx']

theorem messages_iff (h : Branch digest entries) (happ : Appended entries preparation entry)
    (hprepared : Prepared entries preparation (boundaryStart entries) cut) :
    shownMessages digest entries =
        preparation.messagesToSummarize ++ preparation.turnPrefixMessages ++
          (buildSessionContext digest (entries ++ [entry])).messages.tail ↔
      ∀ d, boundaryStart entries ≤ d → d < cut → ¬ At isBlankSummary entries d := by
  obtain ⟨first, hfirst, hid⟩ := hprepared.kept
  have hsummarized : preparation.messagesToSummarize ++ preparation.turnPrefixMessages =
      messagesBetween entries (boundaryStart entries) cut := by
    rcases hprepared.split with ⟨t, hstart, hle, -, -, -, -, hhistory, hturnPrefix⟩
      | ⟨-, -, hhistory, hturnPrefix⟩
    · rw [hhistory, hturnPrefix, messagesBetween_append hstart hle]
    · rw [hhistory, hturnPrefix, List.append_nil]
  have hdivide : entries.drop (boundaryStart entries) =
      (entries.take cut).drop (boundaryStart entries) ++ entries.drop cut := by
    have hlt := (List.getElem?_eq_some_iff.mp hfirst).1
    have hle := hprepared.start_le
    exact drop_eq_append hle (le_of_lt hlt)
  rw [hsummarized, messages_after_summary h happ hfirst hid, shownMessages_eq h, hdivide,
    List.filterMap_append, List.append_left_inj, messagesBetween, filterMap_contextMessage_iff]
  constructor
  · intro hnone d hd hcut hat
    obtain ⟨e, he, hblank⟩ := at_iff.mp hat
    rw [hnone e (mem_between.mpr ⟨d, hd, hcut, he⟩)] at hblank
    simp at hblank
  · intro hnone e hmem
    obtain ⟨d, hd, hcut, he⟩ := mem_between.mp hmem
    rw [← Bool.not_eq_true]
    exact fun hblank => hnone d hd hcut (at_iff.mpr ⟨e, he, hblank⟩)

theorem speaks_of_calls {e result : SessionTreeEntry} (h : calls e result = true) :
    speaks e = true := by
  unfold calls at h
  unfold speaks
  cases hmessage : storedMessage e with
  | none =>
    rw [hmessage] at h
    simp at h
  | some message =>
    rw [hmessage] at h
    simp only [Option.any_some, Bool.and_eq_true, decide_eq_true_eq] at h
    simp [h.1]

theorem results_iff (h : Branch digest entries) (cut : Nat) :
    (∀ (q : Nat) (result : SessionTreeEntry), cut ≤ q → entries[q]? = some result →
        isToolResult result = true →
          ∃ p call, cut ≤ p ∧ p < q ∧ entries[p]? = some call ∧ calls call result = true) ↔
      ∀ q, cut ≤ q → At isToolResult entries q →
        ∃ d, cut ≤ d ∧ d < q ∧ At speaks entries d := by
  constructor
  · intro hcalls q hq hat
    obtain ⟨result, hresult, htool⟩ := at_iff.mp hat
    obtain ⟨p, call, hcut, hpq, hcall, hmakes⟩ := hcalls q result hq hresult htool
    exact ⟨p, hcut, hpq, at_iff.mpr ⟨call, hcall, speaks_of_calls hmakes⟩⟩
  · intro hspeaks q result hq hresult htool
    obtain ⟨d, hcut, hdq, hat⟩ := hspeaks q hq (at_iff.mpr ⟨result, hresult, htool⟩)
    obtain ⟨p, call, hpq, hcall, hmakes, hsilent⟩ := h.results q result hresult htool
    refine ⟨p, call, ?_, hpq, hcall, hmakes⟩
    by_contra hlt
    exact hsilent d (by omega) hdq hat

theorem FirstMessage.eq_cut {f : Nat} (hf : FirstMessage entries cut f)
    (hcut : At hasMessage entries cut) : f = cut := by
  rcases Nat.eq_or_lt_of_le hf.cut_le with heq | hlt
  · exact heq.symm
  · exact absurd hcut (hf.first cut (le_refl _) hlt)

theorem FirstMessage.unique {f f' : Nat} (hf : FirstMessage entries cut f)
    (hf' : FirstMessage entries cut f') : f = f' := by
  rcases Nat.lt_trichotomy f f' with hlt | heq | hlt
  · exact absurd hf.message (hf'.first f hf.cut_le hlt)
  · exact heq
  · exact absurd hf'.message (hf.first f' hf'.cut_le hlt)

theorem exists_firstMessage {c : Nat} (hle : cut ≤ c) (hat : At hasMessage entries c) :
    ∃ f, FirstMessage entries cut f := by
  induction c using Nat.strong_induction_on with
  | _ c ih =>
    by_cases hearlier : ∃ d, cut ≤ d ∧ d < c ∧ At hasMessage entries d
    · obtain ⟨d, hd, hlt, hmessage⟩ := hearlier
      exact ih d hlt hd hmessage
    · exact ⟨c, hle, hat, fun d hd hlt hmessage => hearlier ⟨d, hd, hlt, hmessage⟩⟩

theorem CutAt.exists_firstMessage {numberText : ℚ → JsString} {keep : ℚ}
    (hcut : CutAt numberText entries start keep cut) {t : Nat} (hstart : start ≤ t)
    (hat : At startsTurn entries t) :
    ∃ f, FirstMessage entries cut f := by
  rcases hcut with ⟨c, hchosen, hmoved⟩ | ⟨hnone, -⟩
  · exact Compaction.exists_firstMessage hmoved.le
      (hchosen.valid.mono fun e => hasMessage_of_isCutPoint)
  · exact absurd (hat.mono fun e => isCutPoint_of_startsTurn) (hnone t hstart)

theorem At.hasMessage_of_startsTurn {i : Nat} (h : At startsTurn entries i) :
    At hasMessage entries i :=
  h.mono fun _ he => hasMessage_of_isCutPoint (isCutPoint_of_startsTurn he)

theorem turn_iff {numberText : ℚ → JsString} {keep : ℚ}
    (hcut : CutAt numberText entries start keep cut)
    (hprepared : Prepared entries preparation start cut) :
    (preparation.isSplitTurn = true ↔ BeginsInsideTurn entries start cut) ↔
      ∀ f, FirstMessage entries cut f → At startsTurn entries f →
        At isUserMessage entries cut ∨
          f ≠ cut ∧ ∀ t, start ≤ t → t < cut → ¬ At startsTurn entries t := by
  rcases hprepared.split with ⟨t, hstart, hle, hat, -, huser, hsplit, -, -⟩
    | ⟨hwhole, hsplit, -, -⟩
  · -- reported as split: the first kept message must not start a turn
    obtain ⟨f, hf⟩ := hcut.exists_firstMessage hstart hat
    have hbefore : ¬ At startsTurn entries cut → t < cut := by
      intro hnot
      rcases Nat.eq_or_lt_of_le hle with heq | hlt
      · rw [heq] at hat
        exact absurd hat hnot
      · exact hlt
    rw [hsplit]
    simp only [true_iff]
    constructor
    · rintro ⟨f', hf', hnot, -⟩ f'' hf'' hstarts
      rw [hf''.unique hf'] at hstarts
      exact absurd hstarts hnot
    · intro hturn
      have hnot : ¬ At startsTurn entries f := by
        intro hstarts
        rcases hturn f hf hstarts with hmine | ⟨hne, hnone⟩
        · exact huser hmine
        · refine hnone t hstart (hbefore fun hstarts' => ?_) hat
          exact hne (hf.eq_cut hstarts'.hasMessage_of_startsTurn)
      refine ⟨f, hf, hnot, t, hstart, hbefore fun hstarts => ?_, hat⟩
      rw [hf.eq_cut hstarts.hasMessage_of_startsTurn] at hnot
      exact hnot hstarts
  · -- reported as whole: the first kept message is the user's, or no turn has started
    rw [hsplit]
    simp only [Bool.false_eq_true, false_iff]
    constructor
    · intro _ f hf hstarts
      rcases hwhole with huser | hnone
      · exact Or.inl huser
      · refine Or.inr ⟨?_, fun t ht hlt => hnone t ht (le_of_lt hlt)⟩
        intro heq
        rw [heq] at hstarts
        exact hnone cut hprepared.start_le (le_refl _) hstarts
    · rintro - ⟨f, hf, hnot, t, ht, hlt, hat⟩
      rcases hwhole with huser | hnone
      · have hstarts := huser.mono fun e => startsTurn_of_isUserMessage (e := e)
        rw [hf.eq_cut hstarts.hasMessage_of_startsTurn] at hnot
        exact hnot hstarts
      · exact hnone t ht (le_of_lt hlt) hat

/-- The earlier summary goes into the new one, if and only if the turn that is cut is not
the first thing in the context. -/
theorem summary_iff (hprepared : Prepared entries preparation start cut)
    (hturn : ∀ f, FirstMessage entries cut f → At startsTurn entries f →
      At isUserMessage entries cut ∨
        f ≠ cut ∧ ∀ t, start ≤ t → t < cut → ¬ At startsTurn entries t) :
    (∀ j c, lastCompaction entries = some (j, c) →
      ∀ (complete : SummaryRequest → Except CompactionError JsString)
        (customInstructions : Option JsString),
        ∃ request ∈ (compact complete preparation customInstructions).requests,
          request.previousSummary = some c.summary) ↔
      (entries.any isCompaction = true → ∀ t, start ≤ t → t < cut →
        At startsTurn entries t → (∀ d, t < d → d < cut → ¬ At startsTurn entries d) →
        At isUserMessage entries cut ∨ ∃ d, start ≤ d ∧ d < t ∧ At hasMessage entries d) := by
  have hprevious := hprepared.previous
  rcases hprepared.split with ⟨t, hstart, hle, hat, hlast, huser, hsplit, hhistory, hturnPrefix⟩
    | ⟨hwhole, hsplit, -, -⟩
  · -- the turn that is split starts before the cut
    have hlt : t < cut := by
      rcases Nat.eq_or_lt_of_le hle with heq | hlt
      · rw [heq] at hat
        have hf : FirstMessage entries cut cut :=
          ⟨le_refl _, hat.hasMessage_of_startsTurn, by omega⟩
        rcases hturn cut hf hat with hmine | ⟨hne, -⟩
        · exact absurd hmine huser
        · exact absurd rfl hne
      · exact hlt
    have hturnPrefix_ne : preparation.turnPrefixMessages ≠ [] := by
      rw [hturnPrefix, Ne, messagesBetween_eq_nil]
      exact fun hnone => hnone t (le_refl _) hlt hat.hasMessage_of_startsTurn
    have hrequests : ∀ complete customInstructions,
        (compact complete preparation customInstructions).requests =
          (if preparation.messagesToSummarize = [] then []
          else [.generateSummary preparation.messagesToSummarize
            preparation.settings.reserveTokens customInstructions
            preparation.previousSummary]) ++
          [.generateTurnPrefixSummary preparation.turnPrefixMessages
            preparation.settings.reserveTokens] := by
      intro complete customInstructions
      unfold compact
      dsimp only
      rw [if_neg hprepared.id_ne, if_pos (by simp [hsplit, hturnPrefix_ne])]
      by_cases hnone : preparation.messagesToSummarize = []
      · simp [hnone]
      · simp [hnone]
    have hsome : preparation.messagesToSummarize ≠ [] ↔
        ∃ d, start ≤ d ∧ d < t ∧ At hasMessage entries d := by
      rw [hhistory, Ne, messagesBetween_eq_nil]
      constructor
      · intro hsome
        by_contra hnone
        exact hsome fun d hd hdt hmessage => hnone ⟨d, hd, hdt, hmessage⟩
      · rintro ⟨d, hd, hdt, hmessage⟩ hnone
        exact hnone d hd hdt hmessage
    constructor
    · intro hin hany t' hstart' hlt' hat' hlast'
      have htt : t' = t := by
        rcases Nat.lt_trichotomy t' t with h1 | h1 | h1
        · exact absurd hat (hlast' t h1 hlt)
        · exact h1
        · exact absurd hat' (hlast t' h1 (le_of_lt hlt'))
      subst htt
      obtain ⟨⟨j, c⟩, hfound⟩ := Option.isSome_iff_exists.mp (any_isCompaction_iff.mp hany)
      obtain ⟨request, hmem, hsummary⟩ := hin j c hfound (fun _ => .ok []) none
      rw [hrequests] at hmem
      refine Or.inr (hsome.mp fun hnil => ?_)
      rw [if_pos hnil, List.nil_append, List.mem_singleton] at hmem
      rw [hmem] at hsummary
      simp [SummaryRequest.previousSummary] at hsummary
    · intro hfirst j c hfound complete customInstructions
      have hany : entries.any isCompaction = true := by
        rw [any_isCompaction_iff, hfound]
        rfl
      have hne : preparation.messagesToSummarize ≠ [] := by
        rw [hsome]
        exact (hfirst hany t hstart hlt hat fun d hd hdc => hlast d hd (le_of_lt hdc)).resolve_left
          huser
      rw [hrequests, if_neg hne]
      refine ⟨_, List.mem_append_left _ (List.mem_singleton_self _), ?_⟩
      rw [SummaryRequest.previousSummary, hprevious, hfound]
      rfl
  · -- a single request, which has the earlier summary
    have hrequests : ∀ complete customInstructions,
        (compact complete preparation customInstructions).requests =
          [.generateSummary preparation.messagesToSummarize
            preparation.settings.reserveTokens customInstructions
            preparation.previousSummary] := by
      intro complete customInstructions
      unfold compact
      dsimp only
      rw [if_neg hprepared.id_ne, if_neg (by simp [hsplit])]
    constructor
    · intro _ _ t ht hlt hat _
      rcases hwhole with huser | hnone
      · exact Or.inl huser
      · exact absurd hat (hnone t ht (le_of_lt hlt))
    · intro _ j c hfound complete customInstructions
      rw [hrequests]
      refine ⟨_, List.mem_singleton_self _, ?_⟩
      rw [SummaryRequest.previousSummary, hprevious, hfound]
      rfl

end Cut

end Prepare

theorem not_at {entries : List SessionTreeEntry} {p : SessionTreeEntry → Bool}
    (h : ∀ e ∈ entries, p e = false) {i : Nat} : ¬ At p entries i := by
  intro hat
  obtain ⟨e, he, hp⟩ := at_iff.mp hat
  rw [h e (List.mem_of_getElem? he)] at hp
  simp at hp

/-- A digest for branches without transactions, which never ask for one. -/
def noDigest : Digest := ⟨fun _ => [], fun _ => []⟩

/-- An entry with a message of one block. -/
def messageEntry (id role content : String) : SessionTreeEntry where
  id := js id
  parentId := none
  body := .message (.obj [(js "role", .str (js role)),
    (js "content", .arr [.obj [(js "type", .str (js "text")), (js "text", .str (js content))]])])

def compactionEntry (id summary firstKept : String) : SessionTreeEntry where
  id := js id
  parentId := none
  body := .compaction (js summary) (js firstKept) 0 none none

def twoTurns : List SessionTreeEntry :=
  [messageEntry "u1" "user" "hello", messageEntry "a1" "assistant" "hi",
    messageEntry "u2" "user" "again", messageEntry "a2" "assistant" "yes"]

/-- Settings that keep a number of tokens. -/
def keeping (tokens : ℚ) : CompactionSettings := ⟨true, 16384, tokens⟩

/-- What is prepared for two turns of which the second is kept. -/
def twoTurnsPrepared : CompactionPreparation where
  firstKeptEntryId := js "u2"
  messagesToSummarize := (twoTurns.take 2).filterMap getMessageFromEntry
  turnPrefixMessages := []
  isSplitTurn := false
  tokensBefore := 6
  previousSummary := none
  fileOps := {}
  settings := keeping 2

/-- A branch that was compacted, and whose second turn goes on. -/
def longTurn : List SessionTreeEntry :=
  [messageEntry "u1" "user" "hello", messageEntry "a1" "assistant" "hi",
    messageEntry "u2" "user" "again", compactionEntry "c1" "greetings" "u2",
    messageEntry "a2" "assistant" "yes", messageEntry "a3" "assistant" "done"]

/-- What is prepared for a turn that is cut before its last message. -/
def longTurnPrepared : CompactionPreparation where
  firstKeptEntryId := js "a3"
  messagesToSummarize := []
  turnPrefixMessages :=
    [.stored (.obj [(js "role", .str (js "user")), (js "content", .arr [.obj
        [(js "type", .str (js "text")), (js "text", .str (js "again"))]])]),
      .stored (.obj [(js "role", .str (js "assistant")), (js "content", .arr [.obj
        [(js "type", .str (js "text")), (js "text", .str (js "yes"))]])])]
  isSplitTurn := true
  tokensBefore := 7
  previousSummary := some (js "greetings")
  fileOps := {}
  settings := keeping 1

end Compaction

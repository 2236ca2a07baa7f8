import Crest.CompactionCut
import Crest.TransactionVisibility

/-!
# The context of a compacted branch

The messages a context shows after its summary are those of the entries from one index on:
from the first entry that the last compaction keeps, or from the beginning.  So a new
compaction divides them at the cut, and what it summarizes are the messages before it,
except that an empty summary of a branch is summarized and not shown.
-/

namespace Compaction

open Session

/-- The entry is a tool result. -/
def isToolResult (entry : SessionTreeEntry) : Bool :=
  (storedMessage entry).any fun message => decide (roleOf message = js "toolResult")

/-- The entry is a message of the user or of the assistant. -/
def speaks (entry : SessionTreeEntry) : Bool :=
  (storedMessage entry).any fun message =>
    decide (roleOf message = js "user" ∨ roleOf message = js "assistant")

/-- A message of the assistant makes the call that a tool result answers. -/
def calls (entry result : SessionTreeEntry) : Bool :=
  (storedMessage entry).any fun message =>
    decide (roleOf message = js "assistant") &&
      (blocks message).any fun block =>
        decide (text block "type" = js "toolCall") &&
          decide ((storedMessage result).map (fun r => text r "toolCallId") =
            some (text block "id"))

/-- A branch as the session log gives it: every entry is visible, so that its id is its own
and its transaction is committed; a compaction keeps entries before it; and a tool result
follows its call, with no message of the user or the assistant in between. -/
structure Branch (digest : Digest) (entries : List SessionTreeEntry) : Prop where
  visible : (filterCommittedTransactionEntries digest entries).entries = entries
  kept_before : ∀ (i j : Nat) (kept entry : SessionTreeEntry) (compaction : CompactionEntry),
    entries[j]? = some entry → asCompaction entry = some compaction →
    entries[i]? = some kept → kept.id = compaction.firstKeptEntryId → i < j
  results : ∀ (q : Nat) (result : SessionTreeEntry), entries[q]? = some result →
    isToolResult result = true → ∃ p call, p < q ∧ entries[p]? = some call ∧
      calls call result = true ∧ ∀ d, p < d → d < q → ¬ At speaks entries d

/-- A compaction entry that is appended with what `prepareCompaction` returned. -/
structure Appended (entries : List SessionTreeEntry) (preparation : CompactionPreparation)
    (entry : SessionTreeEntry) : Prop where
  id_ne : entry.id ≠ []
  fresh : ∀ e ∈ entries, e.id ≠ entry.id
  plain : entry.transactionId = none
  compaction : ∃ c, asCompaction entry = some c ∧
    c.firstKeptEntryId = preparation.firstKeptEntryId

section Branch

variable {digest : Digest} {entries : List SessionTreeEntry}

theorem Branch.ids (h : Branch digest entries) :
    (entries.map SessionTreeEntry.id).Nodup ∧ ∀ e ∈ entries, e.id ≠ [] := by
  have hvisible : ∀ e ∈ entries, isVisible digest entries e = true := by
    have hfilter := h.visible
    rw [visible_eq_filter, List.filter_eq_self] at hfilter
    exact hfilter
  have hparts : ∀ e ∈ entries, e.id ≠ [] ∧ e.id ∉ duplicateEntryIds entries := by
    intro e he
    have hsome := hvisible e he
    simp only [isVisible, Bool.and_eq_true, decide_eq_true_eq] at hsome
    exact hsome.1
  refine ⟨?_, fun e he => (hparts e he).1⟩
  rw [List.nodup_iff_count_le_one]
  intro id
  by_cases hid : id ∈ entries.map SessionTreeEntry.id
  · obtain ⟨e, he, rfl⟩ := List.mem_map.mp hid
    obtain ⟨hne, hnot⟩ := hparts e he
    rw [mem_duplicateEntryIds entries hne] at hnot
    omega
  · rw [List.count_eq_zero_of_not_mem hid]
    omega

theorem findIdx_id (hids : (entries.map SessionTreeEntry.id).Nodup) {i : Nat}
    {e : SessionTreeEntry} (he : entries[i]? = some e) {p : SessionTreeEntry → Bool}
    (hp : p e = true) (hother : ∀ x, p x = true → x.id = e.id) :
    entries.findIdx p = i := by
  obtain ⟨hlt, rfl⟩ := List.getElem?_eq_some_iff.mp he
  rw [List.findIdx_eq hlt]
  refine ⟨hp, ?_⟩
  intro j hj
  by_contra hfound
  rw [Bool.not_eq_false] at hfound
  have hsame := hother _ hfound
  have hjlt : j < (entries.map SessionTreeEntry.id).length := by
    rw [List.length_map]
    omega
  have hilt : i < (entries.map SessionTreeEntry.id).length := by
    rw [List.length_map]
    exact hlt
  have hmap : (entries.map SessionTreeEntry.id).get ⟨j, hjlt⟩ =
      (entries.map SessionTreeEntry.id).get ⟨i, hilt⟩ := by
    simpa using hsame
  have hij := (List.Nodup.getElem_inj_iff hids).mp hmap
  omega

theorem lastCompaction_append (entry : SessionTreeEntry) :
    lastCompaction (entries ++ [entry]) =
      match asCompaction entry with
      | some compaction => some (entries.length, compaction)
      | none => lastCompaction entries := by
  unfold lastCompaction
  rw [List.zipIdx_append, List.filterMap_append]
  cases hentry : asCompaction entry with
  | none | some _ => simp [hentry]

theorem isCompaction_iff (entry : SessionTreeEntry) :
    isCompaction entry = true ↔ ∃ c, asCompaction entry = some c := by
  unfold isCompaction asCompaction
  cases entry.body <;> simp

theorem lastCompaction_spec :
    match lastCompaction entries with
    | some (j, c) => (∃ e, entries[j]? = some e ∧ asCompaction e = some c) ∧
        ∀ i, j < i → ¬ At isCompaction entries i
    | none => ∀ i, ¬ At isCompaction entries i := by
  induction entries using List.reverseRecOn with
  | nil =>
    intro i
    simp [At]
  | append_singleton l e ih =>
    rw [lastCompaction_append]
    have hlast : (l ++ [e])[l.length]? = some e := by simp
    cases he : asCompaction e with
    | some c =>
      refine ⟨⟨e, hlast, he⟩, ?_⟩
      intro i hi hat
      have hlt := hat.lt_length
      rw [List.length_append, List.length_singleton] at hlt
      omega
    | none =>
      have hnot : isCompaction e ≠ true := by
        rw [Ne, isCompaction_iff, he]
        simp
      have hback : ∀ i, At isCompaction (l ++ [e]) i → At isCompaction l i := by
        intro i hat
        rw [at_iff] at hat ⊢
        obtain ⟨x, hx, hc⟩ := hat
        rcases Nat.lt_or_ge i l.length with hlt | hge
        · rw [List.getElem?_append_left hlt] at hx
          exact ⟨x, hx, hc⟩
        · have hlt := (List.getElem?_eq_some_iff.mp hx).1
          rw [List.length_append, List.length_singleton] at hlt
          have hi : i = l.length := by omega
          rw [hi, hlast, Option.some.injEq] at hx
          rw [← hx] at hc
          exact absurd hc hnot
      dsimp only
      cases hlc : lastCompaction l with
      | none =>
        rw [hlc] at ih
        exact fun i hat => ih i (hback i hat)
      | some found =>
        obtain ⟨j, c⟩ := found
        rw [hlc] at ih
        obtain ⟨⟨x, hx, hc⟩, hafter⟩ := ih
        refine ⟨⟨x, ?_, hc⟩, fun i hi hat => hafter i hi (hback i hat)⟩
        rw [List.getElem?_append_left (List.getElem?_eq_some_iff.mp hx).1]
        exact hx

variable {c : CompactionEntry}

theorem contextMessage_of_compaction {e : SessionTreeEntry} (h : asCompaction e = some c) :
    contextMessage e = none := by
  unfold asCompaction at h
  unfold contextMessage
  cases hbody : e.body <;> rw [hbody] at h <;> simp at h ⊢

/-- **What follows the summary in a context are the messages from one index on.** -/
theorem messages_of_last (h : Branch digest entries) {j : Nat}
    (hlast : lastCompaction entries = some (j, c)) :
    (entriesAfterSummary entries c).filterMap contextMessage =
      (entries.drop (boundaryStart entries)).filterMap contextMessage := by
  have hspec := @lastCompaction_spec entries
  rw [hlast] at hspec
  obtain ⟨⟨e, he, hc⟩, -⟩ := hspec
  obtain ⟨hlt, hej⟩ := List.getElem?_eq_some_iff.mp he
  have hcid : c.id = e.id := by
    unfold asCompaction at hc
    cases hbody : e.body <;> rw [hbody] at hc <;> simp at hc
    rw [← hc]
  have hidx : (entries.findIdx fun entry =>
      isCompaction entry && decide (entry.id = c.id)) = j := by
    refine findIdx_id h.ids.1 he ?_ ?_
    · rw [Bool.and_eq_true, decide_eq_true_eq]
      exact ⟨(isCompaction_iff e).mpr ⟨c, hc⟩, hcid.symm⟩
    · intro x hx
      rw [Bool.and_eq_true, decide_eq_true_eq] at hx
      rw [hx.2, hcid]
  have hsilent := contextMessage_of_compaction hc
  have hsplit : entries.drop j = e :: entries.drop (j + 1) := by
    rw [← hej]
    exact List.drop_eq_getElem_cons hlt
  unfold entriesAfterSummary boundaryStart entriesFrom
  dsimp only
  rw [hidx, hlast]
  dsimp only
  rw [List.dropWhile_eq_drop_findIdx_not, List.findIdx_take, List.filterMap_append]
  have hnot : (fun a : SessionTreeEntry => !decide (a.id ≠ c.firstKeptEntryId)) =
      fun a => decide (a.id = c.firstKeptEntryId) := by
    funext a
    simp
  rw [hnot]
  cases hfind : entries.findIdx? fun entry => decide (entry.id = c.firstKeptEntryId) with
  | none =>
    have hlength := List.findIdx?_eq_none_iff_findIdx_eq.mp hfind
    rw [hlength, Nat.min_eq_left (by omega), Option.getD_none,
      List.drop_eq_nil_of_le (by simp)]
    rfl
  | some k =>
    obtain ⟨hk, hkidx⟩ := List.findIdx?_eq_some_iff_findIdx_eq.mp hfind
    obtain ⟨_, hkept, _⟩ := List.findIdx?_eq_some_iff_getElem.mp hfind
    rw [decide_eq_true_eq] at hkept
    have hkj := h.kept_before k j _ e c he hc (List.getElem?_eq_getElem hk) hkept
    have hdivide : entries.drop k = (entries.take j).drop k ++ entries.drop j := by
      conv_lhs => rw [← List.take_append_drop j entries]
      rw [List.drop_append_of_le_length]
      rw [List.length_take]
      omega
    rw [hkidx, Nat.min_eq_right (by omega), Option.getD_some, hdivide, hsplit,
      List.filterMap_append, List.filterMap_cons, hsilent]

section

variable (hvisible : (filterCommittedTransactionEntries digest entries).entries = entries)
include hvisible

theorem messages_of_some {j : Nat} (hlast : lastCompaction entries = some (j, c)) :
    (buildSessionContext digest entries).messages =
      .compactionSummary c.summary c.tokensBefore c.timestamp ::
        (entriesAfterSummary entries c).filterMap contextMessage := by
  unfold buildSessionContext
  dsimp only
  rw [hvisible, hlast]

theorem messages_of_none (hlast : lastCompaction entries = none) :
    (buildSessionContext digest entries).messages = entries.filterMap contextMessage := by
  unfold buildSessionContext
  dsimp only
  rw [hvisible, hlast]

end

/-- A context without the summary of its last compaction. -/
def shownMessages (digest : Digest) (entries : List SessionTreeEntry) : List AgentMessage :=
  if entries.any isCompaction then (buildSessionContext digest entries).messages.tail
  else (buildSessionContext digest entries).messages

theorem any_isCompaction_iff :
    entries.any isCompaction = true ↔ (lastCompaction entries).isSome = true := by
  have hspec := @lastCompaction_spec entries
  rw [List.any_eq_true]
  cases hlast : lastCompaction entries with
  | none =>
    rw [hlast] at hspec
    simp only [Option.isSome_none, Bool.false_eq_true, iff_false, not_exists, not_and]
    intro e he hc
    obtain ⟨i, hi, rfl⟩ := List.mem_iff_getElem.mp he
    exact hspec i (at_iff.mpr ⟨_, List.getElem?_eq_getElem hi, hc⟩)
  | some found =>
    obtain ⟨j, c⟩ := found
    rw [hlast] at hspec
    obtain ⟨⟨e, he, hc⟩, -⟩ := hspec
    simp only [Option.isSome_some, iff_true]
    exact ⟨e, List.mem_of_getElem? he, (isCompaction_iff e).mpr ⟨c, hc⟩⟩

/-- **The messages a context shows besides the summary.** -/
theorem shownMessages_eq (h : Branch digest entries) :
    shownMessages digest entries =
      (entries.drop (boundaryStart entries)).filterMap contextMessage := by
  unfold shownMessages
  have hany := @any_isCompaction_iff entries
  cases hlast : lastCompaction entries with
  | none =>
    rw [hlast, Option.isSome_none] at hany
    rw [if_neg (by simpa using hany), messages_of_none h.visible hlast, boundaryStart, hlast]
    rfl
  | some found =>
    obtain ⟨j, c⟩ := found
    rw [hlast, Option.isSome_some] at hany
    rw [if_pos (hany.mpr rfl), messages_of_some h.visible hlast, List.tail_cons]
    exact messages_of_last h hlast

variable {preparation : CompactionPreparation}

theorem visible_append (h : Branch digest entries) {entry : SessionTreeEntry}
    (happ : Appended entries preparation entry) :
    (filterCommittedTransactionEntries digest (entries ++ [entry])).entries =
      entries ++ [entry] := by
  have hfilter := h.visible
  rw [visible_eq_filter, List.filter_eq_self] at hfilter
  rw [visible_eq_filter, List.filter_eq_self]
  intro e he
  rcases List.mem_append.mp he with he | he
  · rw [@isVisible_append_left digest entries [entry] ?_ ?_ _ (Or.inl rfl) e he]
    · exact hfilter e he
    · intro a ha b hb
      rw [List.mem_singleton] at hb
      rw [hb]
      exact happ.fresh a ha
    · intro a ha b hb hsome
      rw [List.mem_singleton] at hb
      rw [hb, happ.plain]
      exact hsome
  · rw [List.mem_singleton] at he
    rw [he]
    refine visible_of_unique digest happ.plain happ.id_ne ?_
    have hzero : (entries.map SessionTreeEntry.id).count entry.id = 0 := by
      rw [List.count_eq_zero]
      intro hmem
      obtain ⟨x, hx, hid⟩ := List.mem_map.mp hmem
      exact happ.fresh x hx hid
    rw [List.map_append, List.count_append, hzero]
    simp

/-- **After the new summary the context shows the messages from the cut on.** -/
theorem messages_after_summary (h : Branch digest entries) {entry : SessionTreeEntry}
    (happ : Appended entries preparation entry) {cut : Nat} {first : SessionTreeEntry}
    (hcut : entries[cut]? = some first) (hfirst : first.id = preparation.firstKeptEntryId) :
    (buildSessionContext digest (entries ++ [entry])).messages.tail =
      (entries.drop cut).filterMap contextMessage := by
  obtain ⟨c, hc, hkept⟩ := happ.compaction
  have hlast : lastCompaction (entries ++ [entry]) = some (entries.length, c) := by
    rw [lastCompaction_append, hc]
  have hids : ((entries ++ [entry]).map SessionTreeEntry.id).Nodup := by
    rw [List.map_append, List.nodup_append]
    refine ⟨h.ids.1, by simp, ?_⟩
    intro a ha b hb
    obtain ⟨x, hx, rfl⟩ := List.mem_map.mp ha
    simp only [List.map_cons, List.map_nil, List.mem_singleton] at hb
    rw [hb]
    exact happ.fresh x hx
  have hcid : c.id = entry.id := by
    unfold asCompaction at hc
    cases hbody : entry.body <;> rw [hbody] at hc <;> simp at hc
    rw [← hc]
  have hidx : ((entries ++ [entry]).findIdx fun e =>
      isCompaction e && decide (e.id = c.id)) = entries.length := by
    refine findIdx_id hids (e := entry) (by simp) ?_ ?_
    · rw [Bool.and_eq_true, decide_eq_true_eq]
      exact ⟨(isCompaction_iff entry).mpr ⟨c, hc⟩, hcid.symm⟩
    · intro x hx
      rw [Bool.and_eq_true, decide_eq_true_eq] at hx
      rw [hx.2, hcid]
  have hfind : (entries.findIdx fun a => !decide (a.id ≠ c.firstKeptEntryId)) = cut := by
    refine findIdx_id h.ids.1 hcut ?_ ?_
    · simp [hkept, hfirst]
    · intro x hx
      have hx : x.id = c.firstKeptEntryId := by simpa using hx
      rw [hx, hkept, hfirst]
  rw [messages_of_some (visible_append h happ) hlast, List.tail_cons, entriesAfterSummary]
  rw [hidx, List.take_left, List.drop_eq_nil_of_le (by simp), List.append_nil, entriesFrom,
    List.dropWhile_eq_drop_findIdx_not, hfind]

end Branch

end Compaction

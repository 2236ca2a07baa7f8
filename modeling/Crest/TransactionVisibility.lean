import Mathlib.Data.List.ReduceOption
import Mathlib.Tactic
import Crest.EntryTransaction

/-!
# Transactions are visible as a whole

Whether an entry is visible depends on the whole log: on the other entries with
its id, and on the group of its transaction.  `isVisible` states the dependence
once.  From it follow

* the group of a transaction is visible entirely or not at all;
* an entry outside all transactions is visible if it has an id of its own;
* a strict prefix of a group that validates does not validate, because its
  manifest stands one place too far back;
* two lists without common entry ids and transaction ids are filtered
  independently.

The last two together describe a log whose last append was torn.
-/

namespace Session

variable (digest : Digest)

@[simp] theorem validEntryId_eq_some (e : SessionTreeEntry) (id : JsString) :
    validEntryId e = some id ↔ e.id = id ∧ id ≠ [] := by
  unfold validEntryId entryId requiredString
  dsimp only
  split_ifs with h
  · simp only [Except.toOption, reduceCtorEq, false_iff, not_and, not_not]
    rintro rfl
    exact h
  · simp only [Except.toOption, Option.some.injEq, iff_self_and]
    rintro rfl
    exact h

/-- An entry carries a transaction id the code accepts. -/
def carries (t : JsString) (e : SessionTreeEntry) : Bool :=
  decide (e.transactionId = some t) && decide (t ≠ [])

@[simp] theorem carries_iff (t : JsString) (e : SessionTreeEntry) :
    carries t e = true ↔ e.transactionId = some t ∧ t ≠ [] := by
  simp [carries]

theorem transactionIdForEntry_eq_some (e : SessionTreeEntry) (t : JsString) :
    transactionIdForEntry e = .ok (some t) ↔ carries t e = true := by
  unfold transactionIdForEntry requiredString
  rw [carries_iff]
  rcases e.transactionId with _ | t'
  · simp
  · dsimp only
    split_ifs with h
    · simp only [Except.map, reduceCtorEq, Option.some.injEq, false_iff, not_and, not_not]
      rintro rfl
      exact h
    · simp only [Except.map, Except.ok.injEq, Option.some.injEq, iff_self_and]
      rintro rfl
      exact h

theorem transactionIdForEntry_eq_none (e : SessionTreeEntry) :
    transactionIdForEntry e = .ok none ↔ e.transactionId = none := by
  unfold transactionIdForEntry requiredString
  rcases e.transactionId with _ | t
  · simp
  · dsimp only
    split_ifs <;> simp [Except.map]

/-- The group of a transaction. -/
def groupOf (t : JsString) (entries : List SessionTreeEntry) : List SessionTreeEntry :=
  entries.filter (carries t)

theorem groupOf_append (t : JsString) (l l' : List SessionTreeEntry) :
    groupOf t (l ++ l') = groupOf t l ++ groupOf t l' := List.filter_append ..

theorem get_transactionGroups (entries : List SessionTreeEntry) (t : JsString) :
    (transactionGroups entries).get t =
      if groupOf t entries = [] then none else some (groupOf t entries) := by
  unfold transactionGroups
  induction entries using List.reverseRecOn with
  | nil => simp [groupOf]
  | append_singleton l e ih =>
    rw [List.foldl_append, List.foldl_cons, List.foldl_nil, groupOf_append]
    generalize List.foldl pushGroup JsMap.empty l = groups at ih
    unfold pushGroup
    split
    · rename_i t' htx
      rw [transactionIdForEntry_eq_some] at htx
      have htx' := (carries_iff t' e).1 htx
      rw [JsMap.get_set]
      split_ifs with h1 h2 h2
      · subst h1
        simp [groupOf, htx] at h2
      · subst h1
        have hself : groupOf t [e] = [e] := by simp [groupOf, htx]
        rw [ih, hself]
        split_ifs with h3
        · simp [h3]
        · simp
      · rw [ih]
        simp only [List.append_eq_nil_iff] at h2
        rw [if_pos h2.1]
      · have hne : groupOf t [e] = [] := by
          simp only [groupOf, List.filter_eq_nil_iff, List.mem_singleton, carries_iff]
          rintro x rfl ⟨hx, -⟩
          rw [htx'.1] at hx
          exact h1 (Option.some.inj hx).symm
        rw [hne, List.append_nil] at h2 ⊢
        rw [ih, if_neg h2]
    · rename_i hno
      have hne : groupOf t [e] = [] := by
        simp only [groupOf, List.filter_eq_nil_iff, List.mem_singleton]
        rintro x rfl hx
        exact hno t ((transactionIdForEntry_eq_some x t).2 hx)
      rw [hne, List.append_nil, ih]

theorem filterMap_validEntryId (entries : List SessionTreeEntry) :
    entries.filterMap validEntryId =
      (entries.map SessionTreeEntry.id).filter fun id => id ≠ [] := by
  induction entries with
  | nil => rfl
  | cons e l ih =>
    by_cases h : e.id = []
    · have hnone : validEntryId e = none := by
        rcases hid : validEntryId e with _ | id
        · rfl
        · obtain ⟨rfl, hne⟩ := (validEntryId_eq_some e id).1 hid
          exact absurd h hne
      simp [hnone, h, ih]
    · have hsome : validEntryId e = some e.id := (validEntryId_eq_some e e.id).2 ⟨rfl, h⟩
      simp [hsome, h, ih]

theorem mem_duplicateEntryIds (entries : List SessionTreeEntry) {id : JsString}
    (hid : id ≠ []) :
    id ∈ duplicateEntryIds entries ↔ 1 < (entries.map SessionTreeEntry.id).count id := by
  have hcount : ((entries.map SessionTreeEntry.id).filter fun id => id ≠ []).count id =
      (entries.map SessionTreeEntry.id).count id :=
    List.count_filter (by simpa using hid)
  unfold duplicateEntryIds
  rw [filterMap_validEntryId]
  simp only [List.mem_filter, List.mem_reverse, List.mem_dedup, decide_eq_true_eq, hcount]
  constructor
  · exact fun h => h.2
  · intro h
    refine ⟨⟨?_, hid⟩, h⟩
    exact List.count_pos_iff.1 (by omega)

/-- The transaction of a group that is committed in a log. -/
def committedIn (entries : List SessionTreeEntry) (t : JsString) :
    Option CommittedSessionEntryTransaction :=
  if groupOf t entries = [] then none
  else committedGroup digest (duplicateEntryIds entries) t (groupOf t entries)

theorem get_committedTransactions (entries : List SessionTreeEntry) (t : JsString) :
    (filterCommittedTransactionEntries digest entries).committedTransactions.get t =
      committedIn digest entries t := by
  unfold filterCommittedTransactionEntries committedIn
  rw [JsMap.get_filterMap, get_transactionGroups]
  split_ifs <;> rfl

/-- When an entry of a log is visible. -/
def isVisible (entries : List SessionTreeEntry) (e : SessionTreeEntry) : Bool :=
  e.id ≠ [] && e.id ∉ duplicateEntryIds entries &&
    match e.transactionId with
    | none => true
    | some t => t ≠ [] && (committedIn digest entries t).isSome

theorem visible_eq_filter (entries : List SessionTreeEntry) :
    (filterCommittedTransactionEntries digest entries).entries =
      entries.filter (isVisible digest entries) := by
  unfold filterCommittedTransactionEntries
  refine List.filter_congr fun e _ => ?_
  rcases hid : validEntryId e with _ | id
  · have hnil : e.id = [] := by
      by_contra h
      have := (validEntryId_eq_some e e.id).2 ⟨rfl, h⟩
      simp [hid] at this
    simp [isVisible, hnil]
  · obtain ⟨rfl, hne⟩ := (validEntryId_eq_some e id).1 hid
    by_cases hdup : e.id ∈ duplicateEntryIds entries
    · simp [isVisible, hdup]
    · have hget := fun t => get_committedTransactions digest entries t
      simp only [filterCommittedTransactionEntries] at hget
      simp only [hdup, if_false, isVisible, hne, ne_eq, not_false_eq_true, decide_true,
        Bool.true_and]
      rcases htx : e.transactionId with _ | t
      · rw [(transactionIdForEntry_eq_none e).2 htx]
      · by_cases ht : t = []
        · subst ht
          simp [transactionIdForEntry, htx, requiredString, Except.map]
        · rw [(transactionIdForEntry_eq_some e t).2 ((carries_iff t e).2 ⟨htx, ht⟩)]
          simp [JsMap.has, hget, ht]

/-- What a group that validates looks like. -/
structure ValidGroup
    (t : JsString) (group : List SessionTreeEntry)
    (tx : CommittedSessionEntryTransaction) : Prop where
  manifest : ∃ i data, findManifest group = .ok (i, data) ∧ data.transactionId = t ∧
    i + 2 = group.length ∧ group[i]? = some tx.manifest ∧ tx.members = group.eraseIdx i ∧
    tx.userEntryId = data.userEntryId
  ids : ∃ ids, group.mapM entryId = .ok ids ∧ ids.Nodup ∧
    ∀ first parent, group.head? = some first → first.parentId = some parent → parent ∉ ids
  user : ∃ user, tx.members.getLast? = some user ∧ isUserEntry user = .ok true ∧
    user.id = tx.userEntryId
  chain : isPhysicalChain group = true
  physicalEntries : tx.physicalEntries = group
  transactionId : tx.transactionId = t

variable {tx : CommittedSessionEntryTransaction} {t : JsString} {group : List SessionTreeEntry}

theorem validateGroup_ok (h : validateGroup digest t group = .ok tx) :
    ValidGroup t group tx := by
  unfold validateGroup at h
  simp only [bind, Except.bind, pure, Except.pure, throw, throwThe, MonadExceptOf.throw] at h
  split at h
  · cases h
  rename_i found hm
  split at h
  · cases h
  rename_i htx
  split at h
  · cases h
  rename_i hidx
  split at h
  · cases h
  split at h
  · cases h
  rename_i ids hids
  split at h
  · cases h
  rename_i hnodup
  split at h
  · cases h
  split at h
  · rename_i user manifest first huser hman hfirst
    split at h
    · cases h
    rename_i isUser hisUser
    split at h
    · cases h
    rename_i hu
    split at h
    · cases h
    split at h
    · cases h
    rename_i hpar
    split at h
    · cases h
    rename_i hchain
    obtain rfl := Except.ok.inj h
    refine ⟨⟨found.1, found.2, hm, not_not.1 htx, not_not.1 hidx, hman, rfl, rfl⟩,
      ⟨ids, hids, not_not.1 hnodup, ?_⟩, ⟨user, huser, ?_, ?_⟩, by simpa using hchain, rfl, rfl⟩
    · intro f parent hf hparent
      rw [hfirst] at hf
      obtain rfl := Option.some.inj hf
      simpa [hparent] using hpar
    · rw [hisUser]
      simp at hu
      rw [hu.1]
    · simp at hu
      exact hu.2
  · cases h

theorem findManifest_ok {i : Nat} {data : SessionTransactionManifestData}
    (h : findManifest group = .ok (i, data)) :
    ∃ reads, group.mapM manifestData = .ok reads ∧ reads.reduceOption = [data] ∧
      reads.findIdx Option.isSome = i := by
  unfold findManifest at h
  simp only [bind, Except.bind, pure, Except.pure, throw, throwThe, MonadExceptOf.throw] at h
  split at h
  · cases h
  rename_i reads hreads
  split at h
  · rename_i d hd
    simp only [Except.ok.injEq, Prod.mk.injEq] at h
    obtain ⟨rfl, rfl⟩ := h
    exact ⟨reads, hreads, hd, rfl⟩
  · cases h

/-- **A torn group is not a group.**  If a group validates, no strict prefix of
it does: the manifest keeps its index and the length is another one. -/
theorem strict_prefix_invalid {rest : List SessionTreeEntry}
    (h : validateGroup digest t (group ++ rest) = .ok tx) (hrest : rest ≠ []) :
    ∀ tx', validateGroup digest t group ≠ .ok tx' := by
  intro tx' h'
  obtain ⟨i, data, hm, -, hlen, -⟩ := (validateGroup_ok digest h).manifest
  obtain ⟨j, data', hm', -, hlen', -⟩ := (validateGroup_ok digest h').manifest
  obtain ⟨reads, hreads, -, hi⟩ := findManifest_ok hm
  obtain ⟨reads', hreads', hone', hj⟩ := findManifest_ok hm'
  rw [List.mapM_append, hreads'] at hreads
  simp only [bind, Except.bind, pure, Except.pure] at hreads
  split at hreads
  · cases hreads
  rename_i more _
  obtain rfl := Except.ok.inj hreads
  -- the shorter group already reads a manifest, so both find it at one index
  have hex : ∃ x ∈ reads', x.isSome = true := by
    refine ⟨some data', ?_, rfl⟩
    rw [← List.reduceOption_mem_iff, hone']
    exact List.mem_singleton_self _
  have hij : i = j := by
    rw [← hi, ← hj, List.findIdx_append, if_pos]
    exact List.findIdx_lt_length.2 hex
  have hpos := List.length_pos_of_ne_nil hrest
  rw [List.length_append] at hlen
  omega

variable {entries : List SessionTreeEntry}

theorem committedIn_isSome (h : (committedIn digest entries t).isSome = true) :
    groupOf t entries ≠ [] ∧
      (∀ e ∈ groupOf t entries, e.id ≠ [] ∧ e.id ∉ duplicateEntryIds entries) ∧
      ∃ tx, validateGroup digest t (groupOf t entries) = .ok tx := by
  unfold committedIn at h
  split_ifs at h with hnil
  · simp at h
  · unfold committedGroup at h
    split_ifs at h with husable
    · simp at h
    · refine ⟨hnil, ?_, ?_⟩
      · intro e he
        by_contra hbad
        refine husable (List.any_eq_true.2 ⟨e, he, ?_⟩)
        rcases hid : validEntryId e with _ | id
        · rfl
        · obtain ⟨rfl, hne⟩ := (validEntryId_eq_some e id).1 hid
          simp only [hne, ne_eq, not_false_eq_true, true_and, not_not] at hbad
          simpa using hbad
      · rcases hv : validateGroup digest t (groupOf t entries) with m | tx
        · simp [hv, Except.toOption] at h
        · exact ⟨tx, rfl⟩

/-- **All or nothing.**  The entries of a transaction are visible together or not
at all. -/
theorem visible_all_or_none (entries : List SessionTreeEntry) (t : JsString) :
    (∀ e ∈ entries, e.transactionId = some t → isVisible digest entries e = true) ∨
    (∀ e ∈ entries, e.transactionId = some t → isVisible digest entries e = false) := by
  by_cases hvis : t ≠ [] ∧ (committedIn digest entries t).isSome = true
  · refine Or.inl fun e he htx => ?_
    obtain ⟨-, hids, -⟩ := committedIn_isSome digest hvis.2
    obtain ⟨h1, h2⟩ := hids e (List.mem_filter.2 ⟨he, (carries_iff t e).2 ⟨htx, hvis.1⟩⟩)
    simp [isVisible, htx, h1, h2, hvis.1, hvis.2]
  · refine Or.inr fun e _ htx => ?_
    have hno : (decide (t ≠ []) && (committedIn digest entries t).isSome) = false := by
      by_contra h
      simp only [ne_eq, decide_not, Bool.not_eq_false, Bool.and_eq_true, Bool.not_eq_true',
        decide_eq_false_iff_not] at h
      exact hvis h
    simp only [isVisible, htx, hno, Bool.and_false]

theorem visible_of_unique {e : SessionTreeEntry} (htx : e.transactionId = none)
    (hid : e.id ≠ []) (hunique : (entries.map SessionTreeEntry.id).count e.id = 1) :
    isVisible digest entries e = true := by
  have hdup : e.id ∉ duplicateEntryIds entries := by
    rw [mem_duplicateEntryIds entries hid]
    omega
  simp [isVisible, htx, hid, hdup]

/-- **Two separate lists are filtered separately.**  If they share neither entry
ids nor transaction ids, an entry of the first is visible in both if it is in the
first. -/
theorem isVisible_append_left {l l' : List SessionTreeEntry}
    (hids : ∀ a ∈ l, ∀ b ∈ l', a.id ≠ b.id)
    (htxs : ∀ a ∈ l, ∀ b ∈ l', a.transactionId ≠ none → a.transactionId ≠ b.transactionId)
    {m : List SessionTreeEntry} (hm : m = l ++ l' ∨ m = l' ++ l) {e : SessionTreeEntry}
    (he : e ∈ l) :
    isVisible digest m e = isVisible digest l e := by
  have hcount : ∀ a ∈ l, (m.map SessionTreeEntry.id).count a.id =
      (l.map SessionTreeEntry.id).count a.id := by
    intro a ha
    have hzero : (l'.map SessionTreeEntry.id).count a.id = 0 := by
      rw [List.count_eq_zero]
      intro hmem
      obtain ⟨b, hb, hba⟩ := List.mem_map.1 hmem
      exact hids a ha b hb hba.symm
    rcases hm with rfl | rfl <;> simp [hzero]
  have hdup : ∀ a ∈ l, a.id ≠ [] → (a.id ∈ duplicateEntryIds m ↔ a.id ∈ duplicateEntryIds l) := by
    intro a ha hne
    rw [mem_duplicateEntryIds m hne, mem_duplicateEntryIds l hne, hcount a ha]
  have hgroup : ∀ t, e.transactionId = some t → groupOf t m = groupOf t l := by
    intro t ht
    have hnil : groupOf t l' = [] := by
      simp only [groupOf, List.filter_eq_nil_iff, carries_iff]
      rintro b hb ⟨hbt, -⟩
      exact htxs e he b hb (by simp [ht]) (by rw [ht, hbt])
    rcases hm with rfl | rfl <;> simp [groupOf_append, hnil]
  have hcommit : ∀ t, e.transactionId = some t →
      committedIn digest m t = committedIn digest l t := by
    intro t ht
    unfold committedIn
    rw [hgroup t ht]
    have husable : hasUnusableEntry (duplicateEntryIds m) (groupOf t l) =
        hasUnusableEntry (duplicateEntryIds l) (groupOf t l) := by
      unfold hasUnusableEntry
      rw [Bool.eq_iff_iff, List.any_eq_true, List.any_eq_true]
      refine exists_congr fun a => and_congr_right fun ha => ?_
      rcases hid : validEntryId a with _ | id
      · rfl
      · obtain ⟨rfl, hne⟩ := (validEntryId_eq_some a id).1 hid
        simpa using hdup a (List.mem_of_mem_filter ha) hne
    unfold committedGroup
    rw [husable]
  unfold isVisible
  by_cases hne : e.id = []
  · simp [hne]
  · have hdec : decide (e.id ∉ duplicateEntryIds m) = decide (e.id ∉ duplicateEntryIds l) := by
      simp [hdup e he hne]
    rw [hdec]
    rcases ht : e.transactionId with _ | t
    · rfl
    · simp only [hcommit t ht]

end Session

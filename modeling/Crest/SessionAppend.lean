import Crest.TransactionVisibility

/-!
# Appending to a session log

`validateSessionEntriesForAppend` accepts a batch whose ids and transactions are
new to the log and which is entirely visible on its own.  A crash may leave a
strict prefix of the last batch in the file.  Reading such a log shows the old
entries as before and, of the prefix, exactly what is outside all transactions
or belongs to a transaction that is wholly there.
-/

namespace Session

variable (digest : Digest)

variable {existingTxs : List JsString} {e : SessionTreeEntry}

theorem checkTransactionId_ok (h : checkTransactionId existingTxs e = .ok ()) {t : JsString}
    (ht : e.transactionId = some t) :
    t ≠ [] ∧ t ∉ existingTxs := by
  simp only [checkTransactionId, bind, Except.bind, pure, Except.pure, throw, throwThe,
    MonadExceptOf.throw] at h
  split at h
  · cases h
  rename_i v hv
  split at h
  · rw [transactionIdForEntry_eq_none, ht] at hv
    cases hv
  · rename_i t'
    split at h
    · cases h
    rename_i hnew
    rw [transactionIdForEntry_eq_some, carries_iff, ht] at hv
    obtain rfl := Option.some.inj hv.1
    exact ⟨hv.2, hnew⟩

variable {batchIds existingIds : List JsString}

theorem checkAppendedEntry_ok {id : JsString}
    (h : checkAppendedEntry existingIds existingTxs batchIds e = .ok id) :
    id = e.id ∧ e.id ≠ [] ∧ e.id ∉ existingIds ∧ e.id ∉ batchIds ∧
      ∀ t, e.transactionId = some t → t ≠ [] ∧ t ∉ existingTxs := by
  simp only [checkAppendedEntry, bind, Except.bind, pure, Except.pure, throw, throwThe,
    MonadExceptOf.throw] at h
  split at h
  · cases h
  rename_i id' hid'
  have hvalid : validEntryId e = some id' := by simp [validEntryId, hid', Except.toOption]
  obtain ⟨rfl, hne⟩ := (validEntryId_eq_some e id').1 hvalid
  split at h
  · cases h
  rename_i hfresh
  rw [not_or] at hfresh
  split at h
  · cases h
  split at h
  · cases h
  rename_i htx
  exact ⟨(Except.ok.inj h).symm, hne, hfresh.1, hfresh.2, fun t => checkTransactionId_ok htx⟩

theorem checkAppendedEntry_parent {id : JsString}
    (h : checkAppendedEntry existingIds existingTxs batchIds e = .ok id) {parent : JsString}
    (hparent : e.parentId = some parent) :
    parent ∈ existingIds ++ batchIds := by
  simp only [checkAppendedEntry, bind, Except.bind, throw, throwThe,
    MonadExceptOf.throw] at h
  split at h
  · cases h
  split at h
  · cases h
  split at h
  · cases h
  rename_i hcheck
  simp only [checkParent, hparent] at hcheck
  split at hcheck
  case isTrue hmem => exact hmem
  case isFalse _ => cases hcheck

variable {batch : List SessionTreeEntry}

theorem checkAppendedEntries_ok
    (h : checkAppendedEntries existingIds existingTxs batchIds batch = .ok ()) :
    (∀ e ∈ batch, e.id ≠ [] ∧ e.id ∉ existingIds ∧ e.id ∉ batchIds) ∧
    (batch.map SessionTreeEntry.id).Nodup ∧
    (∀ e ∈ batch, ∀ t, e.transactionId = some t → t ≠ [] ∧ t ∉ existingTxs) := by
  induction batch generalizing batchIds with
  | nil => simp
  | cons e rest ih =>
    simp only [checkAppendedEntries, bind, Except.bind] at h
    split at h
    · cases h
    rename_i id hid
    obtain ⟨hrest, hnodup, htxs⟩ := ih h
    obtain ⟨rfl, hne, hnew, hbatch, htx⟩ := checkAppendedEntry_ok hid
    refine ⟨?_, ?_, ?_⟩
    · intro a ha
      rcases List.mem_cons.1 ha with rfl | ha
      · exact ⟨hne, hnew, hbatch⟩
      · obtain ⟨h1, h2, h3⟩ := hrest a ha
        exact ⟨h1, h2, fun hm => h3 (List.mem_cons_of_mem _ hm)⟩
    · rw [List.map_cons, List.nodup_cons]
      refine ⟨?_, hnodup⟩
      intro hm
      obtain ⟨a, ha, haid⟩ := List.mem_map.1 hm
      exact (hrest a ha).2.2 (haid ▸ List.mem_cons_self)
    · intro a ha
      rcases List.mem_cons.1 ha with rfl | ha
      · exact htx
      · exact htxs a ha

/-- What an accepted batch looks like. -/
structure AcceptedBatch (log batch : List SessionTreeEntry) : Prop where
  id_ne_nil : ∀ e ∈ batch, e.id ≠ []
  id_fresh : ∀ a ∈ log, ∀ b ∈ batch, a.id ≠ b.id
  ids_nodup : (batch.map SessionTreeEntry.id).Nodup
  tx_ne_nil : ∀ e ∈ batch, e.transactionId ≠ some []
  tx_fresh : ∀ a ∈ log, ∀ b ∈ batch, a.transactionId ≠ none →
    a.transactionId ≠ b.transactionId
  visible : ∀ e ∈ batch, isVisible digest batch e = true

variable {log : List SessionTreeEntry}

theorem validateSessionEntriesForAppend_ok
    (h : validateSessionEntriesForAppend digest (logEntryIds log) (logTransactionIds log) batch =
      .ok ()) :
    AcceptedBatch digest log batch := by
  simp only [validateSessionEntriesForAppend, bind, Except.bind, pure, Except.pure, throw,
    throwThe, MonadExceptOf.throw] at h
  split at h
  · cases h
  rename_i hcheck
  obtain ⟨hids, hnodup, htxs⟩ := checkAppendedEntries_ok hcheck
  have hall : (filterCommittedTransactionEntries digest batch).entries = batch := by
    split at h
    · cases h
    · split at h
      · cases h
      · rename_i hsame
        exact not_not.1 hsame
  rw [visible_eq_filter, List.filter_eq_self] at hall
  refine ⟨fun e he => (hids e he).1, ?_, hnodup, ?_, ?_, hall⟩
  · intro a ha b hb hab
    exact (hids b hb).2.1 (hab ▸ List.mem_map_of_mem ha)
  · intro e he ht
    exact (htxs e he [] ht).1 rfl
  · intro a ha b hb hne hab
    obtain ⟨t, ht⟩ := Option.ne_none_iff_exists'.1 hne
    exact (htxs b hb t (by rw [← hab, ht])).2 (List.mem_filterMap.2 ⟨a, ha, ht⟩)

/-- Whether an entry is outside all transactions, or its transaction in the
batch lies wholly in the prefix. -/
def wholeIn (batch kept : List SessionTreeEntry) (e : SessionTreeEntry) : Bool :=
  match e.transactionId with
  | none => true
  | some t => batch.all fun b => b.transactionId ≠ some t || b ∈ kept

theorem isVisible_prefix {kept lost : List SessionTreeEntry}
    (hb : AcceptedBatch digest log (kept ++ lost)) (he : e ∈ kept) :
    isVisible digest kept e = wholeIn (kept ++ lost) kept e := by
  have heb : e ∈ kept ++ lost := List.mem_append_left _ he
  have hne : ∀ a ∈ kept, a.id ≠ [] := fun a ha => hb.id_ne_nil a (List.mem_append_left _ ha)
  have hnodup := hb.ids_nodup
  rw [List.map_append, List.nodup_append] at hnodup
  have hdup : ∀ a ∈ kept, a.id ∉ duplicateEntryIds kept := by
    intro a ha
    rw [mem_duplicateEntryIds kept (hne a ha)]
    have := List.nodup_iff_count_le_one.1 hnodup.1 a.id
    omega
  rcases htx : e.transactionId with _ | t
  · simp [isVisible, wholeIn, htx, hne e he, hdup e he]
  · have ht : t ≠ [] := by
      rintro rfl
      exact hb.tx_ne_nil e heb htx
    have hvis := hb.visible e heb
    simp only [isVisible, htx, Bool.and_eq_true] at hvis
    obtain ⟨-, -, tx, hvalid⟩ := committedIn_isSome digest hvis.2.2
    rw [groupOf_append] at hvalid
    have hcarry : carries t e = true := (carries_iff t e).2 ⟨htx, ht⟩
    have hgroup : groupOf t kept ≠ [] :=
      List.ne_nil_of_mem (List.mem_filter.2 ⟨he, hcarry⟩)
    have husable : hasUnusableEntry (duplicateEntryIds kept) (groupOf t kept) = false := by
      unfold hasUnusableEntry
      rw [List.any_eq_false]
      intro a ha
      have ha' := List.mem_of_mem_filter ha
      rw [(validEntryId_eq_some a a.id).2 ⟨rfl, hne a ha'⟩]
      simpa using hdup a ha'
    have hcommit : (committedIn digest kept t).isSome =
        (validateGroup digest t (groupOf t kept)).toOption.isSome := by
      simp [committedIn, hgroup, committedGroup, husable]
    have hiff : isVisible digest kept e =
        (validateGroup digest t (groupOf t kept)).toOption.isSome := by
      simp [isVisible, htx, ht, hne e he, hdup e he, hcommit]
    rw [hiff]
    by_cases hlost : groupOf t lost = []
    · rw [hlost, List.append_nil] at hvalid
      have hwhole : wholeIn (kept ++ lost) kept e = true := by
        simp only [wholeIn, htx, List.all_eq_true, Bool.or_eq_true, decide_eq_true_eq]
        intro b hbm
        rcases List.mem_append.1 hbm with hk | hl
        · exact Or.inr hk
        · refine Or.inl fun hbt => ?_
          have hmem : b ∈ groupOf t lost :=
            List.mem_filter.2 ⟨hl, (carries_iff t b).2 ⟨hbt, ht⟩⟩
          simp [hlost] at hmem
      rw [hvalid, hwhole]
      rfl
    · have hinvalid := strict_prefix_invalid digest hvalid hlost
      have hnone : (validateGroup digest t (groupOf t kept)).toOption.isSome = false := by
        rcases hv : validateGroup digest t (groupOf t kept) with m | tx'
        · rfl
        · exact absurd hv (hinvalid tx')
      obtain ⟨b, hbl⟩ := List.exists_mem_of_ne_nil _ hlost
      obtain ⟨hbl, hbt⟩ := List.mem_filter.1 hbl
      have hcut : wholeIn (kept ++ lost) kept e = false := by
        simp only [wholeIn, htx, List.all_eq_false]
        refine ⟨b, List.mem_append_right _ hbl, ?_⟩
        have hbk : b ∉ kept := fun hk =>
          hnodup.2.2 _ (List.mem_map_of_mem hk) _ (List.mem_map_of_mem hbl) rfl
        simp [((carries_iff t b).1 hbt).1, hbk]
      rw [hnone, hcut]

/-- **A torn append shows no half transaction.** -/
theorem visible_torn_append {kept lost : List SessionTreeEntry}
    (hb : AcceptedBatch digest log (kept ++ lost)) :
    (filterCommittedTransactionEntries digest (log ++ kept)).entries =
      (filterCommittedTransactionEntries digest log).entries ++
        kept.filter (wholeIn (kept ++ lost) kept) := by
  have hkept : ∀ {b}, b ∈ kept → b ∈ kept ++ lost := fun h => List.mem_append_left _ h
  have hids : ∀ a ∈ log, ∀ b ∈ kept, a.id ≠ b.id := fun a ha b hbk =>
    hb.id_fresh a ha b (hkept hbk)
  have htxs : ∀ a ∈ log, ∀ b ∈ kept, a.transactionId ≠ none →
      a.transactionId ≠ b.transactionId := fun a ha b hbk => hb.tx_fresh a ha b (hkept hbk)
  rw [visible_eq_filter, visible_eq_filter, List.filter_append]
  congr 1
  · exact List.filter_congr fun e he =>
      isVisible_append_left digest hids htxs (Or.inl rfl) he
  · refine List.filter_congr fun e he => ?_
    rw [← isVisible_prefix digest hb he]
    have hids' : ∀ a ∈ kept, ∀ b ∈ log, a.id ≠ b.id := fun a ha b hbl => (hids b hbl a ha).symm
    have htxs' : ∀ a ∈ kept, ∀ b ∈ log, a.transactionId ≠ none →
        a.transactionId ≠ b.transactionId :=
      fun a ha b hbl hne hab => htxs b hbl a ha (hab ▸ hne) hab.symm
    exact isVisible_append_left digest hids' htxs' (Or.inr rfl) he

/-- **Transactions are visible all or nothing.**  In every log the entries of a
transaction are visible together or not at all, an entry outside all transactions
whose id is not empty and its own is visible, and the visible entries keep their
order.  If the last accepted append was torn, the log shows its old entries as
before and of the torn prefix what is outside all transactions or whole. -/
theorem session_transactions_all_or_none :
    (∀ entries t,
      (∀ e ∈ entries, e.transactionId = some t →
        e ∈ (filterCommittedTransactionEntries digest entries).entries) ∨
      (∀ e ∈ entries, e.transactionId = some t →
        e ∉ (filterCommittedTransactionEntries digest entries).entries)) ∧
    (∀ entries, ∀ e ∈ entries, e.transactionId = none → e.id ≠ [] →
      (entries.map SessionTreeEntry.id).count e.id = 1 →
        e ∈ (filterCommittedTransactionEntries digest entries).entries) ∧
    (∀ entries, (filterCommittedTransactionEntries digest entries).entries.Sublist entries) ∧
    (∀ log kept lost,
      validateSessionEntriesForAppend digest (logEntryIds log) (logTransactionIds log)
        (kept ++ lost) = .ok () →
      (filterCommittedTransactionEntries digest (log ++ kept)).entries =
        (filterCommittedTransactionEntries digest log).entries ++
          kept.filter (wholeIn (kept ++ lost) kept)) := by
  refine ⟨?_, ?_, ?_, ?_⟩
  · intro entries t
    rw [visible_eq_filter]
    refine (visible_all_or_none digest entries t).imp ?_ ?_
    · exact fun h e he ht => List.mem_filter.2 ⟨he, h e he ht⟩
    · intro h e he ht hm
      have := (List.mem_filter.1 hm).2
      simp [h e he ht] at this
  · intro entries e he htx hid hunique
    rw [visible_eq_filter]
    exact List.mem_filter.2 ⟨he, visible_of_unique digest htx hid hunique⟩
  · intro entries
    rw [visible_eq_filter]
    exact List.filter_sublist
  · intro log kept lost hok
    exact visible_torn_append digest (validateSessionEntriesForAppend_ok digest hok)

/-- The digest of the examples below. -/
def constantDigest : Digest where
  sha256 := fun _ => js "d"
  numberText := fun _ => []

/-- A member, its manifest and the user entry of one transaction. -/
def turnBatch : List SessionTreeEntry :=
  [{ id := js "a", parentId := none, transactionId := some (js "t"),
     body := .sessionInfo none },
   { id := js "m", parentId := some (js "a"), transactionId := some (js "t"),
     body := .custom (js "session_tx_manifest") (some (.obj
       [(js "schemaVersion", .num 1), (js "transactionId", .str (js "t")),
        (js "userEntryId", .str (js "u")), (js "membersSha256", .str (js "d")),
        (js "orderedMemberEntryIds", .arr [.str (js "a"), .str (js "u")])])) },
   { id := js "u", parentId := some (js "m"), transactionId := some (js "t"),
     body := .message (.obj [(js "role", .str (js "user"))]) }]

/-- Of a turn cut before its user entry nothing is visible. -/
theorem session_transactions_all_or_none_torn_turn :
    (filterCommittedTransactionEntries constantDigest ([] ++ turnBatch.take 2)).entries = [] := by
  rw [(session_transactions_all_or_none constantDigest).2.2.2 [] (turnBatch.take 2)
    (turnBatch.drop 2) (by decide)]
  decide

/-- An entry outside all transactions whose id is empty is not visible, although
no other entry has its id. -/
theorem empty_id_invisible :
    let e : SessionTreeEntry := { id := [], parentId := none, body := .sessionInfo none }
    e.transactionId = none ∧ ([e].map SessionTreeEntry.id).count e.id = 1 ∧
      e ∉ (filterCommittedTransactionEntries constantDigest [e]).entries := by
  decide

end Session

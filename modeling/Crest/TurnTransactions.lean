import Crest.TurnWindow

/-!
# Transactions on a branch

On the active branch a committed transaction ends with its manifest and its user
entry, one directly after the other.  The session state and the planners each
compute where the transaction of the next user turn starts; on a branch they find
the same place.  The planners do not use it when it lies before the turn they look
at, but then the manifest keeps the turn from being closed anyway.
-/

namespace Session

open Workspace

variable (digest : Digest)

theorem mapM_ok_getElem? {α β : Type} {f : α → Checked β} {l : List α} {results : List β}
    (h : l.mapM f = .ok results) (i : Nat) (a : α) (ha : l[i]? = some a) :
    ∃ b, results[i]? = some b ∧ f a = .ok b := by
  induction l generalizing results i with
  | nil => simp at ha
  | cons x xs ih =>
    rw [List.mapM_cons] at h
    cases hx : f x with
    | error m => simp [hx, bind, Except.bind] at h
    | ok y =>
      cases hxs : xs.mapM f with
      | error m => simp [hx, hxs, bind, Except.bind] at h
      | ok ys =>
        simp only [hx, hxs, bind, Except.bind, pure, Except.pure, Except.ok.injEq] at h
        subst h
        cases i with
        | zero =>
          obtain rfl : x = a := by simpa using ha
          exact ⟨y, rfl, hx⟩
        | succ i => exact ih hxs i (by simpa using ha)

theorem parent_of_isPhysicalChain {before : List SessionTreeEntry}
    {parent child : SessionTreeEntry} (h : isPhysicalChain (before ++ [parent, child]) = true) :
    child.parentId = some parent.id := by
  induction before with
  | nil => simpa [isPhysicalChain] using h
  | cons first rest ih =>
    cases rest with
    | nil =>
      simp only [List.cons_append, List.nil_append, isPhysicalChain, Bool.and_eq_true] at h
      simpa using h.2.1
    | cons second rest =>
      simp only [List.cons_append, isPhysicalChain, Bool.and_eq_true] at h
      exact ih (by simpa [isPhysicalChain] using h.2)

theorem customType_of_manifestData {entry : SessionTreeEntry}
    {data : SessionTransactionManifestData} (h : manifestData entry = .ok (some data)) :
    entry.customType = some sessionTransactionManifestCustomType := by
  unfold manifestData at h
  split at h
  · rename_i customType payload hbody
    split at h
    · cases h
    · rename_i htype
      simp [SessionTreeEntry.customType, hbody, not_not.mp htype]
  · cases h

variable {tx : CommittedSessionEntryTransaction}

/-- **A valid group ends with its manifest and its user entry.** -/
theorem ValidGroup.ends {t : JsString} {group : List SessionTreeEntry}
    (h : ValidGroup t group tx) :
    ∃ before user, group = before ++ [tx.manifest, user] ∧ user.id = tx.userEntryId ∧
      user.parentId = some tx.manifest.id ∧
      tx.manifest.customType = some sessionTransactionManifestCustomType := by
  obtain ⟨i, data, hfind, -, hlength, hmanifest, hmembers, -⟩ := h.manifest
  obtain ⟨user, hlast, -, huserId⟩ := h.user
  obtain ⟨reads, hreads, -, hindex⟩ := findManifest_ok hfind
  have hi : i < group.length := by omega
  -- the entry after the manifest is the last one
  obtain ⟨last, hlastEntry⟩ : ∃ last, group.drop (i + 1) = [last] := by
    have hdrop : (group.drop (i + 1)).length = 1 := by
      rw [List.length_drop]
      omega
    exact List.length_eq_one_iff.mp hdrop
  have hsplit : group = group.take i ++ [tx.manifest, last] := by
    have hcons := List.drop_eq_getElem_cons hi
    rw [List.getElem?_eq_getElem hi, Option.some.injEq] at hmanifest
    rw [hmanifest, hlastEntry] at hcons
    rw [← hcons, List.take_append_drop]
  have huser : last = user := by
    rw [hmembers, List.eraseIdx_eq_take_drop_succ, hlastEntry, List.getLast?_concat,
      Option.some.injEq] at hlast
    exact hlast
  subst huser
  refine ⟨group.take i, last, hsplit, huserId, ?_, ?_⟩
  · have hchain := h.chain
    rw [hsplit] at hchain
    exact parent_of_isPhysicalChain hchain
  · obtain ⟨read, hread, hdata⟩ := mapM_ok_getElem? hreads i _ hmanifest
    have hsome : read.isSome = true := by
      have hlt : i < reads.length := (List.getElem?_eq_some_iff.mp hread).1
      have hfound := List.findIdx_getElem
        (w := (hindex ▸ hlt : reads.findIdx Option.isSome < reads.length))
      rw [List.getElem?_eq_getElem hlt, Option.some.injEq] at hread
      simpa [hindex, hread] using hfound
    obtain ⟨payload, rfl⟩ := Option.isSome_iff_exists.mp hsome
    exact customType_of_manifestData hdata

/-- A committed transaction of a branch, with its group. -/
structure CommittedOn (branch : List SessionTreeEntry) (t : JsString)
    (tx : CommittedSessionEntryTransaction) : Prop where
  valid : ValidGroup t (groupOf t branch) tx
  /-- Its entries are committed. -/
  committed : ∀ entry ∈ groupOf t branch, isCommitted digest branch entry = true

variable {branch : List SessionTreeEntry}

theorem committedOn_of_mem
    (h : tx ∈ (filterCommittedTransactionEntries digest branch).committedTransactions.values) :
    ∃ t, CommittedOn digest branch t tx := by
  obtain ⟨⟨t, _⟩, hentry, rfl⟩ := List.mem_map.mp h
  have hget := JsMap.get_of_mem_entries hentry
  rw [get_committedTransactions] at hget
  have hsome : (committedIn digest branch t).isSome = true := by rw [hget]; rfl
  obtain ⟨-, hids, -⟩ := committedIn_isSome digest hsome
  refine ⟨t, ?_, ?_⟩
  · unfold committedIn committedGroup at hget
    split_ifs at hget
    refine validateGroup_ok digest ?_
    cases hvalid : validateGroup digest t (groupOf t branch) with
    | error m => simp [hvalid, Except.toOption] at hget
    | ok other =>
      rw [hvalid] at hget
      exact congrArg Except.ok (Option.some.inj hget)
  · intro entry hmem
    obtain ⟨hbranch, hcarries⟩ := List.mem_filter.mp hmem
    obtain ⟨htx, ht⟩ := (carries_iff t entry).mp hcarries
    obtain ⟨hid, hdup⟩ := hids entry hmem
    rw [isCommitted, visible_eq_filter, decide_eq_true_eq, List.mem_filter]
    exact ⟨hbranch, by simp [isVisible, hid, hdup, htx, ht, hsome]⟩

theorem findIdx?_split {α : Type} (p : α → Bool) (before after : List α) (a : α) (ha : p a = true)
    (hbefore : ∀ b ∈ before, p b = false) :
    (before ++ a :: after).findIdx? p = some before.length := by
  rw [List.findIdx?_append, List.findIdx?_eq_none_iff.mpr hbefore]
  simp [ha, List.findIdx?_cons]

theorem findIdx?_id_split {before after : List SessionTreeEntry} {entry : SessionTreeEntry}
    (hnodup : ((before ++ entry :: after).map SessionTreeEntry.id).Nodup) :
    (before ++ entry :: after).findIdx? (fun e => e == entry) = some before.length ∧
      (before ++ entry :: after).findIdx? (fun e => e.id == entry.id) = some before.length ∧
      entryIndex (before ++ entry :: after) entry.id = some before.length := by
  rw [List.map_append, List.map_cons, List.nodup_append, List.nodup_cons] at hnodup
  obtain ⟨-, ⟨hafter, -⟩, hbefore⟩ := hnodup
  have hother : ∀ e ∈ before, (e.id == entry.id) = false := by
    intro e he
    rw [beq_eq_false_iff_ne]
    exact hbefore e.id (List.mem_map_of_mem he) entry.id List.mem_cons_self
  refine ⟨findIdx?_split _ _ _ _ (by simp) fun e he => ?_,
    findIdx?_split _ _ _ _ (by simp) hother, ?_⟩
  · have hne := hother e he
    rw [beq_eq_false_iff_ne] at hne ⊢
    exact fun heq => hne (congrArg SessionTreeEntry.id heq)
  · -- from the end, no entry before this one has its id
    have hnone : ((after.zipIdx (before.length + 1)).reverse.find?
        fun item => item.1.id == entry.id) = none := by
      rw [List.find?_eq_none]
      intro item hitem
      have hmem := mem_zipIdx_fst.mp ⟨item, List.mem_reverse.mp hitem, rfl⟩
      simp only [beq_iff_eq]
      exact fun heq => hafter (heq ▸ List.mem_map_of_mem hmem)
    simp only [entryIndex, List.zipIdx_append, List.zipIdx_cons, List.reverse_append,
      List.reverse_cons, List.append_assoc, List.find?_append, Nat.zero_add, hnone]
    simp

variable {entries : List SessionTreeEntry}

variable (hbranch : IsActiveBranch entries branch)
include hbranch

/-- **On a branch both sides find the same start of a transaction.** -/
theorem restoreTransactionStart_eq
    (h : tx ∈ (filterCommittedTransactionEntries digest branch).committedTransactions.values) :
    restoreTransactionStart branch tx = transactionStart branch tx := by
  obtain ⟨t, hcommitted⟩ := committedOn_of_mem digest h
  obtain ⟨before, user, hgroup, huserId, -, -⟩ := hcommitted.valid.ends
  have hphysical := hcommitted.valid.physicalEntries
  -- the user entry is behind the first entry of the group
  obtain ⟨first, others, hfirst, huser⟩ :
      ∃ first others, groupOf t branch = first :: others ∧ user ∈ others := by
    cases before with
    | nil => exact ⟨tx.manifest, [user], by simpa using hgroup, by simp⟩
    | cons first rest => exact ⟨first, rest ++ [tx.manifest, user], by simpa using hgroup, by simp⟩
  obtain ⟨left, right, hsplit, -, -, hright⟩ := List.filter_eq_cons_iff.mp hfirst
  have huserMem : user ∈ right := List.mem_of_mem_filter (hright ▸ huser)
  obtain ⟨middle, rest, rfl⟩ := List.append_of_mem huserMem
  have hnodup := hbranch.nodup
  have hfirstPlace := findIdx?_id_split (hsplit ▸ hnodup)
  have huserSplit : branch = (left ++ first :: middle) ++ user :: rest := by
    simpa using hsplit
  have huserPlace := findIdx?_id_split (huserSplit ▸ hnodup)
  rw [← hsplit] at hfirstPlace
  rw [← huserSplit] at huserPlace
  have hlt : left.length < (left ++ first :: middle).length := by simp
  simp only [restoreTransactionStart, transactionStart, hphysical, hfirst, List.head?_cons,
    Option.bind_some, hfirstPlace.2.2, Option.bind_eq_bind, hfirstPlace.1, ← huserId,
    huserPlace.2.1, hlt, if_true]

theorem restoreTransactionStarts_eq :
    restoreTransactionStartsByUserId digest branch =
      committedTransactionStartsByUserId digest branch := by
  unfold restoreTransactionStartsByUserId committedTransactionStartsByUserId
  refine List.foldl_ext _ _ _ fun starts tx hmem => ?_
  rw [restoreTransactionStart_eq digest hbranch hmem]

/-- **The entry before a user turn with a committed transaction is the manifest of
that transaction.** -/
theorem manifest_before_user
    {before after : List SessionTreeEntry} {previous user : SessionTreeEntry}
    (hsplit : branch = before ++ previous :: user :: after) {start : Nat}
    (hstart : (committedTransactionStartsByUserId digest branch).get user.id = some start) :
    previous.customType = some sessionTransactionManifestCustomType ∧
      isCommitted digest branch previous = true := by
  -- some committed transaction names this user entry
  obtain ⟨tx, hmem, htx⟩ : ∃ tx ∈
      (filterCommittedTransactionEntries digest branch).committedTransactions.values,
      tx.userEntryId = user.id := by
    by_contra hnone
    simp only [not_exists, not_and] at hnone
    have hget := JsMap.get_foldl_setSome_of_none CommittedSessionEntryTransaction.userEntryId
      (transactionStart branch)
      (filterCommittedTransactionEntries digest branch).committedTransactions.values
      JsMap.empty user.id fun tx hmem heq => absurd heq (hnone tx hmem)
    rw [JsMap.get_empty] at hget
    rw [committedTransactionStartsByUserId, hget] at hstart
    cases hstart
  obtain ⟨t, hcommitted⟩ := committedOn_of_mem digest hmem
  obtain ⟨init, last, hgroup, hlastId, hparent, htype⟩ := hcommitted.valid.ends
  have hlastMem : last ∈ groupOf t branch := by simp [hgroup]
  have hmanifestMem : tx.manifest ∈ groupOf t branch := by simp [hgroup]
  have hinj {a b : SessionTreeEntry} (ha : a ∈ branch) (hb : b ∈ branch) (hid : a.id = b.id) :
      a = b :=
    List.inj_on_of_nodup_map hbranch.nodup ha hb hid
  obtain rfl : last = user :=
    hinj (List.mem_of_mem_filter hlastMem) (by simp [hsplit]) (hlastId.trans htx)
  -- both are the parent of the user entry
  have hchain := hbranch.chain
  rw [hsplit, IsParentChain, List.isChain_append_cons_cons] at hchain
  have hprevious := hchain.2.1
  rw [hparent, Option.some.injEq] at hprevious
  obtain rfl : tx.manifest = previous :=
    hinj (List.mem_of_mem_filter hmanifestMem) (by simp [hsplit]) hprevious
  exact ⟨htype, hcommitted.committed _ hmanifestMem⟩

end Session

import Crest.RouterBacklog

/-!
# What a link receives

As long as a link is registered, what its channel has taken and what waits in its backlog are the
messages that were handed over for it, in the order of the lock.  While there is a backlog the
goroutine does not wait.  Once a link is unregistered, nothing of its backlog is sent any more: the
next round removes it.
-/

namespace RouterBacklog

open WshRouter

section Links

variable {linkId : LinkId}

@[simp] theorem ofLink_nil : ofLink linkId [] = [] := rfl

@[simp] theorem ofLink_append (a b : List (LinkId × Message)) :
    ofLink linkId (a ++ b) = ofLink linkId a ++ ofLink linkId b := by
  simp [ofLink]

theorem ofLink_singleton (other : LinkId) (msg : Message) :
    ofLink linkId [(other, msg)] = if other = linkId then [msg] else [] := by
  by_cases h : other = linkId
  · simp [ofLink, h]
  · simp [ofLink, h]

theorem ofLink_map (other : LinkId) (messages : List Message) :
    ofLink linkId (messages.map fun msg => (other, msg)) =
      if other = linkId then messages else [] := by
  induction messages with
  | nil => simp
  | cons msg messages ih =>
    rw [List.map_cons, ← List.singleton_append, ofLink_append, ofLink_singleton, ih]
    split <;> rfl

theorem ofLink_flatMap {entries : List (LinkId × List Message)}
    (hnodup : (entries.map Prod.fst).Nodup) (some' : LinkId → List Message → List Message) :
    ofLink linkId (entries.flatMap fun entry =>
        (some' entry.1 entry.2).map fun msg => (entry.1, msg)) =
      match entries.lookup linkId with
      | none => []
      | some backlog => some' linkId backlog := by
  induction entries with
  | nil => rfl
  | cons entry entries ih =>
    obtain ⟨other, backlog⟩ := entry
    rw [List.map_cons, List.nodup_cons] at hnodup
    rw [List.flatMap_cons, ofLink_append, ofLink_map, ih hnodup.2, List.lookup_cons]
    by_cases h : other = linkId
    · subst h
      have hnone : entries.lookup other = none := by
        rw [List.lookup_eq_none_iff]
        intro entry hentry
        have hne : other ≠ entry.1 := by
          intro h
          refine hnodup.1 ?_
          exact List.mem_map.mpr ⟨entry, hentry, h.symm⟩
        simpa using hne
      rw [if_pos rfl, beq_self_eq_true, hnone, List.append_nil]
    · rw [if_neg h, beq_false_of_ne (Ne.symm h)]
      rfl

end Links

section Steps

variable {router : WshRouter} {linkId : LinkId}

@[simp] theorem signal_fields :
    router.signal.linkMap = router.linkMap ∧ router.signal.nextLinkId = router.nextLinkId ∧
      router.signal.linkMsgBacklog = router.linkMsgBacklog ∧
      router.signal.senders = router.senders ∧ router.signal.handed = router.handed ∧
      router.signal.sent = router.sent ∧ router.signal.processor ≠ .waiting := by
  unfold signal
  cases h : router.processor <;> simp [h]

/-- What a message does to the backlog that it is put in. -/
structure Backlogged (router : WshRouter) (linkId : LinkId) (msg : Message)
    (router' : WshRouter) : Prop where
  linkMap : router'.linkMap = router.linkMap
  nextLinkId : router'.nextLinkId = router.nextLinkId
  senders : router'.senders = router.senders
  handed : router'.handed = router.handed
  sent : router'.sent = router.sent
  get : ∀ other, router'.linkMsgBacklog.get other =
    if other = linkId then some (router.backlog linkId ++ [msg])
    else router.linkMsgBacklog.get other
  processor : (router.linkMsgBacklog.size ≠ 0 → router.processor ≠ .waiting) →
    router'.processor ≠ .waiting

theorem addToBacklog_spec (msg : Message) :
    Backlogged router linkId msg (router.addToBacklog_withlock linkId msg) := by
  unfold addToBacklog_withlock
  dsimp only
  split
  · obtain ⟨hlinks, hnext, hbacklog, hsenders, hhanded, hsent, hprocessor⟩ :=
      @signal_fields { router with
        linkMsgBacklog := router.linkMsgBacklog.set linkId (router.backlog linkId ++ [msg]) }
    refine ⟨hlinks, hnext, hsenders, hhanded, hsent, ?_, fun _ => hprocessor⟩
    intro other
    rw [hbacklog]
    exact JsMap.get_set _ _ _ _
  · rename_i hsome
    refine ⟨rfl, rfl, rfl, rfl, rfl, fun other => JsMap.get_set _ _ _ _, ?_⟩
    intro h
    exact h (by simpa using hsome)

theorem sendRpcMessageToLink_cases (msg : Message) (hasRoom : Bool) :
    (router.backlog linkId = [] ∧
      router.sendRpcMessageToLink linkId msg hasRoom =
        { router with
          handed := router.handed ++ [(linkId, msg)]
          sent := router.sent ++ [(linkId, msg)] }) ∨
      Backlogged { router with handed := router.handed ++ [(linkId, msg)] } linkId msg
        (router.sendRpcMessageToLink linkId msg hasRoom) := by
  unfold sendRpcMessageToLink
  dsimp only
  split
  · rename_i h
    refine Or.inl ⟨?_, rfl⟩
    have hempty : ((router.backlog linkId).length == 0) = true := (Bool.and_eq_true_iff.mp h).1
    exact List.length_eq_zero_iff.mp (beq_iff_eq.mp hempty)
  · exact Or.inr (addToBacklog_spec msg)

theorem round_sent (room : LinkId → Nat) :
    ofLink linkId (router.processOneBacklogRound room).sent =
      ofLink linkId router.sent ++
        if router.linkMap.contains linkId then (router.backlog linkId).take (room linkId)
        else [] := by
  have hflat := @ofLink_flatMap linkId router.linkMsgBacklog.entries router.linkMsgBacklog.nodup
    fun other backlog => if router.linkMap.contains other then backlog.take (room other) else []
  have hsame : (router.linkMsgBacklog.entries.flatMap fun entry =>
        if router.linkMap.contains entry.1 then
          (entry.2.take (room entry.1)).map fun msg => (entry.1, msg)
        else []) =
      router.linkMsgBacklog.entries.flatMap fun entry =>
        (if router.linkMap.contains entry.1 then entry.2.take (room entry.1) else []).map
          fun msg => (entry.1, msg) := by
    congr 1
    funext entry
    split <;> rfl
  rw [processOneBacklogRound]
  dsimp only
  rw [ofLink_append, hsame, hflat]
  congr 1
  rw [backlog, JsMap.get]
  cases router.linkMsgBacklog.entries.lookup linkId with
  | none => simp
  | some backlog => rfl

theorem round_get (room : LinkId → Nat) :
    (router.processOneBacklogRound room).linkMsgBacklog.get linkId =
      if router.linkMap.contains linkId ∧ (router.backlog linkId).drop (room linkId) ≠ [] then
        some ((router.backlog linkId).drop (room linkId))
      else none := by
  rw [processOneBacklogRound]
  dsimp only
  rw [JsMap.get_filterMap, backlog]
  cases router.linkMsgBacklog.get linkId with
  | none => simp
  | some backlog =>
    rw [Option.bind_some, Option.getD_some]
    by_cases hlink : router.linkMap.contains linkId = true
    · rw [if_pos hlink]
      by_cases hempty : backlog.drop (room linkId) = []
      · rw [if_pos (by rw [hempty]; rfl), if_neg (by simp [hempty])]
      · rw [if_neg (fun h => hempty (List.length_eq_zero_iff.mp (beq_iff_eq.mp h))),
          if_pos ⟨hlink, hempty⟩]
    · rw [if_neg hlink, if_neg (fun h => hlink h.1)]

theorem round_backlog (room : LinkId → Nat) :
    (router.processOneBacklogRound room).backlog linkId =
      if router.linkMap.contains linkId then (router.backlog linkId).drop (room linkId)
      else [] := by
  rw [backlog, round_get]
  by_cases hlink : router.linkMap.contains linkId = true
  · rw [if_pos hlink]
    split
    · rfl
    · rename_i h
      by_contra hne
      exact h ⟨hlink, fun hempty => hne (by rw [hempty]; rfl)⟩
  · rw [if_neg hlink, if_neg (fun h => hlink h.1)]
    rfl

end Steps

section Runs

variable {router : WshRouter} {linkId : LinkId}

/-- What holds of a router in every run. -/
structure Inv (router : WshRouter) : Prop where
  /-- What a link that is registered has received, and what waits for it. -/
  delivered : ∀ linkId ∈ router.linkMap,
    ofLink linkId router.sent ++ router.backlog linkId = ofLink linkId router.handed
  registered : ∀ linkId ∈ router.linkMap, linkId ≤ router.nextLinkId
  lookedUp : ∀ entry ∈ router.senders, entry.1 ≤ router.nextLinkId
  /-- Nothing is known of a link before it is registered. -/
  fresh : ∀ linkId, router.nextLinkId < linkId →
    ofLink linkId router.sent = [] ∧ router.backlog linkId = [] ∧ ofLink linkId router.handed = []
  scheduled : router.linkMsgBacklog.size ≠ 0 → router.processor ≠ .waiting

theorem inv_new : Inv NewWshRouter := by
  refine ⟨?_, ?_, ?_, ?_, ?_⟩
  · intro linkId h
    cases h
  · intro linkId h
    cases h
  · intro entry h
    cases h
  · intro linkId _
    exact ⟨rfl, rfl, rfl⟩
  · intro h
    exact absurd rfl h

theorem Backlogged.backlog {router' : WshRouter} {msg : Message}
    (h : Backlogged router linkId msg router') (other : LinkId) :
    router'.backlog other =
      if other = linkId then router.backlog linkId ++ [msg] else router.backlog other := by
  rw [WshRouter.backlog, h.get]
  split <;> rfl

theorem Inv.handOver (h : Inv router) (hlink : linkId ≤ router.nextLinkId) (msg : Message)
    (hasRoom : Bool) :
    Inv (router.sendRpcMessageToLink linkId msg hasRoom) := by
  rcases @sendRpcMessageToLink_cases router linkId msg hasRoom with
    ⟨hempty, hsent⟩ | hbacklog
  · rw [hsent]
    refine ⟨?_, h.registered, h.lookedUp, ?_, h.scheduled⟩
    · intro other hother
      have hdelivered := h.delivered other hother
      show ofLink other (router.sent ++ [(linkId, msg)]) ++ router.backlog other =
        ofLink other (router.handed ++ [(linkId, msg)])
      rw [ofLink_append, ofLink_append, ofLink_singleton, ← hdelivered]
      split
      · rename_i hsame
        subst hsame
        rw [hempty, List.append_nil, List.append_nil]
      · rw [List.append_nil, List.append_nil]
    · intro other hother
      obtain ⟨hsent', hbacklog, hhanded⟩ := h.fresh other hother
      have hne : linkId ≠ other := Nat.ne_of_lt (Nat.lt_of_le_of_lt hlink hother)
      refine ⟨?_, hbacklog, ?_⟩
      · show ofLink other (router.sent ++ [(linkId, msg)]) = []
        rw [ofLink_append, ofLink_singleton, if_neg hne, hsent']
        rfl
      · show ofLink other (router.handed ++ [(linkId, msg)]) = []
        rw [ofLink_append, ofLink_singleton, if_neg hne, hhanded]
        rfl
  · generalize router.sendRpcMessageToLink linkId msg hasRoom = router' at hbacklog ⊢
    have hkept : ∀ other, WshRouter.backlog { router with
        handed := router.handed ++ [(linkId, msg)] } other = router.backlog other := fun _ => rfl
    refine ⟨?_, ?_, ?_, ?_, ?_⟩
    · intro other hother
      rw [hbacklog.linkMap] at hother
      have hdelivered := h.delivered other hother
      rw [hbacklog.sent, hbacklog.handed, hbacklog.backlog, hkept, hkept, ofLink_append,
        ofLink_singleton, ← hdelivered]
      by_cases hsame : other = linkId
      · subst hsame
        rw [if_pos rfl, if_pos rfl, List.append_assoc]
      · rw [if_neg hsame, if_neg (Ne.symm hsame), List.append_nil]
    · rw [hbacklog.linkMap, hbacklog.nextLinkId]
      exact h.registered
    · rw [hbacklog.senders, hbacklog.nextLinkId]
      exact h.lookedUp
    · intro other hother
      rw [hbacklog.nextLinkId] at hother
      obtain ⟨hsent', hbacklog', hhanded⟩ := h.fresh other hother
      have hne : linkId ≠ other := Nat.ne_of_lt (Nat.lt_of_le_of_lt hlink hother)
      refine ⟨?_, ?_, ?_⟩
      · rw [hbacklog.sent]
        exact hsent'
      · rw [hbacklog.backlog, if_neg (Ne.symm hne), hkept]
        exact hbacklog'
      · rw [hbacklog.handed, ofLink_append, ofLink_singleton, if_neg hne, hhanded]
        rfl
    · intro _
      exact hbacklog.processor h.scheduled

theorem Inv.round (h : Inv router) (room : LinkId → Nat) :
    Inv { router.processOneBacklogRound room with processor := .sleeping } := by
  have hbacklog : ∀ other, WshRouter.backlog { router.processOneBacklogRound room with
      processor := .sleeping } other = (router.processOneBacklogRound room).backlog other :=
    fun _ => rfl
  refine ⟨?_, h.registered, h.lookedUp, ?_, ?_⟩
  · intro other hother
    have hin : router.linkMap.contains other = true := List.contains_iff_mem.mpr hother
    rw [hbacklog, round_backlog, if_pos hin]
    show ofLink other (router.processOneBacklogRound room).sent ++ _ = ofLink other router.handed
    rw [round_sent, if_pos hin, List.append_assoc, List.take_append_drop]
    exact h.delivered other hother
  · intro other hother
    obtain ⟨hsent', hbacklog', hhanded⟩ := h.fresh other hother
    refine ⟨?_, ?_, hhanded⟩
    · show ofLink other (router.processOneBacklogRound room).sent = []
      rw [round_sent, hsent', hbacklog']
      simp
    · rw [hbacklog, round_backlog, hbacklog']
      simp
  · intro _ hwaiting
    cases hwaiting

/-- **Every event keeps the invariant.** -/
theorem Inv.step (h : Inv router) (event : Event) :
    Inv (step router event) := by
  cases event with
  | register =>
    refine ⟨?_, ?_, ?_, ?_, h.scheduled⟩
    · intro other hother
      rcases List.mem_append.mp hother with hold | hnew
      · exact h.delivered other hold
      · obtain rfl := List.mem_singleton.mp hnew
        obtain ⟨hsent, hbacklog, hhanded⟩ := h.fresh (router.nextLinkId + 1) (Nat.lt_succ_self _)
        show ofLink _ router.sent ++ router.backlog _ = ofLink _ router.handed
        rw [hsent, hbacklog, hhanded]
        rfl
    · intro other hother
      rcases List.mem_append.mp hother with hold | hnew
      · exact Nat.le_succ_of_le (h.registered other hold)
      · exact Nat.le_of_eq (List.mem_singleton.mp hnew)
    · intro entry hentry
      exact Nat.le_succ_of_le (h.lookedUp entry hentry)
    · intro other hother
      exact h.fresh other (Nat.lt_of_succ_lt hother)
  | unregister linkId =>
    refine ⟨?_, ?_, h.lookedUp, h.fresh, h.scheduled⟩
    · intro other hother
      exact h.delivered other (List.mem_filter.mp hother).1
    · intro other hother
      exact h.registered other (List.mem_filter.mp hother).1
  | lookUp linkId msg =>
    rw [RouterBacklog.step, getLinkMeta]
    split
    · rename_i hin
      refine ⟨h.delivered, h.registered, ?_, h.fresh, h.scheduled⟩
      intro entry hentry
      rcases List.mem_append.mp hentry with hold | hnew
      · exact h.lookedUp entry hold
      · obtain rfl := List.mem_singleton.mp hnew
        exact h.registered linkId (List.contains_iff_mem.mp hin)
    · exact h
  | handOver sender hasRoom =>
    rw [RouterBacklog.step]
    cases hsender : router.senders[sender]? with
    | none => exact h
    | some entry =>
      obtain ⟨linkId, msg⟩ := entry
      have hlink := h.lookedUp _ (List.mem_of_getElem? hsender)
      refine @Inv.handOver { router with senders := router.senders.eraseIdx sender } linkId
        ⟨h.delivered, h.registered, ?_, h.fresh, h.scheduled⟩ hlink msg hasRoom
      intro entry hentry
      exact h.lookedUp entry (List.mem_of_mem_eraseIdx hentry)
  | process room =>
    rw [RouterBacklog.step, processBacklog]
    cases hprocessor : router.processor with
    | checking =>
      dsimp only
      split
      · rename_i hempty
        refine ⟨h.delivered, h.registered, h.lookedUp, h.fresh, ?_⟩
        intro hsize
        exact absurd (beq_iff_eq.mp hempty) hsize
      · refine ⟨h.delivered, h.registered, h.lookedUp, h.fresh, ?_⟩
        intro _ hwaiting
        cases hwaiting
    | waiting => exact h
    | round => exact h.round room
    | sleeping =>
      refine ⟨h.delivered, h.registered, h.lookedUp, h.fresh, ?_⟩
      intro _ hwaiting
      cases hwaiting

theorem inv_run (events : List Event) : Inv (Runs.run step NewWshRouter events) :=
  Runs.run_invariant step Inv (fun _ event h => h.step event) inv_new events

end Runs

section Unregistered

variable {router : WshRouter} {linkId : LinkId}

/-- What happens to a link that has been unregistered: it stays so, and it receives, in order, some
of the messages that are handed over from then on. -/
structure Gone (linkId : LinkId) (before after : WshRouter) : Prop where
  unregistered : linkId ∉ after.linkMap
  known : linkId ≤ after.nextLinkId
  late : ∃ handed sent, ofLink linkId after.handed = ofLink linkId before.handed ++ handed ∧
    ofLink linkId after.sent = ofLink linkId before.sent ++ sent ∧ sent.Sublist handed

theorem Gone.refl (hlink : linkId ∉ router.linkMap) (hknown : linkId ≤ router.nextLinkId) :
    Gone linkId router router :=
  ⟨hlink, hknown, [], [], (List.append_nil _).symm, (List.append_nil _).symm, List.Sublist.refl _⟩

theorem round_unregistered (hlink : linkId ∉ router.linkMap) (room : LinkId → Nat) :
    ofLink linkId (router.processOneBacklogRound room).sent = ofLink linkId router.sent ∧
      (router.processOneBacklogRound room).linkMsgBacklog.get linkId = none := by
  have hnot : ¬ router.linkMap.contains linkId = true := by
    rwa [List.contains_iff_mem]
  refine ⟨?_, ?_⟩
  · rw [round_sent, if_neg hnot, List.append_nil]
  · rw [round_get, if_neg fun h => hnot h.1]

theorem Gone.handOver {before : WshRouter} (h : Gone linkId before router) (other : LinkId)
    (msg : Message) (hasRoom : Bool) :
    Gone linkId before (router.sendRpcMessageToLink other msg hasRoom) := by
  obtain ⟨handed, sent, hhanded, hsent, hsub⟩ := h.late
  have hmore : ofLink linkId (router.handed ++ [(other, msg)]) =
      ofLink linkId before.handed ++ (handed ++ if other = linkId then [msg] else []) := by
    rw [ofLink_append, ofLink_singleton, hhanded, List.append_assoc]
  rcases @sendRpcMessageToLink_cases router other msg hasRoom with
    ⟨-, hresult⟩ | hbacklog
  · rw [hresult]
    refine ⟨h.unregistered, h.known, _, sent ++ if other = linkId then [msg] else [], hmore, ?_,
      hsub.append (List.Sublist.refl _)⟩
    show ofLink linkId (router.sent ++ [(other, msg)]) = _
    rw [ofLink_append, ofLink_singleton, hsent, List.append_assoc]
  · refine ⟨?_, ?_, handed ++ (if other = linkId then [msg] else []), sent, ?_, ?_,
      hsub.trans (List.sublist_append_left _ _)⟩
    · rw [hbacklog.linkMap]
      exact h.unregistered
    · rw [hbacklog.nextLinkId]
      exact h.known
    · rw [hbacklog.handed]
      exact hmore
    · rw [hbacklog.sent]
      exact hsent

theorem Gone.step {before : WshRouter} (h : Gone linkId before router) (event : Event) :
    Gone linkId before (step router event) := by
  cases event with
  | register =>
    refine ⟨?_, Nat.le_succ_of_le h.known, h.late⟩
    intro hmem
    rcases List.mem_append.mp hmem with hold | hnew
    · exact h.unregistered hold
    · have heq := List.mem_singleton.mp hnew
      have hle := h.known
      rw [heq] at hle
      exact Nat.not_succ_le_self _ hle
  | unregister other =>
    exact ⟨fun hmem => h.unregistered (List.mem_filter.mp hmem).1, h.known, h.late⟩
  | lookUp other msg =>
    rw [RouterBacklog.step, getLinkMeta]
    split
    · exact ⟨h.unregistered, h.known, h.late⟩
    · exact h
  | handOver sender hasRoom =>
    rw [RouterBacklog.step]
    cases router.senders[sender]? with
    | none => exact h
    | some entry =>
      exact @Gone.handOver { router with senders := router.senders.eraseIdx sender } _ _
        ⟨h.unregistered, h.known, h.late⟩ _ _ _
  | process room =>
    rw [RouterBacklog.step, processBacklog]
    cases router.processor with
    | checking =>
      dsimp only
      split <;> exact ⟨h.unregistered, h.known, h.late⟩
    | waiting => exact h
    | round =>
      refine ⟨h.unregistered, h.known, ?_⟩
      obtain ⟨handed, sent, hhanded, hsent, hsub⟩ := h.late
      refine ⟨handed, sent, hhanded, ?_, hsub⟩
      show ofLink linkId (router.processOneBacklogRound room).sent = _
      rw [(round_unregistered h.unregistered room).1, hsent]
    | sleeping => exact ⟨h.unregistered, h.known, h.late⟩

theorem size_ne_zero (h : router.backlog linkId ≠ []) :
    router.linkMsgBacklog.size ≠ 0 := by
  intro hsize
  have hnone := (JsMap.size_eq_zero_iff _).mp hsize linkId
  rw [backlog, hnone] at h
  exact h rfl

/-- Unless it waits, the goroutine comes to a round by its next steps, while there is a backlog. -/
theorem reaches_round (hsize : router.linkMsgBacklog.size ≠ 0)
    (hprocessor : router.processor ≠ .waiting) (room : LinkId → Nat) :
    ∃ n ≤ 2, (Runs.run step router (List.replicate n (.process room))).processor = .round ∧
      (Runs.run step router (List.replicate n (.process room))).linkMsgBacklog =
        router.linkMsgBacklog := by
  have hchecks : ∀ router : WshRouter, router.linkMsgBacklog.size ≠ 0 →
      router.processor = .checking → (step router (.process room)).processor = .round ∧
        (step router (.process room)).linkMsgBacklog = router.linkMsgBacklog := by
    intro router hsize hchecking
    rw [step, processBacklog, hchecking]
    dsimp only
    rw [if_neg (fun h => hsize (beq_iff_eq.mp h))]
    exact ⟨rfl, rfl⟩
  cases hcase : router.processor with
  | checking => exact ⟨1, by decide, hchecks router hsize hcase⟩
  | waiting => exact absurd hcase hprocessor
  | round => exact ⟨0, by decide, hcase, rfl⟩
  | sleeping =>
    have hstep : step router (.process room) = { router with processor := .checking } := by
      rw [step, processBacklog, hcase]
    refine ⟨2, by decide, ?_⟩
    show (step (step router (.process room)) (.process room)).processor = .round ∧
      (step (step router (.process room)) (.process room)).linkMsgBacklog = _
    rw [hstep]
    exact hchecks { router with processor := .checking } hsize rfl

/-- **In every run, a link that is registered has received, up to its backlog, what was handed over
for it, in the order of the lock; a backlog comes to a round; and to a link that was unregistered no
round sends anything, so that it receives only some of what is handed over later.** -/
theorem links_receive (events : List Event) :
    let router := Runs.run step NewWshRouter events
    (∀ linkId ∈ router.linkMap,
      ofLink linkId router.sent ++ router.backlog linkId = ofLink linkId router.handed) ∧
    (∀ linkId room, router.backlog linkId ≠ [] →
      ∃ n ≤ 2, (Runs.run step router (List.replicate n (.process room))).processor = .round ∧
        (Runs.run step router (List.replicate n (.process room))).linkMsgBacklog =
          router.linkMsgBacklog) ∧
    ∀ linkId ≤ router.nextLinkId, linkId ∉ router.linkMap →
      (∀ room, ofLink linkId (router.processOneBacklogRound room).sent =
          ofLink linkId router.sent ∧
        (router.processOneBacklogRound room).linkMsgBacklog.get linkId = none) ∧
      ∀ later, Gone linkId router (Runs.run step router later) := by
  have hinv := inv_run events
  refine ⟨hinv.delivered, ?_, ?_⟩
  · intro linkId room hbacklog
    have hsize := size_ne_zero hbacklog
    exact reaches_round hsize (hinv.scheduled hsize) room
  · intro linkId hknown hlink
    refine ⟨round_unregistered hlink, ?_⟩
    exact Runs.run_invariant step (Gone linkId (Runs.run step NewWshRouter events))
      (fun _ event h => h.step event) (Gone.refl hlink hknown)

/-- A sender that has looked a link up before it was unregistered still sends to it. -/
theorem sends_after_unregister :
    let before := Runs.run step NewWshRouter
      [.register, .lookUp 1 ⟨[0x41], 0⟩, .unregister 1]
    1 ∉ before.linkMap ∧ before.senders = [(1, ⟨[0x41], 0⟩)] ∧ ofLink 1 before.sent = [] ∧
      ofLink 1 (step before (.handOver 0 true)).sent = [⟨[0x41], 0⟩] := by
  decide

end Unregistered

end RouterBacklog

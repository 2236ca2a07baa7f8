import Crest.WorkspaceLockCalm

/-!
# Contention in calm runs

The invariant of the calm runs: no process is poisoned and no release has failed, and the
owner file holds a complete record of the workspace, unless the task that created it lives
and is about to write it.
-/

namespace WorkspaceLock

/-- What holds of the lock of a workspace at every moment of a calm run. -/
structure CalmInv (workspace : String) (s : State) : Prop where
  inv : Inv s
  turns : ∀ t, Turns s t
  kept : ∀ t k, s.alive t = true → Kept workspace s (s.pc t k)
  here : ∀ t k, s.pc t k ≠ .idle → s.workspace t k = workspace
  records : ∀ id record, s.content id = some record → record.workspace = workspace
  published : ∀ id, s.owner = some id → (s.content id).isSome = true ∨
    ∃ t k, s.alive t = true ∧ s.creator id = (t, k) ∧ (s.pc t k).unpublished = true
  reclaimer : ∀ t k, s.reclaim = some (t, k) → s.alive t = true
  sound : ∀ t, s.poisoned t = false ∧ s.releaseFailed t = false

variable {s : State} {t : String}

theorem advance_create {k : Nat} {r : Result} (h : (advance s t k r).2 = .create) :
    (advance s t k r).1.unpublished = true := by
  have hthrown : thrown r ≠ .create := by cases r <;> simp [thrown]
  unfold advance at h ⊢
  cases hpc : s.pc t k with
  | creating record =>
    rw [hpc] at h
    dsimp only at h ⊢
    split at h
    · exact absurd h hthrown
    next hr =>
        rw [if_neg hr]
        cases howner : s.owner with
        | none => rfl
        | some id =>
          rw [howner] at h
          simp at h
  | _ =>
    rw [hpc] at h
    dsimp only at h
    repeat' split at h
    all_goals first | exact absurd h hthrown | simp at h

theorem advance_unpublished {workspace : String} {k : Nat} {r : Result}
    (hcalm : calm workspace s (.task t k r) = true) (hfact : Fact s t k (s.pc t k))
    (h : (s.pc t k).unpublished = true) :
    (advance s t k r).1.unpublished = true ∨
      ∃ id record, s.owner = some id ∧ (advance s t k r).2 = .write id record := by
  have hr : r = .ok := by
    cases r with
    | ok => rfl
    | poisons => simp [calm] at hcalm
    | fails =>
      have hprobing : (s.pc t k).probing = true := hcalm
      cases hpc : s.pc t k <;> rw [hpc] at h hprobing <;> simp at h hprobing
  subst hr
  unfold advance
  cases hpc : s.pc t k with
  | created place record id =>
    rw [hpc] at h
    cases place with
    | owner => exact .inl rfl
    | candidate stale => simp at h
  | statted place record id =>
    rw [hpc] at h hfact
    cases place with
    | owner => exact .inr ⟨id, record, (hfact.owned id rfl).1, rfl⟩
    | candidate stale => simp at h
  | _ =>
    rw [hpc] at h
    simp at h

theorem creator_of_apply {k : Nat} {e : Effect} {id : Nat} (hid : id < s.nextId) :
    (s.apply t k e).creator id = s.creator id := by
  cases e with
  | create | createCandidate =>
    simp [State.apply, Function.update_of_ne (Nat.ne_of_lt hid)]
  | passTurn =>
    simp only [State.apply]
    split <;> rfl
  | _ => rfl

theorem apply_workspace (s : State) (t : String) (k : Nat) (e : Effect) :
    (s.apply t k e).workspace = s.workspace := by
  cases e with
  | passTurn =>
    simp only [State.apply]
    split <;> rfl
  | _ => rfl

theorem setPc_pc (s : State) (t : String) (k : Nat) (pc : Pc) (t' : String) (k' : Nat) :
    (s.setPc t k pc).pc t' k' = if (t', k') = (t, k) then pc else s.pc t' k' := by
  simp only [State.setPc, Prod.mk.injEq]
  by_cases ht : t' = t
  · subst ht
    by_cases hk : k' = k
    · subst hk
      simp
    · simp [hk]
  · simp [ht]

section Task

variable {workspace : String} {s : State} {t : String} {k : Nat} {r : Result}

theorem records_of_apply
    (hrecords : ∀ id record, s.content id = some record → record.workspace = workspace)
    {e : Effect} (he : e.Calm workspace s) {id : Nat} {record : Record}
    (h : (s.apply t k e).content id = some record) :
    record.workspace = workspace := by
  cases e with
  | create | createCandidate =>
    simp only [State.apply] at h
    by_cases hid : id = s.nextId
    · simp [hid] at h
    · rw [Function.update_of_ne hid] at h
      exact hrecords id record h
  | write file written =>
    simp only [State.apply] at h
    by_cases hid : id = file
    · rw [hid, Function.update_self, Option.some.injEq] at h
      rw [← h]
      exact he
    · rw [Function.update_of_ne hid] at h
      exact hrecords id record h
  | passTurn =>
    simp only [State.apply] at h
    split at h <;> exact hrecords id record h
  | _ => exact hrecords id record h

theorem reclaimer_of_apply (hreclaimer : ∀ t' k', s.reclaim = some (t', k') → s.alive t' = true)
    (halive : s.alive t = true) {e : Effect} {t' : String} {k' : Nat}
    (h : (s.apply t k e).reclaim = some (t', k')) :
    s.alive t' = true := by
  cases e with
  | beginTransaction =>
    simp only [State.apply, Option.some.injEq, Prod.mk.injEq] at h
    rw [← h.1]
    exact halive
  | endTransaction => simp [State.apply] at h
  | passTurn =>
    simp only [State.apply] at h
    split at h <;> exact hreclaimer t' k' h
  | _ => exact hreclaimer t' k' h

theorem sound_of_apply {e : Effect} (he : e.Calm workspace s) :
    (s.apply t k e).poisoned = s.poisoned ∧ (s.apply t k e).releaseFailed = s.releaseFailed := by
  cases e with
  | poison | releaseFailure => exact absurd he id
  | passTurn =>
    simp only [State.apply]
    split <;> exact ⟨rfl, rfl⟩
  | _ => exact ⟨rfl, rfl⟩

variable (h : CalmInv workspace s) (halive : s.alive t = true)
  (hcalm : calm workspace s (.task t k r) = true)
include h halive hcalm

theorem published_of_step {id : Nat}
    (howner : (s.apply t k (advance s t k r).2).owner = some id) :
    ((s.apply t k (advance s t k r).2).content id).isSome = true ∨
      ∃ t' k', s.alive t' = true ∧
        (s.apply t k (advance s t k r).2).creator id = (t', k') ∧
        (((s.apply t k (advance s t k r).2).setPc t k (advance s t k r).1).pc t' k').unpublished
          = true := by
  have hfact := h.inv.facts t k halive
  obtain ⟨hpre, -⟩ := advance_spec h.inv.files halive hfact r
  obtain ⟨hcalmed, -⟩ := advance_calm hcalm (h.here t k) hfact (h.kept t k halive)
  have hself : ((s.apply t k (advance s t k r).2).setPc t k (advance s t k r).1).pc t k =
      (advance s t k r).1 := by simp [setPc_pc]
  -- the owner path as it was before
  have hold : s.owner = some id → ((s.apply t k (advance s t k r).2).content id).isSome = true ∨
      ∃ t' k', s.alive t' = true ∧
        (s.apply t k (advance s t k r).2).creator id = (t', k') ∧
        (((s.apply t k (advance s t k r).2).setPc t k
          (advance s t k r).1).pc t' k').unpublished = true := by
    intro hbefore
    rcases h.published id hbefore with hsome | ⟨t', k', halive', hcreator, hpc⟩
    · obtain ⟨record, hrecord⟩ := Option.isSome_iff_exists.mp hsome
      rw [content_of_apply h.inv.files hpre hrecord]
      exact .inl rfl
    · have hlt : id < s.nextId := by
        have howned : (s.pc t' k').owned.isSome = true := by
          cases hplace : s.pc t' k' with
          | created place _ _ | statted place _ _ =>
            rw [hplace] at hpc
            cases place <;> simp at hpc ⊢
          | _ =>
            rw [hplace] at hpc
            simp at hpc
        obtain ⟨id', hid'⟩ := Option.isSome_iff_exists.mp howned
        obtain ⟨howner', -, hlt⟩ := (h.inv.facts t' k' halive').owned id' hid'
        rw [hbefore, Option.some.injEq] at howner'
        exact howner' ▸ hlt
      by_cases hsame : (t', k') = (t, k)
      · rw [Prod.mk.injEq] at hsame
        obtain ⟨rfl, rfl⟩ := hsame
        rcases advance_unpublished hcalm hfact hpc with hnext | ⟨id', record, howner', hwrite⟩
        · exact .inr ⟨t', k', halive, by rw [creator_of_apply hlt, hcreator], by rw [hself, hnext]⟩
        · rw [hbefore, Option.some.injEq] at howner'
          subst howner'
          refine .inl ?_
          rw [hwrite]
          simp [State.apply]
      · refine .inr ⟨t', k', halive', by rw [creator_of_apply hlt, hcreator], ?_⟩
        rw [setPc_pc, if_neg hsame, (apply_processes s t k _).2.2.1]
        exact hpc
  cases heffect : (advance s t k r).2 with
  | create =>
    have hnext := advance_create heffect
    rw [heffect] at howner hself
    simp only [State.apply, Option.some.injEq] at howner
    refine .inr ⟨t, k, halive, by simp [State.apply, ← howner], ?_⟩
    rw [hself, hnext]
  | renameOver file =>
    rw [heffect] at howner hcalmed
    simp only [State.apply, Option.some.injEq] at howner
    subst howner
    exact .inl hcalmed
  | unlinkOwner =>
    rw [heffect] at howner
    simp [State.apply] at howner
  | passTurn =>
    rw [heffect] at howner hold
    refine hold ?_
    simp only [State.apply] at howner
    split at howner <;> exact howner
  | _ =>
    rw [heffect] at howner hold
    exact hold howner

theorem CalmInv.task :
    CalmInv workspace ((s.apply t k (advance s t k r).2).setPc t k (advance s t k r).1) := by
  have hfact := h.inv.facts t k halive
  obtain ⟨hpre, -⟩ := advance_spec h.inv.files halive hfact r
  obtain ⟨hcalmed, hkept⟩ := advance_calm hcalm (h.here t k) hfact (h.kept t k halive)
  obtain ⟨hstarted, hruns, hpc, -⟩ := apply_processes s t k (advance s t k r).2
  have halives : ∀ t', ((s.apply t k (advance s t k r).2).setPc t k
      (advance s t k r).1).alive t' = s.alive t' :=
    fun t' => alive_of_same (by simp [State.setPc, hstarted]) (by simp [State.setPc, hruns]) t'
  have hevent : step s (.task t k r) =
      (s.apply t k (advance s t k r).2).setPc t k (advance s t k r).1 := by
    rw [WorkspaceLock.step, if_pos halive]
  refine
    { inv := h.inv.task halive r
      turns := ?_
      kept := ?_
      here := ?_
      records := fun id record hcontent => records_of_apply h.records hcalmed hcontent
      published := ?_
      reclaimer := ?_
      sound := ?_ }
  · intro t'
    rw [← hevent]
    exact Turns.step h.turns _ t'
  · intro t' k' halive'
    rw [halives] at halive'
    rw [setPc_pc]
    split
    · exact ⟨hkept.signed, hkept.intact, hkept.draft⟩
    · rw [hpc]
      have hframe := (h.kept t' k' halive').frame h.inv.files hpre
      exact ⟨hframe.signed, hframe.intact, hframe.draft⟩
  · intro t' k' hplace
    rw [setPc_pc] at hplace
    rw [show ((s.apply t k (advance s t k r).2).setPc t k (advance s t k r).1).workspace =
      s.workspace from apply_workspace s t k _]
    split at hplace
    next hsame =>
        rw [Prod.mk.injEq] at hsame
        obtain ⟨rfl, rfl⟩ := hsame
        refine h.here t' k' ?_
        intro hidle
        refine hplace ?_
        unfold advance
        rw [hidle]
    next =>
        rw [hpc] at hplace
        exact h.here t' k' hplace
  · intro id howner
    rcases published_of_step h halive hcalm howner with hsome | ⟨t', k', halive', hrest⟩
    · exact .inl hsome
    · exact .inr ⟨t', k', by rw [halives, halive'], hrest⟩
  · intro t' k' hreclaim
    rw [halives]
    exact reclaimer_of_apply h.reclaimer halive hreclaim
  · intro t'
    obtain ⟨hpoisoned, hfailed⟩ := sound_of_apply (t := t) (k := k) hcalmed
    have hsound := h.sound t'
    rw [← hpoisoned, ← hfailed] at hsound
    exact hsound

end Task

variable {t' : String}

theorem alive_of_spawn {pid : Nat} (h : s.alive t' = true) :
    (step s (.spawn t pid)).alive t' = true := by
  rw [step]
  split
  next hcond =>
      obtain ⟨hunborn, hfree⟩ := hcond
      obtain ⟨pid', hstarted, hruns⟩ := alive_iff.mp h
      have ht : t' ≠ t := by
        rintro rfl
        rw [hunborn] at hstarted
        simp at hstarted
      have hpid : pid' ≠ pid := by
        rintro rfl
        rw [hfree] at hruns
        simp at hruns
      exact alive_iff.mpr ⟨pid', by simpa [Function.update_of_ne ht] using hstarted,
        by simpa [Function.update_of_ne hpid] using hruns⟩
  next => exact h

theorem alive_before_spawn {pid : Nat} (h : (step s (.spawn t pid)).alive t' = true) :
    s.alive t' = true ∨ t' = t ∧ s.started t = none := by
  rw [step] at h
  split at h
  next hcond =>
      by_cases ht : t' = t
      · exact .inr ⟨ht, hcond.1⟩
      · obtain ⟨pid', hstarted, hruns⟩ := alive_iff.mp h
        dsimp only at hstarted hruns
        rw [Function.update_of_ne ht] at hstarted
        refine .inl (alive_iff.mpr ⟨pid', hstarted, ?_⟩)
        by_cases hpid : pid' = pid
        · rw [hpid, Function.update_self, Option.some.injEq] at hruns
          exact absurd hruns.symm ht
        · rwa [Function.update_of_ne hpid] at hruns
  next => exact .inl h

theorem alive_of_die (hne : t' ≠ t) (h : s.alive t' = true) :
    (step s (.die t)).alive t' = true := by
  rw [step]
  split
  · exact h
  next pid hstarted =>
      split
      next hruns =>
          obtain ⟨pid', hstarted', hruns'⟩ := alive_iff.mp h
          have hpid : pid' ≠ pid := by
            rintro rfl
            rw [hruns, Option.some.injEq] at hruns'
            exact hne hruns'.symm
          exact alive_iff.mpr ⟨pid', hstarted',
            by simpa [Function.update_of_ne hpid] using hruns'⟩
      next => exact h

theorem alive_before_die (h : (step s (.die t)).alive t' = true) :
    s.alive t' = true := by
  rw [step] at h
  split at h
  · exact h
  next pid _ =>
      split at h
      · obtain ⟨pid', hstarted, hruns⟩ := alive_iff.mp h
        refine alive_iff.mpr ⟨pid', hstarted, ?_⟩
        dsimp only at hruns
        by_cases hpid : pid' = pid
        · simp [hpid] at hruns
        · rwa [Function.update_of_ne hpid] at hruns
      · exact h

section Events

variable {workspace : String} {s : State}

theorem Kept.of_same {s' : State} {pc : Pc} (h : Kept workspace s pc)
    (hcontent : s'.content = s.content) :
    Kept workspace s' pc := by
  refine ⟨?_, h.intact, h.draft⟩
  rw [hcontent]
  exact h.signed

/-- A birth or a death leaves the directory and the places of the tasks alone. -/
def SameFiles (s s' : State) : Prop :=
  s'.owner = s.owner ∧ s'.content = s.content ∧ s'.creator = s.creator ∧ s'.pc = s.pc ∧
    s'.workspace = s.workspace ∧ s'.poisoned = s.poisoned ∧ s'.releaseFailed = s.releaseFailed

theorem sameFiles_spawn (t : String) (pid : Nat) : SameFiles s (step s (.spawn t pid)) := by
  rw [step]
  split <;> exact ⟨rfl, rfl, rfl, rfl, rfl, rfl, rfl⟩

theorem sameFiles_die (t : String) : SameFiles s (step s (.die t)) := by
  rw [step]
  split
  · exact ⟨rfl, rfl, rfl, rfl, rfl, rfl, rfl⟩
  · split <;> exact ⟨rfl, rfl, rfl, rfl, rfl, rfl, rfl⟩

/-- The parts of the invariant that a birth or a death cannot touch, and those that it can. -/
theorem CalmInv.of_sameFiles {s' : State} (h : CalmInv workspace s) (hsame : SameFiles s s')
    (hinv : Inv s') (hturns : ∀ t, Turns s' t)
    (halive : ∀ t, s'.alive t = true → s.alive t = true ∨ ∀ k, s.pc t k = .idle)
    (hwriter : ∀ t k, s.alive t = true → (s.pc t k).unpublished = true → s'.alive t = true)
    (hreclaimer : ∀ t k, s'.reclaim = some (t, k) → s'.alive t = true) :
    CalmInv workspace s' := by
  obtain ⟨howner, hcontent, hcreator, hpc, hworkspace, hpoisoned, hfailed⟩ := hsame
  refine ⟨hinv, hturns, ?_, ?_, ?_, ?_, hreclaimer, ?_⟩
  · intro t k halive'
    rw [hpc]
    rcases halive t halive' with halive | hidle
    · exact (h.kept t k halive).of_same hcontent
    · rw [hidle k]
      exact kept_of_nothing (by simp)
  · rw [hpc, hworkspace]
    exact h.here
  · rw [hcontent]
    exact h.records
  · rw [howner, hcontent, hcreator, hpc]
    intro id hid
    rcases h.published id hid with hsome | ⟨t, k, halive, hmine, hplace⟩
    · exact .inl hsome
    · exact .inr ⟨t, k, hwriter t k halive hplace, hmine, hplace⟩
  · rw [hpoisoned, hfailed]
    exact h.sound

theorem CalmInv.call (h : CalmInv workspace s) {t : String} {context : Option Nat}
    (hcall : step s (.call t workspace context) ≠ s) :
    CalmInv workspace (step s (.call t workspace context)) := by
  have hinv := h.inv.step (.call t workspace context)
  have hturns := Turns.step h.turns (.call t workspace context)
  have hstep : step s (.call t workspace context) =
      { s.setPc t (s.calls t) (.waiting (s.tails t)) with
        tails := Function.update s.tails t (some (s.calls t))
        calls := Function.update s.calls t (s.calls t + 1)
        workspace := Function.update s.workspace t
          (Function.update (s.workspace t) (s.calls t) workspace) } := by
    rw [step] at hcall ⊢
    split
    next halive => exact absurd (if_pos halive) hcall
    next halive =>
        rw [if_neg halive] at hcall
        split
        next hreentrant => exact absurd (if_pos hreentrant) hcall
        next => rfl
  rw [hstep] at hinv hturns ⊢
  have hidle : s.pc t (s.calls t) = .idle := (h.turns t).fresh _ (Nat.le_refl _)
  refine ⟨hinv, hturns, ?_, ?_, h.records, ?_, h.reclaimer, h.sound⟩
  · intro t' k' halive
    have hkept : Kept workspace s
        ((s.setPc t (s.calls t) (.waiting (s.tails t))).pc t' k') := by
      rw [setPc_pc]
      split
      · exact kept_of_nothing (by simp)
      · exact h.kept t' k' halive
    exact hkept.of_same rfl
  · intro t' k' hplace
    have hplace : (s.setPc t (s.calls t) (.waiting (s.tails t))).pc t' k' ≠ .idle := hplace
    rw [setPc_pc] at hplace
    dsimp only
    by_cases ht : t' = t
    · subst ht
      rw [Function.update_self]
      by_cases hk : k' = s.calls t'
      · rw [hk, Function.update_self]
      · rw [Function.update_of_ne hk]
        refine h.here t' k' ?_
        simpa [hk] using hplace
    · rw [Function.update_of_ne ht]
      refine h.here t' k' ?_
      simpa [ht] using hplace
  · intro id hid
    rcases h.published id hid with hsome | ⟨t', k', halive, hmine, hplace⟩
    · exact .inl hsome
    · refine .inr ⟨t', k', halive, hmine, ?_⟩
      show ((s.setPc t (s.calls t) (.waiting (s.tails t))).pc t' k').unpublished = true
      rw [setPc_pc]
      split
      next hsame =>
          rw [Prod.mk.injEq] at hsame
          rw [hsame.1, hsame.2, hidle] at hplace
          simp at hplace
      next => exact hplace

/-- **Every event of a calm run keeps the invariant.** -/
theorem CalmInv.step (h : CalmInv workspace s) (e : Event) (hcalm : calm workspace s e = true) :
    CalmInv workspace (step s e) := by
  cases e with
  | spawn t pid =>
    refine h.of_sameFiles (sameFiles_spawn t pid) (h.inv.step _) (Turns.step h.turns _) ?_ ?_ ?_
    · intro t' halive
      rcases alive_before_spawn halive with halive | ⟨rfl, hunborn⟩
      · exact .inl halive
      · exact .inr (h.inv.unborn t' hunborn)
    · exact fun t' _ halive _ => alive_of_spawn halive
    · intro t' k hreclaim
      refine alive_of_spawn (h.reclaimer t' k ?_)
      rw [WorkspaceLock.step] at hreclaim
      split at hreclaim <;> exact hreclaim
  | die t =>
    refine h.of_sameFiles (sameFiles_die t) (h.inv.step _) (Turns.step h.turns _) ?_ ?_ ?_
    · exact fun t' halive => .inl (alive_before_die halive)
    · intro t' k halive hplace
      refine alive_of_die ?_ halive
      rintro rfl
      have hnone : ∀ j, j < s.calls t' → (s.pc t' j).unpublished = false := by
        simpa [calm] using hcalm
      by_cases hk : k < s.calls t'
      · rw [hnone k hk] at hplace
        simp at hplace
      · rw [(h.turns t').fresh k (by omega)] at hplace
        simp at hplace
    · intro t' k hreclaim
      rw [WorkspaceLock.step] at hreclaim
      have hbefore : s.reclaim = some (t', k) ∧ (s.alive t = true → t' ≠ t) := by
        split at hreclaim
        next hunborn => exact ⟨hreclaim, fun halive => by simp [State.alive, hunborn] at halive⟩
        next pid hstarted =>
            split at hreclaim
            next hruns =>
                dsimp only at hreclaim
                split at hreclaim
                · simp at hreclaim
                next hother =>
                    refine ⟨hreclaim, fun _ heq => hother ?_⟩
                    rw [hreclaim, heq]
                    rfl
            next hruns =>
                exact ⟨hreclaim, fun halive => by simp [State.alive, hstarted, hruns] at halive⟩
      have halive := h.reclaimer t' k hbefore.1
      by_cases ht : t' = t
      · subst ht
        exact absurd rfl (hbefore.2 halive)
      · exact alive_of_die ht halive
  | call t called context =>
    have hcalled : called = workspace := by simpa [calm] using hcalm
    subst hcalled
    by_cases hstay : WorkspaceLock.step s (.call t called context) = s
    · rw [hstay]
      exact h
    · exact h.call hstay
  | task t k r =>
    rw [WorkspaceLock.step]
    split
    next halive => exact h.task halive hcalm
    next => exact h

end Events

theorem init_calm (workspace : String) : CalmInv workspace init where
  inv := init_inv
  turns := init_turns
  kept := fun t k halive => by simp [State.alive, init] at halive
  here := by simp [init]
  records := by simp [init]
  published := by simp [init]
  reclaimer := by simp [init]
  sound := by simp [init]

/-- A run every event of which is calm. -/
def CalmRun (workspace : String) (events : List Event) : Prop :=
  Runs.Guarded step (fun s e => calm workspace s e = true) init events

theorem calmRun_inv {workspace : String} {events : List Event} (h : CalmRun workspace events) :
    CalmInv workspace (Runs.run step init events) :=
  Runs.guarded_invariant step (CalmInv workspace) _ (fun _ e hinv hok => hinv.step e hok)
    (init_calm workspace) events h

end WorkspaceLock

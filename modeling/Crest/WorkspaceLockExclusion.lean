import Crest.WorkspaceLockInvariant

/-!
# What a live task knows stays true

No step takes from another live task what it knows, so at most one live task has its file
at the owner path.  The facts hold at the start and survive every event.
-/

namespace WorkspaceLock

variable {k : Nat} {s : State} {t t' : String}

theorem Fact.newFile {k' : Nat} {pc : Pc} (hfiles : Files s) (h : Fact s t' k' pc)
    (owner : Option Nat) (howned : ∀ id ∈ pc.owned, owner = some id)
    (hconfirmed : ∀ id ∈ pc.confirmed, owner = some id) :
    Fact
      { s with
        owner := owner
        content := Function.update s.content s.nextId none
        creator := Function.update s.creator s.nextId (t, k)
        nextId := s.nextId + 1 } t' k' pc := by
  refine ⟨fun id hid => ⟨howned id hid, ?_⟩, ?_, ?_, h.inTransaction, ?_, hconfirmed, ?_, h.draft⟩
  · obtain ⟨-, hcreator, hlt⟩ := h.owned id hid
    exact ⟨by simpa [Function.update_of_ne (Nat.ne_of_lt hlt)] using hcreator, Nat.lt_succ_of_lt hlt⟩
  · intro id hid
    obtain ⟨hcreator, hlt⟩ := h.candidate id hid
    exact ⟨by simpa [Function.update_of_ne (Nat.ne_of_lt hlt)] using hcreator, Nat.lt_succ_of_lt hlt⟩
  · intro id hid
    by_cases hid' : id = s.nextId
    · simp [hid']
    · simpa [Function.update_of_ne hid'] using h.unwritten id hid
  · intro id hid
    obtain ⟨hlt, hdead⟩ := h.stale id hid
    refine ⟨Nat.lt_succ_of_lt hlt, ?_⟩
    dsimp only
    rw [Function.update_of_ne (Nat.ne_of_lt hlt)]
    exact hdead
  · intro x hx
    have hread := h.suspect x hx
    have hlt := (hfiles x.1 x.2 hread).1
    simpa [Function.update_of_ne (Nat.ne_of_lt hlt)] using hread

theorem Fact.frame {k' : Nat} {pc : Pc} {e : Effect} (hfiles : Files s) (hpre : Pre s t k e)
    (halive : s.alive t = true) (halive' : s.alive t' = true) (hne : (t', k') ≠ (t, k))
    (h : Fact s t' k' pc) :
    Fact (s.apply t k e) t' k' pc := by
  have hconfirmed : ∀ id ∈ pc.confirmed, pc.inTransaction = true ∧ id ∈ pc.stale := by
    intro id hid
    cases pc <;> simp at hid ⊢
    exact hid
  have hunwritten : ∀ id ∈ pc.unwritten, s.creator id = (t', k') := by
    intro id hid
    cases pc with
    | created place record file | statted place record file =>
      cases place with
      | owner => exact (h.owned id hid).2.1
      | candidate stale => exact (h.candidate id hid).1
    | _ => simp at hid
  cases e with
  | none | makeOwner | passTurn | poison | releaseFailure => exact h.quiet trivial
  | create =>
    have howner : s.owner = none := hpre
    refine h.newFile hfiles _ (fun id hid => ?_) (fun id hid => ?_)
    · exact absurd ((h.owned id hid).1.symm.trans howner) (by simp)
    · exact absurd ((h.confirmed id hid).symm.trans howner) (by simp)
  | createCandidate =>
    exact h.newFile hfiles _ (fun id hid => (h.owned id hid).1) fun id hid => h.confirmed id hid
  | write file record =>
    obtain ⟨hcreator, -, hcontent, -, -⟩ := hpre
    refine ⟨h.owned, h.candidate, ?_, h.inTransaction, h.stale, h.confirmed, ?_, h.draft⟩
    · intro id hid
      have hid' : id ≠ file := by
        rintro rfl
        exact hne ((hunwritten id hid).symm.trans hcreator)
      simpa [State.apply, Function.update_of_ne hid'] using h.unwritten id hid
    · intro x hx
      have hread := h.suspect x hx
      have hx' : x.1 ≠ file := by
        intro heq
        rw [heq, hcontent] at hread
        simp at hread
      simpa [State.apply, Function.update_of_ne hx'] using hread
  | unlinkOwner =>
    obtain ⟨file, howner, hcreator⟩ := hpre
    refine ⟨?_, h.candidate, h.unwritten, h.inTransaction, h.stale, ?_, h.suspect, h.draft⟩
    · intro id hid
      obtain ⟨hown, hmine, -⟩ := h.owned id hid
      rw [howner, Option.some.injEq] at hown
      subst hown
      exact absurd (hmine.symm.trans hcreator) hne
    · intro id hid
      have hown := h.confirmed id hid
      rw [howner, Option.some.injEq] at hown
      subst hown
      have hdead := (h.stale file (hconfirmed file hid).2).2
      rw [hcreator] at hdead
      exact absurd halive (by simp [hdead.not_alive])
  | renameOver file =>
    obtain ⟨-, -, hreclaim, stale, howner, hdead⟩ := hpre
    refine ⟨?_, h.candidate, h.unwritten, h.inTransaction, h.stale, ?_, h.suspect, h.draft⟩
    · intro id hid
      obtain ⟨hown, hmine, -⟩ := h.owned id hid
      rw [howner, Option.some.injEq] at hown
      subst hown
      rw [hmine] at hdead
      exact absurd halive' (by simp [hdead.not_alive])
    · intro id hid
      have hin := h.inTransaction (hconfirmed id hid).1
      rw [hreclaim, Option.some.injEq] at hin
      exact absurd hin.symm hne
  | beginTransaction =>
    have hreclaim : s.reclaim = none := hpre
    refine ⟨h.owned, h.candidate, h.unwritten, ?_, h.stale, h.confirmed, h.suspect, h.draft⟩
    intro hin
    have hin := h.inTransaction hin
    rw [hreclaim] at hin
    simp at hin
  | endTransaction =>
    have hreclaim : s.reclaim = some (t, k) := hpre
    refine ⟨h.owned, h.candidate, h.unwritten, ?_, h.stale, h.confirmed, h.suspect, h.draft⟩
    intro hin
    have hin := h.inTransaction hin
    rw [hreclaim, Option.some.injEq] at hin
    exact absurd hin.symm hne

theorem Files.apply {e : Effect} (h : Files s) (hpre : Pre s t k e) :
    Files (s.apply t k e) := by
  have hcreate : ∀ owner : Option Nat, Files
      { s with
        owner := owner
        content := Function.update s.content s.nextId none
        creator := Function.update s.creator s.nextId (t, k)
        nextId := s.nextId + 1 } := by
    intro owner id record hcontent
    dsimp only at hcontent ⊢
    by_cases hid : id = s.nextId
    · simp [hid] at hcontent
    · rw [Function.update_of_ne hid] at hcontent ⊢
      obtain ⟨hlt, htoken, hstarted⟩ := h id record hcontent
      exact ⟨by omega, htoken, hstarted⟩
  cases e with
  | none | makeOwner | poison | releaseFailure | unlinkOwner | renameOver _
    | beginTransaction | endTransaction => exact h
  | passTurn =>
    simp only [State.apply]
    split <;> exact h
  | create | createCandidate => exact hcreate _
  | write file record =>
    obtain ⟨hcreator, hlt, -, htoken, hstarted⟩ := hpre
    intro id found hcontent
    simp only [State.apply] at hcontent ⊢
    by_cases hid : id = file
    · subst hid
      rw [Function.update_self, Option.some.injEq] at hcontent
      subst hcontent
      rw [hcreator]
      exact ⟨hlt, htoken, hstarted⟩
    · rw [Function.update_of_ne hid] at hcontent
      exact h id found hcontent

theorem apply_processes (s : State) (t : String) (k : Nat) (e : Effect) :
    (s.apply t k e).started = s.started ∧ (s.apply t k e).runs = s.runs ∧
    (s.apply t k e).pc = s.pc ∧ (s.apply t k e).calls = s.calls := by
  cases e with
  | passTurn =>
    simp only [State.apply]
    split <;> exact ⟨rfl, rfl, rfl, rfl⟩
  | _ => exact ⟨rfl, rfl, rfl, rfl⟩

theorem alive_of_same {s s' : State} (hstarted : s'.started = s.started)
    (hruns : s'.runs = s.runs) (t : String) : s'.alive t = s.alive t := by
  rw [State.alive, State.alive, hstarted, hruns]

/-- What holds of the directory, the processes and the live tasks at every moment. -/
structure Inv (s : State) : Prop where
  lives : Lives s
  files : Files s
  unborn : ∀ t, s.started t = none → ∀ k, s.pc t k = .idle
  facts : ∀ t k, s.alive t = true → Fact s t k (s.pc t k)

theorem fact_idle (s : State) (t : String) (k : Nat) : Fact s t k .idle :=
  fact_of_nothing (by simp)

theorem Fact.spawn {pid : Nat} {pc : Pc} (hunborn : s.started t' = none)
    (h : Fact s t k pc) :
    Fact
      { s with
        started := Function.update s.started t' (some pid)
        runs := Function.update s.runs pid (some t') } t k pc := by
  refine ⟨h.owned, h.candidate, h.unwritten, h.inTransaction, ?_, h.confirmed, h.suspect, ?_⟩
  · intro id hid
    obtain ⟨hlt, pid', hstarted, hruns⟩ := h.stale id hid
    have hne : (s.creator id).1 ≠ t' := by
      intro heq
      rw [heq, hunborn] at hstarted
      simp at hstarted
    refine ⟨hlt, pid', by simpa [Function.update_of_ne hne] using hstarted, ?_⟩
    dsimp only
    by_cases hpid : pid' = pid
    · subst hpid
      rw [Function.update_self]
      simpa using Ne.symm hne
    · rwa [Function.update_of_ne hpid]
  · intro record hrecord
    obtain ⟨htoken, hstarted⟩ := h.draft record hrecord
    have hne : t ≠ t' := by
      intro heq
      rw [heq, hunborn] at hstarted
      simp at hstarted
    exact ⟨htoken, by simpa [Function.update_of_ne hne] using hstarted⟩

theorem Fact.die {pid : Nat} {pc : Pc} (hne : t ≠ t') (h : Fact s t k pc) :
    Fact
      { s with
        runs := Function.update s.runs pid none
        reclaim := if s.reclaim.map Prod.fst = some t' then none else s.reclaim } t k pc := by
  refine ⟨h.owned, h.candidate, h.unwritten, ?_, ?_, h.confirmed, h.suspect, h.draft⟩
  · intro hin
    have hin := h.inTransaction hin
    simp [hin, hne]
  · intro id hid
    obtain ⟨hlt, pid', hstarted, hruns⟩ := h.stale id hid
    refine ⟨hlt, pid', hstarted, ?_⟩
    dsimp only
    by_cases hpid : pid' = pid
    · subst hpid
      simp
    · rwa [Function.update_of_ne hpid]

theorem Inv.task (h : Inv s) (halive : s.alive t = true) (r : Result) :
    Inv ((s.apply t k (advance s t k r).2).setPc t k (advance s t k r).1) := by
  obtain ⟨hpre, hfact⟩ := advance_spec h.files halive (h.facts t k halive) r
  obtain ⟨hstarted, hruns, hpc, -⟩ := apply_processes s t k (advance s t k r).2
  have hborn : s.started t ≠ none := by
    obtain ⟨pid, hpid, -⟩ := alive_iff.mp halive
    simp [hpid]
  refine ⟨?_, h.files.apply hpre, ?_, ?_⟩
  · intro pid t' hrun
    simp only [State.setPc, hstarted, hruns] at hrun ⊢
    exact h.lives pid t' hrun
  · intro t' hnone k'
    simp only [State.setPc, hstarted, hpc] at hnone ⊢
    have hne : t' ≠ t := by
      rintro rfl
      exact hborn hnone
    rw [Function.update_of_ne hne]
    exact h.unborn t' hnone k'
  · intro t' k' halive'
    have halive' : s.alive t' = true := by
      rwa [alive_of_same (s := s) (by simp [State.setPc, hstarted])
        (by simp [State.setPc, hruns])] at halive'
    suffices hsuff : Fact (s.apply t k (advance s t k r).2) t' k'
        (((s.apply t k (advance s t k r).2).setPc t k (advance s t k r).1).pc t' k') from
      hsuff.of_same rfl rfl rfl rfl rfl rfl rfl
    by_cases hsame : (t', k') = (t, k)
    · rw [Prod.mk.injEq] at hsame
      obtain ⟨rfl, rfl⟩ := hsame
      simpa [State.setPc] using hfact
    · have hpc' : ((s.apply t k (advance s t k r).2).setPc t k (advance s t k r).1).pc t' k' =
          s.pc t' k' := by
        simp only [State.setPc, hpc]
        by_cases ht : t' = t
        · subst ht
          have hk : k' ≠ k := fun hk => hsame (by rw [hk])
          rw [Function.update_self, Function.update_of_ne hk]
        · rw [Function.update_of_ne ht]
      rw [hpc']
      exact (h.facts t' k' halive').frame h.files hpre halive halive' hsame

/-- **Every event keeps the invariant.** -/
theorem Inv.step {s : State} (h : Inv s) (e : Event) : Inv (step s e) := by
  cases e with
  | spawn t pid =>
    rw [WorkspaceLock.step]
    split
    next hcond =>
        obtain ⟨hunborn, hfree⟩ := hcond
        refine ⟨?_, ?_, ?_, ?_⟩
        · intro pid' t' hrun
          dsimp only at hrun ⊢
          by_cases hpid : pid' = pid
          · subst hpid
            rw [Function.update_self, Option.some.injEq] at hrun
            subst hrun
            rw [Function.update_self]
          · rw [Function.update_of_ne hpid] at hrun
            have hstarted := h.lives pid' t' hrun
            have hne : t' ≠ t := by
              rintro rfl
              rw [hunborn] at hstarted
              simp at hstarted
            rwa [Function.update_of_ne hne]
        · intro id record hcontent
          obtain ⟨hlt, htoken, hstarted⟩ := h.files id record hcontent
          have hne : (s.creator id).1 ≠ t := by
            intro heq
            rw [heq, hunborn] at hstarted
            simp at hstarted
          exact ⟨hlt, htoken, by simpa [Function.update_of_ne hne] using hstarted⟩
        · intro t' hnone
          dsimp only at hnone
          by_cases ht : t' = t
          · subst ht
            exact h.unborn t' hunborn
          · rw [Function.update_of_ne ht] at hnone
            exact h.unborn t' hnone
        · intro t' k halive
          by_cases ht : t' = t
          · subst ht
            rw [show ({ s with
                started := Function.update s.started t' (some pid)
                runs := Function.update s.runs pid (some t') } : State).pc t' k = .idle from
              h.unborn t' hunborn k]
            exact fact_idle _ _ _
          · refine Fact.spawn hunborn (h.facts t' k ?_)
            obtain ⟨pid', hstarted, hruns⟩ := alive_iff.mp halive
            dsimp only at hstarted hruns
            rw [Function.update_of_ne ht] at hstarted
            refine alive_iff.mpr ⟨pid', hstarted, ?_⟩
            by_cases hpid : pid' = pid
            · subst hpid
              rw [Function.update_self, Option.some.injEq] at hruns
              exact absurd hruns.symm ht
            · rwa [Function.update_of_ne hpid] at hruns
    next => exact h
  | die t =>
    rw [WorkspaceLock.step]
    split
    · exact h
    next pid hstarted =>
        split
        next hrun =>
            refine ⟨?_, h.files, h.unborn, ?_⟩
            · intro pid' t' hrun'
              dsimp only at hrun' ⊢
              by_cases hpid : pid' = pid
              · subst hpid
                simp at hrun'
              · rw [Function.update_of_ne hpid] at hrun'
                exact h.lives pid' t' hrun'
            · intro t' k halive
              obtain ⟨pid', hstarted', hruns'⟩ := alive_iff.mp halive
              dsimp only at hstarted' hruns'
              have hpid : pid' ≠ pid := by
                rintro rfl
                simp at hruns'
              rw [Function.update_of_ne hpid] at hruns'
              have hne : t' ≠ t := by
                rintro rfl
                rw [hstarted, Option.some.injEq] at hstarted'
                exact hpid hstarted'.symm
              exact Fact.die hne
                (h.facts t' k (alive_iff.mpr ⟨pid', hstarted', hruns'⟩))
        next => exact h
  | call t workspace context =>
    rw [WorkspaceLock.step]
    split
    · exact h
    next halive =>
        split
        · exact h
        · refine ⟨h.lives, h.files, ?_, ?_⟩
          · intro t' hnone k
            have hne : t' ≠ t := by
              rintro rfl
              simp only [Bool.not_eq_false] at halive
              obtain ⟨pid, hpid, -⟩ := alive_iff.mp halive
              rw [show ({ s.setPc t' (s.calls t') (.waiting (s.tails t')) with
                tails := Function.update s.tails t' (some (s.calls t'))
                calls := Function.update s.calls t' (s.calls t' + 1)
                workspace := Function.update s.workspace t'
                  (Function.update (s.workspace t') (s.calls t') workspace) } :
                State).started = s.started from rfl, hpid] at hnone
              simp at hnone
            have hold := h.unborn t' hnone k
            simpa [State.setPc, Function.update_of_ne hne] using hold
          · intro t' k halive'
            have hfact : Fact s t' k
                ((s.setPc t (s.calls t) (.waiting (s.tails t))).pc t' k) := by
              by_cases hsame : t' = t ∧ k = s.calls t
              · obtain ⟨rfl, rfl⟩ := hsame
                simp only [State.setPc, Function.update_self]
                exact fact_of_nothing (by simp)
              · have hpc : (s.setPc t (s.calls t) (.waiting (s.tails t))).pc t' k =
                    s.pc t' k := by
                  simp only [State.setPc]
                  by_cases ht : t' = t
                  · subst ht
                    rw [Function.update_self,
                      Function.update_of_ne fun hk => hsame ⟨rfl, hk⟩]
                  · rw [Function.update_of_ne ht]
                rw [hpc]
                exact h.facts t' k halive'
            exact hfact.of_same rfl rfl rfl rfl rfl rfl rfl
  | task t k r =>
    rw [WorkspaceLock.step]
    split
    next halive => exact h.task halive r
    next => exact h

theorem init_inv : Inv init where
  lives := by simp [Lives, init]
  files := by simp [Files, init]
  unborn := by simp [init]
  facts := fun t k _ => fact_idle _ t k

theorem run_inv (events : List Event) : Inv (Runs.run step init events) :=
  Runs.run_invariant step Inv (fun _ e h => h.step e) init_inv events

end WorkspaceLock

import Crest.WorkspaceLockExclusion

/-!
# The turns inside one process, and mutual exclusion

A task waits for the turn that was handed out just before its own, so a turn begins only
when all earlier ones are over.  With the facts about the owner path this gives the
exclusion of the lock: one task of one live process at a time, and no process takes away
the owner file of another one that lives.
-/

namespace WorkspaceLock

namespace Pc

/-- After its turn has begun and before it is passed on. -/
def inTurn : Pc → Bool
  | .idle | .waiting _ | .done => false
  | _ => true

/-- Between the return of `acquire` and the unlink in `release`. -/
def holds : Pc → Option Nat
  | .acquired _ id | .running _ id | .releasing _ id | .releaseOpened _ id _
  | .releaseRead _ id _ _ | .releaseMatched _ id | .releaseUnlinking _ id => some id
  | _ => none

/-- Inside `release`. -/
def inRelease : Pc → Bool
  | .releasing _ _ | .releaseOpened _ _ _ | .releaseRead _ _ _ _ | .releaseMatched _ _
  | .releaseUnlinking _ _ => true
  | _ => false

theorem owned_of_holds {pc : Pc} {id : Nat} (h : pc.holds = some id) : pc.owned = some id := by
  cases pc <;> first | exact h | simp [holds] at h

end Pc

variable {k : Nat} {s : State} {t : String}

theorem advance_inTurn (h : (s.pc t k).inTurn = true) (hlast : s.pc t k ≠ .finishing)
    (r : Result) :
    (advance s t k r).1.inTurn = true ∧ (advance s t k r).2 ≠ .passTurn := by
  have hthrown : thrown r ≠ .passTurn := by cases r <;> simp [thrown]
  have hthrowAt : ∀ inTx : Bool, (throwAt inTx).inTurn = true := by
    intro inTx
    cases inTx <;> rfl
  have hplace : ∀ place : Place, place.throwAt.inTurn = true := by
    intro place
    cases place <;> rfl
  have hverdict : ∀ (inTx : Bool) (record : Record) (id : Nat) (v : OwnerState),
      (verdict inTx record id v).inTurn = true := by
    intro inTx record id v
    cases v <;> cases inTx <;> rfl
  unfold advance
  cases hpc : s.pc t k with
  | idle | waiting _ | done =>
    rw [hpc] at h
    simp [Pc.inTurn] at h
  | finishing => exact absurd hpc hlast
  | _ =>
    dsimp only
    repeat' split
    all_goals
      refine ⟨?_, ?_⟩
      · first | rfl | simp only [hthrowAt, hplace, hverdict]
      · first | exact hthrown | simp

/-- How the turns of one process stand. -/
structure Turns (s : State) (t : String) : Prop where
  fresh : ∀ k, s.calls t ≤ k → s.pc t k = .idle
  called : ∀ k, k < s.calls t → s.pc t k ≠ .idle
  /-- The tail of the queue is the last turn handed out, and it is not over. -/
  tail : ∀ k, s.tails t = some k → k + 1 = s.calls t
  empty : s.tails t = none → ∀ k, k < s.calls t → s.pc t k = .done
  waiting : ∀ k previous, s.pc t k = .waiting previous →
    match previous with
    | none => ∀ j, j < k → s.pc t j = .done
    | some j => j + 1 = k
  begun : ∀ k, (s.pc t k).inTurn = true ∨ s.pc t k = .done → ∀ j, j < k → s.pc t j = .done

section

variable (h : Turns s t)
include h

theorem Turns.of_same {s' : State} (hcalls : s'.calls t = s.calls t)
    (htails : s'.tails t = s.tails t) (hpc : s'.pc t = s.pc t) :
    Turns s' t := by
  refine ⟨?_, ?_, ?_, ?_, ?_, ?_⟩
  · rw [hcalls, hpc]
    exact h.fresh
  · rw [hcalls, hpc]
    exact h.called
  · rw [hcalls, htails]
    exact h.tail
  · rw [hcalls, htails, hpc]
    exact h.empty
  · rw [hpc]
    exact h.waiting
  · rw [hpc]
    exact h.begun

theorem Turns.unique {k' : Nat} (hk : (s.pc t k).inTurn = true)
    (hk' : (s.pc t k').inTurn = true) :
    k = k' := by
  have hdone : ∀ i j : Nat, (s.pc t i).inTurn = true → (s.pc t j).inTurn = true → ¬ i < j := by
    intro i j hi hj hij
    rw [h.begun j (Or.inl hj) i hij] at hi
    simp [Pc.inTurn] at hi
  have := hdone k k' hk hk'
  have := hdone k' k hk' hk
  omega

theorem Turns.move {pc : Pc} (hidle : s.pc t k ≠ .idle)
    (hdone : s.pc t k ≠ .done) (hturn : pc.inTurn = true)
    (hbegun : ∀ j, j < k → s.pc t j = .done) :
    Turns (s.setPc t k pc) t := by
  have hpc : pc ≠ .idle ∧ pc ≠ .done ∧ ∀ previous, pc ≠ .waiting previous := by
    refine ⟨?_, ?_, ?_⟩
    all_goals
      intros
      rintro rfl
      simp [Pc.inTurn] at hturn
  have hother : ∀ {j : Nat}, j ≠ k → (s.setPc t k pc).pc t j = s.pc t j := by
    intro j hj
    simp [State.setPc, Function.update_of_ne hj]
  have hself : (s.setPc t k pc).pc t k = pc := by simp [State.setPc]
  have hnot : ∀ j, j < k → j ≠ k := fun j hj => Nat.ne_of_lt hj
  refine ⟨?_, ?_, h.tail, ?_, ?_, ?_⟩
  · intro j hj
    have hjk : j ≠ k := by
      rintro rfl
      exact hidle (h.fresh j hj)
    rw [hother hjk]
    exact h.fresh j hj
  · intro j hj
    by_cases hjk : j = k
    · rw [hjk, hself]
      exact hpc.1
    · rw [hother hjk]
      exact h.called j hj
  · intro hempty j hj
    have hjk : k < s.calls t := by
      by_contra hlt
      exact hidle (h.fresh k (by omega))
    exact absurd (h.empty hempty k hjk) hdone
  · intro j previous hj
    have hjk : j ≠ k := by
      rintro rfl
      rw [hself] at hj
      exact hpc.2.2 previous hj
    rw [hother hjk] at hj
    have hwait := h.waiting j previous hj
    cases previous with
    | some i => exact hwait
    | none =>
      intro i hi
      by_cases hik : i = k
      · subst hik
        exact absurd (hwait i hi) hdone
      · rw [hother hik]
        exact hwait i hi
  · intro j hj i hi
    by_cases hjk : j = k
    · subst hjk
      rw [hother (hnot i hi)]
      exact hbegun i hi
    · rw [hother hjk] at hj
      have hik : i ≠ k := by
        rintro rfl
        exact hdone (h.begun j hj i hi)
      rw [hother hik]
      exact h.begun j hj i hi

theorem Turns.finish (hpc : s.pc t k = .finishing) :
    Turns ((s.apply t k .passTurn).setPc t k .done) t := by
  have hbegun := h.begun k (Or.inl (by rw [hpc]; rfl))
  have hcalled : k < s.calls t := by
    by_contra hlt
    rw [h.fresh k (by omega)] at hpc
    simp at hpc
  have hpcs : ((s.apply t k .passTurn).setPc t k .done).pc t = Function.update (s.pc t) k .done := by
    rw [State.setPc, (apply_processes s t k .passTurn).2.2.1]
    simp
  have hcalls : ((s.apply t k .passTurn).setPc t k .done).calls t = s.calls t := by
    rw [State.setPc]
    exact congrFun (apply_processes s t k .passTurn).2.2.2 t
  have hother : ∀ {j : Nat}, j ≠ k →
      ((s.apply t k .passTurn).setPc t k .done).pc t j = s.pc t j := by
    intro j hj
    rw [hpcs, Function.update_of_ne hj]
  have hself : ((s.apply t k .passTurn).setPc t k .done).pc t k = .done := by
    rw [hpcs, Function.update_self]
  have htails : ((s.apply t k .passTurn).setPc t k .done).tails t =
      if s.tails t = some k then none else s.tails t := by
    simp only [State.setPc, State.apply]
    split
    · simp
    · rfl
  have hkeep : ∀ {j : Nat}, s.pc t j = .done →
      ((s.apply t k .passTurn).setPc t k .done).pc t j = .done := by
    intro j hj
    by_cases hjk : j = k
    · rw [hjk, hself]
    · rw [hother hjk, hj]
  refine ⟨?_, ?_, ?_, ?_, ?_, ?_⟩
  · intro j hj
    rw [hcalls] at hj
    rw [hother (by omega)]
    exact h.fresh j hj
  · intro j hj
    rw [hcalls] at hj
    by_cases hjk : j = k
    · rw [hjk, hself]
      simp
    · rw [hother hjk]
      exact h.called j hj
  · intro j hj
    rw [hcalls]
    rw [htails] at hj
    split at hj
    · simp at hj
    · exact h.tail j hj
  · intro hempty j hj
    rw [hcalls] at hj
    rw [htails] at hempty
    split at hempty
    next htail =>
        have hlast := h.tail k htail
        by_cases hjk : j = k
        · rw [hjk, hself]
        · exact hkeep (hbegun j (by omega))
    next => exact hkeep (h.empty hempty j hj)
  · intro j previous hj
    have hjk : j ≠ k := by
      rintro rfl
      rw [hself] at hj
      simp at hj
    rw [hother hjk] at hj
    have hwait := h.waiting j previous hj
    cases previous with
    | some i => exact hwait
    | none => exact fun i hi => hkeep (hwait i hi)
  · intro j hj i hi
    refine hkeep ?_
    by_cases hjk : j = k
    · subst hjk
      exact hbegun i hi
    · rw [hother hjk] at hj
      exact h.begun j hj i hi

theorem Turns.call (workspace : String) :
    Turns
      { s.setPc t (s.calls t) (.waiting (s.tails t)) with
        tails := Function.update s.tails t (some (s.calls t))
        calls := Function.update s.calls t (s.calls t + 1)
        workspace := Function.update s.workspace t
          (Function.update (s.workspace t) (s.calls t) workspace) } t := by
  have hfresh := h.fresh (s.calls t) (Nat.le_refl _)
  refine ⟨?_, ?_, ?_, ?_, ?_, ?_⟩
  all_goals simp only [State.setPc, Function.update_self]
  · intro j hj
    rw [Function.update_of_ne (by omega)]
    exact h.fresh j (by omega)
  · intro j hj
    by_cases hjk : j = s.calls t
    · rw [hjk, Function.update_self]
      simp
    · rw [Function.update_of_ne hjk]
      exact h.called j (by omega)
  · intro j hj
    rw [Option.some.injEq] at hj
    omega
  · simp
  · intro j previous hj
    by_cases hjk : j = s.calls t
    · rw [hjk, Function.update_self, Pc.waiting.injEq] at hj
      subst hj
      subst hjk
      cases htail : s.tails t with
      | some i => exact h.tail i htail
      | none =>
        intro i hi
        rw [Function.update_of_ne (Nat.ne_of_lt hi)]
        exact h.empty htail i hi
    · rw [Function.update_of_ne hjk] at hj
      have hlt : j < s.calls t := by
        by_contra hlt
        rw [h.fresh j (by omega)] at hj
        simp at hj
      have hwait := h.waiting j previous hj
      cases previous with
      | some i => exact hwait
      | none =>
        intro i hi
        rw [Function.update_of_ne (by omega)]
        exact hwait i hi
  · intro j hj i hi
    have hjk : j ≠ s.calls t := by
      rintro rfl
      simp [Pc.inTurn] at hj
    rw [Function.update_of_ne hjk] at hj
    have hlt : j < s.calls t := by
      by_contra hlt
      rw [h.fresh j (by omega)] at hj
      simp [Pc.inTurn] at hj
    rw [Function.update_of_ne (by omega)]
    exact h.begun j hj i hi

end

theorem apply_tails {e : Effect} (he : e ≠ .passTurn) :
    (s.apply t k e).tails = s.tails := by
  cases e <;> first | rfl | exact absurd rfl he

theorem Turns.task (h : Turns s t) (k : Nat) (r : Result) :
    Turns ((s.apply t k (advance s t k r).2).setPc t k (advance s t k r).1) t := by
  have hmove : ∀ {e : Effect} {pc : Pc}, e ≠ .passTurn → Turns (s.setPc t k pc) t →
      Turns ((s.apply t k e).setPc t k pc) t := by
    intro e pc he hturns
    obtain ⟨-, -, hpc, hcalls⟩ := apply_processes s t k e
    refine hturns.of_same ?_ ?_ ?_
    · rw [State.setPc, State.setPc, hcalls]
    · rw [State.setPc, State.setPc, apply_tails he]
    · rw [State.setPc, State.setPc, hpc]
  have hstay : ∀ pc : Pc, s.pc t k = pc → Turns (s.setPc t k pc) t := by
    intro pc hpc
    refine h.of_same rfl rfl ?_
    subst hpc
    simp [State.setPc]
  by_cases hturn : (s.pc t k).inTurn = true
  · by_cases hlast : s.pc t k = .finishing
    · have hnext : advance s t k r = (.done, .passTurn) := by
        unfold advance
        rw [hlast]
      rw [hnext]
      exact h.finish hlast
    · obtain ⟨hkeeps, heffect⟩ := advance_inTurn hturn hlast r
      refine hmove heffect (h.move ?_ ?_ hkeeps (h.begun k (Or.inl hturn)))
      all_goals
        intro hpc
        simp [hpc, Pc.inTurn] at hturn
  · unfold advance
    cases hpc : s.pc t k with
    | idle => exact hstay _ hpc
    | done => exact hstay _ hpc
    | waiting previous =>
      have henter : (∀ j, j < k → s.pc t j = .done) → Turns (s.setPc t k .entered) t := by
        intro hbegun
        exact h.move (by simp [hpc]) (by simp [hpc]) rfl hbegun
      have hwait := h.waiting k previous hpc
      cases previous with
      | none => exact henter hwait
      | some j =>
        dsimp only
        split
        next hj =>
            refine henter fun i hi => ?_
            have hji : j + 1 = k := hwait
            rcases Nat.lt_or_ge i j with hij | hij
            · exact h.begun j (Or.inr hj) i hij
            · have hieq : i = j := by omega
              rw [hieq, hj]
        next => exact hstay _ hpc
    | _ =>
      rw [hpc] at hturn
      simp [Pc.inTurn] at hturn

/-- **Every event keeps the turns of every process.** -/
theorem Turns.step {s : State} (h : ∀ t, Turns s t) (e : Event) (t : String) :
    Turns (step s e) t := by
  cases e with
  | spawn t' pid =>
    rw [WorkspaceLock.step]
    split
    · exact (h t).of_same rfl rfl rfl
    · exact h t
  | die t' =>
    rw [WorkspaceLock.step]
    split
    · exact h t
    · split
      · exact (h t).of_same rfl rfl rfl
      · exact h t
  | call t' workspace context =>
    rw [WorkspaceLock.step]
    split
    · exact h t
    split
    · exact h t
    by_cases ht : t = t'
    · subst ht
      exact (h t).call workspace
    · exact (h t).of_same (by simp [Function.update_of_ne ht])
        (by simp [Function.update_of_ne ht]) (by simp [State.setPc, Function.update_of_ne ht])
  | task t' k r =>
    rw [WorkspaceLock.step]
    split
    · by_cases ht : t = t'
      · subst ht
        exact (h t).task k r
      · obtain ⟨-, -, hpc, hcalls⟩ := apply_processes s t' k (advance s t' k r).2
        refine (h t).of_same ?_ ?_ ?_
        · rw [State.setPc, hcalls]
        · rw [State.setPc]
          cases (advance s t' k r).2 with
          | passTurn =>
            simp only [State.apply]
            split
            · simp [Function.update_of_ne ht]
            · rfl
          | _ => rfl
        · simp only [State.setPc]
          rw [hpc, Function.update_of_ne ht]
    · exact h t

theorem init_turns (t : String) : Turns init t where
  fresh := by simp [init]
  called := by simp [init]
  tail := by simp [init]
  empty := by simp [init]
  waiting := by simp [init]
  begun := by simp [init, Pc.inTurn]

theorem run_turns (events : List Event) (t : String) :
    Turns (Runs.run step init events) t :=
  Runs.run_invariant step (fun s => ∀ t, Turns s t) (fun _ e h t => Turns.step h e t)
    init_turns events t

theorem Inv.holder_unique (h : Inv s) {t' : String} {k' : Nat} {id id' : Nat}
    (halive : s.alive t = true) (halive' : s.alive t' = true)
    (hholds : (s.pc t k).holds = some id) (hholds' : (s.pc t' k').holds = some id') :
    (t, k) = (t', k') := by
  obtain ⟨howner, hcreator, -⟩ := (h.facts t k halive).owned id (Pc.owned_of_holds hholds)
  obtain ⟨howner', hcreator', -⟩ :=
    (h.facts t' k' halive').owned id' (Pc.owned_of_holds hholds')
  have hid : id = id' := Option.some.inj (howner.symm.trans howner')
  rw [← hcreator, ← hcreator', hid]

theorem owner_of_apply {e : Effect} (hpre : Pre s t k e) {id : Nat}
    (howner : s.owner = some id) (hgone : (s.apply t k e).owner ≠ some id) :
    s.creator id = (t, k) ∨ (∃ id', e = .renameOver id') ∧ Dead s (s.creator id).1 := by
  cases e with
  | unlinkOwner =>
    obtain ⟨file, hfile, hcreator⟩ := hpre
    rw [howner, Option.some.injEq] at hfile
    exact Or.inl (hfile ▸ hcreator)
  | renameOver id' =>
    obtain ⟨-, -, -, stale, hstale, hdead⟩ := hpre
    rw [howner, Option.some.injEq] at hstale
    exact Or.inr ⟨⟨id', rfl⟩, hstale ▸ hdead⟩
  | create =>
    have hnone : s.owner = none := hpre
    rw [howner] at hnone
    simp at hnone
  | passTurn =>
    simp only [State.apply] at hgone
    split at hgone
    · exact absurd howner hgone
    · exact absurd howner hgone
  | _ => exact absurd howner hgone

theorem owner_of_step (h : Inv s) {e : Event} {id : Nat} (howner : s.owner = some id)
    (hgone : (step s e).owner ≠ some id) :
    ∃ t k r, e = .task t k r ∧ s.alive t = true ∧
      (s.creator id = (t, k) ∨
        (∃ id', (advance s t k r).2 = .renameOver id') ∧ Dead s (s.creator id).1) := by
  cases e with
  | spawn t pid =>
    rw [step] at hgone
    split at hgone <;> exact absurd howner hgone
  | die _ | call _ _ _ =>
    rw [step] at hgone
    split at hgone
    · exact absurd howner hgone
    · split at hgone <;> exact absurd howner hgone
  | task t k r =>
    rw [step] at hgone
    split at hgone
    next halive =>
        obtain ⟨hpre, -⟩ := advance_spec h.files halive (h.facts t k halive) r
        exact ⟨t, k, r, rfl, halive, owner_of_apply hpre howner hgone⟩
    next => exact absurd howner hgone

theorem advance_of_inRelease (h : (s.pc t k).inRelease = true) (r : Result) (id : Nat) :
    (advance s t k r).2 ≠ .renameOver id := by
  have hthrown : thrown r ≠ .renameOver id := by cases r <;> simp [thrown]
  unfold advance
  cases hpc : s.pc t k with
  | releasing _ _ | releaseOpened _ _ _ | releaseRead _ _ _ _ | releaseMatched _ _
    | releaseUnlinking _ _ =>
      dsimp only
      repeat' split
      all_goals first | exact hthrown | simp
  | _ =>
    rw [hpc] at h
    simp [Pc.inRelease] at h

/-- **Mutual exclusion.**  After any events of any number of processes, at most one task
of a live process is between the return of `acquire` and its unlink, and at most one task
of a process is in its turn.  An event that takes a file away from the owner path is a
step of the task that created the file, or a reclaimer's rename over a file whose creator
is gone; in a release it is always the first. -/
theorem mutual_exclusion (events : List Event) :
    (∀ t k t' k', (Runs.run step init events).alive t = true →
      (Runs.run step init events).alive t' = true →
      ((Runs.run step init events).pc t k).holds.isSome = true →
      ((Runs.run step init events).pc t' k').holds.isSome = true → (t, k) = (t', k')) ∧
    (∀ t k k', ((Runs.run step init events).pc t k).inTurn = true →
      ((Runs.run step init events).pc t k').inTurn = true → k = k') ∧
    (∀ e id, (Runs.run step init events).owner = some id →
      (step (Runs.run step init events) e).owner ≠ some id →
      ∃ t k r, e = .task t k r ∧ (Runs.run step init events).alive t = true ∧
        ((Runs.run step init events).creator id = (t, k) ∨
          ((Runs.run step init events).pc t k).inRelease = false ∧
            Dead (Runs.run step init events) ((Runs.run step init events).creator id).1)) := by
  have hinv := run_inv events
  refine ⟨?_, ?_, ?_⟩
  · intro t k t' k' halive halive' hholds hholds'
    obtain ⟨id, hid⟩ := Option.isSome_iff_exists.mp hholds
    obtain ⟨id', hid'⟩ := Option.isSome_iff_exists.mp hholds'
    exact hinv.holder_unique halive halive' hid hid'
  · intro t k k' hk hk'
    exact (run_turns events t).unique hk hk'
  · intro e id howner hgone
    obtain ⟨t, k, r, he, halive, hcause⟩ := owner_of_step hinv howner hgone
    refine ⟨t, k, r, he, halive, ?_⟩
    rcases hcause with hown | ⟨⟨id', hrename⟩, hdead⟩
    · exact Or.inl hown
    · refine Or.inr ⟨?_, hdead⟩
      cases hrelease : (Runs.run step init events |>.pc t k).inRelease with
      | false => rfl
      | true => exact absurd hrename (advance_of_inRelease hrelease r id')

end WorkspaceLock

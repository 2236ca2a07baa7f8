import Crest.WorkspaceLockContention

/-!
# Recovery after crashes

Whatever the owners of the lock were doing when they died, a process that runs `acquire`
alone obtains the lock, provided that the run was calm: the owner file it meets is complete,
and the record in it names a life that is over.

A stretch of steps of one task, all of them successful, is described by what it goes on to
reach.  The stretches compose: the inspection is passed twice, before the reclaim
transaction and inside it, and a record is written either to `owner.json` or to a candidate.
-/

namespace WorkspaceLock

/-- Some number of steps of a task, with nobody else running, leads where `Q` holds. -/
def Goes (t : String) (k : Nat) (Q : State → Prop) (s : State) : Prop :=
  ∃ n, Q (Runs.run step s (List.replicate n (.task t k .ok)))

attribute [local simp] State.setPc advance State.apply

section Goes

variable {t : String} {k : Nat} {Q : State → Prop} {s : State}

theorem Goes.here (h : Q s) : Goes t k Q s := ⟨0, h⟩

theorem Goes.next (h : Goes t k Q (step s (.task t k .ok))) : Goes t k Q s := by
  obtain ⟨n, hn⟩ := h
  exact ⟨n + 1, hn⟩

theorem apply_setPc (pc pc' : Pc) (e : Effect) :
    ((s.setPc t k pc).apply t k e).setPc t k pc' = (s.apply t k e).setPc t k pc' := by
  cases e with
  | passTurn => by_cases htail : s.tails t = some k <;> simp [htail]
  | _ => simp

theorem alive_apply (e : Effect) : (s.apply t k e).alive t = s.alive t := by
  obtain ⟨hstarted, hruns, -, -⟩ := apply_processes s t k e
  exact alive_of_same hstarted hruns t

theorem Goes.effect {pc : Pc} (pc' : Pc) (e : Effect) (halive : s.alive t = true)
    (hnext : advance (s.setPc t k pc) t k .ok = (pc', e))
    (h : Goes t k Q ((s.apply t k e).setPc t k pc')) :
    Goes t k Q (s.setPc t k pc) := by
  refine Goes.next ?_
  have halive' : (s.setPc t k pc).alive t = true := halive
  rw [step, if_pos halive', hnext, apply_setPc]
  exact h

theorem Goes.move {pc : Pc} (pc' : Pc) (halive : s.alive t = true)
    (hnext : advance (s.setPc t k pc) t k .ok = (pc', .none)) (h : Goes t k Q (s.setPc t k pc')) :
    Goes t k Q (s.setPc t k pc) := Goes.effect pc' .none halive hnext h

variable {record : Record}

theorem goes_inspectOwner {inTx : Bool} {found : Record} {id : Nat}
    (halive : s.alive t = true) (howner : s.owner = some id)
    (hcontent : s.content id = some found) (hworkspace : found.workspace = s.workspace t k)
    (hover : ∀ current, s.runs found.pid = some current → current ≠ found.token)
    (h : Goes t k Q (s.setPc t k (verdict inTx record id .stale))) :
    Goes t k Q (s.setPc t k (.inspecting inTx record)) := by
  refine Goes.move (.opened inTx record id) halive ?_ ?_
  · simp [howner]
  refine Goes.move (.identified inTx record id) halive ?_ ?_
  · simp [howner]
  refine Goes.move (.read inTx record id (some found)) halive ?_ ?_
  · simp [hcontent]
  refine Goes.move (.decoded inTx record id found) halive ?_ ?_
  · simp [howner]
  cases hruns : s.runs found.pid with
  | none =>
    refine Goes.move _ halive ?_ h
    simp [hworkspace, hruns]
  | some current =>
    have hother := hover current hruns
    refine Goes.move (.probed inTx record id found) halive ?_ ?_
    · simp [hworkspace, hruns]
    refine Goes.move (.compared inTx record id false) halive ?_ ?_
    · simp [hruns, hother]
    refine Goes.move _ halive ?_ h
    simp [howner]

theorem goes_writeOwnerAt {place : Place} {id : Nat} (halive : s.alive t = true)
    (howner : place = .owner → s.owner = some id)
    (h : Goes t k Q ((s.apply t k (.write id record)).setPc t k (.verified place record id))) :
    Goes t k Q (s.setPc t k (.created place record id)) := by
  refine Goes.move (.statted place record id) halive ?_ ?_
  · simp
  refine Goes.effect (.written place record id) (.write id record) halive ?_ ?_
  · simp
  refine Goes.move (.verified place record id) ?_ ?_ h
  · rw [alive_apply]
    exact halive
  · cases place with
    | owner => simp [howner rfl]
    | candidate stale => simp

theorem goes_replaceStaleOwner {stale : Nat} (halive : s.alive t = true)
    (howner : s.owner = some stale)
    (h : ∀ s' : State, s'.owner = some s.nextId →
      Q (s'.setPc t k (.acquired record s.nextId))) :
    Goes t k Q (s.setPc t k (.replacing record stale)) := by
  refine Goes.effect (.created (.candidate stale) record s.nextId) .createCandidate halive ?_ ?_
  · simp
  have hcreated : (s.apply t k .createCandidate).alive t = true := by
    rw [alive_apply]
    exact halive
  refine goes_writeOwnerAt hcreated (fun h => by simp at h) ?_
  have hwritten : ((s.apply t k .createCandidate).apply t k
      (.write s.nextId record)).alive t = true := by
    rw [alive_apply]
    exact hcreated
  refine Goes.move (.candidateReady record stale s.nextId) hwritten ?_ ?_
  · simp
  refine Goes.move (.staleChecked record stale s.nextId) hwritten ?_ ?_
  · simp [howner]
  refine Goes.effect (.renamed record s.nextId) (.renameOver s.nextId) hwritten ?_ ?_
  · simp
  have hrenamed : (((s.apply t k .createCandidate).apply t k (.write s.nextId record)).apply t k
      (.renameOver s.nextId)).alive t = true := by
    rw [alive_apply]
    exact hwritten
  refine Goes.move (.rollback (.acquired record s.nextId)) hrenamed ?_ ?_
  · simp
  refine Goes.effect (.acquired record s.nextId) .endTransaction hrenamed ?_ ?_
  · simp
  exact Goes.here (h _ rfl)

end Goes

/-- The owner file, if there is one, is complete and names a life that is over. -/
def Abandoned (workspace : String) (s : State) : Prop :=
  ∀ id, s.owner = some id → ∃ record, s.content id = some record ∧
    record.workspace = workspace ∧
    ∀ current, s.runs record.pid = some current → current ≠ record.token

/-- The task's `acquire` has returned, and `owner.json` is its own file. -/
def Obtained (t : String) (k : Nat) (s : State) : Prop :=
  ∃ record id, s.pc t k = .acquired record id ∧ s.owner = some id

variable {s : State}

/-- **`acquire`, run alone on an abandoned lock, obtains it.** -/
theorem goes_acquire {t : String} {k : Nat} (halive : s.alive t = true)
    (hreclaim : s.reclaim = none) (habandoned : Abandoned (s.workspace t k) s) :
    Goes t k (Obtained t k) (s.setPc t k .acquiring) := by
  have hobtained : ∀ (s' : State) (record : Record) (id : Nat), s'.owner = some id →
      Obtained t k (s'.setPc t k (.acquired record id)) := by
    intro s' record id howner
    exact ⟨record, id, by simp, howner⟩
  refine Goes.effect (.creating ⟨s.workspace t k, (s.started t).getD 0, t, s.nextNonce⟩)
    .makeOwner halive ?_ ?_
  · simp
  generalize hrecord : (⟨s.workspace t k, (s.started t).getD 0, t, s.nextNonce⟩ : Record) =
    record
  have halive : (s.apply t k .makeOwner).alive t = true := by
    rw [alive_apply]
    exact halive
  have hreclaim : (s.apply t k .makeOwner).reclaim = none := hreclaim
  have habandoned : Abandoned ((s.apply t k .makeOwner).workspace t k)
    (s.apply t k .makeOwner) := habandoned
  generalize s.apply t k .makeOwner = s at halive hreclaim habandoned ⊢
  cases howner : s.owner with
  | none =>
    refine Goes.effect (.created .owner record s.nextId) .create halive ?_ ?_
    · simp [howner]
    have hcreated : (s.apply t k .create).alive t = true := by
      rw [alive_apply]
      exact halive
    refine goes_writeOwnerAt hcreated (fun _ => rfl) ?_
    refine Goes.move (.acquired record s.nextId) ?_ ?_ ?_
    · rw [alive_apply]
      exact hcreated
    · simp
    · exact Goes.here (hobtained _ _ _ rfl)
  | some stale =>
    obtain ⟨found, hcontent, hworkspace, hover⟩ := habandoned stale howner
    refine Goes.move (.inspecting false record) halive ?_ ?_
    · simp [howner]
    refine goes_inspectOwner halive howner hcontent hworkspace hover ?_
    refine Goes.move (.beginning record) halive ?_ ?_
    · simp [verdict]
    refine Goes.effect (.inspecting true record) .beginTransaction halive ?_ ?_
    · simp [hreclaim]
    have hbegun : (s.apply t k .beginTransaction).alive t = true := by
      rw [alive_apply]
      exact halive
    refine goes_inspectOwner hbegun howner hcontent hworkspace hover ?_
    exact goes_replaceStaleOwner hbegun howner fun s' howner' => hobtained s' _ _ howner'

/-- The life that created the owner file is over, and so is the one in the reclaim
transaction. -/
def OwnersDead (s : State) : Prop :=
  (∀ id, s.owner = some id → Dead s (s.creator id).1) ∧
  ∀ t k, s.reclaim = some (t, k) → Dead s t

/-- A call of a process, made alone, obtains the lock. -/
def Obtains (workspace : String) (t : String) (s : State) : Prop :=
  Goes t (s.calls t) (Obtained t (s.calls t)) (step s (.call t workspace none))

theorem CalmInv.abandoned {workspace : String} (h : CalmInv workspace s)
    (hdead : OwnersDead s) :
    Abandoned workspace s ∧ s.reclaim = none := by
  refine ⟨?_, ?_⟩
  · intro id howner
    obtain ⟨pid, hstarted, hruns⟩ := hdead.1 id howner
    have hsome : (s.content id).isSome = true := by
      rcases h.published id howner with hsome | ⟨t, k, halive, hcreator, -⟩
      · exact hsome
      · have hover := (hdead.1 id howner).not_alive
        rw [hcreator, halive] at hover
        simp at hover
    obtain ⟨record, hcontent⟩ := Option.isSome_iff_exists.mp hsome
    obtain ⟨-, htoken, hpid⟩ := h.inv.files id record hcontent
    rw [hstarted, Option.some.injEq] at hpid
    refine ⟨record, hcontent, h.records id record hcontent, ?_⟩
    intro current hcurrent heq
    rw [hpid, hcurrent, heq, htoken] at hruns
    exact hruns rfl
  · cases hreclaim : s.reclaim with
    | none => rfl
    | some task =>
      have halive := h.reclaimer task.1 task.2 hreclaim
      rw [(hdead.2 task.1 task.2 hreclaim).not_alive] at halive
      simp at halive

theorem CalmInv.obtains {workspace : String} (h : CalmInv workspace s)
    (hdead : OwnersDead s) {t : String} (halive : s.alive t = true)
    (hturns : ∀ j, j < s.calls t → s.pc t j = .done) :
    Obtains workspace t s := by
  obtain ⟨habandoned, hreclaim⟩ := h.abandoned hdead
  obtain ⟨hpoisoned, hfailed⟩ := h.sound t
  unfold Obtains
  generalize hk : s.calls t = k
  have hcall : ∃ s' : State, WorkspaceLock.step s (.call t workspace none) =
      s'.setPc t k (.waiting (s.tails t)) ∧ s'.alive t = true ∧ s'.reclaim = none ∧
      s'.workspace t k = workspace ∧ Abandoned workspace s' ∧ s'.poisoned t = false ∧
      s'.releaseFailed t = false ∧ s'.pc = s.pc := by
    refine ⟨{ s with
      tails := Function.update s.tails t (some k)
      calls := Function.update s.calls t (k + 1)
      workspace := Function.update s.workspace t
        (Function.update (s.workspace t) k workspace) }, ?_, halive, hreclaim, by simp,
      habandoned, hpoisoned, hfailed, rfl⟩
    rw [WorkspaceLock.step, if_neg (by simp [halive]), if_neg (by simp), hk]
    rfl
  obtain ⟨s', hstep, halive', hreclaim', hhere, habandoned', hclean, hreleased, hpc⟩ := hcall
  rw [hstep]
  refine Goes.move .entered halive' ?_ ?_
  · cases htail : s.tails t with
    | none => simp
    | some j =>
      have hj := (h.turns t).tail j htail
      have hdone := hturns j (by omega)
      have hjk : j ≠ k := by omega
      simp [Function.update_of_ne hjk, hpc, hdone]
  refine Goes.move .acquiring halive' ?_ ?_
  · simp [hclean, hreleased]
  · exact goes_acquire halive' hreclaim' (by rw [hhere]; exact habandoned')

theorem OwnersDead.spawn (h : OwnersDead s) (t : String) (pid : Nat) :
    OwnersDead (step s (.spawn t pid)) := by
  have hdead : ∀ t', Dead s t' → Dead (step s (.spawn t pid)) t' := by
    intro t' hdead
    rw [step]
    split
    next hcond =>
        obtain ⟨pid', hstarted, hruns⟩ := hdead
        have hne : t' ≠ t := by
          rintro rfl
          rw [hcond.1] at hstarted
          simp at hstarted
        refine ⟨pid', by simpa [Function.update_of_ne hne] using hstarted, ?_⟩
        dsimp only
        by_cases hpid : pid' = pid
        · rw [hpid, Function.update_self, Ne, Option.some.injEq]
          exact Ne.symm hne
        · rwa [Function.update_of_ne hpid]
    next => exact hdead
  obtain ⟨howner, -, hcreator, -⟩ := sameFiles_spawn (s := s) t pid
  have hreclaim : (step s (.spawn t pid)).reclaim = s.reclaim := by
    rw [step]
    split <;> rfl
  refine ⟨?_, ?_⟩
  · rw [howner, hcreator]
    exact fun id hid => hdead _ (h.1 id hid)
  · rw [hreclaim]
    exact fun t' k' hin => hdead _ (h.2 t' k' hin)

/-- One process publishes its record and dies as the holder. -/
def crashedHolder : List Event :=
  [.spawn "a" 1, .call "a" "w" none] ++ List.replicate 9 (.task "a" 0 .ok) ++ [.die "a"]

/-- A process has read the owner file when its holder releases the lock. -/
def overtakenInspector : List Event :=
  [.spawn "a" 1, .spawn "b" 2, .call "a" "w" none, .call "b" "w" none] ++
    List.replicate 8 (.task "a" 0 .ok) ++ List.replicate 7 (.task "b" 0 .ok) ++
    List.replicate 8 (.task "a" 0 .ok) ++ [.task "b" 0 .ok]

/-- A process dies after creating `owner.json`, and another one comes alone. -/
def unwrittenOwner : List Event :=
  [.spawn "a" 1, .call "a" "w" none] ++ List.replicate 4 (.task "a" 0 .ok) ++
    [.die "a", .spawn "b" 2, .call "b" "w" none] ++ List.replicate 8 (.task "b" 0 .ok) ++
    [.task "b" 0 .fails, .task "b" 0 .ok]

end WorkspaceLock

import Crest.WorkspaceLockTurns

/-!
# Runs in which nobody is overtaken

An inspector opens the owner file, and checks later that the path still leads to it.  Some
of these checks take a file that is gone for absent, the others poison the lock.  A run is
calm when no check of the second kind comes after the file was taken away, and no process
dies between creating `owner.json` and writing it.

In a calm run no step poisons the lock and no release fails.  What carries this is that a
task's own file keeps the record the task has written to it, and that the owner file of
anybody else is complete, or is about to be completed by a task that lives.
-/

namespace WorkspaceLock

namespace Pc

/-- The task has created `owner.json` and has not written it. -/
def unpublished : Pc → Bool
  | .created .owner _ _ | .statted .owner _ _ => true
  | _ => false

/-- The next check of the task finds the owner path changed, and poisons the lock. -/
def overtaken (owner : Option Nat) : Pc → Bool
  | .opened _ _ id | .undecoded _ _ id | .compared _ _ id _ | .vanished _ _ id _ =>
    decide (owner ≠ none ∧ owner ≠ some id)
  | .read _ _ id _ => decide (owner ≠ some id)
  | .candidateReady _ stale _ => decide (owner ≠ some stale)
  | _ => false

/-- Where the file system is well and a step may still not succeed: the time for a
publication runs out, or a process cannot be probed. -/
def probing : Pc → Bool
  | .undecoded _ _ _ | .decoded _ _ _ _ | .probed _ _ _ _ => true
  | _ => false

/-- The task's own file, and the record that the task has written to it. -/
def signed : Pc → Option (Nat × Record)
  | .written _ record id | .verified _ record id | .candidateReady record _ id
  | .staleChecked record _ id | .renamed record id | .rollback (.acquired record id)
  | .acquired record id | .running record id | .releasing record id
  | .releaseOpened record id _ | .releaseRead record id _ _ | .releaseMatched record id
  | .releaseUnlinking record id => some (id, record)
  | _ => none

/-- A release that has looked at the owner path has found the task's own record. -/
def Intact : Pc → Prop
  | .releaseOpened _ id found => found = id
  | .releaseRead record id found bytes => found = id ∧ bytes = some record
  | _ => True

end Pc

/-- An event of a calm run of the lock of a workspace. -/
def calm (workspace : String) (s : State) : Event → Bool
  | .spawn _ _ => true
  | .die t => (List.range (s.calls t)).all fun k => !(s.pc t k).unpublished
  | .call _ called _ => decide (called = workspace)
  | .task t k r =>
    match r with
    | .ok => !(s.pc t k).overtaken s.owner
    | .fails => (s.pc t k).probing
    | .poisons => false

/-- What a live task knows of records at a place of its program, in a calm run. -/
structure Kept (workspace : String) (s : State) (pc : Pc) : Prop where
  signed : ∀ e ∈ pc.signed, s.content e.1 = some e.2
  intact : pc.Intact
  draft : ∀ record ∈ pc.draft, record.workspace = workspace

/-- What an effect of a calm step shows, besides `Pre`. -/
def Effect.Calm (workspace : String) (s : State) : Effect → Prop
  | .poison | .releaseFailure => False
  | .write _ record => record.workspace = workspace
  | .renameOver id => (s.content id).isSome = true
  | _ => True

theorem content_of_apply {s : State} (hfiles : Files s) {t : String} {k : Nat} {e : Effect}
    (hpre : Pre s t k e) {id : Nat} {record : Record} (h : s.content id = some record) :
    (s.apply t k e).content id = some record := by
  have hlt := (hfiles id record h).1
  cases e with
  | create | createCandidate =>
    simpa [State.apply, Function.update_of_ne (Nat.ne_of_lt hlt)] using h
  | write file written =>
    have hne : id ≠ file := by
      intro heq
      rw [heq, hpre.2.2.1] at h
      simp at h
    simpa [State.apply, Function.update_of_ne hne] using h
  | passTurn =>
    simp only [State.apply]
    split <;> exact h
  | _ => exact h

theorem Kept.frame {workspace : String} {s : State} {pc : Pc} (h : Kept workspace s pc)
    (hfiles : Files s) {t : String} {k : Nat} {e : Effect} (hpre : Pre s t k e) :
    Kept workspace (s.apply t k e) pc :=
  ⟨fun x hx => content_of_apply hfiles hpre (h.signed x hx), h.intact, h.draft⟩

theorem kept_of_nothing {workspace : String} {s : State} {pc : Pc}
    (h : pc.signed = none ∧ pc.Intact ∧ pc.draft = none) : Kept workspace s pc := by
  obtain ⟨hsigned, hintact, hdraft⟩ := h
  refine ⟨?_, hintact, ?_⟩
  · rw [hsigned]
    simp
  · rw [hdraft]
    simp

attribute [simp] Pc.unpublished Pc.overtaken Pc.probing Pc.signed Pc.Intact

/-- What a calm step of a task has to show. -/
def CalmStep (workspace : String) (s : State) (t : String) (k : Nat) (next : Pc × Effect) :
    Prop :=
  next.2.Calm workspace s ∧ Kept workspace (s.apply t k next.2) next.1

section Steps

variable {workspace : String} {s : State} {t : String} {k : Nat}

theorem kept_throwAt {inTx : Bool} : Kept workspace s (throwAt inTx) :=
  kept_of_nothing (by cases inTx <;> simp [throwAt])

variable {record : Record}

theorem kept_verdict {inTx : Bool} {id : Nat} {v : OwnerState}
    (hdraft : record.workspace = workspace) :
    Kept workspace s (verdict inTx record id v) := by
  cases v with
  | unknown => exact kept_throwAt
  | absent | live => exact kept_of_nothing (by cases inTx <;> simp [verdict])
  | stale =>
    cases inTx with
    | false | true => exact ⟨by simp [verdict], by simp [verdict], by simpa [verdict] using hdraft⟩

theorem calm_none {pc : Pc} (h : Kept workspace s pc) : CalmStep workspace s t k (pc, .none) :=
  ⟨trivial, h⟩

theorem kept_drafting {pc : Pc}
    (hpc : pc.signed = none ∧ pc.Intact ∧ ∀ draft ∈ pc.draft, draft = record)
    (hdraft : record.workspace = workspace) :
    Kept workspace s pc := by
  obtain ⟨hsigned, hintact, hrecord⟩ := hpc
  refine ⟨?_, hintact, ?_⟩
  · rw [hsigned]
    simp
  · intro draft hin
    rw [hrecord draft hin]
    exact hdraft

theorem kept_signing {pc : Pc} {id : Nat}
    (hpc : pc.signed = some (id, record) ∧ pc.Intact ∧ pc.draft = none)
    (hsigned : s.content id = some record) :
    Kept workspace s pc := by
  obtain ⟨hpcs, hintact, hdraft⟩ := hpc
  refine ⟨?_, hintact, ?_⟩
  · rw [hpcs]
    simpa using hsigned
  · rw [hdraft]
    simp

theorem calm_writeOwnerAt {place : Place} {id : Nat}
    (hpc : s.pc t k = .created place record id ∨ s.pc t k = .statted place record id ∨
      s.pc t k = .written place record id ∨ s.pc t k = .verified place record id)
    (hfact : Fact s t k (s.pc t k)) (hkept : Kept workspace s (s.pc t k)) :
    CalmStep workspace s t k (advance s t k .ok) := by
  unfold advance
  rcases hpc with hpc | hpc | hpc | hpc
  · rw [hpc] at hkept ⊢
    have hdraft := hkept.draft record rfl
    exact calm_none (kept_drafting (by simp) hdraft)
  · rw [hpc] at hkept ⊢
    have hwritten : (s.apply t k (.write id record)).content id = some record := by
      simp [State.apply]
    exact ⟨hkept.draft record rfl, kept_signing (by simp) hwritten⟩
  · rw [hpc] at hfact hkept ⊢
    have hsigned := hkept.signed (id, record) rfl
    cases place with
    | owner =>
      have howner := (hfact.owned id rfl).1
      simp only [howner, ne_eq, not_true_eq_false, if_false, if_true]
      exact calm_none (kept_signing (by simp) hsigned)
    | candidate stale => exact calm_none (kept_signing (by simp) hsigned)
  · rw [hpc] at hkept ⊢
    have hsigned := hkept.signed (id, record) rfl
    cases place with
    | owner | candidate _ => exact calm_none (kept_signing (by simp) hsigned)

theorem calm_inspectOwner {inTx : Bool} (hdraft : record.workspace = workspace)
    (hok : (s.pc t k).overtaken s.owner = false)
    (hpc : s.pc t k = .inspecting inTx record ∨
      (∃ id, s.pc t k = .opened inTx record id ∨ s.pc t k = .identified inTx record id ∨
        s.pc t k = .undecoded inTx record id) ∨
      (∃ id found, s.pc t k = .read inTx record id found) ∨
      (∃ id found, s.pc t k = .decoded inTx record id found ∨
        s.pc t k = .probed inTx record id found ∨
        s.pc t k = .vanished inTx record id found ∨
        s.pc t k = .reprobing inTx record id found) ∨
      ∃ id same, s.pc t k = .compared inTx record id same) :
    CalmStep workspace s t k (advance s t k .ok) := by
  have hverdict : ∀ id v, CalmStep workspace s t k (verdict inTx record id v, .none) :=
    fun id v => calm_none (kept_verdict hdraft)
  have hdrafting : ∀ pc : Pc,
      (pc.signed = none ∧ pc.Intact ∧ ∀ draft ∈ pc.draft, draft = record) →
      CalmStep workspace s t k (pc, .none) :=
    fun pc h => calm_none (kept_drafting h hdraft)
  unfold advance
  rcases hpc with hpc | ⟨id, hpc | hpc | hpc⟩ | ⟨id, found, hpc⟩
    | ⟨id, found, hpc | hpc | hpc | hpc⟩ | ⟨id, same, hpc⟩
  all_goals rw [hpc] at hok ⊢
  all_goals dsimp only
  -- inspecting
  · cases s.owner with
    | none => exact hverdict 0 .absent
    | some id => exact hdrafting _ (by simp)
  -- opened
  · cases howner : s.owner with
    | none => simpa using hverdict id .absent
    | some found =>
      have hsame : found = id := by simpa [howner] using hok
      simpa [hsame] using hdrafting (.identified inTx record id) (by simp)
  -- identified
  · exact hdrafting _ (by simp)
  -- undecoded
  · cases howner : s.owner with
    | none => exact hverdict id .absent
    | some found =>
      have hsame : found = id := by simpa [howner] using hok
      simpa [hsame] using hdrafting (.identified inTx record id) (by simp)
  -- read
  · have howner : s.owner = some id := by simpa using hok
    simp only [howner, ne_eq, not_true_eq_false, or_self, if_false]
    cases found with
    | none | some _ => exact hdrafting _ (by simp)
  -- decoded
  · split
    · exact hverdict id .unknown
    split
    · exact hverdict id .stale
    · exact hdrafting _ (by simp)
  -- probed
  · simp only [ne_eq, not_true_eq_false, if_false]
    split
    · exact hdrafting _ (by simp)
    · exact hdrafting _ (by simp)
  -- vanished
  · cases howner : s.owner with
    | none => exact hverdict id .absent
    | some found' =>
      have hsame : found' = id := by simpa [howner] using hok
      simpa [hsame] using hdrafting (.reprobing inTx record id found) (by simp)
  -- reprobing
  · split
    · exact hverdict id .stale
    · exact hverdict id .unknown
  -- compared
  · cases howner : s.owner with
    | none => exact hverdict id .absent
    | some found =>
      have hsame : found = id := by simpa [howner] using hok
      simpa [hsame] using hverdict id (if same then .live else .stale)

theorem calm_reclaim
    (hpc : (s.pc t k = .preparing record ∨ s.pc t k = .beginning record) ∨
      ∃ stale id, s.pc t k = .replacing record stale ∨
        s.pc t k = .candidateReady record stale id ∨
        s.pc t k = .staleChecked record stale id ∨ s.pc t k = .renamed record id)
    (hfact : Fact s t k (s.pc t k)) (hok : (s.pc t k).overtaken s.owner = false)
    (hkept : Kept workspace s (s.pc t k)) :
    CalmStep workspace s t k (advance s t k .ok) := by
  unfold advance
  rcases hpc with (hpc | hpc) | ⟨stale, id, hpc | hpc | hpc | hpc⟩
  all_goals rw [hpc] at hfact hok hkept ⊢
  all_goals dsimp only
  · have hdraft := hkept.draft record rfl
    exact calm_none (kept_drafting (by simp) hdraft)
  · have hdraft := hkept.draft record rfl
    cases s.reclaim with
    | none => exact ⟨trivial, kept_drafting (by simp) hdraft⟩
    | some _ => exact calm_none (kept_drafting (by simp) hdraft)
  · have hdraft := hkept.draft record rfl
    exact ⟨trivial, kept_drafting (by simp) hdraft⟩
  · have hsigned := hkept.signed (id, record) rfl
    have howner : s.owner = some stale := by simpa using hok
    simp only [howner, ne_eq, not_true_eq_false, or_self, if_false]
    exact calm_none (kept_signing (by simp) hsigned)
  · have hsigned := hkept.signed (id, record) rfl
    refine ⟨?_, kept_signing (by simp) hsigned⟩
    rw [if_pos rfl]
    exact Option.isSome_iff_exists.mpr ⟨record, hsigned⟩
  · have hsigned := hkept.signed (id, record) rfl
    have howner := (hfact.owned id rfl).1
    simp only [howner, ne_eq, not_true_eq_false, or_self, if_false]
    exact calm_none (kept_signing (by simp) hsigned)

theorem calm_rollback {outcome : Reclaim} (hpc : s.pc t k = .rollback outcome)
    (hkept : Kept workspace s (s.pc t k)) :
    CalmStep workspace s t k (advance s t k .ok) := by
  unfold advance
  rw [hpc] at hkept ⊢
  cases outcome with
  | acquired record id =>
    have hsigned := hkept.signed (id, record) rfl
    exact ⟨trivial, kept_signing (by simp) hsigned⟩
  | retry | failed => exact ⟨trivial, kept_of_nothing (by simp)⟩

theorem calm_holder {id : Nat} (hpc : (s.pc t k).holds = some id)
    (hsigns : (s.pc t k).signed = some (id, record)) (hfact : Fact s t k (s.pc t k))
    (hkept : Kept workspace s (s.pc t k)) :
    CalmStep workspace s t k (advance s t k .ok) := by
  have howner := (hfact.owned id (Pc.owned_of_holds hpc)).1
  have hcontent : s.content id = some record := hkept.signed (id, record) hsigns
  have hintact := hkept.intact
  have hsame : ∀ {pc : Pc} {record' id'}, s.pc t k = pc → pc.signed = some (id', record') →
      id' = id ∧ record' = record := by
    rintro pc record' id' rfl hpcs
    simpa using hpcs.symm.trans hsigns
  unfold advance
  cases hplace : s.pc t k with
  | acquired record' id' | running record' id' =>
    obtain ⟨rfl, rfl⟩ := hsame hplace rfl
    exact calm_none (kept_signing (by simp) hcontent)
  | releasing record' id' =>
    obtain ⟨rfl, rfl⟩ := hsame hplace rfl
    simp only [howner, ne_eq, not_true_eq_false, if_false]
    exact calm_none (kept_signing (by simp) hcontent)
  | releaseOpened record' id' found =>
    rw [hplace] at hintact
    obtain ⟨rfl, rfl⟩ := hsame hplace rfl
    have hfound : found = id' := hintact
    subst hfound
    simp only [hcontent, if_true]
    exact calm_none (kept_signing (by simp) hcontent)
  | releaseRead record' id' found bytes =>
    rw [hplace] at hintact
    obtain ⟨rfl, rfl⟩ := hsame hplace rfl
    obtain ⟨rfl, rfl⟩ : found = id' ∧ bytes = some record' := hintact
    simp only [howner, ne_eq, not_true_eq_false, or_self, if_false, Option.map_some, if_true]
    exact calm_none (kept_signing (by simp) hcontent)
  | releaseMatched record' id' =>
    obtain ⟨rfl, rfl⟩ := hsame hplace rfl
    simp only [howner, ne_eq, not_true_eq_false, or_self, if_false]
    exact calm_none (kept_signing (by simp) hcontent)
  | releaseUnlinking record' id' => exact ⟨trivial, kept_of_nothing (by simp)⟩
  | _ =>
    rw [hplace] at hpc
    simp [Pc.holds] at hpc

/-- **A calm step neither poisons the lock nor fails a release.** -/
theorem advance_calm {r : Result} (hcalm : calm workspace s (.task t k r) = true)
    (hhere : s.pc t k ≠ .idle → s.workspace t k = workspace) (hfact : Fact s t k (s.pc t k))
    (hkept : Kept workspace s (s.pc t k)) :
    CalmStep workspace s t k (advance s t k r) := by
  cases r with
  | poisons => simp [calm] at hcalm
  | fails =>
    have hprobing : (s.pc t k).probing = true := hcalm
    unfold advance
    cases hpc : s.pc t k with
    | undecoded inTx record id =>
      rw [hpc] at hkept
      exact calm_none (kept_verdict (hkept.draft record rfl))
    | decoded inTx record id found =>
      rw [hpc] at hkept
      have hdraft := hkept.draft record rfl
      dsimp only
      split
      · exact calm_none (kept_verdict hdraft)
      split <;> exact calm_none (kept_verdict hdraft)
    | probed inTx record id found =>
      rw [hpc] at hkept
      have hdraft := hkept.draft record rfl
      exact calm_none (kept_drafting (by simp) hdraft)
    | _ =>
      rw [hpc] at hprobing
      simp at hprobing
  | ok =>
    have hok : (s.pc t k).overtaken s.owner = false := by simpa [calm] using hcalm
    cases hpc : s.pc t k with
    | idle | waiting _ | entered | unlinking _ | finishing | done =>
      unfold advance
      rw [hpc]
      dsimp only
      repeat' split
      all_goals exact ⟨trivial, kept_of_nothing (by simp)⟩
    | acquiring =>
      have hdraft := hhere (by simp [hpc])
      unfold advance
      rw [hpc]
      exact ⟨trivial, by simp, by simp, by simpa using hdraft⟩
    | creating record =>
      rw [hpc] at hkept
      have hdraft := hkept.draft record rfl
      unfold advance
      rw [hpc]
      simp only [ne_eq, not_true_eq_false, if_false]
      cases s.owner with
      | none => exact ⟨trivial, kept_drafting (by simp) hdraft⟩
      | some id => exact calm_none (kept_drafting (by simp) hdraft)
    | created place record id | statted place record id | written place record id
      | verified place record id =>
        exact @calm_writeOwnerAt _ s t k record place id (by simp [hpc]) hfact hkept
    | cleanup place id =>
      unfold advance
      rw [hpc] at hfact ⊢
      cases place with
      | candidate stale => exact calm_none (kept_of_nothing (by simp [Place.throwAt]))
      | owner =>
        have howner := (hfact.owned id rfl).1
        simp only [howner, ne_eq, not_true_eq_false, if_false, if_true]
        exact calm_none (kept_of_nothing (by simp))
    | inspecting inTx record | opened inTx record _ | identified inTx record _
      | undecoded inTx record _ | read inTx record _ _ | decoded inTx record _ _
      | probed inTx record _ _ | vanished inTx record _ _ | reprobing inTx record _ _
      | compared inTx record _ _ =>
        have hdraft := (hpc ▸ hkept).draft record rfl
        exact @calm_inspectOwner _ s t k record inTx hdraft hok (by simp [hpc])
    | preparing record | beginning record | replacing record _ | candidateReady record _ _
      | staleChecked record _ _ | renamed record _ =>
        exact @calm_reclaim _ s t k record (by simp [hpc]) hfact hok hkept
    | rollback outcome => exact calm_rollback hpc hkept
    | acquired record id | running record id | releasing record id
      | releaseOpened record id _ | releaseRead record id _ _ | releaseMatched record id
      | releaseUnlinking record id =>
        exact calm_holder (by rw [hpc]; rfl) (by rw [hpc]; rfl) hfact hkept

end Steps

end WorkspaceLock

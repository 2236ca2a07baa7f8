import Crest.WorkspaceLock
import Crest.Runs

/-!
# Whose file is at the owner path

What a live task knows of the lock directory at each place of its program, and that no
step of any task, no birth and no death takes it away.

The argument rests on three facts.  A file that a live task has put at the owner path
stays there until that task takes it away.  A record found stale names a life that is
over, and a life that is over takes no more steps, so nobody but a reclaimer touches its
file.  And one reclaimer at a time is in the transaction.
-/

namespace WorkspaceLock

/-- A life that was started and has lost its process id. -/
def Dead (s : State) (t : String) : Prop :=
  ∃ pid, s.started t = some pid ∧ s.runs pid ≠ some t

theorem Dead.not_alive {s : State} {t : String} (h : Dead s t) : s.alive t = false := by
  obtain ⟨pid, hstarted, hruns⟩ := h
  simp [State.alive, hstarted, hruns]

theorem alive_iff {s : State} {t : String} :
    s.alive t = true ↔ ∃ pid, s.started t = some pid ∧ s.runs pid = some t := by
  unfold State.alive
  cases s.started t <;> simp

namespace Pc

/-- The task's own file, while it is at the owner path. -/
def owned : Pc → Option Nat
  | .created .owner _ id | .statted .owner _ id | .written .owner _ id
  | .verified .owner _ id | .cleanup .owner id | .unlinking id
  | .renamed _ id | .rollback (.acquired _ id) | .acquired _ id | .running _ id
  | .releasing _ id | .releaseOpened _ id _ | .releaseRead _ id _ _
  | .releaseMatched _ id | .releaseUnlinking _ id => some id
  | _ => none

/-- The task's own file, while it is a candidate. -/
def candidate : Pc → Option Nat
  | .created (.candidate _) _ id | .statted (.candidate _) _ id
  | .written (.candidate _) _ id | .verified (.candidate _) _ id
  | .candidateReady _ _ id | .staleChecked _ _ id => some id
  | _ => none

/-- A file that was created and has not been written. -/
def unwritten : Pc → Option Nat
  | .created _ _ id | .statted _ _ id => some id
  | _ => none

/-- Whether the task is in the reclaim transaction. -/
def inTransaction : Pc → Bool
  | .inspecting inTx _ | .opened inTx _ _ | .identified inTx _ _ | .read inTx _ _ _
  | .undecoded inTx _ _ | .decoded inTx _ _ _ | .probed inTx _ _ _
  | .compared inTx _ _ _ | .vanished inTx _ _ _ | .reprobing inTx _ _ _ => inTx
  | .created (.candidate _) _ _ | .statted (.candidate _) _ _
  | .written (.candidate _) _ _ | .verified (.candidate _) _ _ | .cleanup (.candidate _) _
  | .replacing _ _ | .candidateReady _ _ _ | .staleChecked _ _ _ | .renamed _ _
  | .rollback _ => true
  | _ => false

/-- A file whose creator was found to be gone. -/
def stale : Pc → Option Nat
  | .compared _ _ id false => some id
  | .created (.candidate stale) _ _ | .statted (.candidate stale) _ _
  | .written (.candidate stale) _ _ | .verified (.candidate stale) _ _
  | .replacing _ stale | .candidateReady _ stale _ | .staleChecked _ stale _ => some stale
  | _ => none

/-- A stale file that was found at the owner path in the transaction. -/
def confirmed : Pc → Option Nat
  | .staleChecked _ stale _ => some stale
  | _ => none

/-- A record that was read, and the file it was read from. -/
def suspect : Pc → Option (Nat × Record)
  | .read _ _ id (some found) | .decoded _ _ id found | .probed _ _ id found
  | .vanished _ _ id found | .reprobing _ _ id found => some (id, found)
  | _ => none

/-- The record that the task writes, or may still write. -/
def draft : Pc → Option Record
  | .creating record | .created _ record _ | .statted _ record _
  | .inspecting _ record | .opened _ record _ | .identified _ record _ | .read _ record _ _
  | .undecoded _ record _ | .decoded _ record _ _ | .probed _ record _ _
  | .compared _ record _ _ | .vanished _ record _ _ | .reprobing _ record _ _
  | .preparing record | .beginning record | .replacing record _ => some record
  | _ => none

end Pc

/-- What a live task knows at a place of its program. -/
structure Fact (s : State) (t : String) (k : Nat) (pc : Pc) : Prop where
  owned : ∀ id ∈ pc.owned, s.owner = some id ∧ s.creator id = (t, k) ∧ id < s.nextId
  candidate : ∀ id ∈ pc.candidate, s.creator id = (t, k) ∧ id < s.nextId
  unwritten : ∀ id ∈ pc.unwritten, s.content id = none
  inTransaction : pc.inTransaction = true → s.reclaim = some (t, k)
  stale : ∀ id ∈ pc.stale, id < s.nextId ∧ Dead s (s.creator id).1
  confirmed : ∀ id ∈ pc.confirmed, s.owner = some id
  suspect : ∀ e ∈ pc.suspect, s.content e.1 = some e.2
  draft : ∀ record ∈ pc.draft, record.token = t ∧ s.started t = some record.pid

/-- A record that can be read names the life that created the file. -/
def Files (s : State) : Prop :=
  ∀ id record, s.content id = some record →
    id < s.nextId ∧ record.token = (s.creator id).1 ∧
      s.started (s.creator id).1 = some record.pid

/-- A life that has a process id was started with it. -/
def Lives (s : State) : Prop := ∀ pid t, s.runs pid = some t → s.started t = some pid

/-- What an effect of a task needs. -/
def Pre (s : State) (t : String) (k : Nat) : Effect → Prop
  | .create => s.owner = none
  | .write id record =>
    s.creator id = (t, k) ∧ id < s.nextId ∧ s.content id = none ∧
      record.token = t ∧ s.started t = some record.pid
  | .unlinkOwner => ∃ id, s.owner = some id ∧ s.creator id = (t, k)
  | .renameOver id =>
    s.creator id = (t, k) ∧ id < s.nextId ∧ s.reclaim = some (t, k) ∧
      ∃ stale, s.owner = some stale ∧ Dead s (s.creator stale).1
  | .beginTransaction => s.reclaim = none
  | .endTransaction => s.reclaim = some (t, k)
  | _ => True

variable {s : State}

theorem dead_of_no_process (hfiles : Files s) {id : Nat} {found : Record}
    (hread : s.content id = some found) (hruns : s.runs found.pid = none) :
    id < s.nextId ∧ Dead s (s.creator id).1 := by
  obtain ⟨hid, -, hstarted⟩ := hfiles id found hread
  exact ⟨hid, found.pid, hstarted, by simp [hruns]⟩

theorem dead_of_other_process (hfiles : Files s) {id : Nat} {found : Record}
    (hread : s.content id = some found) {current : String}
    (hruns : s.runs found.pid = some current) (hother : current ≠ found.token) :
    id < s.nextId ∧ Dead s (s.creator id).1 := by
  obtain ⟨hid, htoken, hstarted⟩ := hfiles id found hread
  refine ⟨hid, found.pid, hstarted, ?_⟩
  rw [hruns, ← htoken]
  simpa using hother

theorem fact_of_nothing {s : State} {t : String} {k : Nat} {pc : Pc}
    (h : pc.owned = none ∧ pc.candidate = none ∧ pc.unwritten = none ∧
      pc.inTransaction = false ∧ pc.stale = none ∧ pc.confirmed = none ∧
      pc.suspect = none ∧ pc.draft = none) : Fact s t k pc := by
  obtain ⟨h1, h2, h3, h4, h5, h6, h7, h8⟩ := h
  exact ⟨by simp [h1], by simp [h2], by simp [h3], by simp [h4], by simp [h5], by simp [h6],
    by simp [h7], by simp [h8]⟩

attribute [simp] Pc.owned Pc.candidate Pc.unwritten Pc.inTransaction Pc.stale Pc.confirmed
  Pc.suspect Pc.draft

/-- At `pc'` no more is known than at `pc`. -/
def Pc.Weaker (pc' pc : Pc) : Prop :=
  (∀ id ∈ pc'.owned, id ∈ pc.owned) ∧ (∀ id ∈ pc'.candidate, id ∈ pc.candidate) ∧
  (∀ id ∈ pc'.unwritten, id ∈ pc.unwritten) ∧
  (pc'.inTransaction = true → pc.inTransaction = true) ∧
  (∀ id ∈ pc'.stale, id ∈ pc.stale) ∧ (∀ id ∈ pc'.confirmed, id ∈ pc.confirmed) ∧
  (∀ e ∈ pc'.suspect, e ∈ pc.suspect) ∧ (∀ record ∈ pc'.draft, record ∈ pc.draft)

variable {k : Nat} {t : String}

theorem Fact.weaken {pc pc' : Pc} (h : Fact s t k pc) (hw : pc'.Weaker pc) :
    Fact s t k pc' := by
  obtain ⟨h1, h2, h3, h4, h5, h6, h7, h8⟩ := hw
  exact
    { owned := fun id hid => h.owned id (h1 id hid)
      candidate := fun id hid => h.candidate id (h2 id hid)
      unwritten := fun id hid => h.unwritten id (h3 id hid)
      inTransaction := fun hin => h.inTransaction (h4 hin)
      stale := fun id hid => h.stale id (h5 id hid)
      confirmed := fun id hid => h.confirmed id (h6 id hid)
      suspect := fun e he => h.suspect e (h7 e he)
      draft := fun record hrecord => h.draft record (h8 record hrecord) }

/-- An effect that leaves the directory and the database alone. -/
def Effect.Quiet : Effect → Prop
  | .none | .makeOwner | .passTurn | .poison | .releaseFailure => True
  | _ => False

@[simp] theorem quiet_thrown (r : Result) : (thrown r).Quiet := by
  cases r <;> trivial

theorem Fact.of_same {s' : State} {pc : Pc} (h : Fact s t k pc)
    (howner : s'.owner = s.owner) (hcontent : s'.content = s.content)
    (hcreator : s'.creator = s.creator) (hnext : s'.nextId = s.nextId)
    (hreclaim : s'.reclaim = s.reclaim) (hstarted : s'.started = s.started)
    (hruns : s'.runs = s.runs) :
    Fact s' t k pc := by
  refine ⟨?_, ?_, ?_, ?_, ?_, ?_, ?_, ?_⟩
  · rw [howner, hcreator, hnext]
    exact h.owned
  · rw [hcreator, hnext]
    exact h.candidate
  · rw [hcontent]
    exact h.unwritten
  · rw [hreclaim]
    exact h.inTransaction
  · unfold Dead
    rw [hcreator, hnext, hstarted, hruns]
    exact h.stale
  · rw [howner]
    exact h.confirmed
  · rw [hcontent]
    exact h.suspect
  · rw [hstarted]
    exact h.draft

theorem Fact.quiet {t' : String} {k' : Nat} {pc : Pc} (h : Fact s t k pc) {e : Effect}
    (he : e.Quiet) :
    Fact (s.apply t' k' e) t k pc := by
  cases e with
  | none => exact h
  | makeOwner | poison | releaseFailure =>
    exact h.of_same rfl rfl rfl rfl rfl rfl rfl
  | passTurn =>
    simp only [State.apply]
    split
    · exact h.of_same rfl rfl rfl rfl rfl rfl rfl
    · exact h
  | create | createCandidate | write _ _ | unlinkOwner | renameOver _ | beginTransaction
    | endTransaction => exact absurd he id

/-- What a step of a task has to show. -/
def Advances (s : State) (t : String) (k : Nat) (next : Pc × Effect) : Prop :=
  Pre s t k next.2 ∧ Fact (s.apply t k next.2) t k next.1

theorem advances_quiet {pc' : Pc} {e : Effect} (he : e.Quiet) (h : Fact s t k pc') :
    Advances s t k (pc', e) := by
  refine ⟨?_, h.quiet he⟩
  cases e <;> trivial

section Steps

variable {s : State} {t : String} {k : Nat} {pc : Pc} {inTx : Bool} {record found : Record}
  {place : Place} {id stale : Nat}

theorem advances_weaker (h : Fact s t k pc) {pc' : Pc} {e : Effect} (he : e.Quiet)
    (hw : pc'.Weaker pc) :
    Advances s t k (pc', e) := advances_quiet he (h.weaken hw)

attribute [local simp] Pc.Weaker

theorem weaker_throwAt (h : inTx = true → pc.inTransaction = true) :
    (throwAt inTx).Weaker pc := by
  cases inTx <;> simp [throwAt] at h ⊢
  exact h

theorem weaker_verdict {v : OwnerState}
    (hv : v ≠ .stale) (h : inTx = true → pc.inTransaction = true) :
    (verdict inTx record id v).Weaker pc := by
  cases v with
  | stale => exact absurd rfl hv
  | unknown => exact weaker_throwAt h
  | absent | live =>
    cases inTx with
    | false => simp [verdict]
    | true => simpa [verdict] using h rfl

theorem fact_verdict_stale (hin : inTx = true → s.reclaim = some (t, k))
    (hdraft : record.token = t ∧ s.started t = some record.pid)
    (hdead : id < s.nextId ∧ Dead s (s.creator id).1) :
    Fact s t k (verdict inTx record id .stale) := by
  cases inTx with
  | false =>
    refine ⟨?_, ?_, ?_, ?_, ?_, ?_, ?_, ?_⟩
    all_goals simp [verdict]
    exact hdraft
  | true =>
    refine ⟨?_, ?_, ?_, ?_, ?_, ?_, ?_, ?_⟩
    all_goals simp [verdict]
    · exact hin rfl
    · exact hdead
    · exact hdraft

/-- What a step from a place has to show. -/
def Steps (s : State) (t : String) (k : Nat) (pc : Pc) : Prop :=
  ∀ r, s.pc t k = pc → Fact s t k pc → Advances s t k (advance s t k r)

theorem advance_acquiring (halive : s.alive t = true) (r : Result)
    (hpc : s.pc t k = .acquiring) : Advances s t k (advance s t k r) := by
  obtain ⟨pid, hstarted, -⟩ := alive_iff.mp halive
  unfold advance
  rw [hpc]
  refine advances_quiet trivial ⟨?_, ?_, ?_, ?_, ?_, ?_, ?_, ?_⟩
  all_goals simp
  simp [hstarted]

theorem advance_creating : Steps s t k (.creating record) := by
  intro r hpc h
  have hdraft := h.draft record rfl
  unfold advance
  rw [hpc]
  dsimp only
  split
  · exact advances_weaker h (quiet_thrown r) (by simp)
  · cases howner : s.owner with
    | none =>
      refine ⟨howner, ⟨?_, ?_, ?_, ?_, ?_, ?_, ?_, ?_⟩⟩
      all_goals simp [State.apply]
      exact hdraft
    | some id => exact advances_weaker h trivial (by simp)

theorem advance_statted : Steps s t k (.statted place record id) := by
  intro r hpc h
  have hown : s.creator id = (t, k) ∧ id < s.nextId := by
    cases place with
    | owner => exact (h.owned id rfl).2
    | candidate stale => exact h.candidate id rfl
  have hdraft := h.draft record rfl
  have hwritten : Fact s t k (.written place record id) :=
    h.weaken (by cases place <;> simp)
  unfold advance
  rw [hpc]
  dsimp only
  split
  · refine ⟨⟨hown.1, hown.2, h.unwritten id rfl, hdraft⟩, ?_⟩
    exact ⟨hwritten.owned, hwritten.candidate, by cases place <;> simp,
      hwritten.inTransaction, hwritten.stale, by cases place <;> simp,
      by cases place <;> simp, by cases place <;> simp⟩
  · exact advances_weaker h (quiet_thrown r) (by cases place <;> simp)

theorem advance_unlinking : Steps s t k (.unlinking id) := by
  intro r hpc h
  obtain ⟨howner, hcreator, -⟩ := h.owned id rfl
  unfold advance
  rw [hpc]
  dsimp only
  split
  · exact ⟨⟨id, howner, hcreator⟩, fact_of_nothing (by simp)⟩
  · exact advances_weaker h (quiet_thrown r) (by simp)

theorem advance_identified : Steps s t k (.identified inTx record id) := by
  intro r hpc h
  have hdraft := h.draft record rfl
  unfold advance
  rw [hpc]
  dsimp only
  split
  · cases hcontent : s.content id with
    | none => exact advances_weaker h trivial (by simp)
    | some found =>
      refine advances_quiet trivial
        ⟨by simp, by simp, by simp, h.inTransaction, by simp, by simp, ?_, ?_⟩
      · simpa using hcontent
      · simpa using hdraft
  · exact advances_weaker h trivial (weaker_throwAt (by simp))

theorem advance_decoded (hfiles : Files s) :
    Steps s t k (.decoded inTx record id found) := by
  intro r hpc h
  have hread := h.suspect (id, found) rfl
  unfold advance
  rw [hpc]
  dsimp only
  split
  · exact advances_weaker h trivial (weaker_verdict (by simp) (by simp))
  split
  next hruns =>
      exact advances_quiet trivial (fact_verdict_stale h.inTransaction (h.draft record rfl)
        (dead_of_no_process hfiles hread hruns))
  next =>
      split
      · exact advances_weaker h trivial (by simp)
      · exact advances_weaker h trivial (weaker_verdict (by simp) (by simp))

theorem advance_probed (hfiles : Files s) : Steps s t k (.probed inTx record id found) := by
  intro r hpc h
  have hread := h.suspect (id, found) rfl
  have hdraft := h.draft record rfl
  unfold advance
  rw [hpc]
  dsimp only
  split
  · exact advances_weaker h trivial (by simp)
  split
  · exact advances_weaker h trivial (by simp)
  next current hruns =>
      by_cases hsame : current = found.token
      · rw [decide_eq_true hsame]
        exact advances_weaker h trivial (by simp)
      · rw [decide_eq_false hsame]
        refine advances_quiet trivial
          ⟨by simp, by simp, by simp, h.inTransaction, ?_, by simp, by simp, ?_⟩
        · simpa using dead_of_other_process hfiles hread hruns hsame
        · simpa using hdraft

theorem advance_compared {same : Bool} : Steps s t k (.compared inTx record id same) := by
  intro r hpc h
  have hin : inTx = true → s.reclaim = some (t, k) := by
    intro hin
    refine h.inTransaction ?_
    cases same <;> simpa using hin
  have hweak : inTx = true → (Pc.compared inTx record id same).inTransaction = true := by
    cases same <;> simp
  unfold advance
  rw [hpc]
  dsimp only
  split
  · exact advances_weaker h trivial (weaker_verdict (by simp) hweak)
  split
  · exact advances_weaker h trivial (weaker_throwAt hweak)
  cases same with
  | true => exact advances_weaker h trivial (weaker_verdict (by simp) hweak)
  | false =>
    exact advances_quiet trivial
      (fact_verdict_stale hin (h.draft record rfl) (h.stale id rfl))

theorem advance_reprobing (hfiles : Files s) :
    Steps s t k (.reprobing inTx record id found) := by
  intro r hpc h
  have hread := h.suspect (id, found) rfl
  unfold advance
  rw [hpc]
  dsimp only
  split
  next hruns =>
      exact advances_quiet trivial (fact_verdict_stale h.inTransaction (h.draft record rfl)
        (dead_of_no_process hfiles hread hruns))
  next => exact advances_weaker h trivial (weaker_verdict (by simp) (by simp))

theorem advance_beginning : Steps s t k (.beginning record) := by
  intro r hpc h
  have hdraft := h.draft record rfl
  unfold advance
  rw [hpc]
  dsimp only
  split
  · exact advances_weaker h (quiet_thrown r) (by simp)
  cases hreclaim : s.reclaim with
  | some _ => exact advances_weaker h trivial (by simp)
  | none =>
    refine ⟨hreclaim, ⟨?_, ?_, ?_, ?_, ?_, ?_, ?_, ?_⟩⟩
    all_goals simp [State.apply]
    exact hdraft

theorem advance_replacing : Steps s t k (.replacing record stale) := by
  intro r hpc h
  have hdraft := h.draft record rfl
  obtain ⟨hid, hdead⟩ := h.stale stale rfl
  have hne : stale ≠ s.nextId := Nat.ne_of_lt hid
  unfold advance
  rw [hpc]
  dsimp only
  split
  · refine ⟨trivial, ⟨?_, ?_, ?_, ?_, ?_, ?_, ?_, ?_⟩⟩
    all_goals simp [State.apply]
    · exact h.inTransaction rfl
    · refine ⟨by omega, ?_⟩
      rw [Function.update_of_ne hne]
      exact hdead
    · exact hdraft
  · exact advances_weaker h (quiet_thrown r) (by simp)

theorem advance_candidateReady : Steps s t k (.candidateReady record stale id) := by
  intro r hpc h
  unfold advance
  rw [hpc]
  dsimp only
  split
  · exact advances_weaker h trivial (by simp)
  next hcond =>
      have howner : s.owner = some stale := by
        by_contra hne
        exact hcond (Or.inl hne)
      exact advances_quiet trivial ⟨by simp, h.candidate, by simp, h.inTransaction, h.stale,
        by simpa using howner, by simp, by simp⟩

theorem advance_staleChecked : Steps s t k (.staleChecked record stale id) := by
  intro r hpc h
  obtain ⟨hcreator, hid⟩ := h.candidate id rfl
  have hreclaim := h.inTransaction rfl
  unfold advance
  rw [hpc]
  dsimp only
  split
  · refine ⟨⟨hcreator, hid, hreclaim, stale, h.confirmed stale rfl, (h.stale stale rfl).2⟩,
      ⟨?_, ?_, ?_, ?_, ?_, ?_, ?_, ?_⟩⟩
    all_goals simp [State.apply]
    · exact ⟨hcreator, hid⟩
    · exact hreclaim
  · exact advances_weaker h (quiet_thrown r) (by simp)

theorem advance_rollback {outcome : Reclaim} : Steps s t k (.rollback outcome) := by
  intro r hpc h
  have hreclaim : s.reclaim = some (t, k) := h.inTransaction (by simp)
  have hnothing : ∀ pc : Pc, (pc = .finishing ∨ pc = .acquiring) →
      Advances s t k (pc, .endTransaction) := by
    intro pc hpc
    refine ⟨hreclaim, fact_of_nothing ?_⟩
    rcases hpc with rfl | rfl <;> simp
  unfold advance
  rw [hpc]
  cases outcome with
  | acquired record id =>
    dsimp only
    split
    · refine ⟨hreclaim, ⟨?_, by simp, by simp, by simp, by simp, by simp, by simp, by simp⟩⟩
      exact h.owned
    · exact hnothing _ (Or.inl rfl)
  | retry =>
    dsimp only
    split
    · exact hnothing _ (Or.inr rfl)
    · exact hnothing _ (Or.inl rfl)
  | failed => exact hnothing _ (Or.inl rfl)

theorem advance_releaseUnlinking : Steps s t k (.releaseUnlinking record id) := by
  intro r hpc h
  obtain ⟨howner, hcreator, -⟩ := h.owned id rfl
  unfold advance
  rw [hpc]
  dsimp only
  split
  · exact ⟨⟨id, howner, hcreator⟩, fact_of_nothing (by simp)⟩
  · exact advances_weaker h trivial (by simp)

/-- **A step of a task does what it may, and knows what it has to know afterwards.** -/
theorem advance_spec (hfiles : Files s) (halive : s.alive t = true)
    (h : Fact s t k (s.pc t k)) (r : Result) :
    Advances s t k (advance s t k r) := by
  cases hpc : s.pc t k with
  | acquiring => exact advance_acquiring halive r hpc
  | creating => exact advance_creating r hpc (hpc ▸ h)
  | statted => exact advance_statted r hpc (hpc ▸ h)
  | unlinking => exact advance_unlinking r hpc (hpc ▸ h)
  | identified => exact advance_identified r hpc (hpc ▸ h)
  | decoded => exact advance_decoded hfiles r hpc (hpc ▸ h)
  | probed => exact advance_probed hfiles r hpc (hpc ▸ h)
  | compared => exact advance_compared r hpc (hpc ▸ h)
  | reprobing => exact advance_reprobing hfiles r hpc (hpc ▸ h)
  | beginning => exact advance_beginning r hpc (hpc ▸ h)
  | replacing => exact advance_replacing r hpc (hpc ▸ h)
  | candidateReady => exact advance_candidateReady r hpc (hpc ▸ h)
  | staleChecked => exact advance_staleChecked r hpc (hpc ▸ h)
  | rollback => exact advance_rollback r hpc (hpc ▸ h)
  | releaseUnlinking => exact advance_releaseUnlinking r hpc (hpc ▸ h)
  -- what is left are quiet steps to places where no more is known
  | created place _ _ | written place _ _ | verified place _ _ | cleanup place _ =>
    rw [hpc] at h
    unfold advance
    rw [hpc]
    cases place <;> dsimp only <;> repeat' split
    all_goals
      refine advances_weaker h ?_ (by simp [Place.throwAt])
      first | trivial | exact quiet_thrown r
  | read _ _ _ found =>
    rw [hpc] at h
    unfold advance
    rw [hpc]
    cases found <;> dsimp only <;> split
    all_goals
      refine advances_weaker h trivial ?_
      first | exact weaker_throwAt (by simp) | simp
  | idle | waiting _ | entered | preparing _ | acquired _ _ | running _ _ | releasing _ _
  | releaseOpened _ _ _ | releaseRead _ _ _ _ | releaseMatched _ _ | finishing | done
  | inspecting _ _ | opened _ _ _ | undecoded _ _ _ | vanished _ _ _ _ | renamed _ _ =>
    rw [hpc] at h
    unfold advance
    rw [hpc]
    dsimp only
    repeat' split
    all_goals
      refine advances_weaker h ?_ ?_
      · first | trivial | exact quiet_thrown r
      · first
        | exact weaker_verdict (by simp) (by simp)
        | exact weaker_throwAt (by simp)
        | simp

end Steps

end WorkspaceLock

import Crest.PendingBoundaryRecovery

/-!
# Crashes of the writers of pending boundaries

A process that dies between the exclusive creation of a temporary file and its rename leaves
the file in the pending directory.  Nothing takes it away again, and every later scan throws
at its name.  At any other point a process may die: then all that is found is at least what
completed.
-/

namespace PendingBoundaryStore

open Workspace

variable {store : Store}

section Temporaries

/-- The temporary name the operation of a boundary has in the directory. -/
def System.temporaryOf (s : System) (t : JsString) : Option JsString :=
  (s.running.get t).bind Stage.temporary

/-- Whether a temporary file is in the directory. -/
def System.hasTemporary (s : System) (hex : JsString) : Bool :=
  (s.disk.files.get (temporaryName hex)).isSome

theorem temporaryName_inj {hex hex' : JsString} :
    temporaryName hex = temporaryName hex' ↔ hex = hex' := by
  simp [temporaryName]

/-- What can happen to the temporary files when something happens to a boundary. -/
inductive TemporaryChange (s s' : System) (t : JsString) : Prop
  /-- Nothing, and the boundary has none. -/
  | untouched
      (hbefore : s.temporaryOf t = none)
      (hafter : s'.temporaryOf t = none)
      (hfiles : ∀ hex, s'.hasTemporary hex = s.hasTemporary hex) : TemporaryChange s s' t
  /-- The boundary gets one that was not there. -/
  | created {hex : JsString}
      (hbefore : s.temporaryOf t = none)
      (hafter : s'.temporaryOf t = some (temporaryName hex))
      (habsent : s.hasTemporary hex = false)
      (hpresent : s'.hasTemporary hex = true)
      (hfiles : ∀ other, other ≠ hex → s'.hasTemporary other = s.hasTemporary other) :
      TemporaryChange s s' t
  /-- The boundary keeps the one it has. -/
  | kept {hex : JsString}
      (hbefore : s.temporaryOf t = some (temporaryName hex))
      (hafter : s'.temporaryOf t = some (temporaryName hex))
      (hfiles : ∀ other, s'.hasTemporary other = s.hasTemporary other) : TemporaryChange s s' t
  /-- The file of the boundary goes. -/
  | released {hex : JsString}
      (hbefore : s.temporaryOf t = some (temporaryName hex))
      (hafter : s'.temporaryOf t = none)
      (habsent : s'.hasTemporary hex = false)
      (hfiles : ∀ other, other ≠ hex → s'.hasTemporary other = s.hasTemporary other) :
      TemporaryChange s s' t

/-- An operation that has a temporary name has its file, and is the only one to have it. -/
structure Held (s : System) : Prop where
  /-- The file is there. -/
  present : ∀ t temporary, s.temporaryOf t = some temporary →
    ∃ hex, temporary = temporaryName hex ∧ s.hasTemporary hex = true
  /-- No two operations have one name. -/
  exclusive : ∀ t t' temporary, s.temporaryOf t = some temporary →
    s.temporaryOf t' = some temporary → t = t'

/-- A temporary file that no operation has. -/
def Stray (s : System) (hex : JsString) : Prop :=
  s.hasTemporary hex = true ∧ ∀ t, s.temporaryOf t ≠ some (temporaryName hex)

/-- Every temporary file is that of an operation. -/
def NoStray (s : System) : Prop :=
  ∀ hex, s.hasTemporary hex = true → ∃ t, s.temporaryOf t = some (temporaryName hex)

namespace TemporaryChange

variable {s s' : System} {t : JsString}

variable (h : TemporaryChange s s' t)
  (hothers : ∀ t', t' ≠ t → s'.temporaryOf t' = s.temporaryOf t')
include h hothers

theorem held (hheld : Held s) :
    Held s' := by
  -- what another operation has, it had before
  have hpresent : ∀ t' temporary, t' ≠ t → s'.temporaryOf t' = some temporary →
      ∃ hex, temporary = temporaryName hex ∧ s.hasTemporary hex = true := by
    intro t' temporary hne htemporary
    exact hheld.present t' temporary (hothers t' hne ▸ htemporary)
  constructor
  · intro t' temporary htemporary
    by_cases hne : t' = t
    · subst hne
      cases h with
      | untouched _ hafter _ | released _ hafter _ _ => rw [hafter] at htemporary; cases htemporary
      | @created hex _ hafter _ hfile _ =>
        rw [hafter] at htemporary
        exact ⟨hex, (Option.some.inj htemporary).symm, hfile⟩
      | @kept hex hbefore hafter hfiles =>
        rw [hafter, ← hbefore] at htemporary
        obtain ⟨other, hother, hfile⟩ := hheld.present t' temporary htemporary
        exact ⟨other, hother, (hfiles other).trans hfile⟩
    · obtain ⟨hex, rfl, hfile⟩ := hpresent t' temporary hne htemporary
      refine ⟨hex, rfl, ?_⟩
      cases h with
      | untouched _ _ hfiles | kept _ _ hfiles => exact (hfiles hex).trans hfile
      | created _ _ habsent _ hfiles =>
        refine (hfiles hex ?_).trans hfile
        intro heq
        rw [heq, habsent] at hfile
        cases hfile
      | released hbefore _ _ hfiles =>
        refine (hfiles hex ?_).trans hfile
        intro heq
        subst heq
        exact hne (hheld.exclusive t' t _ (hothers t' hne ▸ htemporary) hbefore)
  · -- the name of the boundary of the change is another's only if it was before
    have hmine : ∀ t' temporary, t' ≠ t → s'.temporaryOf t = some temporary →
        s'.temporaryOf t' ≠ some temporary := by
      intro t' temporary hne hmine hother
      cases h with
      | untouched _ hafter _ | released _ hafter _ _ => rw [hafter] at hmine; cases hmine
      | created _ hafter habsent _ _ =>
        obtain rfl := Option.some.inj (hafter.symm.trans hmine)
        obtain ⟨other, hsame, hfile⟩ := hpresent t' _ hne hother
        rw [temporaryName_inj] at hsame
        rw [← hsame, habsent] at hfile
        cases hfile
      | kept hbefore hafter _ =>
        obtain rfl := Option.some.inj (hafter.symm.trans hmine)
        exact hne (hheld.exclusive t' t _ (hothers t' hne ▸ hother) hbefore)
    intro t₁ t₂ temporary h₁ h₂
    by_cases h₁t : t₁ = t
    · subst h₁t
      by_contra hne
      exact hmine t₂ temporary (Ne.symm hne) h₁ h₂
    · by_cases h₂t : t₂ = t
      · subst h₂t
        exact absurd h₁ (hmine t₁ temporary h₁t h₂)
      · exact hheld.exclusive t₁ t₂ temporary (hothers t₁ h₁t ▸ h₁) (hothers t₂ h₂t ▸ h₂)

theorem stray {hex : JsString} (hstray : Stray s hex) :
    Stray s' hex := by
  obtain ⟨hfile, hnone⟩ := hstray
  have hother : ∀ t', t' ≠ t → s'.temporaryOf t' ≠ some (temporaryName hex) :=
    fun t' hne => hothers t' hne ▸ hnone t'
  have hall : s'.temporaryOf t ≠ some (temporaryName hex) →
      ∀ t', s'.temporaryOf t' ≠ some (temporaryName hex) := by
    intro hmine t'
    by_cases hne : t' = t
    · exact hne ▸ hmine
    · exact hother t' hne
  cases h with
  | untouched _ hafter hfiles =>
    exact ⟨(hfiles hex).trans hfile, hall (by simp [hafter])⟩
  | @created new _ hafter habsent _ hfiles =>
    have hne : hex ≠ new := by
      intro heq
      rw [← heq, hfile] at habsent
      cases habsent
    refine ⟨(hfiles hex hne).trans hfile, hall ?_⟩
    rw [hafter]
    simpa [temporaryName_inj] using Ne.symm hne
  | kept hbefore hafter hfiles =>
    exact ⟨(hfiles hex).trans hfile, hall (by rw [hafter, ← hbefore]; exact hnone t)⟩
  | @released old hbefore hafter _ hfiles =>
    have hne : hex ≠ old := by
      intro heq
      subst heq
      exact hnone t hbefore
    exact ⟨(hfiles hex hne).trans hfile, hall (by simp [hafter])⟩

theorem noStray (hnone : NoStray s) :
    NoStray s' := by
  intro hex hfile
  -- an owner other than the boundary of the change keeps its name
  have hkeep : s.hasTemporary hex = true → s.temporaryOf t ≠ some (temporaryName hex) →
      ∃ t', s'.temporaryOf t' = some (temporaryName hex) := by
    intro hbefore hmine
    obtain ⟨t', ht'⟩ := hnone hex hbefore
    have hne : t' ≠ t := by
      intro heq
      subst heq
      exact hmine ht'
    exact ⟨t', (hothers t' hne).trans ht'⟩
  cases h with
  | untouched hbefore _ hfiles => exact hkeep ((hfiles hex).symm.trans hfile) (by simp [hbefore])
  | @created new hbefore hafter _ _ hfiles =>
    by_cases heq : hex = new
    · exact ⟨t, heq ▸ hafter⟩
    · exact hkeep ((hfiles hex heq).symm.trans hfile) (by simp [hbefore])
  | @kept own hbefore hafter hfiles =>
    by_cases heq : hex = own
    · exact ⟨t, heq ▸ hafter⟩
    · refine hkeep ((hfiles hex).symm.trans hfile) ?_
      rw [hbefore]
      simpa [temporaryName_inj] using Ne.symm heq
  | @released old hbefore _ habsent hfiles =>
    have hne : hex ≠ old := by
      intro heq
      rw [← heq, hfile] at habsent
      cases habsent
    refine hkeep ((hfiles hex hne).symm.trans hfile) ?_
    rw [hbefore]
    simpa [temporaryName_inj] using Ne.symm hne

end TemporaryChange

variable {s : System} {t : JsString}

@[simp] theorem temporaryOf_goOn (stage : Stage) (t' : JsString) :
    (s.goOn t stage).temporaryOf t' = if t' = t then stage.temporary else s.temporaryOf t' := by
  simp only [System.temporaryOf, System.goOn, JsMap.get_set]
  split <;> rfl

@[simp] theorem temporaryOf_finish (t' : JsString) :
    (s.finish t).temporaryOf t' = if t' = t then none else s.temporaryOf t' := by
  simp only [System.temporaryOf, System.finish, JsMap.get_delete]
  split <;> rfl

theorem temporaryOf_of_untouched {s' : System} (h : @Untouched store s s' t) :
    s'.temporaryOf t = s.temporaryOf t := by
  rw [System.temporaryOf, System.temporaryOf, h.running]

theorem hasTemporary_putTemporary (hex other : JsString) (file : PendingFile) :
    (s.putFile (temporaryName hex) file).hasTemporary other =
      (decide (other = hex) || s.hasTemporary other) := by
  simp only [System.hasTemporary, System.putFile, JsMap.get_set, temporaryName_inj]
  by_cases h : other = hex <;> simp [h]

theorem hasTemporary_putFile (t hex : JsString) (file : PendingFile) :
    (s.putFile (fileName t) file).hasTemporary hex = s.hasTemporary hex := by
  simp only [System.hasTemporary, System.putFile, JsMap.get_set, temporaryName_ne_fileName,
    if_false]

theorem hasTemporary_removeFile (t hex : JsString) :
    (s.removeFile (fileName t)).hasTemporary hex = s.hasTemporary hex := by
  simp only [System.hasTemporary, System.removeFile, JsMap.get_delete,
    temporaryName_ne_fileName, if_false]

theorem hasTemporary_removeTemporary (hex other : JsString) :
    (s.removeFile (temporaryName hex)).hasTemporary other =
      (!decide (other = hex) && s.hasTemporary other) := by
  simp only [System.hasTemporary, System.removeFile, JsMap.get_delete, temporaryName_inj]
  by_cases h : other = hex <;> simp [h]

theorem hasTemporary_deleteRef (record : PendingWorkspaceBoundaryV1) (hex : JsString) :
    (s.deleteRef store record).hasTemporary hex = s.hasTemporary hex := by
  rw [System.hasTemporary, deleteRef_files, System.hasTemporary]

attribute [local simp] System.advance

theorem temporaryChange_advance {stage : Stage} (hrunning : s.running.get t = some stage)
    (hstage : StageOk store s t stage) (hheld : Held s) (random : JsString) :
    TemporaryChange s (s.advance store t random stage) t := by
  have hbefore : s.temporaryOf t = stage.temporary := by
    rw [System.temporaryOf, hrunning, Option.bind_some]
  cases stage with
  | starting operation =>
    obtain rfl : operation.boundaryToken = t := hstage
    simp only [System.advance]
    rcases continues_start operation with h | ⟨stage, hstage, h⟩
    · rw [h]
      exact .untouched hbefore (by simp) fun _ => rfl
    · rw [h]
      exact .untouched hbefore (by simp [hstage]) fun _ => rfl
  | anchoring opening record =>
    simp only [System.advance]
    split
    case h_1 _ => exact .untouched hbefore (by simp) fun _ => rfl
    case h_2 _ _ => exact .untouched hbefore (by simp [Stage.temporary]) fun _ => rfl
  | creating opening record =>
    simp only [System.advance]
    split
    case isTrue _ =>
      cases opening with
      | true => exact .untouched hbefore (by simp [Stage.temporary]) fun _ => rfl
      | false => exact .untouched hbefore (by simp) fun _ => rfl
    case isFalse habsent =>
      rw [Bool.not_eq_true] at habsent
      refine .created hbefore (by simp [Stage.temporary]) habsent ?_ ?_
      · exact (hasTemporary_putTemporary random random _).trans (by simp)
      · intro other hne
        exact (hasTemporary_putTemporary random other _).trans (by simp [hne])
  | writing record temporary =>
    obtain ⟨-, hex, rfl⟩ := hstage
    obtain ⟨own, hown, hpresent⟩ := hheld.present t _ hbefore
    rw [temporaryName_inj] at hown
    subst hown
    refine .kept hbefore (by simp [Stage.temporary]) fun other => ?_
    refine (hasTemporary_putTemporary hex other _).trans ?_
    by_cases heq : other = hex <;> simp [heq, hpresent]
  | syncing record temporary =>
    obtain ⟨-, hex, rfl⟩ := hstage
    exact .kept hbefore (by simp [Stage.temporary]) fun _ => rfl
  | moving record temporary =>
    obtain ⟨-, hex, rfl⟩ := hstage
    have hfiles : ∀ other, (s.advance store t random
        (.moving record (temporaryName hex))).hasTemporary other =
          (!decide (other = hex) && s.hasTemporary other) := fun other =>
      (hasTemporary_putFile _ other _).trans (hasTemporary_removeTemporary hex other)
    refine .released hbefore (by simp [Stage.temporary]) ?_ fun other hne => ?_
    · rw [hfiles]
      simp
    · rw [hfiles]
      simp [hne]
  | syncingDirectory _ | syncingRemoval _ =>
    exact .untouched hbefore (by simp) fun _ => rfl
  | undoing record =>
    exact .untouched hbefore (by simp) fun hex => hasTemporary_deleteRef _ hex
  | removingRef record =>
    exact .untouched hbefore (by simp [Stage.temporary])
      fun hex => hasTemporary_deleteRef _ hex
  | removingFile record =>
    exact .untouched hbefore (by simp [Stage.temporary])
      fun hex => hasTemporary_removeFile _ hex

end Temporaries

section Runs

/-- A crash does not hit an operation that has a temporary file in the directory. -/
def CrashesClean (s : System) : Event → Prop
  | .crash boundaryToken => s.temporaryOf boundaryToken = none
  | .call _ | .advance _ _ => True

instance (s : System) : (event : Event) → Decidable (CrashesClean s event)
  | .crash boundaryToken => inferInstanceAs (Decidable (s.temporaryOf boundaryToken = none))
  | .call _ => inferInstanceAs (Decidable True)
  | .advance _ _ => inferInstanceAs (Decidable True)

variable {s : System}

theorem held_initial : Held {} :=
  ⟨(fun _ _ h => nomatch h), (fun _ _ _ h => nomatch h)⟩

theorem temporaryChange_step (h : Invariant store s) (hheld : Held s) {event : Event}
    (hclean : CrashesClean s event) :
    ∃ t, TemporaryChange s (s.step store event) t ∧
      ∀ t', t' ≠ t → (s.step store event).temporaryOf t' = s.temporaryOf t' := by
  cases event with
  | call operation =>
    refine ⟨operation.boundaryToken, ?_⟩
    simp only [System.step]
    split
    case h_1 stage hrunning =>
      refine ⟨?_, fun _ _ => rfl⟩
      cases hbefore : s.temporaryOf operation.boundaryToken with
      | none => exact .untouched hbefore hbefore fun _ => rfl
      | some temporary =>
        obtain ⟨hex, rfl, -⟩ := hheld.present _ _ hbefore
        exact .kept hbefore hbefore fun _ => rfl
    case h_2 hnone =>
      refine ⟨.untouched ?_ (by simp [Stage.temporary]) fun _ => rfl, ?_⟩
      · rw [System.temporaryOf, hnone, Option.bind_none]
      · intro t' hne
        simp [hne]
  | advance boundaryToken random =>
    refine ⟨boundaryToken, ?_⟩
    simp only [System.step]
    split
    case h_1 hnone =>
      refine ⟨.untouched ?_ ?_ fun _ => rfl, fun _ _ => rfl⟩ <;>
        rw [System.temporaryOf, hnone, Option.bind_none]
    case h_2 stage hrunning =>
      have hstage := (h.boundary boundaryToken).stage stage hrunning
      refine ⟨temporaryChange_advance hrunning hstage hheld random, fun t' hne => ?_⟩
      exact temporaryOf_of_untouched (untouched_advance hstage random hne)
  | crash boundaryToken =>
    refine ⟨boundaryToken, .untouched hclean (by simp [System.step]) fun _ => rfl, ?_⟩
    intro t' hne
    simp [System.step, hne]

theorem stray_of_crash (hheld : Held s) {event : Event} (h : ¬ CrashesClean s event) :
    ∃ hex, Stray (s.step store event) hex := by
  cases event with
  | call _ | advance _ _ => exact absurd trivial h
  | crash boundaryToken =>
    obtain ⟨temporary, htemporary⟩ := Option.ne_none_iff_exists'.mp h
    obtain ⟨hex, rfl, hpresent⟩ := hheld.present _ _ htemporary
    refine ⟨hex, hpresent, fun t => ?_⟩
    simp only [System.step, temporaryOf_finish]
    split
    case isTrue _ => simp
    case isFalse hne =>
      intro hother
      exact hne (hheld.exclusive t boundaryToken _ hother htemporary)

section

variable (h : Invariant store s) (hheld : Held s)
include h hheld

theorem Held.step (event : Event) :
    Held (s.step store event) := by
  by_cases hclean : CrashesClean s event
  · obtain ⟨t, hchange, hothers⟩ := temporaryChange_step h hheld hclean
    exact hchange.held hothers hheld
  · cases event with
    | call _ | advance _ _ => exact absurd trivial hclean
    | crash boundaryToken =>
      have hbefore : ∀ t temporary, (s.finish boundaryToken).temporaryOf t = some temporary →
          s.temporaryOf t = some temporary := by
        intro t temporary htemporary
        rw [temporaryOf_finish] at htemporary
        split at htemporary
        case isTrue _ => cases htemporary
        case isFalse _ => exact htemporary
      refine ⟨fun t temporary htemporary => hheld.present t temporary (hbefore t _ htemporary), ?_⟩
      intro t t' temporary ht ht'
      exact hheld.exclusive t t' temporary (hbefore t _ ht) (hbefore t' _ ht')

theorem Stray.step {hex : JsString} (hstray : Stray s hex) (event : Event) :
    Stray (s.step store event) hex := by
  by_cases hclean : CrashesClean s event
  · obtain ⟨t, hchange, hothers⟩ := temporaryChange_step h hheld hclean
    exact hchange.stray hothers hstray
  · cases event with
    | call _ | advance _ _ => exact absurd trivial hclean
    | crash boundaryToken =>
      refine ⟨hstray.1, fun t => ?_⟩
      simp only [System.step, temporaryOf_finish]
      split
      case isTrue _ => simp
      case isFalse _ => exact hstray.2 t

theorem stray_of_run {events : List Event}
    (hcrash : ¬ Runs.Guarded (System.step store) CrashesClean s events) :
    ∃ hex, Stray (Runs.run (System.step store) s events) hex := by
  induction events generalizing s with
  | nil => exact absurd trivial hcrash
  | cons event events ih =>
    by_cases hclean : CrashesClean s event
    · exact ih (h.step event) (hheld.step h event) fun hrest => hcrash ⟨hclean, hrest⟩
    · obtain ⟨hex, hstray⟩ : ∃ hex, Stray (s.step store event) hex := stray_of_crash hheld hclean
      refine ⟨hex, ?_⟩
      have hkept := Runs.run_invariant (System.step store)
        (fun s => Invariant store s ∧ Held s ∧ Stray s hex)
        (fun s event hs => ⟨hs.1.step event, hs.2.1.step hs.1 event,
          hs.2.2.step hs.1 hs.2.1 event⟩)
        ⟨h.step event, hheld.step h event, hstray⟩ events
      exact hkept.2.2

end

theorem noStray_of_run {events : List Event}
    (hclean : Runs.Guarded (System.step store) CrashesClean {} events) :
    NoStray (Runs.run (System.step store) {} events) := by
  have hkept := Runs.guarded_invariant (System.step store)
    (fun s => Invariant store s ∧ Held s ∧ NoStray s) CrashesClean
    (fun s event hs hevent => by
      obtain ⟨t, hchange, hothers⟩ := temporaryChange_step hs.1 hs.2.1 hevent
      exact ⟨hs.1.step event, hs.2.1.step hs.1 event, hchange.noStray hothers hs.2.2⟩)
    ⟨invariant_initial, held_initial, fun hex h => nomatch h⟩ events hclean
  exact hkept.2.2

end Runs

section Recovery

/-- A following scan and a following collection of owners do what is asked of them: the scan
returns exactly one record for every boundary that was begun and whose removal has not
started, at least as advanced as its last completed transition, and the owners are collected
if what else they come from can be read. -/
def Recovers (store : Store) (s : System) : Prop :=
  (∃ records, scanPendingBoundaryRecords store s.disk = some records ∧
    ∀ t record, s.completed.get t = some record →
      ∃ found, records.filter (fun other => other.boundaryToken = t) = [found] ∧
        CheckpointManager.isPendingSuccessor record found = true) ∧
  ∀ sources, OthersReadable store sources →
    (scanOwners store.digest store.identity
      { sources with pending := scanPendingBoundaryRecords store s.disk }).isSome

theorem recovers_of_noTemporary {s : System} (h : Invariant store s)
    (hclean : NoTemporary s.disk) :
    Recovers store s := by
  obtain ⟨records, hscan, hnodup, hfound, hall⟩ := scan_of_noTemporary h hclean
  refine ⟨⟨records, hscan, ?_⟩, ?_⟩
  · intro t record hrecord
    obtain ⟨filed, name, rfl, hfiled, hfile, hsuccessor⟩ := (h.boundary t).completed record hrecord
    obtain ⟨found, hmem, htoken⟩ := hall _ _ hfile
    refine ⟨found, htoken ▸ filter_token hnodup hmem, ?_⟩
    obtain ⟨other, otherName, hotherToken, hother, hotherFile, hfoundSuccessor⟩ :=
      (hfound found hmem).filed
    obtain rfl := filed_unique hfiled hother (htoken.symm.trans hotherToken.symm) hfile hotherFile
    exact CheckpointManager.isPendingSuccessor_trans hsuccessor hfoundSuccessor
  · intro sources hothers
    rw [hscan]
    exact scanOwners_of_anchored hothers fun record hmem => (hfound record hmem).anchored

/-- A store whose commits all stand for one snapshot. -/
def demoStore : Store where
  identity := ⟨List.replicate 64 0x61, List.replicate 64 0x62⟩
  digest := ⟨fun _ => List.replicate 64 0x63, fun _ => []⟩
  readSnapshot id := some ⟨id, List.replicate 64 0x61, List.replicate 64 0x62,
    List.replicate 40 0x64, List.replicate 40 0x65⟩

/-- The record with which the turn of a session is begun. -/
def demoRecord (boundaryToken sessionId : JsString) : PendingWorkspaceBoundaryV1 where
  boundaryToken := boundaryToken
  sessionId := sessionId
  workspaceIdentity := demoStore.identity.workspaceIdentity
  workspaceIncarnation := demoStore.identity.workspaceIncarnation
  processOwner := ⟨100, js "token", List.replicate 32 0x66⟩
  nonce := List.replicate 32 0x66
  before := ⟨List.replicate 40 0x61, demoStore.identity.workspaceIdentity,
    demoStore.identity.workspaceIncarnation, List.replicate 40 0x64, List.replicate 40 0x65⟩

/-- One session begins its turn; another one dies right after the creation of the temporary
file of its record. -/
def crashedBegin : List Event :=
  .call (.begin (demoRecord (js "t1") (js "s1"))) ::
    List.replicate 7 (.advance (js "t1") (js "r1")) ++
    [.call (.begin (demoRecord (js "t2") (js "s2"))), .advance (js "t2") (js "r2"),
      .advance (js "t2") (js "r2"), .advance (js "t2") (js "r2"), .crash (js "t2")]

end Recovery

end PendingBoundaryStore

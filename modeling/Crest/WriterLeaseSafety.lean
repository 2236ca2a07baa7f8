import Crest.WriterLeaseEvents

/-!
# Runs of the writer lease registry

`grantNext` restores the holder of the one state an operation opened, so every
event keeps `Inv`, and every run from the empty registry satisfies it.  The
properties the registry is for are read off the invariant:

* a workspace has one holder at a time, and leases are granted in the order of
  first acquire, skipping only aborted waiters;
* a waiter is in the queue of the mapped state of its workspace, behind a holder;
* the maps hold nothing else;
* a promise settles once, and repeated acquires share it;
* a release by anybody but the current holder throws and changes nothing.
-/

namespace WriterLease

open WorkspaceWriterLeaseRegistry

/-- What no operation takes back: acquisitions keep their identity, settled
promises keep their outcome and granted leases stay granted. -/
structure Extends (r r' : Registry) : Prop where
  acquisitionCount : r.acquisitionCount ≤ r'.acquisitionCount
  snapshot : ∀ p, p < r.acquisitionCount →
    (r'.acquisitions p).snapshot = (r.acquisitions p).snapshot
  settled : ∀ p, p < r.acquisitionCount → (r.acquisitions p).promise ≠ .pending →
    (r'.acquisitions p).promise = (r.acquisitions p).promise
  grants : ∀ p, p ∈ r.grants → p ∈ r'.grants

theorem Extends.refl (r : Registry) : Extends r r :=
  ⟨le_refl _, fun _ _ => rfl, fun _ _ _ => rfl, fun _ h => h⟩

variable {r r' : Registry}

theorem Extends.trans {r'' : Registry} (h : Extends r r') (h' : Extends r' r'') :
    Extends r r'' := by
  refine ⟨h.acquisitionCount.trans h'.acquisitionCount, ?_, ?_, fun p hp => h'.grants p (h.grants p hp)⟩
  · intro p hp
    rw [h'.snapshot p (lt_of_lt_of_le hp h.acquisitionCount), h.snapshot p hp]
  · intro p hp hs
    have h1 := h.settled p hp hs
    rw [h'.settled p (lt_of_lt_of_le hp h.acquisitionCount) (by rwa [h1]), h1]

variable {p : AcquisitionId} {s : StateId}

theorem Rejected.extends (hpend : (r.acquisitions p).promise = .pending)
    (h : Rejected r r' s p) :
    Extends r r' := by
  refine ⟨le_of_eq h.acquisitionCount.symm, fun q _ => h.snapshot q, ?_, ?_⟩
  · intro q _ hq
    rw [h.other q]
    rintro rfl
    exact hq hpend
  · simp [h.grants]

theorem Granted.extends (hpend : (r.acquisitions p).promise = .pending)
    (h : Granted r r' s p) :
    Extends r r' := by
  refine ⟨le_of_eq h.acquisitionCount.symm, fun q _ => h.snapshot q, ?_, ?_⟩
  · intro q _ hq
    rw [h.other q]
    rintro rfl
    exact hq hpend
  · intro q hq
    rw [h.grants]
    exact List.mem_append_left _ hq

/-- What `grantNext` achieves on the one state that was left open. -/
structure Restored (r r' : Registry) : Prop where
  inv : Inv r'
  extends_ : Extends r r'
  signals : r'.signals = r.signals
  fresh : ∀ p, p ∈ r'.grants → p ∉ r.grants → r'.isAborted p = false

theorem delete_idle_restored (hc : Core r) (hact : (r.states s).active = none)
    (hqu : (r.states s).queue = []) (hheld : HeldExcept r s) :
    Restored r (r.deleteIdleState (r.states s).workspaceKey s) := by
  have hsize : (r.states s).acquisitions.size = 0 := by
    rw [JsMap.size_eq_zero_iff]
    intro k
    rw [Option.eq_none_iff_forall_not_mem]
    intro p hp
    have := ((hc.acquisitions_iff s k p).1 hp).2
    simp [hact, hqu] at this
  have hidle : r.deleteIdleState (r.states s).workspaceKey s =
      if r.workspaces.get (r.states s).workspaceKey ≠ some s then r
      else { r with workspaces := r.workspaces.delete (r.states s).workspaceKey } := by
    simp [deleteIdleState, hact, hqu, hsize]
  have hcore := hc.delete_idle_state (r.states s).workspaceKey s
  rw [hidle] at hcore ⊢
  split_ifs at hcore ⊢ with hmap
  · refine ⟨⟨hcore, ?_⟩, .refl r, rfl, fun p hp hn => absurd hp hn⟩
    intro w s' hw
    by_cases hs : s' = s
    · subst hs
      rw [← (hc.mapped w s' hw).2] at hw
      exact absurd hw hmap
    · exact hheld w s' hw hs
  · refine ⟨⟨hcore, ?_⟩, ⟨le_refl _, fun _ _ => rfl, fun _ _ _ => rfl, fun _ h => h⟩, rfl,
      fun p hp hn => absurd hp hn⟩
    intro w s' hw
    simp only [JsMap.get_delete] at hw
    split_ifs at hw with hww
    by_cases hs : s' = s
    · subst hs
      exact absurd (hc.mapped w s' hw).2.symm hww
    · exact hheld w s' hw hs

theorem grantLoop_restored (s : StateId) (queue : List AcquisitionId) (hc : Core r)
    (hact : (r.states s).active = none) (hqu : (r.states s).queue = queue)
    (hheld : HeldExcept r s) :
    Restored r (grantLoop s r queue) := by
  induction queue generalizing r with
  | nil => exact delete_idle_restored hc hact hqu hheld
  | cons p rest ih =>
    have hmem : p ∈ (r.states s).queue := by simp [hqu]
    obtain ⟨hlt, hst, hpend⟩ := hc.queued s p hmem
    have hsame : (r.setQueue s rest).isAborted p = r.isAborted p := rfl
    by_cases ha : r.isAborted p = true
    · obtain ⟨signal, hsig, habort⟩ : ∃ signal, r.signalOf p = some signal ∧
          signal.aborted = true := by
        simpa [isAborted, Option.any_eq_true] using ha
      have hrej := rejectAborted_rejected hc hmem hsig habort
      have hrest : (r.states s).queue.erase p = rest := by simp [hqu]
      rw [hrest] at hrej
      have hcore := hc.rejected hmem hrej
      have hloop : grantLoop s r (p :: rest) =
          grantLoop s ((r.setQueue s rest).rejectAborted s p) rest := by
        simp [grantLoop, hsame, ha]
      have hout := ih hcore (by rw [hrej.active, hact]) (by rw [hrej.queue, hrest]) (by
        intro w s' hw hs
        rw [hrej.workspaces] at hw
        rw [hrej.active]
        exact hheld w s' hw hs)
      have hsigs : ((r.setQueue s rest).rejectAborted s p).signals = r.signals := by
        have heq := rejectAborted_eq r hc hmem hsig
        rw [hrest] at heq
        rw [heq]
      rw [hloop]
      refine ⟨hout.inv, (hrej.extends hpend).trans hout.extends_, by rw [hout.signals, hsigs], ?_⟩
      intro q hq hn
      exact hout.fresh q hq (by rwa [hrej.grants])
    · have ha' : r.isAborted p = false := by simpa using ha
      have hgr := grant_granted hc hqu
      have hcore := hc.granted_head hact hgr
      have hloop : grantLoop s r (p :: rest) = (r.setQueue s rest).grant s p := by
        simp [grantLoop, hsame, ha']
      rw [hloop]
      refine ⟨⟨hcore, ?_⟩, hgr.extends hpend, ?_, ?_⟩
      · intro w s' hw
        rw [hgr.workspaces] at hw
        by_cases hs : s' = s
        · rw [hs, hgr.active]
          simp
        · rw [hgr.active_ne s' hs]
          exact hheld w s' hw hs
      · rw [grant_eq r hc hqu]
      · intro q hq hn
        rw [hgr.grants, List.mem_append, List.mem_singleton] at hq
        obtain rfl := hq.resolve_left hn
        rw [isAborted, hgr.signalOf]
        exact ha'

theorem grantNext_restored (hc : Core r) (s : StateId) (hheld : HeldExcept r s) :
    Restored r (r.grantNext s) := by
  unfold grantNext
  split_ifs with ha
  · refine ⟨⟨hc, ?_⟩, .refl r, rfl, fun p hp hn => absurd hp hn⟩
    intro w s' hw
    by_cases hs : s' = s
    · rw [hs]
      simpa [Option.isSome_iff_ne_none] using ha
    · exact hheld w s' hw hs
  · exact grantLoop_restored s _ hc (by simpa using ha) rfl hheld

/-- What one operation of the registry does, seen from outside. -/
structure Stepped (r r' : Registry) : Prop where
  inv : Inv r'
  extends_ : Extends r r'
  fresh : ∀ p, p ∈ r'.grants → p ∉ r.grants → r'.isAborted p = false

theorem Stepped.refl (hr : Inv r) :
    Stepped r r :=
  ⟨hr, .refl r, fun _ hp hn => absurd hp hn⟩

theorem Stepped.of_restored {r₁ : Registry} (hext : Extends r r₁)
    (hgrants : r₁.grants = r.grants) (h : Restored r₁ r') :
    Stepped r r' :=
  ⟨h.inv, hext.trans h.extends_, fun p hp hn => h.fresh p hp (by rwa [hgrants])⟩

theorem ensureState_spec (hr : Inv r) (w : JsString) :
    Core (r.ensureState w).1 ∧
      (r.ensureState w).1.workspaces.get w = some (r.ensureState w).2 ∧
      HeldExcept (r.ensureState w).1 (r.ensureState w).2 ∧
      Extends r (r.ensureState w).1 ∧
      (r.ensureState w).1.grants = r.grants ∧
      (r.ensureState w).1.acquisitionCount = r.acquisitionCount ∧
      ∀ k, ((r.ensureState w).1.states (r.ensureState w).2).acquisitions.get k =
        (r.workspaces.get w).bind fun s => (r.states s).acquisitions.get k := by
  rcases hw : r.workspaces.get w with _ | s
  · have heq : r.ensureState w =
        ({ r with
            workspaces := r.workspaces.set w r.stateCount
            states := Function.update r.states r.stateCount ⟨w, none, [], JsMap.empty⟩
            stateCount := r.stateCount + 1 }, r.stateCount) := by
      simp [ensureState, hw]
    rw [heq]
    refine ⟨hr.core.new_state hw, by simp, ?_, ⟨le_refl _, fun _ _ => rfl, fun _ _ _ => rfl,
      fun _ h => h⟩, rfl, rfl, by simp⟩
    intro w' s' hs' hne
    have hold : r.workspaces.get w' = some s' := by
      simp only [JsMap.get_set] at hs'
      split_ifs at hs' with hww
      · exact absurd (Option.some.inj hs').symm hne
      · exact hs'
    simpa [Function.update_of_ne hne] using hr.held w' s' hold
  · have heq : r.ensureState w = (r, s) := by simp [ensureState, hw]
    rw [heq]
    exact ⟨hr.core, hw, fun w' s' hs' _ => hr.held w' s' hs', .refl r, rfl, rfl, fun k => rfl⟩

variable {input : WorkspaceWriterLeaseInput}

theorem acquire_fresh (hr : Inv r) (hvalid : assertValidInput input = none)
    (hnew : r.existing input = none)
    (hsignal : ∀ reason, input.signal.map r.signals ≠ some ⟨true, reason⟩) :
    (r.acquire input).2 = .promise r.acquisitionCount ∧
      Stepped r (r.acquire input).1 ∧
      r.acquisitionCount < (r.acquire input).1.acquisitionCount ∧
      ((r.acquire input).1.acquisitions r.acquisitionCount).snapshot = input := by
  obtain ⟨hcore, hmap, hheld, hext, hgrants, hcount, hkeys⟩ := ensureState_spec hr input.workspaceKey
  have heq : r.acquire input =
      ((((r.ensureState input.workspaceKey).1.enqueue
        (r.ensureState input.workspaceKey).2 input).1.grantNext
          (r.ensureState input.workspaceKey).2),
        .promise (r.ensureState input.workspaceKey).1.acquisitionCount) := by
    unfold acquire
    rw [hvalid, hnew]
    dsimp only
    split
    · rename_i reason h
      exact absurd h (hsignal reason)
    · rfl
  rw [heq]
  generalize r.ensureState input.workspaceKey = r₁ at *
  obtain ⟨r₁, s⟩ := r₁
  dsimp only at *
  have henq := enqueue_enqueued r₁ s input
  have hcore₂ := hcore.enqueued hmap (by rw [hkeys]; exact hnew) henq
  have hheld₂ : HeldExcept (r₁.enqueue s input).1 s := by
    intro w s' hw hs
    rw [henq.workspaces] at hw
    rw [henq.active]
    exact hheld w s' hw hs
  have hrest := grantNext_restored hcore₂ s hheld₂
  have hext₂ : Extends r₁ (r₁.enqueue s input).1 := by
    refine ⟨by rw [henq.acquisitionCount]; exact Nat.le_succ _, ?_, ?_, by simp [henq.grants]⟩
    · intro p hp
      rw [henq.other p (ne_of_lt hp)]
    · intro p hp _
      rw [henq.other p (ne_of_lt hp)]
  have hlt : r₁.acquisitionCount < (r₁.enqueue s input).1.acquisitionCount := by
    rw [henq.acquisitionCount]
    exact Nat.lt_succ_self _
  refine ⟨by rw [hcount], .of_restored (hext.trans hext₂) (by rw [henq.grants, hgrants]) hrest, ?_, ?_⟩
  · rw [← hcount]
    exact lt_of_lt_of_le hlt hrest.extends_.acquisitionCount
  · rw [← hcount, hrest.extends_.snapshot _ hlt, henq.fresh]

theorem acquire_cases (r : Registry) (input : WorkspaceWriterLeaseInput) :
    (∃ field, assertValidInput input = some field ∧ r.acquire input = (r, .threw field)) ∨
    (assertValidInput input = none ∧
      ((∃ p, r.existing input = some p ∧ r.acquire input = (r, .promise p)) ∨
       (∃ reason, r.existing input = none ∧
          r.acquire input = (r, .rejected (abortReason ⟨true, reason⟩))) ∨
       (r.existing input = none ∧
          ∀ reason, input.signal.map r.signals ≠ some ⟨true, reason⟩))) := by
  unfold acquire
  rcases hv : assertValidInput input with _ | field
  · refine Or.inr ⟨rfl, ?_⟩
    rcases he : r.existing input with _ | p
    · refine Or.inr ?_
      dsimp only
      split
      · rename_i reason h
        exact Or.inl ⟨reason, rfl, rfl⟩
      · rename_i h
        exact Or.inr ⟨rfl, h⟩
    · exact Or.inl ⟨p, rfl, rfl⟩
  · exact Or.inl ⟨field, rfl, rfl⟩

theorem acquire_stepped (hr : Inv r) (input : WorkspaceWriterLeaseInput) :
    Stepped r (r.acquire input).1 := by
  rcases acquire_cases r input with ⟨field, -, heq⟩ | ⟨hv, ⟨p, -, heq⟩ | ⟨reason, -, heq⟩ | ⟨hn, hs⟩⟩
  · rw [heq]
    exact .refl hr
  · rw [heq]
    exact .refl hr
  · rw [heq]
    exact .refl hr
  · exact (acquire_fresh hr hv hn hs).2.1

theorem release_stepped (hr : Inv r) (p : AcquisitionId) :
    Stepped r (r.release p).1 := by
  unfold release
  dsimp only [updateState]
  split_ifs with hact
  · exact .refl hr
  · rw [not_not] at hact
    set s := (r.acquisitions p).state
    have hrel : Released r
        { r with
          states := Function.update r.states s
            { r.states s with
              acquisitions := (r.states s).acquisitions.delete (r.acquisitions p).key
              active := none }
          releases := r.releases ++ [p] } s p := by
      constructor <;> grind [Function.update_apply, JsMap.get_delete]
    have hcore := hr.core.released hact hrel
    have hheld : HeldExcept _ s := fun w s' hw hs => by
      rw [hrel.workspaces] at hw
      rw [hrel.active_ne s' hs]
      exact hr.held w s' hw
    have hext : Extends r _ :=
      ⟨le_of_eq hrel.acquisitionCount.symm, fun q _ => by rw [hrel.heap],
        fun q _ _ => by rw [hrel.heap], fun _ h => h⟩
    exact .of_restored hext hrel.grants (grantNext_restored hcore s hheld)

theorem runListener_stepped (hr : Inv r) (p : AcquisitionId) :
    Stepped r (r.runListener p) := by
  unfold runListener abortQueued
  split_ifs with hrun hmem
  · obtain ⟨-, ha⟩ := Bool.and_eq_true_iff.1 hrun
    obtain ⟨signal, hsig, habort⟩ : ∃ signal, r.signalOf p = some signal ∧
        signal.aborted = true := by
      simpa [isAborted, Option.any_eq_true] using ha
    have hrej := rejectAborted_rejected hr.core hmem hsig habort
    have hcore := hr.core.rejected hmem hrej
    have hheld : HeldExcept _ (r.acquisitions p).state := fun w s' hw _ => by
      rw [hrej.workspaces] at hw
      rw [hrej.active]
      exact hr.held w s' hw
    exact .of_restored (hrej.extends (hr.core.queued _ p hmem).2.2) hrej.grants
      (grantNext_restored hcore _ hheld)
  · exact .refl hr
  · exact .refl hr

theorem abortSignal_stepped (hr : Inv r) (signal : SignalId) (reason : Option JsString) :
    Stepped r (r.abortSignal signal reason) := by
  have hcore := hr.core.abort_signal signal reason
  unfold abortSignal at hcore ⊢
  split_ifs at hcore ⊢ with ha
  · exact .refl hr
  · exact ⟨⟨hcore, hr.held⟩, ⟨le_refl _, fun _ _ => rfl, fun _ _ _ => rfl, fun _ h => h⟩,
      fun p hp hn => absurd hp hn⟩

theorem step_stepped (hr : Inv r) (e : Event) :
    Stepped r (step r e) := by
  cases e with
  | acquire input => exact acquire_stepped hr input
  | abort signal reason => exact abortSignal_stepped hr signal reason
  | listener p =>
    simp only [step]
    split_ifs
    · exact runListener_stepped hr p
    · exact .refl hr
  | release p =>
    simp only [step]
    split_ifs
    · exact release_stepped hr p
    · exact .refl hr

theorem inv_init : Inv {} := by
  constructor
  · constructor <;> simp [Holds]
  · simp

theorem runEvents_inv (es : List Event) : Inv (runEvents es) :=
  Runs.run_invariant step Inv (fun _ e hr => (step_stepped hr e).inv) inv_init es

theorem run_extends (hr : Inv r) (es : List Event) :
    Extends r (Runs.run step r es) := by
  induction es generalizing r with
  | nil => exact .refl r
  | cons e es ih =>
    have h := step_stepped hr e
    exact h.extends_.trans (ih h.inv)

/-- What holds of the registry between two events. -/
structure RegistrySafe (r : Registry) : Prop where
  /-- One granted and unreleased lease per workspace. -/
  single_holder : ∀ p q, r.Holds p → r.Holds q → r.workspaceOf p = r.workspaceOf q → p = q
  /-- Grants of one workspace follow the order of first acquire. -/
  granted_in_order : r.grants.Pairwise fun p q => r.workspaceOf p = r.workspaceOf q → p < q
  /-- Who acquired before a granted waiter was granted too, or was rejected. -/
  not_overtaken : ∀ p q, p ∈ r.grants → q < p → r.workspaceOf q = r.workspaceOf p →
    q ∈ r.grants ∨ ∃ reason, (r.acquisitions q).promise = .rejected reason
  /-- Only aborted waiters are rejected. -/
  skipped_aborted : ∀ p reason, p < r.acquisitionCount →
    (r.acquisitions p).promise = .rejected reason → r.isAborted p = true
  /-- A state without a holder has no queue, and is gone if it has no
  acquisitions. -/
  no_holder_no_queue : ∀ s, (r.states s).active = none → (r.states s).queue = [] ∧
    ((r.states s).acquisitions.size = 0 →
      r.workspaces.get (r.states s).workspaceKey ≠ some s)
  /-- A waiter is queued behind the holder of its workspace's mapped state. -/
  waiter_queued : ∀ p, p < r.acquisitionCount → (r.acquisitions p).promise = .pending →
    ∃ s holder, r.workspaces.get (r.workspaceOf p) = some s ∧
      (r.states s).active = some holder ∧ p ∈ (r.states s).queue
  /-- The maps hold active and queued acquisitions only. -/
  no_orphans : ∀ s k p, (r.states s).acquisitions.get k = some p →
    (r.states s).active = some p ∨ p ∈ (r.states s).queue

/-- What one event may do to the registry. -/
structure StepSafe (r : Registry) (e : Event) : Prop where
  /-- The waiter granted by the event is not an aborted one. -/
  fresh_not_aborted : ∀ p, p ∈ (step r e).grants → p ∉ r.grants →
    (step r e).isAborted p = false
  /-- A settled promise keeps its outcome. -/
  settled_once : ∀ p, p < r.acquisitionCount → (r.acquisitions p).promise ≠ .pending →
    ((step r e).acquisitions p).promise = (r.acquisitions p).promise
  /-- Unless the acquisition is the active one of its workspace, its release
  throws and changes nothing. -/
  stale_release : ∀ p, p ∈ r.grants →
    (∀ s, r.workspaces.get (r.workspaceOf p) = some s → (r.states s).active ≠ some p) →
      r.release p = (r, .threw) ∧ step r (.release p) = r

theorem Core.mapped_of_used (hc : Core r)
    (hp : (r.states s).active = some p ∨ p ∈ (r.states s).queue) :
    r.workspaces.get (r.states s).workspaceKey = some s := by
  by_contra h
  obtain ⟨ha, hq, -⟩ := hc.unmapped_idle s h
  simp [ha, hq] at hp

theorem Inv.registrySafe (hr : Inv r) :
    RegistrySafe r := by
  have hc := hr.core
  have hkey : ∀ p, p < r.acquisitionCount →
      (r.states (r.acquisitions p).state).workspaceKey = r.workspaceOf p :=
    fun p hp => (hc.owner p hp).2
  have hlt : ∀ p, p ∈ r.grants → p < r.acquisitionCount :=
    fun p hp => ((hc.granted p).1 hp).1
  constructor
  case single_holder =>
    intro p q hp hq hw
    have hap := hc.held_active p hp
    have haq := hc.held_active q hq
    have hs : (r.acquisitions p).state = (r.acquisitions q).state :=
      hc.state_unique (Or.inl hap) (Or.inl haq)
        (by rw [hkey p (hlt p hp.1), hkey q (hlt q hq.1), hw])
    rw [hs, haq] at hap
    exact (Option.some.inj hap).symm
  case granted_in_order => exact hc.grant_order
  case not_overtaken =>
    intro p q hp hqp hw
    have hq : q < r.acquisitionCount := hqp.trans (hlt p hp)
    rcases hprom : (r.acquisitions q).promise with _ | lease | reason
    · -- a waiter would come after every grant of its workspace
      have hm := hc.pending_queued q hq hprom
      exact absurd (hc.grants_before p _ q hp hm hw.symm) (lt_asymm hqp)
    · have hl := hc.resolved q lease hq hprom
      exact Or.inl ((hc.granted q).2 ⟨hq, by rw [hprom, hl]⟩)
    · exact Or.inr ⟨reason, rfl⟩
  case skipped_aborted =>
    intro p reason hp hprom
    obtain ⟨signal, hsig, habort, -⟩ := hc.rejected_aborted p reason hp hprom
    simp [isAborted, hsig, habort]
  case no_holder_no_queue =>
    intro s hs
    have hmap : r.workspaces.get (r.states s).workspaceKey ≠ some s :=
      fun h => hr.held _ s h hs
    exact ⟨(hc.unmapped_idle s hmap).2.1, fun _ => hmap⟩
  case waiter_queued =>
    intro p hp hpend
    have hm := hc.pending_queued p hp hpend
    have hmap := hc.mapped_of_used (Or.inr hm)
    rw [hkey p hp] at hmap
    obtain ⟨holder, hh⟩ := Option.ne_none_iff_exists'.1 (hr.held _ _ hmap)
    exact ⟨_, holder, hmap, hh, hm⟩
  case no_orphans => exact fun s k p hp => ((hc.acquisitions_iff s k p).1 hp).2

theorem Inv.stepSafe (hr : Inv r) (e : Event) :
    StepSafe r e := by
  have hstep := step_stepped hr e
  refine ⟨hstep.fresh, hstep.extends_.settled, ?_⟩
  intro p hp hstale
  have hact : (r.states (r.acquisitions p).state).active ≠ some p := by
    intro ha
    have hmap := hr.core.mapped_of_used (Or.inl ha)
    rw [(hr.core.owner p ((hr.core.granted p).1 hp).1).2] at hmap
    exact hstale _ hmap ha
  have hrel : r.release p = (r, .threw) := by simp [release, hact]
  exact ⟨hrel, by simp [step, hp, hrel]⟩

theorem acquire_promise_spec (hr : Inv r) (h : (r.acquire input).2 = .promise p) :
    assertValidInput input = none ∧ p < (r.acquire input).1.acquisitionCount ∧
      ((r.acquire input).1.acquisitions p).snapshot.workspaceKey = input.workspaceKey ∧
      ((r.acquire input).1.acquisitions p).snapshot.sessionId = input.sessionId ∧
      ((r.acquire input).1.acquisitions p).snapshot.boundaryToken = input.boundaryToken := by
  rcases acquire_cases r input with ⟨field, -, heq⟩ | ⟨hv, ⟨q, hq, heq⟩ | ⟨reason, -, heq⟩ | ⟨hn, hs⟩⟩
  · simp [heq] at h
  · rw [heq] at h ⊢
    obtain rfl : q = p := by simpa using h
    obtain ⟨s, hs, hget⟩ := Option.bind_eq_some_iff.1 hq
    obtain ⟨hk, hused⟩ := (hr.core.acquisitions_iff s _ q).1 hget
    have hlt : q < r.acquisitionCount ∧ (r.acquisitions q).state = s := by
      rcases hused with ha | hm
      · exact ⟨(hr.core.active s q ha).1, (hr.core.active s q ha).2.1⟩
      · exact ⟨(hr.core.queued s q hm).1, (hr.core.queued s q hm).2.1⟩
    have hw := (hr.core.owner q hlt.1).2
    rw [hlt.2, (hr.core.mapped _ s hs).2] at hw
    have hk' := (hr.core.key q hlt.1).symm.trans hk
    simp only [Prod.mk.injEq] at hk'
    exact ⟨hv, hlt.1, hw.symm, hk'.1, hk'.2⟩
  · simp [heq] at h
  · obtain ⟨hres, -, hlt, hsnap⟩ := acquire_fresh hr hv hn hs
    rw [hres] at h
    obtain rfl : r.acquisitionCount = p := by simpa using h
    rw [hsnap]
    exact ⟨hv, hlt, rfl, rfl, rfl⟩

theorem acquire_shared (hr : Inv r) (hvalid : assertValidInput input = none)
    (hp : p < r.acquisitionCount) (hused : (r.acquisitions p).promise = .pending ∨ r.Holds p)
    (hw : (r.acquisitions p).snapshot.workspaceKey = input.workspaceKey)
    (hsession : (r.acquisitions p).snapshot.sessionId = input.sessionId)
    (htoken : (r.acquisitions p).snapshot.boundaryToken = input.boundaryToken) :
    r.acquire input = (r, .promise p) := by
  have hmem : (r.states (r.acquisitions p).state).active = some p ∨
      p ∈ (r.states (r.acquisitions p).state).queue :=
    hused.symm.imp (hr.core.held_active p) (hr.core.pending_queued p hp)
  have hmap := hr.core.mapped_of_used hmem
  rw [(hr.core.owner p hp).2, workspaceOf, hw] at hmap
  have hget : (r.states (r.acquisitions p).state).acquisitions.get
      (input.sessionId, input.boundaryToken) = some p := by
    rw [hr.core.acquisitions_iff, hr.core.key p hp, hsession, htoken]
    exact ⟨rfl, hmem⟩
  simp [acquire, hvalid, existing, hmap, hget]

end WriterLease

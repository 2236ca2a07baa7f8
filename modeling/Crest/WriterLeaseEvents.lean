import Crest.WriterLeaseInvariant

/-!
# What the registry's events change

The remaining elementary changes of the heap: a workspace gets a state, a new
acquisition is queued, the holder lets go, an idle state is dropped from the
map, a signal is aborted.  Each keeps `Core`.
-/

namespace WriterLease

open WorkspaceWriterLeaseRegistry

/-- What changes when the holder of a state lets go. -/
structure Released (r r' : Registry) (s : StateId) (p : AcquisitionId) : Prop where
  workspaces : r'.workspaces = r.workspaces
  stateCount : r'.stateCount = r.stateCount
  acquisitionCount : r'.acquisitionCount = r.acquisitionCount
  grants : r'.grants = r.grants
  releases : r'.releases = r.releases ++ [p]
  signals : r'.signals = r.signals
  workspaceKey : ∀ s', (r'.states s').workspaceKey = (r.states s').workspaceKey
  active : (r'.states s).active = none
  active_ne : ∀ s', s' ≠ s → (r'.states s').active = (r.states s').active
  queue : ∀ s', (r'.states s').queue = (r.states s').queue
  acquisitions : ∀ k, (r'.states s).acquisitions.get k =
    if k = (r.acquisitions p).key then none else (r.states s).acquisitions.get k
  acquisitions_ne : ∀ s', s' ≠ s → (r'.states s').acquisitions = (r.states s').acquisitions
  heap : r'.acquisitions = r.acquisitions

theorem Core.released {r r' : Registry} (hc : Core r) {s : StateId} {p : AcquisitionId}
    (hp : (r.states s).active = some p) (h : Released r r' s p) :
    Core r' := by
  obtain ⟨hlt, hst, hold⟩ := hc.active s p hp
  have hpq : ∀ s', p ∉ (r.states s').queue := by
    intro s' hq
    have hpend := (hc.queued s' p hq).2.2
    have hres := ((hc.granted p).1 hold.1).2
    simp [hpend] at hres
  have hsig : ∀ q, r'.signalOf q = r.signalOf q := by
    intro q
    rw [signalOf, h.heap, h.signals, signalOf]
  have hw : ∀ q, r'.workspaceOf q = r.workspaceOf q := by
    intro q
    rw [workspaceOf, h.heap, workspaceOf]
  have hlease : ∀ q, r'.leaseOf q = r.leaseOf q := by
    intro q
    simp only [leaseOf, h.heap]
  have hholds : ∀ q, r'.Holds q ↔ q ≠ p ∧ r.Holds q := by
    intro q
    simp only [Holds, h.grants, h.releases, List.mem_append, List.mem_singleton]
    tauto
  constructor
  case mapped =>
    intro w s' hw'
    rw [h.workspaces] at hw'
    rw [h.stateCount, h.workspaceKey]
    exact hc.mapped w s' hw'
  case unmapped_idle =>
    intro s' hw'
    rw [h.workspaces, h.workspaceKey] at hw'
    obtain ⟨ha, hq, hk⟩ := hc.unmapped_idle s' hw'
    have hs : s' ≠ s := by
      rintro rfl
      simp [ha] at hp
    rw [h.active_ne s' hs, h.queue, h.acquisitions_ne s' hs]
    exact ⟨ha, hq, hk⟩
  case queued =>
    intro s' q hq
    rw [h.queue] at hq
    rw [h.acquisitionCount, h.heap]
    exact hc.queued s' q hq
  case sorted =>
    intro s'
    rw [h.queue]
    exact hc.sorted s'
  case active =>
    intro s' q hq
    have hs : s' ≠ s := by
      rintro rfl
      simp [h.active] at hq
    rw [h.active_ne s' hs] at hq
    obtain ⟨h1, h2, h3⟩ := hc.active s' q hq
    rw [h.acquisitionCount, h.heap, hholds]
    refine ⟨h1, h2, ?_, h3⟩
    rintro rfl
    exact hs (h2.symm.trans hst)
  case acquisitions_iff =>
    intro s' k q
    rw [h.queue, h.heap]
    by_cases hs : s' = s
    · subst hs
      rw [h.acquisitions, h.active]
      by_cases hk : k = (r.acquisitions p).key
      · subst hk
        simp only [if_true, reduceCtorEq, false_iff, false_or]
        rintro ⟨hkey, hq⟩
        have h1 := (hc.acquisitions_iff s' (r.acquisitions p).key q).2 ⟨hkey, Or.inr hq⟩
        have h2 := (hc.acquisitions_iff s' (r.acquisitions p).key p).2 ⟨rfl, Or.inl hp⟩
        obtain rfl : q = p := by simpa [h1] using h2
        exact hpq s' hq
      · rw [if_neg hk, hc.acquisitions_iff, hp]
        have hqp : (r.acquisitions q).key = k → p ≠ q := by
          rintro hq rfl
          exact hk hq.symm
        simp only [Option.some.injEq, reduceCtorEq, false_or]
        tauto
    · rw [h.acquisitions_ne s' hs, h.active_ne s' hs]
      exact hc.acquisitions_iff s' k q
  case pending_queued =>
    intro q hq hqp
    rw [h.acquisitionCount] at hq
    rw [h.heap] at hqp ⊢
    rw [h.queue]
    exact hc.pending_queued q hq hqp
  case owner =>
    intro q hq
    rw [h.acquisitionCount] at hq
    rw [h.heap, h.stateCount, h.workspaceKey, hw]
    exact hc.owner q hq
  case granted =>
    intro q
    rw [h.grants, hc.granted, h.acquisitionCount, h.heap, hlease]
  case resolved =>
    intro q l hq hl
    rw [h.acquisitionCount] at hq
    rw [h.heap] at hl
    rw [hlease]
    exact hc.resolved q l hq hl
  case held_active =>
    intro q hq
    obtain ⟨hne, hq⟩ := (hholds q).1 hq
    have ha := hc.held_active q hq
    have hs : (r.acquisitions q).state ≠ s := by
      intro hs
      rw [hs, hp] at ha
      exact hne (Option.some.inj ha).symm
    rw [h.heap, h.active_ne _ hs, ha]
  case rejected_aborted =>
    intro q reason hq hreason
    rw [h.acquisitionCount] at hq
    rw [h.heap] at hreason
    rw [hsig]
    exact hc.rejected_aborted q reason hq hreason
  case grant_order => simpa only [h.grants, hw] using hc.grant_order
  case grants_before =>
    intro q s' q' hq hq'
    rw [h.grants] at hq
    rw [h.queue] at hq'
    rw [hw, hw]
    exact hc.grants_before q s' q' hq hq'
  case releases_sub =>
    intro q hq
    rw [h.releases, List.mem_append, List.mem_singleton] at hq
    rw [h.grants]
    rcases hq with hq | rfl
    · exact hc.releases_sub q hq
    · exact hold.1
  case listener =>
    intro q hq
    rw [h.acquisitionCount] at hq
    rw [h.heap]
    exact hc.listener q hq
  case key =>
    intro q hq
    rw [h.acquisitionCount] at hq
    rw [h.heap]
    exact hc.key q hq

/-- What changes when a new acquisition is queued. -/
structure Enqueued
    (r r' : Registry) (s : StateId)
    (input : WorkspaceWriterLeaseInput) : Prop where
  workspaces : r'.workspaces = r.workspaces
  stateCount : r'.stateCount = r.stateCount
  acquisitionCount : r'.acquisitionCount = r.acquisitionCount + 1
  grants : r'.grants = r.grants
  releases : r'.releases = r.releases
  signals : r'.signals = r.signals
  workspaceKey : ∀ s', (r'.states s').workspaceKey = (r.states s').workspaceKey
  active : ∀ s', (r'.states s').active = (r.states s').active
  queue : (r'.states s).queue = (r.states s).queue ++ [r.acquisitionCount]
  queue_ne : ∀ s', s' ≠ s → (r'.states s').queue = (r.states s').queue
  acquisitions : ∀ k, (r'.states s).acquisitions.get k =
    if k = (input.sessionId, input.boundaryToken) then some r.acquisitionCount
    else (r.states s).acquisitions.get k
  acquisitions_ne : ∀ s', s' ≠ s → (r'.states s').acquisitions = (r.states s').acquisitions
  fresh : r'.acquisitions r.acquisitionCount =
    { key := (input.sessionId, input.boundaryToken), snapshot := input, state := s,
      promise := .pending, abortListener := input.signal.isSome }
  other : ∀ q, q ≠ r.acquisitionCount → r'.acquisitions q = r.acquisitions q

theorem enqueue_enqueued (r : Registry) (s : StateId) (input : WorkspaceWriterLeaseInput) :
    Enqueued r (r.enqueue s input).1 s input := by
  simp only [enqueue, updateState]
  constructor <;> grind [Function.update_apply, JsMap.get_set]

theorem Core.enqueued {r r' : Registry} (hc : Core r) {s : StateId}
    {input : WorkspaceWriterLeaseInput} (hs : r.workspaces.get input.workspaceKey = some s)
    (hk : (r.states s).acquisitions.get (input.sessionId, input.boundaryToken) = none)
    (h : Enqueued r r' s input) :
    Core r' := by
  obtain ⟨hslt, hskey⟩ := hc.mapped _ _ hs
  have hnew : ∀ q, q < r.acquisitionCount → q ≠ r.acquisitionCount := fun q hq => ne_of_lt hq
  have hqlt : ∀ s' q, q ∈ (r.states s').queue → q < r.acquisitionCount :=
    fun s' q hq => (hc.queued s' q hq).1
  have hglt : ∀ q, q ∈ r.grants → q < r.acquisitionCount :=
    fun q hq => ((hc.granted q).1 hq).1
  have hsig : ∀ q, q < r.acquisitionCount → r'.signalOf q = r.signalOf q := by
    intro q hq
    rw [signalOf, h.other q (hnew q hq), h.signals, signalOf]
  have hw : ∀ q, q < r.acquisitionCount → r'.workspaceOf q = r.workspaceOf q := by
    intro q hq
    rw [workspaceOf, h.other q (hnew q hq), workspaceOf]
  have hlease : ∀ q, q < r.acquisitionCount → r'.leaseOf q = r.leaseOf q := by
    intro q hq
    simp only [leaseOf, h.other q (hnew q hq)]
  have hholds : ∀ q, r'.Holds q ↔ r.Holds q := by
    intro q
    rw [Holds, h.grants, h.releases, Holds]
  have hqueue : ∀ s' q, q ∈ (r'.states s').queue ↔
      q ∈ (r.states s').queue ∨ s' = s ∧ q = r.acquisitionCount := by
    intro s' q
    by_cases hss : s' = s
    · subst hss
      simp [h.queue]
    · simp [h.queue_ne s' hss, hss]
  have hcase : ∀ q, q < r'.acquisitionCount →
      q < r.acquisitionCount ∨ q = r.acquisitionCount := by
    intro q hq
    rw [h.acquisitionCount] at hq
    omega
  constructor
  case mapped =>
    intro w s' hw'
    rw [h.workspaces] at hw'
    rw [h.stateCount, h.workspaceKey]
    exact hc.mapped w s' hw'
  case unmapped_idle =>
    intro s' hw'
    rw [h.workspaces, h.workspaceKey] at hw'
    have hss : s' ≠ s := by
      rintro rfl
      exact hw' (hskey ▸ hs)
    rw [h.active, h.queue_ne s' hss, h.acquisitions_ne s' hss]
    exact hc.unmapped_idle s' hw'
  case queued =>
    intro s' q hq
    rw [h.acquisitionCount]
    rcases (hqueue s' q).1 hq with hq | ⟨rfl, rfl⟩
    · rw [h.other q (hnew q (hqlt s' q hq))]
      obtain ⟨h1, h2⟩ := hc.queued s' q hq
      exact ⟨Nat.lt_succ_of_lt h1, h2⟩
    · rw [h.fresh]
      exact ⟨Nat.lt_succ_self _, rfl, rfl⟩
  case sorted =>
    intro s'
    by_cases hss : s' = s
    · subst hss
      rw [h.queue, List.pairwise_append]
      refine ⟨hc.sorted s', by simp, ?_⟩
      intro q hq q' hq'
      rw [List.mem_singleton] at hq'
      exact hq' ▸ hqlt s' q hq
    · rw [h.queue_ne s' hss]
      exact hc.sorted s'
  case active =>
    intro s' q hq
    rw [h.active] at hq
    obtain ⟨h1, h2, h3⟩ := hc.active s' q hq
    rw [h.acquisitionCount, h.other q (hnew q h1), hholds]
    exact ⟨Nat.lt_succ_of_lt h1, h2, h3⟩
  case acquisitions_iff =>
    intro s' k q
    rw [h.active, hqueue]
    have hact : ∀ s', (r.states s').active ≠ some r.acquisitionCount := fun s' ha =>
      lt_irrefl _ (hc.active s' _ ha).1
    have hqn : ∀ s', r.acquisitionCount ∉ (r.states s').queue := fun s' hm =>
      lt_irrefl _ (hqlt s' _ hm)
    by_cases hq : q = r.acquisitionCount
    · subst hq
      rw [h.fresh]
      by_cases hss : s' = s
      · subst hss
        rw [h.acquisitions]
        by_cases hkk : k = (input.sessionId, input.boundaryToken)
        · simp [hkk]
        · rw [if_neg hkk, hc.acquisitions_iff]
          simp [hact, hqn, Ne.symm hkk]
      · rw [h.acquisitions_ne s' hss, hc.acquisitions_iff]
        simp [hact, hqn, hss]
    · rw [h.other q hq]
      simp only [hq, and_false, or_false]
      by_cases hss : s' = s
      · subst hss
        rw [h.acquisitions, ← hc.acquisitions_iff]
        by_cases hkk : k = (input.sessionId, input.boundaryToken)
        · simp [hkk, hk, Ne.symm hq]
        · rw [if_neg hkk]
      · rw [h.acquisitions_ne s' hss, hc.acquisitions_iff]
  case pending_queued =>
    intro q hq hqp
    rw [hqueue]
    rcases hcase q hq with hq | rfl
    · rw [h.other q (hnew q hq)] at hqp ⊢
      exact Or.inl (hc.pending_queued q hq hqp)
    · rw [h.fresh]
      exact Or.inr ⟨rfl, rfl⟩
  case owner =>
    intro q hq
    rw [h.stateCount, h.workspaceKey]
    rcases hcase q hq with hq | rfl
    · rw [h.other q (hnew q hq), hw q hq]
      exact hc.owner q hq
    · rw [workspaceOf, h.fresh]
      exact ⟨hslt, hskey⟩
  case granted =>
    intro q
    rw [h.grants, hc.granted, h.acquisitionCount]
    by_cases hq : q = r.acquisitionCount
    · subst hq
      simp [h.fresh]
    · have hiff : q < r.acquisitionCount + 1 ↔ q < r.acquisitionCount :=
        ⟨fun hlt => lt_of_le_of_ne (Nat.le_of_lt_succ hlt) hq, Nat.lt_succ_of_lt⟩
      rw [h.other q hq, hiff]
      constructor
      · rintro ⟨h1, h2⟩
        exact ⟨h1, by rw [hlease q h1, h2]⟩
      · rintro ⟨h1, h2⟩
        exact ⟨h1, by rw [← hlease q h1, h2]⟩
  case resolved =>
    intro q l hq hl
    rcases hcase q hq with hq | rfl
    · rw [h.other q (hnew q hq)] at hl
      rw [hlease q hq]
      exact hc.resolved q l hq hl
    · simp [h.fresh] at hl
  case held_active =>
    intro q hq
    rw [hholds] at hq
    rw [h.other q (hnew q (hglt q hq.1)), h.active]
    exact hc.held_active q hq
  case rejected_aborted =>
    intro q reason hq hreason
    rcases hcase q hq with hq | rfl
    · rw [h.other q (hnew q hq)] at hreason
      rw [hsig q hq]
      exact hc.rejected_aborted q reason hq hreason
    · simp [h.fresh] at hreason
  case grant_order =>
    rw [h.grants]
    refine hc.grant_order.imp_of_mem ?_
    intro q q' hq hq' hlt
    rwa [hw q (hglt q hq), hw q' (hglt q' hq')]
  case grants_before =>
    intro q s' q' hq hq' hww
    rw [h.grants] at hq
    rcases (hqueue s' q').1 hq' with hq' | ⟨-, rfl⟩
    · rw [hw q (hglt q hq), hw q' (hqlt s' q' hq')] at hww
      exact hc.grants_before q s' q' hq hq' hww
    · exact hglt q hq
  case releases_sub => simpa only [h.grants, h.releases] using hc.releases_sub
  case listener =>
    intro q hq
    rcases hcase q hq with hq | rfl
    · rw [h.other q (hnew q hq)]
      exact hc.listener q hq
    · rw [h.fresh]
      simp [Option.isSome_iff_ne_none]
  case key =>
    intro q hq
    rcases hcase q hq with hq | rfl
    · rw [h.other q (hnew q hq)]
      exact hc.key q hq
    · rw [h.fresh]

theorem Core.new_state {r : Registry} (hc : Core r) {w : JsString}
    (hw : r.workspaces.get w = none) :
    Core { r with
      workspaces := r.workspaces.set w r.stateCount
      states := Function.update r.states r.stateCount ⟨w, none, [], JsMap.empty⟩
      stateCount := r.stateCount + 1 } := by
  have hun : r.workspaces.get (r.states r.stateCount).workspaceKey ≠ some r.stateCount :=
    fun h => lt_irrefl _ (hc.mapped _ _ h).1
  obtain ⟨hact, hqu, hac⟩ := hc.unmapped_idle _ hun
  generalize hst : Function.update r.states r.stateCount ⟨w, none, [], JsMap.empty⟩ = states
  have hnew : states r.stateCount = ⟨w, none, [], JsMap.empty⟩ := by simp [← hst]
  have hold : ∀ s, s ≠ r.stateCount → states s = r.states s := by
    intro s hs
    simp [← hst, hs]
  -- the slot was idle before, so only the workspace key of the slot changes
  have hactive : ∀ s, (states s).active = (r.states s).active := by
    intro s
    by_cases hs : s = r.stateCount
    · rw [hs, hnew, hact]
    · rw [hold s hs]
  have hqueue : ∀ s, (states s).queue = (r.states s).queue := by
    intro s
    by_cases hs : s = r.stateCount
    · rw [hs, hnew, hqu]
    · rw [hold s hs]
  have hget : ∀ s k, (states s).acquisitions.get k = (r.states s).acquisitions.get k := by
    intro s k
    by_cases hs : s = r.stateCount
    · rw [hs, hnew, hac]
      rfl
    · rw [hold s hs]
  constructor
  case mapped =>
    intro w' s hs
    simp only [JsMap.get_set] at hs
    by_cases hww : w' = w
    · rw [if_pos hww] at hs
      obtain rfl := Option.some.inj hs
      simp only [hnew]
      exact ⟨Nat.lt_succ_self _, hww.symm⟩
    · rw [if_neg hww] at hs
      obtain ⟨h1, h2⟩ := hc.mapped w' s hs
      simp only [hold s (ne_of_lt h1)]
      exact ⟨Nat.lt_succ_of_lt h1, h2⟩
  case unmapped_idle =>
    intro s hs
    have hne : s ≠ r.stateCount := by
      rintro rfl
      simp [hnew] at hs
    simp only [hold s hne, JsMap.get_set] at hs ⊢
    refine hc.unmapped_idle s ?_
    by_cases hww : (r.states s).workspaceKey = w
    · simp [hww, hw]
    · rwa [if_neg hww] at hs
  case queued =>
    intro s p hp
    rw [hqueue] at hp
    exact hc.queued s p hp
  case sorted =>
    intro s
    rw [hqueue]
    exact hc.sorted s
  case active =>
    intro s p hp
    rw [hactive] at hp
    exact hc.active s p hp
  case acquisitions_iff =>
    intro s k p
    rw [hget, hactive, hqueue]
    exact hc.acquisitions_iff s k p
  case pending_queued =>
    intro p hp hpend
    rw [hqueue]
    exact hc.pending_queued p hp hpend
  case owner =>
    intro p hp
    obtain ⟨h1, h2⟩ := hc.owner p hp
    simp only [hold _ (ne_of_lt h1)]
    exact ⟨Nat.lt_succ_of_lt h1, h2⟩
  case granted => exact hc.granted
  case resolved => exact hc.resolved
  case held_active =>
    intro p hp
    rw [hactive]
    exact hc.held_active p hp
  case rejected_aborted => exact hc.rejected_aborted
  case grant_order => exact hc.grant_order
  case grants_before =>
    intro p s q hp hq
    rw [hqueue] at hq
    exact hc.grants_before p s q hp hq
  case releases_sub => exact hc.releases_sub
  case listener => exact hc.listener
  case key => exact hc.key

theorem Core.delete_idle_state {r : Registry} (hc : Core r) (w : JsString) (s : StateId) :
    Core (r.deleteIdleState w s) := by
  unfold deleteIdleState
  split_ifs with hbusy hmap
  · exact hc
  · exact hc
  · simp only [Bool.or_eq_true, decide_eq_true_eq, not_or, Bool.not_eq_true,
      Option.isSome_eq_false_iff, Option.isNone_iff_eq_none, Nat.not_lt, Nat.le_zero,
      List.length_eq_zero_iff, JsMap.size_eq_zero_iff] at hbusy
    obtain ⟨⟨hact, hqu⟩, hac⟩ := hbusy
    rw [not_not] at hmap
    refine { hc with mapped := ?_, unmapped_idle := ?_ }
    · intro w' s' hs'
      simp only [JsMap.get_delete] at hs'
      split_ifs at hs' with hww
      exact hc.mapped w' s' hs'
    · intro s' hs'
      simp only [JsMap.get_delete] at hs'
      by_cases hss : s' = s
      · exact hss ▸ ⟨hact, hqu, hac⟩
      · refine hc.unmapped_idle s' ?_
        by_cases hww : (r.states s').workspaceKey = w
        · rw [hww, hmap]
          simpa using Ne.symm hss
        · rwa [if_neg hww] at hs'

theorem Core.abort_signal {r : Registry} (hc : Core r) (signal : SignalId)
    (reason : Option JsString) :
    Core (r.abortSignal signal reason) := by
  unfold abortSignal
  split_ifs with ha
  · exact hc
  · refine { hc with rejected_aborted := ?_ }
    intro p why hp hwhy
    obtain ⟨sig, hsig, habort, hw⟩ := hc.rejected_aborted p why hp hwhy
    refine ⟨sig, ?_, habort, hw⟩
    -- the signal of a rejected waiter was aborted before, so it is another one
    simp only [signalOf, Option.map_eq_some_iff] at hsig ⊢
    obtain ⟨σ, hσ, hget⟩ := hsig
    refine ⟨σ, hσ, ?_⟩
    have hne : σ ≠ signal := by
      rintro rfl
      rw [hget, habort] at ha
      exact ha rfl
    rw [Function.update_of_ne hne, hget]

end WriterLease

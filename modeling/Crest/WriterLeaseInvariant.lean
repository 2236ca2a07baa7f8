import Mathlib.Tactic
import Crest.WriterLease

/-!
# Safety of the writer lease registry

`Core` is what every intermediate state of an operation satisfies: the maps,
the queues, the active slots and the promises describe the same set of
acquisitions.  It leaves one thing open, whether a mapped workspace has a holder,
because `acquire`, `release` and `abortQueued` break that for the one state they
work on and `grantNext` restores it.  `Inv` adds it back.

Each elementary change of the heap keeps `Core`; `grantNext` turns `Core` with
one open state into `Inv`; every event is one elementary change followed by
`grantNext`.
-/

namespace WriterLease

open WorkspaceWriterLeaseRegistry

namespace WorkspaceWriterLeaseRegistry

variable (r : Registry)

/-- The workspace an acquisition asked for. -/
def workspaceOf (p : AcquisitionId) : JsString := (r.acquisitions p).snapshot.workspaceKey

/-- The lease of an acquisition has been granted and not released. -/
def Holds (p : AcquisitionId) : Prop := p ∈ r.grants ∧ p ∉ r.releases

instance (p : AcquisitionId) : Decidable (r.Holds p) :=
  inferInstanceAs (Decidable (_ ∧ _))

end WorkspaceWriterLeaseRegistry

/-- The heap, the maps and the promises describe the same acquisitions. -/
structure Core (r : Registry) : Prop where
  /-- A mapped state exists and belongs to its key. -/
  mapped : ∀ w s, r.workspaces.get w = some s →
    s < r.stateCount ∧ (r.states s).workspaceKey = w
  /-- A state the map no longer reaches is idle. -/
  unmapped_idle : ∀ s, r.workspaces.get (r.states s).workspaceKey ≠ some s →
    (r.states s).active = none ∧ (r.states s).queue = [] ∧
      ∀ k, (r.states s).acquisitions.get k = none
  /-- A queued acquisition belongs to its state and is pending. -/
  queued : ∀ s p, p ∈ (r.states s).queue →
    p < r.acquisitionCount ∧ (r.acquisitions p).state = s ∧
      (r.acquisitions p).promise = .pending
  /-- Queues are in the order of first acquire. -/
  sorted : ∀ s, (r.states s).queue.Pairwise (· < ·)
  /-- The active acquisition belongs to its state and holds its lease. -/
  active : ∀ s p, (r.states s).active = some p →
    p < r.acquisitionCount ∧ (r.acquisitions p).state = s ∧ r.Holds p
  /-- The inner map holds exactly the active and the queued acquisitions. -/
  acquisitions_iff : ∀ s k p, (r.states s).acquisitions.get k = some p ↔
    (r.acquisitions p).key = k ∧
      ((r.states s).active = some p ∨ p ∈ (r.states s).queue)
  /-- A pending acquisition is queued. -/
  pending_queued : ∀ p, p < r.acquisitionCount → (r.acquisitions p).promise = .pending →
    p ∈ (r.states (r.acquisitions p).state).queue
  /-- An acquisition's state belongs to the workspace it asked for. -/
  owner : ∀ p, p < r.acquisitionCount → (r.acquisitions p).state < r.stateCount ∧
    (r.states (r.acquisitions p).state).workspaceKey = r.workspaceOf p
  /-- The recorded grants are the resolved promises. -/
  granted : ∀ p, p ∈ r.grants ↔
    p < r.acquisitionCount ∧ (r.acquisitions p).promise = .resolved (r.leaseOf p)
  /-- A promise only resolves to the lease of its own acquisition. -/
  resolved : ∀ p l, p < r.acquisitionCount → (r.acquisitions p).promise = .resolved l →
    l = r.leaseOf p
  /-- A held lease is the active one of its state. -/
  held_active : ∀ p, r.Holds p → (r.states (r.acquisitions p).state).active = some p
  /-- Only aborted waiters are rejected, with the reason of their signal. -/
  rejected_aborted : ∀ p reason, p < r.acquisitionCount →
    (r.acquisitions p).promise = .rejected reason →
      ∃ signal, r.signalOf p = some signal ∧ signal.aborted = true ∧
        reason = abortReason signal
  /-- Grants of one workspace are in the order of first acquire. -/
  grant_order : r.grants.Pairwise fun p q => r.workspaceOf p = r.workspaceOf q → p < q
  /-- Whoever was granted came before whoever still waits. -/
  grants_before : ∀ p s q, p ∈ r.grants → q ∈ (r.states s).queue →
    r.workspaceOf p = r.workspaceOf q → p < q
  /-- Only granted leases are released. -/
  releases_sub : ∀ p, p ∈ r.releases → p ∈ r.grants
  /-- Exactly the pending acquisitions with a signal have a listener. -/
  listener : ∀ p, p < r.acquisitionCount →
    ((r.acquisitions p).abortListener = true ↔
      (r.acquisitions p).promise = .pending ∧ (r.acquisitions p).snapshot.signal ≠ none)
  /-- An acquisition is filed under the pair it was made with. -/
  key : ∀ p, p < r.acquisitionCount → (r.acquisitions p).key =
    ((r.acquisitions p).snapshot.sessionId, (r.acquisitions p).snapshot.boundaryToken)

/-- Every mapped state, with the possible exception of one, has a holder. -/
def HeldExcept (r : Registry) (s : StateId) : Prop :=
  ∀ w s', r.workspaces.get w = some s' → s' ≠ s → (r.states s').active ≠ none

/-- The invariant between two events. -/
structure Inv (r : Registry) : Prop where
  core : Core r
  held : ∀ w s, r.workspaces.get w = some s → (r.states s).active ≠ none

variable {p : AcquisitionId} {s : StateId}

theorem rejectAborted_eq (r : Registry) (hc : Core r) {signal : AbortSignal}
    (hp : p ∈ (r.states s).queue) (hs : r.signalOf p = some signal) :
    (r.setQueue s ((r.states s).queue.erase p)).rejectAborted s p =
      { r with
        states := Function.update r.states s
          { r.states s with
            queue := (r.states s).queue.erase p
            acquisitions := (r.states s).acquisitions.delete (r.acquisitions p).key }
        acquisitions := Function.update r.acquisitions p
          { r.acquisitions p with
            promise := .rejected (abortReason signal)
            abortListener := false } } := by
  obtain ⟨hlt, hst, hpend⟩ := hc.queued s p hp
  have hkey : (r.states s).acquisitions.get (r.acquisitions p).key = some p :=
    (hc.acquisitions_iff s _ p).2 ⟨rfl, Or.inr hp⟩
  have hsig : (r.acquisitions p).snapshot.signal ≠ none := by
    intro h
    simp [signalOf, h] at hs
  have hlis : (r.acquisitions p).abortListener = true :=
    (hc.listener p hlt).2 ⟨hpend, hsig⟩
  have hsig' : (r.acquisitions p).snapshot.signal.isNone = false := by
    simpa [Option.isSome_iff_ne_none] using hsig
  simp only [signalOf] at hs
  simp [rejectAborted, setQueue, updateState, cleanupAbortListener, settle,
    updateAcquisition, signalOf, hkey, hlis, hsig', hpend, hs]

theorem grant_eq (r : Registry) (hc : Core r) {rest : List AcquisitionId}
    (hq : (r.states s).queue = p :: rest) :
    (r.setQueue s rest).grant s p =
      { r with
        states := Function.update r.states s
          { r.states s with queue := rest, active := some p }
        acquisitions := Function.update r.acquisitions p
          { r.acquisitions p with
            promise := .resolved (r.leaseOf p)
            abortListener := false }
        grants := r.grants ++ [p] } := by
  obtain ⟨hlt, hst, hpend⟩ := hc.queued s p (by simp [hq])
  have hlis := hc.listener p hlt
  by_cases hsig : (r.acquisitions p).snapshot.signal = none
  · have hl : (r.acquisitions p).abortListener = false := by
      simpa [hsig] using hlis
    simp [grant, setQueue, updateState, cleanupAbortListener, settle, leaseOf,
      updateAcquisition, hsig, hpend, hl]
  · have hl : (r.acquisitions p).abortListener = true := hlis.2 ⟨hpend, hsig⟩
    have hsig' : (r.acquisitions p).snapshot.signal.isNone = false := by
      simpa [Option.isSome_iff_ne_none] using hsig
    simp [grant, setQueue, updateState, cleanupAbortListener, settle, leaseOf,
      updateAcquisition, hsig', hpend, hl]

/-- What changes when a waiter leaves the queue aborted. -/
structure Rejected (r r' : Registry) (s : StateId) (p : AcquisitionId) : Prop where
  workspaces : r'.workspaces = r.workspaces
  stateCount : r'.stateCount = r.stateCount
  acquisitionCount : r'.acquisitionCount = r.acquisitionCount
  grants : r'.grants = r.grants
  releases : r'.releases = r.releases
  signalOf : ∀ q, r'.signalOf q = r.signalOf q
  workspaceKey : ∀ s', (r'.states s').workspaceKey = (r.states s').workspaceKey
  active : ∀ s', (r'.states s').active = (r.states s').active
  queue : (r'.states s).queue = (r.states s).queue.erase p
  queue_ne : ∀ s', s' ≠ s → (r'.states s').queue = (r.states s').queue
  acquisitions : ∀ k, (r'.states s).acquisitions.get k =
    if k = (r.acquisitions p).key then none else (r.states s).acquisitions.get k
  acquisitions_ne : ∀ s', s' ≠ s → (r'.states s').acquisitions = (r.states s').acquisitions
  state : ∀ q, (r'.acquisitions q).state = (r.acquisitions q).state
  key : ∀ q, (r'.acquisitions q).key = (r.acquisitions q).key
  snapshot : ∀ q, (r'.acquisitions q).snapshot = (r.acquisitions q).snapshot
  promise : ∃ signal, r.signalOf p = some signal ∧ signal.aborted = true ∧
    (r'.acquisitions p).promise = .rejected (abortReason signal)
  listener : (r'.acquisitions p).abortListener = false
  other : ∀ q, q ≠ p → r'.acquisitions q = r.acquisitions q

variable {r : Registry}

theorem rejectAborted_rejected (hc : Core r) {signal : AbortSignal}
    (hp : p ∈ (r.states s).queue) (hs : r.signalOf p = some signal) (ha : signal.aborted = true) :
    Rejected r ((r.setQueue s ((r.states s).queue.erase p)).rejectAborted s p) s p := by
  rw [rejectAborted_eq r hc hp hs]
  constructor
  case signalOf =>
    intro q
    by_cases h : q = p <;> simp [WorkspaceWriterLeaseRegistry.signalOf, h]
  all_goals grind [JsMap.get_delete, Function.update_apply]

theorem Core.rejected {r' : Registry} (hc : Core r) (hp : p ∈ (r.states s).queue)
    (h : Rejected r r' s p) :
    Core r' := by
  obtain ⟨hlt, hst, hpend⟩ := hc.queued s p hp
  have hnodup : (r.states s).queue.Nodup := (hc.sorted s).imp ne_of_lt
  have herase : ∀ q, q ∈ (r.states s).queue.erase p ↔ q ≠ p ∧ q ∈ (r.states s).queue :=
    fun q => hnodup.mem_erase_iff
  have hqueue : ∀ s' q, q ∈ (r'.states s').queue ↔ q ≠ p ∧ q ∈ (r.states s').queue := by
    intro s' q
    by_cases hs : s' = s
    · rw [hs, h.queue, herase]
    · rw [h.queue_ne s' hs]
      have := hc.queued s' q
      grind
  have hw : ∀ q, r'.workspaceOf q = r.workspaceOf q := by
    intro q
    rw [workspaceOf, h.snapshot, workspaceOf]
  have hprom : ∀ q, q ≠ p → (r'.acquisitions q).promise = (r.acquisitions q).promise :=
    fun q hq => by rw [h.other q hq]
  obtain ⟨sig, hsig, habort, hrej⟩ := h.promise
  have hlease : ∀ q, r'.leaseOf q = r.leaseOf q := by
    intro q
    simp only [leaseOf, h.snapshot]
  have hholds : ∀ q, r'.Holds q ↔ r.Holds q := by
    intro q
    rw [Holds, h.grants, h.releases, Holds]
  obtain ⟨mapped, idle, queued, sorted, active, acqs, pend, owner, granted, resolved, held,
    rej, order, before, rels, lis, key⟩ := hc
  constructor
  case mapped =>
    intro w s' hw'
    rw [h.workspaces] at hw'
    rw [h.stateCount, h.workspaceKey]
    exact mapped w s' hw'
  case unmapped_idle =>
    intro s' hw'
    rw [h.workspaces, h.workspaceKey] at hw'
    obtain ⟨ha, hq, hk⟩ := idle s' hw'
    have hs : s' ≠ s := by
      rintro rfl
      simp [hq] at hp
    rw [h.active, h.queue_ne s' hs, h.acquisitions_ne s' hs]
    exact ⟨ha, hq, hk⟩
  case queued =>
    intro s' q hq
    rw [hqueue] at hq
    rw [h.acquisitionCount, h.state, hprom q hq.1]
    exact queued s' q hq.2
  case sorted =>
    intro s'
    by_cases hs : s' = s
    · rw [hs, h.queue]
      exact (sorted s).erase p
    · rw [h.queue_ne s' hs]
      exact sorted s'
  case active =>
    intro s' q hq
    rw [h.active] at hq
    rw [h.acquisitionCount, h.state, hholds]
    exact active s' q hq
  case acquisitions_iff =>
    intro s' k q
    rw [h.active, hqueue, h.key]
    have hpa : ∀ s', (r.states s').active ≠ some p := by
      intro s' ha
      have hg := (granted p).1 (active s' p ha).2.2.1
      simp [hpend] at hg
    by_cases hs : s' = s
    · subst hs
      rw [h.acquisitions]
      by_cases hk : k = (r.acquisitions p).key
      · subst hk
        simp only [if_true, reduceCtorEq, false_iff]
        rintro ⟨hkey, hor⟩
        -- the key determines the acquisition, so `q` would be `p` itself
        have hq : (r.states s').acquisitions.get (r.acquisitions p).key = some q :=
          (acqs s' _ q).2 ⟨hkey, hor.imp_right And.right⟩
        have hp' : (r.states s').acquisitions.get (r.acquisitions p).key = some p :=
          (acqs s' _ p).2 ⟨rfl, Or.inr hp⟩
        have hqp : q = p := by simpa [hq] using hp'
        subst hqp
        exact hor.elim (hpa s') fun hm => hm.1 rfl
      · rw [if_neg hk, acqs]
        have hqp : (r.acquisitions q).key = k → q ≠ p := by
          rintro hq rfl
          exact hk hq.symm
        tauto
    · rw [h.acquisitions_ne s' hs, acqs]
      have hqp : q ∈ (r.states s').queue → q ≠ p := by
        rintro hq rfl
        exact hs ((queued s' q hq).2.1 ▸ hst)
      tauto
  case pending_queued =>
    intro q hq hqp
    rw [h.acquisitionCount] at hq
    have hne : q ≠ p := by
      rintro rfl
      simp [hrej] at hqp
    rw [hprom q hne] at hqp
    rw [h.state, hqueue]
    exact ⟨hne, pend q hq hqp⟩
  case owner =>
    intro q hq
    rw [h.acquisitionCount] at hq
    rw [h.state, h.stateCount, h.workspaceKey, hw]
    exact owner q hq
  case granted =>
    intro q
    rw [h.grants, granted, h.acquisitionCount, hlease]
    by_cases hqp : q = p
    · subst hqp
      simp [hpend, hrej]
    · rw [hprom q hqp]
  case resolved =>
    intro q l hq hl
    rw [h.acquisitionCount] at hq
    have hne : q ≠ p := by
      rintro rfl
      simp [hrej] at hl
    rw [hprom q hne] at hl
    rw [hlease]
    exact resolved q l hq hl
  case held_active =>
    intro q hq
    rw [hholds] at hq
    rw [h.state, h.active]
    exact held q hq
  case rejected_aborted =>
    intro q reason hq hreason
    rw [h.acquisitionCount] at hq
    rw [h.signalOf]
    by_cases hqp : q = p
    · subst hqp
      rw [hrej] at hreason
      exact ⟨sig, hsig, habort, by simpa using hreason.symm⟩
    · rw [hprom q hqp] at hreason
      exact rej q reason hq hreason
  case grant_order =>
    simpa only [h.grants, hw] using order
  case grants_before =>
    intro q s' q' hq hq'
    rw [hqueue] at hq'
    rw [h.grants] at hq
    rw [hw, hw]
    exact before q s' q' hq hq'.2
  case releases_sub =>
    simpa only [h.grants, h.releases] using rels
  case listener =>
    intro q hq
    rw [h.acquisitionCount] at hq
    by_cases hqp : q = p
    · subst hqp
      simp [h.listener, hrej]
    · rw [h.other q hqp]
      exact lis q hq
  case key =>
    intro q hq
    rw [h.acquisitionCount] at hq
    rw [h.key, h.snapshot]
    exact key q hq

theorem Core.state_unique (hc : Core r) {s' : StateId} {q : AcquisitionId}
    (hp : (r.states s).active = some p ∨ p ∈ (r.states s).queue)
    (hq : (r.states s').active = some q ∨ q ∈ (r.states s').queue)
    (hk : (r.states s).workspaceKey = (r.states s').workspaceKey) :
    s = s' := by
  have hs : r.workspaces.get (r.states s).workspaceKey = some s := by
    by_contra h
    obtain ⟨ha, hqu, -⟩ := hc.unmapped_idle s h
    simp [ha, hqu] at hp
  have hs' : r.workspaces.get (r.states s').workspaceKey = some s' := by
    by_contra h
    obtain ⟨ha, hqu, -⟩ := hc.unmapped_idle s' h
    simp [ha, hqu] at hq
  rw [hk, hs'] at hs
  exact (Option.some.inj hs).symm

/-- What changes when the head of the queue is granted the lease. -/
structure Granted (r r' : Registry) (s : StateId) (p : AcquisitionId) : Prop where
  workspaces : r'.workspaces = r.workspaces
  stateCount : r'.stateCount = r.stateCount
  acquisitionCount : r'.acquisitionCount = r.acquisitionCount
  grants : r'.grants = r.grants ++ [p]
  releases : r'.releases = r.releases
  signalOf : ∀ q, r'.signalOf q = r.signalOf q
  workspaceKey : ∀ s', (r'.states s').workspaceKey = (r.states s').workspaceKey
  active : (r'.states s).active = some p
  active_ne : ∀ s', s' ≠ s → (r'.states s').active = (r.states s').active
  queue : (r.states s).queue = p :: (r'.states s).queue
  queue_ne : ∀ s', s' ≠ s → (r'.states s').queue = (r.states s').queue
  acquisitions : ∀ s', (r'.states s').acquisitions = (r.states s').acquisitions
  state : ∀ q, (r'.acquisitions q).state = (r.acquisitions q).state
  key : ∀ q, (r'.acquisitions q).key = (r.acquisitions q).key
  snapshot : ∀ q, (r'.acquisitions q).snapshot = (r.acquisitions q).snapshot
  promise : (r'.acquisitions p).promise = .resolved (r.leaseOf p)
  listener : (r'.acquisitions p).abortListener = false
  other : ∀ q, q ≠ p → r'.acquisitions q = r.acquisitions q

theorem grant_granted (hc : Core r) {rest : List AcquisitionId}
    (hq : (r.states s).queue = p :: rest) :
    Granted r ((r.setQueue s rest).grant s p) s p := by
  rw [grant_eq r hc hq]
  constructor
  case signalOf =>
    intro q
    by_cases h : q = p <;> simp [WorkspaceWriterLeaseRegistry.signalOf, h]
  all_goals grind [Function.update_apply]

theorem Core.granted_head {r' : Registry} (hc : Core r) (hnone : (r.states s).active = none)
    (h : Granted r r' s p) :
    Core r' := by
  have hp : p ∈ (r.states s).queue := by simp [h.queue]
  obtain ⟨hlt, hst, hpend⟩ := hc.queued s p hp
  have hpg : p ∉ r.grants := by
    rw [hc.granted]
    simp [hpend]
  have hpr : p ∉ r.releases := fun hr => hpg (hc.releases_sub p hr)
  have hqueue : ∀ s' q, q ∈ (r'.states s').queue → q ∈ (r.states s').queue := by
    intro s' q hq
    by_cases hs : s' = s
    · rw [hs, h.queue]
      exact List.mem_cons_of_mem p (hs ▸ hq)
    · rwa [h.queue_ne s' hs] at hq
  have hsorted : (p :: (r'.states s).queue).Pairwise (· < ·) := h.queue ▸ hc.sorted s
  have hpq : ∀ s', p ∉ (r'.states s').queue := by
    intro s' hm
    have hs : s' = s := (hc.queued s' p (hqueue s' p hm)).2.1.symm.trans hst
    exact lt_irrefl p (List.rel_of_pairwise_cons hsorted (hs ▸ hm))
  have hw : ∀ q, r'.workspaceOf q = r.workspaceOf q := by
    intro q
    rw [workspaceOf, h.snapshot, workspaceOf]
  have hlease : ∀ q, r'.leaseOf q = r.leaseOf q := by
    intro q
    simp only [leaseOf, h.snapshot]
  have hprom : ∀ q, q ≠ p → (r'.acquisitions q).promise = (r.acquisitions q).promise :=
    fun q hq => by rw [h.other q hq]
  have hholds : ∀ q, r'.Holds q ↔ q = p ∨ r.Holds q := by
    intro q
    rw [Holds, h.grants, h.releases, Holds]
    by_cases hqp : q = p
    · simp [hqp, hpr]
    · simp [hqp]
  constructor
  case mapped =>
    intro w s' hw'
    rw [h.workspaces] at hw'
    rw [h.stateCount, h.workspaceKey]
    exact hc.mapped w s' hw'
  case unmapped_idle =>
    intro s' hw'
    rw [h.workspaces, h.workspaceKey] at hw'
    obtain ⟨ha, hq, hk⟩ := hc.unmapped_idle s' hw'
    have hs : s' ≠ s := by
      rintro rfl
      simp [hq] at hp
    rw [h.active_ne s' hs, h.queue_ne s' hs, h.acquisitions]
    exact ⟨ha, hq, hk⟩
  case queued =>
    intro s' q hq
    have hne : q ≠ p := by
      rintro rfl
      exact hpq s' hq
    rw [h.acquisitionCount, h.state, hprom q hne]
    exact hc.queued s' q (hqueue s' q hq)
  case sorted =>
    intro s'
    by_cases hs : s' = s
    · rw [hs]
      exact hsorted.of_cons
    · rw [h.queue_ne s' hs]
      exact hc.sorted s'
  case active =>
    intro s' q hq
    rw [h.acquisitionCount, h.state, hholds]
    by_cases hs : s' = s
    · rw [hs, h.active] at hq
      obtain rfl : p = q := Option.some.inj hq
      exact ⟨hlt, hst.trans hs.symm, Or.inl rfl⟩
    · rw [h.active_ne s' hs] at hq
      obtain ⟨h1, h2, h3⟩ := hc.active s' q hq
      exact ⟨h1, h2, Or.inr h3⟩
  case acquisitions_iff =>
    intro s' k q
    rw [h.acquisitions, h.key, hc.acquisitions_iff]
    by_cases hs : s' = s
    · subst hs
      rw [h.active, hnone, h.queue]
      simp [eq_comm]
    · rw [h.active_ne s' hs, h.queue_ne s' hs]
  case pending_queued =>
    intro q hq hqp
    rw [h.acquisitionCount] at hq
    have hne : q ≠ p := by
      rintro rfl
      simp [h.promise] at hqp
    rw [hprom q hne] at hqp
    rw [h.state]
    have hm := hc.pending_queued q hq hqp
    by_cases hs : (r.acquisitions q).state = s
    · rw [hs, h.queue] at hm
      rw [hs]
      exact List.mem_of_ne_of_mem hne hm
    · rwa [h.queue_ne _ hs]
  case owner =>
    intro q hq
    rw [h.acquisitionCount] at hq
    rw [h.state, h.stateCount, h.workspaceKey, hw]
    exact hc.owner q hq
  case granted =>
    intro q
    rw [h.grants, List.mem_append, hc.granted, h.acquisitionCount, hlease]
    by_cases hqp : q = p
    · subst hqp
      simp [hlt, h.promise]
    · simp [hprom q hqp, hqp]
  case resolved =>
    intro q l hq hl
    rw [h.acquisitionCount] at hq
    rw [hlease]
    by_cases hqp : q = p
    · subst hqp
      rw [h.promise] at hl
      simpa using hl.symm
    · rw [hprom q hqp] at hl
      exact hc.resolved q l hq hl
  case held_active =>
    intro q hq
    rw [h.state]
    rcases (hholds q).1 hq with rfl | hq
    · rw [hst, h.active]
    · have ha := hc.held_active q hq
      have hs : (r.acquisitions q).state ≠ s := by
        intro hs
        simp [hs, hnone] at ha
      rw [h.active_ne _ hs, ha]
  case rejected_aborted =>
    intro q reason hq hreason
    rw [h.acquisitionCount] at hq
    rw [h.signalOf]
    have hqp : q ≠ p := by
      rintro rfl
      simp [h.promise] at hreason
    rw [hprom q hqp] at hreason
    exact hc.rejected_aborted q reason hq hreason
  case grant_order =>
    simp only [h.grants, hw, List.pairwise_append]
    refine ⟨hc.grant_order, by simp, ?_⟩
    intro q hq q' hq' hwq
    obtain rfl : q' = p := by simpa using hq'
    exact hc.grants_before q s q' hq hp hwq
  case grants_before =>
    intro q s' q' hq hq' hwq
    rw [hw, hw] at hwq
    have hq'' := hqueue s' q' hq'
    rw [h.grants, List.mem_append, List.mem_singleton] at hq
    rcases hq with hq | rfl
    · exact hc.grants_before q s' q' hq hq'' hwq
    · -- the two waiters share a workspace, so they share the state
      have h1 := (hc.owner q hlt).2
      have h2 := (hc.owner q' (hc.queued s' q' hq'').1).2
      rw [hst] at h1
      rw [(hc.queued s' q' hq'').2.1] at h2
      have hs : s = s' := hc.state_unique (Or.inr hp) (Or.inr hq'') (by rw [h1, h2, hwq])
      subst hs
      exact List.rel_of_pairwise_cons hsorted hq'
  case releases_sub =>
    intro q hq
    rw [h.releases] at hq
    rw [h.grants]
    exact List.mem_append_left _ (hc.releases_sub q hq)
  case listener =>
    intro q hq
    rw [h.acquisitionCount] at hq
    by_cases hqp : q = p
    · subst hqp
      simp [h.listener, h.promise]
    · rw [h.other q hqp]
      exact hc.listener q hq
  case key =>
    intro q hq
    rw [h.acquisitionCount] at hq
    rw [h.key, h.snapshot]
    exact hc.key q hq

end WriterLease

import Crest.SnapshotQuota

/-!
# The snapshot quota never under-counts

The demand of the store is what it uses plus what its active reservations may
still add.  Writing under a reservation leaves the demand alone, deleting and
resolving lower it.  `Ledger` ties the counters to the set of active
reservations; `Covered` says that the measured bytes bound the demand, and
`Persisted` that the state file records them, both only while no exact
reconciliation is due.

Two steps escape.  A release that gives a whole reservation back although bytes
were written under it lowers the bound below the demand.  An exact
reconciliation that starts although none is due and fails after its file was
replaced leaves a file that differs from memory and no sign of it.
-/

namespace SnapshotQuota

open SnapshotQuotaAccounting Finset

variable {s s' : SnapshotQuotaAccounting}

namespace SnapshotQuotaAccounting

/-- The bytes the active reservations may still add. -/
def unwritten (s : SnapshotQuotaAccounting) : ℤ :=
  ∑ i ∈ s.activeReservations, ((s.reservations i).reservedBytes - (s.reservations i).written)

/-- The bytes in use and those the active reservations may still add. -/
def demand (s : SnapshotQuotaAccounting) : ℤ := s.usage + s.unwritten

end SnapshotQuotaAccounting

/-- The counters agree with the set of active reservations. -/
structure Ledger (s : SnapshotQuotaAccounting) : Prop where
  status : ∀ i, i ∈ s.activeReservations ↔ (s.reservations i).status = .active
  active_lt : ∀ i, i ∈ s.activeReservations → i < s.reservationCount
  reserved_nonneg : ∀ i, i ∈ s.activeReservations → 0 ≤ (s.reservations i).reservedBytes
  written_nonneg : ∀ i, i ∈ s.activeReservations → 0 ≤ (s.reservations i).written
  sum : s.activeReservedBytes = ∑ i ∈ s.activeReservations, (s.reservations i).reservedBytes
  measured : s.activeReservedBytes ≤ s.measuredBytes
  safe : s.measuredBytes ≤ maxSafeInteger
  maxSafe : s.maxBytes ≤ maxSafeInteger
  usage_nonneg : 0 ≤ s.usage
  published_nonneg : ∀ v, v ∈ s.published → 0 ≤ v
  resolutions_nodup : s.resolutions.Nodup
  resolutions_old : ∀ i, i ∈ s.resolutions → i < s.reservationCount ∧ i ∉ s.activeReservations

/-- No active reservation is exceeded. -/
def Within (s : SnapshotQuotaAccounting) : Prop :=
  ∀ i, i ∈ s.activeReservations → (s.reservations i).written ≤ (s.reservations i).reservedBytes

/-- While no reconciliation is due, the measured bytes bound the demand. -/
def Covered (s : SnapshotQuotaAccounting) : Prop :=
  s.needsReconcile = false → s.demand ≤ s.measuredBytes

/-- While no reconciliation is due, the state file records the measured bytes. -/
def Persisted (s : SnapshotQuotaAccounting) : Prop :=
  s.needsReconcile = false → s.file.map StateFile.measuredbytes = some s.measuredBytes

/-- A change that keeps the ledger; `clean` and `lossless` are what it takes to
keep the bound and the file as well. -/
structure Keeps (s s' : SnapshotQuotaAccounting) (clean lossless : Prop) : Prop where
  ledger : Ledger s'
  within : Within s'
  covered : clean → Covered s → Covered s'
  persisted : lossless → Persisted s → Persisted s'

theorem Keeps.refl (hl : Ledger s) (hw : Within s) :
    Keeps s s True True :=
  ⟨hl, hw, fun _ h => h, fun _ h => h⟩

theorem Keeps.weaken {c c' p p' : Prop} (h : Keeps s s' c p) (hc : c' → c) (hp : p' → p) :
    Keeps s s' c' p' :=
  ⟨h.ledger, h.within, fun h1 => h.covered (hc h1), fun h1 => h.persisted (hp h1)⟩

variable {i : ReservationId}

theorem sum_change {t : Finset ReservationId} {f g : ReservationId → ℤ} (hi : i ∈ t)
    (h : ∀ j, j ≠ i → g j = f j) :
    ∑ j ∈ t, g j = ∑ j ∈ t, f j - f i + g i := by
  rw [← Finset.add_sum_erase t f hi, ← Finset.add_sum_erase t g hi]
  have hcongr : ∑ j ∈ t.erase i, g j = ∑ j ∈ t.erase i, f j :=
    Finset.sum_congr rfl fun j hj => h j (Finset.ne_of_mem_erase hj)
  rw [hcongr]
  ring

attribute [local simp] SnapshotQuotaAccounting.writeUnder updateReservation

theorem Ledger.writeUnder (hl : Ledger s) (n : Nat) :
    Ledger (s.writeUnder i n) := by
  have hres : ∀ j, ((s.writeUnder i n).reservations j).reservedBytes =
      (s.reservations j).reservedBytes := by
    intro j
    by_cases h : j = i <;> simp [h]
  refine { hl with
    status := ?_, reserved_nonneg := ?_, written_nonneg := ?_, sum := ?_, usage_nonneg := ?_ }
  · intro j
    by_cases h : j = i <;>
      simpa [h] using hl.status _
  · intro j hj
    rw [hres]
    exact hl.reserved_nonneg j hj
  · intro j hj
    have h0 := hl.written_nonneg j hj
    by_cases h : j = i
    · subst h
      simp
      omega
    · simpa [h] using h0
  · simp only [hres]
    exact hl.sum
  · have := hl.usage_nonneg
    simp
    omega

theorem demand_writeUnder (hi : i ∈ s.activeReservations) (n : Nat) :
    (s.writeUnder i n).demand = s.demand := by
  have hsum := sum_change
    (f := fun j => (s.reservations j).reservedBytes - (s.reservations j).written)
    (g := fun j => ((s.writeUnder i n).reservations j).reservedBytes -
      ((s.writeUnder i n).reservations j).written) hi (by
      intro j hj
      simp [hj])
  have hi' : ((s.writeUnder i n).reservations i).reservedBytes = (s.reservations i).reservedBytes ∧
      ((s.writeUnder i n).reservations i).written = (s.reservations i).written + n := by
    simp
  have hu : (s.writeUnder i n).unwritten = s.unwritten - n := by
    rw [unwritten, unwritten]
    refine hsum.trans ?_
    rw [hi'.1, hi'.2]
    ring
  have husage : (s.writeUnder i n).usage = s.usage + n := rfl
  rw [demand, demand, hu, husage]
  ring

/-- What the counters keep while the store works. -/
structure Quiet (s s' : SnapshotQuotaAccounting) : Prop where
  ledger : Ledger s'
  within : Within s'
  demand : s'.demand ≤ s.demand
  measuredBytes : s'.measuredBytes = s.measuredBytes
  activeReservedBytes : s'.activeReservedBytes = s.activeReservedBytes
  needsReconcile : s'.needsReconcile = s.needsReconcile
  maxBytes : s'.maxBytes = s.maxBytes

theorem storeActivity_quiet (hl : Ledger s) (hw : Within s) (a : StoreActivity) :
    Quiet s (s.storeActivity a) := by
  cases a with
  | write i n =>
    simp only [storeActivity]
    split_ifs with h
    · refine ⟨hl.writeUnder n, ?_, le_of_eq (demand_writeUnder h.1 n), rfl, rfl, rfl, rfl⟩
      intro j hj
      by_cases hji : j = i
      · subst hji
        simpa using h.2
      · simpa [hji] using hw j hj
    · exact ⟨hl, hw, le_refl _, rfl, rfl, rfl, rfl⟩
  | delete n =>
    have h0 := hl.usage_nonneg
    refine ⟨{ hl with usage_nonneg := le_max_left _ _ }, hw, ?_, rfl, rfl, rfl, rfl⟩
    simp only [demand, storeActivity, unwritten]
    have : max 0 (s.usage - n) ≤ s.usage := by omega
    linarith

theorem Quiet.trans {s₁ s₂ : SnapshotQuotaAccounting} (h : Quiet s s₁) (h' : Quiet s₁ s₂) :
    Quiet s s₂ :=
  ⟨h'.ledger, h'.within, h'.demand.trans h.demand, h'.measuredBytes.trans h.measuredBytes,
    h'.activeReservedBytes.trans h.activeReservedBytes,
    h'.needsReconcile.trans h.needsReconcile, h'.maxBytes.trans h.maxBytes⟩

theorem storeActivities_quiet (hl : Ledger s) (hw : Within s) (l : List StoreActivity) :
    Quiet s (s.storeActivities l) := by
  induction l generalizing s with
  | nil => exact ⟨hl, hw, le_refl _, rfl, rfl, rfl, rfl⟩
  | cons a l ih =>
    have h := storeActivity_quiet hl hw a
    exact h.trans (ih h.ledger h.within)

theorem storeActivities_file (s : SnapshotQuotaAccounting) (l : List StoreActivity) :
    (s.storeActivities l).file = s.file := by
  induction l generalizing s with
  | nil => rfl
  | cons a l ih =>
    rw [storeActivities, Runs.run_cons]
    refine (ih _).trans ?_
    cases a with
    | write i n =>
      simp only [storeActivity]
      split_ifs <;> rfl
    | delete n => rfl

/-- A publication that returns. -/
structure Published (s s' : SnapshotQuotaAccounting) (v : ℤ) : Prop where
  ledger : s.activeReservedBytes ≤ v → Ledger s'
  within : Within s'
  demand : s'.demand = s.demand
  measuredBytes : s'.measuredBytes = v
  file : s'.file.map StateFile.measuredbytes = some v
  needsReconcile : s'.needsReconcile = s.needsReconcile
  maxBytes : s'.maxBytes = s.maxBytes
  activeReservations : s'.activeReservations = s.activeReservations
  reservations : s'.reservations = s.reservations
  reservationCount : s'.reservationCount = s.reservationCount
  activeReservedBytes : s'.activeReservedBytes = s.activeReservedBytes

/-- A publication that throws. -/
structure Unpublished
    (s s' : SnapshotQuotaAccounting)
    (outcome : PublishOutcome) : Prop where
  ledger : Ledger s'
  within : Within s'
  demand : s'.demand = s.demand
  measuredBytes : s'.measuredBytes = s.measuredBytes
  file : outcome ≠ .throwsAfter → s'.file = s.file
  needsReconcile : s'.needsReconcile = s.needsReconcile
  maxBytes : s'.maxBytes = s.maxBytes

theorem publish_spec (hl : Ledger s) (hw : Within s) (v : ℤ) (o : PublishOutcome) :
    (∃ s', s.publishMeasuredBytes v o = (s', true) ∧ Published s s' v) ∨
    (∃ s', s.publishMeasuredBytes v o = (s', false) ∧ Unpublished s s' o) := by
  unfold publishMeasuredBytes
  split_ifs with hv hb ha
  · exact Or.inr ⟨s, rfl, hl, hw, rfl, rfl, fun _ => rfl, rfl, rfl⟩
  · exact Or.inr ⟨s, rfl, hl, hw, rfl, rfl, fun _ => rfl, rfl, rfl⟩
  · have hv' : 0 ≤ v ∧ v ≤ maxSafeInteger := by simpa [validBytes] using hv
    have hpub : ∀ w, w ∈ s.published ++ [v] → 0 ≤ w := by
      intro w hwm
      rcases List.mem_append.1 hwm with h | h
      · exact hl.published_nonneg w h
      · rw [List.mem_singleton.1 h]
        exact hv'.1
    exact Or.inr ⟨_, rfl, { hl with published_nonneg := hpub }, hw, rfl, rfl,
      fun h => absurd ha h, rfl, rfl⟩
  · have hv' : 0 ≤ v ∧ v ≤ maxSafeInteger := by simpa [validBytes] using hv
    have hpub : ∀ w, w ∈ s.published ++ [v] → 0 ≤ w := by
      intro w hwm
      rcases List.mem_append.1 hwm with h | h
      · exact hl.published_nonneg w h
      · rw [List.mem_singleton.1 h]
        exact hv'.1
    exact Or.inl ⟨_, rfl, fun hact => { hl with
      measured := hact, safe := hv'.2, published_nonneg := hpub }, hw, rfl, rfl, rfl, rfl, rfl, rfl, rfl, rfl, rfl⟩

/-- A reservation leaves the active set. -/
structure Resolved (s s' : SnapshotQuotaAccounting) (i : ReservationId) : Prop where
  ledger : Ledger s'
  within : Within s'
  demand : s'.demand =
    s.demand - ((s.reservations i).reservedBytes - (s.reservations i).written)
  activeReservedBytes : s'.activeReservedBytes =
    s.activeReservedBytes - (s.reservations i).reservedBytes
  measuredBytes : s'.measuredBytes = s.measuredBytes
  file : s'.file = s.file
  needsReconcile : s'.needsReconcile = s.needsReconcile

theorem resolve_spec (hl : Ledger s) (hi : i ∈ s.activeReservations)
    (hw : ∀ j, j ∈ s.activeReservations → j ≠ i →
      (s.reservations j).written ≤ (s.reservations j).reservedBytes) :
    ∃ s', s.resolveReservation i = some s' ∧ Resolved s s' i := by
  refine ⟨_, if_pos hi, ?_⟩
  have hne : ∀ j, j ∈ s.activeReservations.erase i →
      (s.updateReservation i fun r => { r with status := .resolved }).reservations j =
        s.reservations j := by
    intro j hj
    simp [Finset.ne_of_mem_erase hj]
  have hsub : ∀ f : ReservationId → ℤ, ∑ j ∈ s.activeReservations.erase i, f j =
      ∑ j ∈ s.activeReservations, f j - f i :=
    fun f => Finset.sum_erase_eq_sub hi
  constructor
  case ledger =>
    have hr := hl.reserved_nonneg i hi
    constructor
    case status =>
      intro j
      by_cases h : j = i
      · simp [h]
      · simpa [h] using hl.status j
    case active_lt => exact fun j hj => hl.active_lt j (Finset.mem_of_mem_erase hj)
    case reserved_nonneg =>
      intro j hj
      rw [hne j hj]
      exact hl.reserved_nonneg j (Finset.mem_of_mem_erase hj)
    case written_nonneg =>
      intro j hj
      rw [hne j hj]
      exact hl.written_nonneg j (Finset.mem_of_mem_erase hj)
    case sum =>
      dsimp only
      rw [Finset.sum_congr rfl fun j hj => by rw [hne j hj], hsub, hl.sum]
    case measured =>
      have := hl.measured
      simp only [updateReservation]
      omega
    case safe => exact hl.safe
    case maxSafe => exact hl.maxSafe
    case usage_nonneg => exact hl.usage_nonneg
    case published_nonneg => exact hl.published_nonneg
    case resolutions_nodup =>
      refine List.nodup_append.2 ⟨hl.resolutions_nodup, by simp, ?_⟩
      intro j hj k hk
      rw [List.mem_singleton] at hk
      rintro rfl
      exact (hl.resolutions_old j hj).2 (hk ▸ hi)
    case resolutions_old =>
      intro j hj
      rcases List.mem_append.1 hj with h | h
      · obtain ⟨h1, h2⟩ := hl.resolutions_old j h
        exact ⟨h1, fun hm => h2 (Finset.mem_of_mem_erase hm)⟩
      · rw [List.mem_singleton] at h
        subst h
        exact ⟨hl.active_lt j hi, by simp⟩
  case within =>
    intro j hj
    rw [hne j hj]
    exact hw j (Finset.mem_of_mem_erase hj) (Finset.ne_of_mem_erase hj)
  case demand =>
    simp only [demand, unwritten]
    rw [Finset.sum_congr rfl fun j hj => by rw [hne j hj], hsub]
    simp only [updateReservation]
    ring
  case activeReservedBytes => rfl
  case measuredBytes => rfl
  case file => rfl
  case needsReconcile => rfl

end SnapshotQuota

import Crest.SnapshotQuotaInvariant

/-!
# Runs of the snapshot quota accounting

Every operation is a chain of quiet changes, one or two publications and at most
one resolution.  An exact reconciliation restores both the bound and the file
whatever they were before, so an operation that sets `needsReconcile` first is
safe on every path.
-/

namespace SnapshotQuota

open SnapshotQuotaAccounting Finset

variable {s s' : SnapshotQuotaAccounting}

/-- The exact reconciliation replaces the state file and throws afterwards. -/
def Lossy (o : ReconcileOutcome) : Prop :=
  o.reads = true ∧ o.measures = true ∧ o.publish = .throwsAfter

instance (o : ReconcileOutcome) : Decidable (Lossy o) :=
  inferInstanceAs (Decidable (_ ∧ _ ∧ _))

theorem demand_le (hl : Ledger s) :
    s.demand ≤ s.usage + s.activeReservedBytes := by
  have h : s.unwritten ≤ ∑ i ∈ s.activeReservations, (s.reservations i).reservedBytes := by
    refine Finset.sum_le_sum fun i hi => ?_
    have := hl.written_nonneg i hi
    omega
  rw [demand, hl.sum]
  omega

theorem mark_quiet (hl : Ledger s) (hw : Within s) :
    Quiet s s.markActiveReservationsForExactSettlement := by
  have hres : ∀ i, (s.markActiveReservationsForExactSettlement.reservations i).reservedBytes =
      (s.reservations i).reservedBytes := by
    intro i
    simp only [markActiveReservationsForExactSettlement]
    split_ifs <;> rfl
  have hwr : ∀ i, (s.markActiveReservationsForExactSettlement.reservations i).written =
      (s.reservations i).written := by
    intro i
    simp only [markActiveReservationsForExactSettlement]
    split_ifs <;> rfl
  have hstat : ∀ i, (s.markActiveReservationsForExactSettlement.reservations i).status =
      (s.reservations i).status := by
    intro i
    simp only [markActiveReservationsForExactSettlement]
    split_ifs <;> rfl
  constructor
  case ledger =>
    refine { hl with status := ?_, reserved_nonneg := ?_, written_nonneg := ?_, sum := ?_ }
    · intro i
      rw [hstat]
      exact hl.status i
    · intro i hi
      rw [hres]
      exact hl.reserved_nonneg i hi
    · intro i hi
      rw [hwr]
      exact hl.written_nonneg i hi
    · simp only [hres]
      exact hl.sum
  case within =>
    intro i hi
    rw [hres, hwr]
    exact hw i hi
  case demand =>
    simp only [demand, unwritten, hres, hwr]
    exact le_refl _
  all_goals rfl

/-- What an exact reconciliation does. -/
structure Reconciled
    (s s' : SnapshotQuotaAccounting) (result : Option ℤ)
    (o : ReconcileOutcome) : Prop where
  ledger : Ledger s'
  within : Within s'
  covered : Covered s → Covered s'
  persisted : s.needsReconcile = true ∨ ¬ Lossy o → Persisted s → Persisted s'
  maxBytes : s'.maxBytes = s.maxBytes
  done : result ≠ none → s'.needsReconcile = false ∧ s'.demand ≤ s'.measuredBytes ∧
    s'.file.map StateFile.measuredbytes = some s'.measuredBytes

theorem Quiet.reconciled {o : ReconcileOutcome} (h : Quiet s s') (hf : s'.file = s.file) :
    Reconciled s s' none o := by
  refine ⟨h.ledger, h.within, ?_, ?_, h.maxBytes, by simp⟩
  · intro hc hn
    rw [h.needsReconcile] at hn
    rw [h.measuredBytes]
    exact h.demand.trans (hc hn)
  · intro _ hp hn
    rw [h.needsReconcile] at hn
    rw [hf, h.measuredBytes]
    exact hp hn

theorem reconcile_spec (hl : Ledger s) (hw : Within s) (o : ReconcileOutcome) :
    Reconciled s (s.reconcileExactUsageUnlocked o).1 (s.reconcileExactUsageUnlocked o).2 o := by
  have hq₀ : Quiet s s := ⟨hl, hw, le_refl _, rfl, rfl, rfl, rfl⟩
  have hq₁ : Quiet s { s with stateEntry := s.file.map StateFile.entry } :=
    ⟨{ hl with }, hw, le_refl _, rfl, rfl, rfl, rfl⟩
  have hq₂ := hq₁.trans (mark_quiet hq₁.ledger hq₁.within)
  have hq₃ := storeActivities_quiet hq₂.ledger hq₂.within o.during
  have hf₃ := storeActivities_file
    { s with stateEntry := s.file.map StateFile.entry }.markActiveReservationsForExactSettlement
    o.during
  unfold reconcileExactUsageUnlocked
  dsimp only
  generalize hs₂ : { s with
    stateEntry := s.file.map StateFile.entry }.markActiveReservationsForExactSettlement = s₂ at *
  have hf₂ : s₂.file = s.file := by rw [← hs₂]; rfl
  generalize hs₃ : s₂.storeActivities o.during = s₃ at *
  have hq := hq₂.trans hq₃
  have hf : s₃.file = s.file := hf₃.trans hf₂
  by_cases hreads : (!o.reads) = true
  · rw [if_pos hreads]
    exact hq₀.reconciled rfl
  rw [if_neg hreads]
  by_cases hmeasures : (!o.measures) = true
  · rw [if_pos hmeasures]
    exact hq₂.reconciled hf₂
  rw [if_neg hmeasures]
  by_cases hvalid : (!validBytes s₂.usage) = true
  · rw [if_pos hvalid]
    exact hq.reconciled hf
  · rw [if_neg hvalid]
    rcases hadd : checkedAdd s₂.usage s₃.activeReservedBytes with _ | v
    · exact hq.reconciled hf
    · have hv : v = s₂.usage + s₃.activeReservedBytes := by
        unfold checkedAdd at hadd
        split_ifs at hadd
        exact (Option.some.inj hadd).symm
      have hdem : s₃.demand ≤ v := by
        have h1 := demand_le hq₂.ledger
        have h2 := hq₃.demand
        rw [hv, hq₃.activeReservedBytes]
        omega
      have hact : s₃.activeReservedBytes ≤ v := by
        have := hq₂.ledger.usage_nonneg
        omega
      rcases publish_spec hq.ledger hq.within v o.publish with ⟨s₄, heq, hp⟩ | ⟨s₄, heq, hp⟩
      · simp only [heq]
        have hbound : s₄.demand ≤ s₄.measuredBytes := by
          rw [hp.demand, hp.measuredBytes]
          exact hdem
        have hfile : s₄.file.map StateFile.measuredbytes = some s₄.measuredBytes := by
          rw [hp.file, hp.measuredBytes]
        exact ⟨{ hp.ledger hact with }, hp.within, fun _ _ => hbound, fun _ _ _ => hfile,
          hp.maxBytes.trans hq.maxBytes, fun _ => ⟨rfl, hbound, hfile⟩⟩
      · simp only [heq]
        refine ⟨hp.ledger, hp.within, ?_, ?_, hp.maxBytes.trans hq.maxBytes, by simp⟩
        · intro hc hn
          rw [hp.needsReconcile, hq.needsReconcile] at hn
          rw [hp.demand, hp.measuredBytes, hq.measuredBytes]
          exact hq.demand.trans (hc hn)
        · intro hloss hps hn
          rw [hp.needsReconcile, hq.needsReconcile] at hn
          have hne : o.publish ≠ .throwsAfter := by
            intro h
            refine hloss.elim (fun h' => by simp [hn] at h') fun h' => h' ⟨?_, ?_, h⟩
            · simpa using hreads
            · simpa using hmeasures
          rw [hp.file hne, hp.measuredBytes, hf, hq.measuredBytes]
          exact hps hn

theorem covered_flag (s : SnapshotQuotaAccounting) :
    Covered { s with needsReconcile := true } := fun h => by simp at h

theorem persisted_flag (s : SnapshotQuotaAccounting) :
    Persisted { s with needsReconcile := true } := fun h => by simp at h

theorem Keeps.flag (hl : Ledger s') (hw : Within s') :
    Keeps s { s' with needsReconcile := true } True True :=
  ⟨{ hl with }, hw, fun _ _ => covered_flag s', fun _ _ => persisted_flag s'⟩

theorem Keeps.flag_reconcile (hl : Ledger s') (hw : Within s') (o : ReconcileOutcome) :
    Keeps s ({ s' with needsReconcile := true }.reconcileExactUsageUnlocked o).1 True True := by
  have h := reconcile_spec (s := { s' with needsReconcile := true }) { hl with } hw o
  exact ⟨h.ledger, h.within, fun _ _ => h.covered (covered_flag s'),
    fun _ _ => h.persisted (Or.inl rfl) (persisted_flag s')⟩

/-- What a call of `reserve` does. -/
structure Reserved
    (s s' : SnapshotQuotaAccounting)
    (result : Option ReservationId) : Prop where
  keeps : Keeps s s' True True
  fits : result ≠ none → s'.needsReconcile = false ∧ s'.measuredBytes ≤ s.maxBytes

section

variable (hl : Ledger s) (hw : Within s)
include hl hw

theorem addReservation_reserved {s₁ : SnapshotQuotaAccounting}
    {b : ℤ} (hb : 0 ≤ b) (hneeds : s.needsReconcile = false)
    (hfits : b ≤ s.maxBytes - s.measuredBytes) (hp : Published s s₁ (s.measuredBytes + b)) :
    Reserved s (s₁.addReservation b).1 (s₁.addReservation b).2 := by
  have hmeas := hl.measured
  have hmax := hl.maxSafe
  have hl₁ := hp.ledger (by omega)
  have hnew : s.reservationCount ∉ s.activeReservations :=
    fun h => lt_irrefl _ (hl.active_lt _ h)
  have hactive : 0 ≤ s.activeReservedBytes := by
    rw [hl.sum]
    exact Finset.sum_nonneg hl.reserved_nonneg
  have hadd : checkedAdd s₁.activeReservedBytes b = some (s.activeReservedBytes + b) := by
    rw [hp.activeReservedBytes, checkedAdd, if_pos]
    simp only [maxSafeInteger] at hmax ⊢
    omega
  have heq : s₁.addReservation b =
      ({ s₁ with
          activeReservations := insert s.reservationCount s.activeReservations
          reservations := Function.update s.reservations s.reservationCount { reservedBytes := b }
          reservationCount := s.reservationCount + 1
          activeReservedBytes := s.activeReservedBytes + b }, some s.reservationCount) := by
    simp [addReservation, hadd, hp.activeReservations, hp.reservations, hp.reservationCount]
  have hold : ∀ j, j ∈ s.activeReservations →
      Function.update s.reservations s.reservationCount { reservedBytes := b } j =
        s.reservations j := by
    intro j hj
    have hne : j ≠ s.reservationCount := by
      rintro rfl
      exact hnew hj
    simp [hne]
  have hsum : ∀ f : SnapshotQuotaReservation → ℤ,
      ∑ j ∈ insert s.reservationCount s.activeReservations,
        f (Function.update s.reservations s.reservationCount { reservedBytes := b } j) =
          f { reservedBytes := b } + ∑ j ∈ s.activeReservations, f (s.reservations j) := by
    intro f
    rw [Finset.sum_insert hnew, Function.update_self]
    congr 1
    exact Finset.sum_congr rfl fun j hj => by rw [hold j hj]
  rw [heq]
  refine ⟨⟨?_, ?_, ?_, ?_⟩, ?_⟩
  · refine { hl₁ with
      status := ?_, active_lt := ?_, reserved_nonneg := ?_, written_nonneg := ?_, sum := ?_
      measured := ?_, resolutions_old := ?_ }
    · intro j
      by_cases h : j = s.reservationCount
      · simp [h]
      · simpa [h] using hl.status j
    · intro j hj
      rcases Finset.mem_insert.1 hj with rfl | hj
      · exact Nat.lt_succ_self _
      · exact Nat.lt_succ_of_lt (hl.active_lt j hj)
    · intro j hj
      rcases Finset.mem_insert.1 hj with rfl | hj
      · simpa using hb
      · simp only [hold j hj]
        exact hl.reserved_nonneg j hj
    · intro j hj
      rcases Finset.mem_insert.1 hj with rfl | hj
      · simp
      · simp only [hold j hj]
        exact hl.written_nonneg j hj
    · have h := hsum SnapshotQuotaReservation.reservedBytes
      have h0 := hl.sum
      dsimp only at h ⊢
      omega
    · have h := hp.measuredBytes
      dsimp only
      omega
    · intro j hj
      obtain ⟨h1, h2⟩ := hl₁.resolutions_old j hj
      rw [hp.reservationCount] at h1
      rw [hp.activeReservations] at h2
      refine ⟨Nat.lt_succ_of_lt h1, ?_⟩
      rw [Finset.mem_insert, not_or]
      exact ⟨ne_of_lt h1, h2⟩
  · intro j hj
    rcases Finset.mem_insert.1 hj with rfl | hj
    · simpa using hb
    · simp only [hold j hj]
      exact hw j hj
  · intro _ hc _
    have h := hsum fun r => r.reservedBytes - r.written
    have hd := hp.demand
    have hm := hp.measuredBytes
    have hcov := hc hneeds
    simp only [demand, unwritten, hp.activeReservations, hp.reservations] at h hd hcov ⊢
    omega
  · intro _ _ _
    have hf := hp.file
    have hm := hp.measuredBytes
    rw [hf, hm]
  · intro _
    have hm := hp.measuredBytes
    have hn := hp.needsReconcile
    refine ⟨hn.trans hneeds, ?_⟩
    change s₁.measuredBytes ≤ s.maxBytes
    omega

theorem retryReserve_reserved {b : ℤ} (hb : 0 ≤ b) (o : ReserveOutcome) :
    Reserved s (s.retryReserve b o).1 (s.retryReserve b o).2 := by
  have hrec := reconcile_spec (s := { s with needsReconcile := true }) { hl with } hw
    o.retryReconcile
  have hcov := hrec.covered (covered_flag s)
  have hper := hrec.persisted (Or.inl rfl) (persisted_flag s)
  have hmax := hrec.maxBytes
  unfold retryReserve
  rcases heq : { s with needsReconcile := true }.reconcileExactUsageUnlocked o.retryReconcile
    with ⟨s₁, _ | v⟩
  · rw [heq] at hrec hcov hper ⊢
    exact ⟨⟨hrec.ledger, hrec.within, fun _ _ => hcov, fun _ _ => hper⟩, by simp⟩
  · rw [heq] at hrec hcov hper hmax ⊢
    have hneeds : s₁.needsReconcile = false := (hrec.done (by simp)).1
    by_cases hfits : s₁.reservationFits b = true
    · simp only [hfits, Bool.not_true, Bool.false_eq_true, if_false]
      rcases publish_spec hrec.ledger hrec.within (s₁.measuredBytes + b) o.retryPublish with
        ⟨s₂, heq₂, hp⟩ | ⟨s₂, heq₂, hp⟩
      · simp only [heq₂]
        have hadd := addReservation_reserved hrec.ledger hrec.within hb hneeds
          (by simpa [reservationFits] using hfits) hp
        refine ⟨⟨hadd.keeps.ledger, hadd.keeps.within, ?_, ?_⟩, ?_⟩
        · exact fun _ _ => hadd.keeps.covered trivial hcov
        · exact fun _ _ => hadd.keeps.persisted trivial hper
        · intro h
          obtain ⟨h1, h2⟩ := hadd.fits h
          exact ⟨h1, h2.trans (le_of_eq hmax)⟩
      · simp only [heq₂]
        exact ⟨.flag hp.ledger hp.within, by simp⟩
    · simp only [Bool.not_eq_true] at hfits
      simp only [hfits, Bool.not_false, if_true]
      exact ⟨⟨hrec.ledger, hrec.within, fun _ _ => hcov, fun _ _ => hper⟩, by simp⟩

theorem publishReservation_reserved {b : ℤ} (hb : 0 ≤ b)
    (hneeds : s.needsReconcile = false) (o : ReserveOutcome) :
    Reserved s (s.publishReservation b o).1 (s.publishReservation b o).2 := by
  unfold publishReservation
  by_cases hfits : s.reservationFits b = true
  · simp only [hfits, Bool.not_true, Bool.false_eq_true, if_false]
    rcases publish_spec hl hw (s.measuredBytes + b) o.publish with ⟨s₁, heq, hp⟩ | ⟨s₁, heq, hp⟩
    · simp only [heq]
      exact addReservation_reserved hl hw hb hneeds (by simpa [reservationFits] using hfits) hp
    · simp only [heq]
      have h := retryReserve_reserved hp.ledger hp.within hb o
      -- the retry repairs bound and file itself, so it needs nothing from before
      have hflag := retryReserve_reserved (s := { s₁ with needsReconcile := true })
        { hp.ledger with } hp.within hb o
      refine ⟨⟨h.keeps.ledger, h.keeps.within, ?_, ?_⟩, ?_⟩
      · exact fun _ _ => hflag.keeps.covered trivial (covered_flag s₁)
      · exact fun _ _ => hflag.keeps.persisted trivial (persisted_flag s₁)
      · intro hr
        obtain ⟨h1, h2⟩ := h.fits hr
        exact ⟨h1, h2.trans (le_of_eq hp.maxBytes)⟩
  · simp only [Bool.not_eq_true] at hfits
    simp only [hfits, Bool.not_false, if_true]
    exact ⟨.refl hl hw, by simp⟩

theorem reserve_reserved (contentBytes metadataBytes : ℤ) (o : ReserveOutcome) :
    Reserved s (s.reserve contentBytes metadataBytes o).1
      (s.reserve contentBytes metadataBytes o).2 := by
  unfold reserve
  by_cases hvalid : (!validBytes contentBytes || !validBytes metadataBytes) = true
  · rw [if_pos hvalid]
    exact ⟨.refl hl hw, by simp⟩
  rw [if_neg hvalid]
  have hb : 0 ≤ contentBytes + metadataBytes := by
    simp [validBytes] at hvalid
    omega
  rcases hadd : checkedAdd contentBytes metadataBytes with _ | b
  · exact ⟨.refl hl hw, by simp⟩
  · obtain rfl : contentBytes + metadataBytes = b := by
      unfold checkedAdd at hadd
      split_ifs at hadd
      exact Option.some.inj hadd
    dsimp only
    by_cases hneeds : s.needsReconcile = true
    · rw [if_pos hneeds]
      have hrec := reconcile_spec hl hw o.reconcile
      rcases heq : s.reconcileExactUsageUnlocked o.reconcile with ⟨s₁, _ | v⟩
      · rw [heq] at hrec
        exact ⟨⟨hrec.ledger, hrec.within, fun _ => hrec.covered,
          fun _ => hrec.persisted (Or.inl hneeds)⟩, by simp⟩
      · rw [heq] at hrec
        have h := publishReservation_reserved hrec.ledger hrec.within hb (hrec.done (by simp)).1 o
        refine ⟨⟨h.keeps.ledger, h.keeps.within, ?_, ?_⟩, ?_⟩
        · exact fun _ hc => h.keeps.covered trivial (hrec.covered hc)
        · exact fun _ hp => h.keeps.persisted trivial (hrec.persisted (Or.inl hneeds) hp)
        · intro hr
          obtain ⟨h1, h2⟩ := h.fits hr
          exact ⟨h1, h2.trans (le_of_eq hrec.maxBytes)⟩
    · rw [if_neg hneeds]
      exact publishReservation_reserved hl hw hb (by simpa using hneeds) o

end

theorem publish_resolve {s₁ : SnapshotQuotaAccounting} {i : ReservationId}
    (h : s.resolveReservation i = some s₁) (v : ℤ) (o : PublishOutcome) :
    (s.publishMeasuredBytes v o).1.resolveReservation i =
        some (s₁.publishMeasuredBytes v o).1 ∧
      (s.publishMeasuredBytes v o).2 = (s₁.publishMeasuredBytes v o).2 := by
  unfold resolveReservation at h
  split_ifs at h with hi
  obtain rfl := Option.some.inj h
  unfold publishMeasuredBytes
  split_ifs <;> simp_all [resolveReservation, updateReservation]

theorem settle_keeps (hl : Ledger s) {i : ReservationId} (hi : i ∈ s.activeReservations)
    (hw : ∀ j, j ∈ s.activeReservations → j ≠ i →
      (s.reservations j).written ≤ (s.reservations j).reservedBytes)
    {v : ℤ} (hv : s.measuredBytes - (s.reservations i).reservedBytes ≤ v) {clean : Prop}
    (hclean : clean → s.demand ≤ s.measuredBytes →
      s.demand - ((s.reservations i).reservedBytes - (s.reservations i).written) ≤ v)
    (o : PublishOutcome) :
    Keeps s
      (match s.publishMeasuredBytes v o with
      | (s, true) => (s.resolveReservation i).getD s
      | (s, false) => { (s.resolveReservation i).getD s with needsReconcile := true })
      clean True := by
  obtain ⟨s₁, heq, hres⟩ := resolve_spec hl hi hw
  obtain ⟨hcomm, hflag⟩ := publish_resolve heq v o
  rcases hpub : s.publishMeasuredBytes v o with ⟨s₂, b⟩
  rw [hpub] at hcomm hflag
  have hmeasured := hl.measured
  rcases publish_spec hres.ledger hres.within v o with ⟨s₃, heq₃, hp⟩ | ⟨s₃, heq₃, hp⟩
  · rw [heq₃] at hcomm hflag
    dsimp only at hcomm hflag
    subst hflag
    simp only [hcomm, Option.getD_some]
    refine ⟨hp.ledger ?_, hp.within, ?_, ?_⟩
    · rw [hres.activeReservedBytes]
      omega
    · intro hc hcov hn
      rw [hp.needsReconcile, hres.needsReconcile] at hn
      rw [hp.demand, hres.demand, hp.measuredBytes]
      exact hclean hc (hcov hn)
    · intro _ _ _
      rw [hp.file, hp.measuredBytes]
  · rw [heq₃] at hcomm hflag
    dsimp only at hcomm hflag
    subst hflag
    simp only [hcomm, Option.getD_some]
    exact (Keeps.flag hp.ledger hp.within).weaken (fun _ => trivial) fun _ => trivial

end SnapshotQuota

import Crest.SnapshotQuotaSafety

/-!
# The guarantee of the snapshot quota accounting

`Clean` and `Lossless` name the two steps that escape the accounting.  A run of
clean steps never under-counts, a run of lossless steps never loses the state
file, and the ledger holds whatever happens.
-/

namespace SnapshotQuota

open SnapshotQuotaAccounting Finset

variable {s s' : SnapshotQuotaAccounting}

/-- A release that does not measure gives back a reservation nothing was written
under. -/
def Clean (s : SnapshotQuotaAccounting) : Event → Prop
  | .release i _ =>
    (s.reservations i).status = .active → s.needsReconcile = false →
      (s.reservations i).needsExactSettlement = false → (s.reservations i).written = 0
  | _ => True

/-- An exact reconciliation that starts while none is due does not throw after
its file was replaced. -/
def Lossless (s : SnapshotQuotaAccounting) : Event → Prop
  | .reconcileExactUsage o => s.needsReconcile = false → ¬ Lossy o
  | .release i o =>
    (s.reservations i).status = .active → s.needsReconcile = false →
      (s.reservations i).needsExactSettlement = true → ¬ Lossy o.reconcile
  | _ => True

instance (s : SnapshotQuotaAccounting) : ∀ e, Decidable (Clean s e)
  | .release _ _ => inferInstanceAs (Decidable (_ → _ → _ → _))
  | .store _ | .reserve _ _ _ | .commit _ _ _ | .invalidate _ | .replaceExactUsage _
  | .markNeedsReconcile | .refreshAfterStoreOpen _ _ | .reconcileExactUsage _ =>
    inferInstanceAs (Decidable True)

instance (s : SnapshotQuotaAccounting) : ∀ e, Decidable (Lossless s e)
  | .release _ _ => inferInstanceAs (Decidable (_ → _ → _ → _))
  | .reconcileExactUsage _ => inferInstanceAs (Decidable (_ → _))
  | .store _ | .reserve _ _ _ | .commit _ _ _ | .invalidate _ | .replaceExactUsage _
  | .markNeedsReconcile | .refreshAfterStoreOpen _ _ => inferInstanceAs (Decidable True)

section

variable (hl : Ledger s) (hw : Within s)
include hl hw

theorem commit_keeps (i : ReservationId) (extra : Nat) (o : SettleOutcome) :
    Keeps s (s.commitReservation i extra o) True True := by
  unfold commitReservation
  by_cases hvalid : (!validBytes ((s.reservations i).written + extra)) = true
  · rw [if_pos hvalid]
    exact .refl hl hw
  rw [if_neg hvalid]
  by_cases hres : (s.reservations i).status = .resolved
  · rw [if_pos hres]
    exact .refl hl hw
  rw [if_neg hres]
  have hi : i ∈ s.activeReservations := by
    rw [hl.status]
    cases h : (s.reservations i).status with
    | active => rfl
    | resolved => exact absurd h hres
  have hl₁ := hl.writeUnder (i := i) extra
  have hdemand := demand_writeUnder hi extra
  have hw₁ : ∀ j, j ∈ (s.writeUnder i extra).activeReservations → j ≠ i →
      ((s.writeUnder i extra).reservations j).written ≤
        ((s.writeUnder i extra).reservations j).reservedBytes := by
    intro j hj hji
    simpa [SnapshotQuotaAccounting.writeUnder, updateReservation, hji] using hw j hj
  have hwritten : 0 ≤ ((s.writeUnder i extra).reservations i).written :=
    hl₁.written_nonneg i hi
  dsimp only
  split_ifs with hslow
  · obtain ⟨s₂, heq, h⟩ := resolve_spec hl₁ hi hw₁
    rw [heq]
    exact .flag_reconcile h.ledger h.within o.reconcile
  · have hclean (_ : True)
        (hd : (s.writeUnder i extra).demand ≤ (s.writeUnder i extra).measuredBytes) :
        (s.writeUnder i extra).demand -
            (((s.writeUnder i extra).reservations i).reservedBytes -
              ((s.writeUnder i extra).reservations i).written) ≤
          (s.writeUnder i extra).measuredBytes -
            ((s.writeUnder i extra).reservations i).reservedBytes +
              ((s.writeUnder i extra).reservations i).written := by
      omega
    have h := settle_keeps hl₁ hi hw₁ (by omega) hclean o.publish
    refine ⟨h.ledger, h.within, fun _ hc => h.covered trivial ?_, fun _ => h.persisted trivial⟩
    intro hn
    rw [hdemand]
    exact hc hn

theorem release_keeps (i : ReservationId) (o : SettleOutcome) :
    Keeps s (s.releaseReservation i o) (Clean s (.release i o)) (Lossless s (.release i o)) := by
  unfold releaseReservation
  by_cases hres : (s.reservations i).status = .resolved
  · rw [if_pos hres]
    exact (Keeps.refl hl hw).weaken (fun _ => trivial) fun _ => trivial
  rw [if_neg hres]
  have hact : (s.reservations i).status = .active := by
    cases h : (s.reservations i).status with
    | active => rfl
    | resolved => exact absurd h hres
  have hi : i ∈ s.activeReservations := (hl.status i).2 hact
  have hbound := hw i hi
  have hnonneg := hl.written_nonneg i hi
  split_ifs with hslow
  · obtain ⟨s₂, heq, h⟩ := resolve_spec hl hi fun j hj _ => hw j hj
    rw [heq]
    have hrec := reconcile_spec h.ledger h.within o.reconcile
    refine ⟨hrec.ledger, hrec.within, ?_, ?_⟩
    · intro _ hc
      refine hrec.covered fun hn => ?_
      rw [h.needsReconcile] at hn
      have hd := hc hn
      rw [h.demand, h.measuredBytes]
      omega
    · intro hloss hp
      refine hrec.persisted ?_ fun hn => ?_
      · rw [h.needsReconcile]
        by_cases hn : s.needsReconcile = true
        · exact Or.inl hn
        · have hexact : (s.reservations i).needsExactSettlement = true := by
            simpa [hn] using hslow
          exact Or.inr (hloss hact (by simpa using hn) hexact)
      · rw [h.needsReconcile] at hn
        rw [h.file, h.measuredBytes]
        exact hp hn
  · rw [Bool.or_eq_true, not_or, Bool.not_eq_true, Bool.not_eq_true] at hslow
    refine (settle_keeps hl hi (fun j hj _ => hw j hj) (le_refl _) ?_ o.publish).weaken
      (fun h => h) fun _ => trivial
    intro hclean hd
    have h0 := hclean hact hslow.1 hslow.2
    omega

theorem invalidate_keeps (i : ReservationId) :
    Keeps s (s.invalidateReservation i) True True := by
  unfold invalidateReservation
  split_ifs with hres
  · exact .refl hl hw
  · have hi : i ∈ s.activeReservations := by
      rw [hl.status]
      cases h : (s.reservations i).status with
      | active => rfl
      | resolved => exact absurd h hres
    obtain ⟨s₂, heq, h⟩ := resolve_spec hl hi fun j hj _ => hw j hj
    rw [heq]
    exact .flag h.ledger h.within

theorem replaceExactUsage_keeps (o : SettleOutcome) :
    Keeps s (s.replaceExactUsage o) True True := by
  unfold replaceExactUsage
  split_ifs with hvalid
  · exact .refl hl hw
  have hq := mark_quiet hl hw
  have husage : s.markActiveReservationsForExactSettlement.usage = s.usage := rfl
  dsimp only
  generalize s.markActiveReservationsForExactSettlement = s₁ at *
  rcases hadd : checkedAdd s.usage s₁.activeReservedBytes with _ | total
  · exact .flag_reconcile hq.ledger hq.within o.reconcile
  · have htotal : total = s₁.usage + s₁.activeReservedBytes := by
      unfold checkedAdd at hadd
      split_ifs at hadd
      rw [husage]
      exact (Option.some.inj hadd).symm
    have hnonneg := hl.usage_nonneg
    have hd := demand_le hq.ledger
    dsimp only
    rcases publish_spec hq.ledger hq.within total o.publish with ⟨s₂, heq, hp⟩ | ⟨s₂, heq, hp⟩
    · rw [heq]
      refine ⟨{ hp.ledger (by omega) with }, hp.within, ?_, ?_⟩
      · intro _ _ _
        have : s₂.demand ≤ s₂.measuredBytes := by
          rw [hp.demand, hp.measuredBytes]
          omega
        exact this
      · intro _ _ _
        have : s₂.file.map StateFile.measuredbytes = some s₂.measuredBytes := by
          rw [hp.file, hp.measuredBytes]
        exact this
    · rw [heq]
      exact .flag_reconcile hp.ledger hp.within o.reconcile

theorem refresh_keeps (reads : Bool) (o : ReconcileOutcome) :
    Keeps s (s.refreshAfterStoreOpen reads o) True True := by
  unfold refreshAfterStoreOpen
  split_ifs with hreads hsame
  · exact .refl hl hw
  · exact ⟨{ hl with }, hw, fun _ h => h, fun _ h => h⟩
  · have hl' : Ledger { s with stateEntry := s.file.map StateFile.entry } := { hl with }
    exact .flag_reconcile hl' hw o

theorem step_keeps (e : Event) :
    Keeps s (step s e) (Clean s e) (Lossless s e) := by
  cases e with
  | store a =>
    have h := storeActivity_quiet hl hw a
    have hf : (s.storeActivity a).file = s.file := storeActivities_file s [a]
    have hr : Reconciled s (s.storeActivity a) none {} := h.reconciled hf
    exact ⟨h.ledger, h.within, fun _ => hr.covered, fun _ => hr.persisted (Or.inr (by decide))⟩
  | reserve c m o =>
    exact (reserve_reserved hl hw c m o).keeps.weaken (fun _ => trivial) fun _ => trivial
  | commit i extra o =>
    exact (commit_keeps hl hw i extra o).weaken (fun _ => trivial) fun _ => trivial
  | release i o => exact release_keeps hl hw i o
  | invalidate i => exact (invalidate_keeps hl hw i).weaken (fun _ => trivial) fun _ => trivial
  | replaceExactUsage o =>
    exact (replaceExactUsage_keeps hl hw o).weaken (fun _ => trivial) fun _ => trivial
  | markNeedsReconcile =>
    exact (Keeps.flag hl hw).weaken (fun _ => trivial) fun _ => trivial
  | refreshAfterStoreOpen reads o =>
    exact (refresh_keeps hl hw reads o).weaken (fun _ => trivial) fun _ => trivial
  | reconcileExactUsage o =>
    have h := reconcile_spec hl hw o
    refine ⟨h.ledger, h.within, fun _ => h.covered, fun hloss => h.persisted ?_⟩
    by_cases hn : s.needsReconcile = true
    · exact Or.inl hn
    · exact Or.inr (hloss (by simpa using hn))

end

theorem open_spec {maxBytes : ℤ} {usage : Nat} {stored : Option StoredQuotaState}
    {o : ReconcileOutcome} (hopen : openAccounting maxBytes usage stored o = some s)
    (hstored : ∀ v, stored = some ⟨true, v⟩ → usage ≤ v) :
    Ledger s ∧ Within s ∧ Covered s ∧ Persisted s := by
  unfold openAccounting at hopen
  split_ifs at hopen with hmax
  have hmax' : maxBytes ≤ maxSafeInteger := by
    simp [validBytes] at hmax
    omega
  dsimp only at hopen
  split at hopen
  · rename_i v
    split_ifs at hopen with hv
    obtain rfl := Option.some.inj hopen
    have hv' : 0 ≤ v ∧ v ≤ maxSafeInteger := by simpa [validBytes] using hv
    refine ⟨by constructor <;> simp [hv', hmax'], by simp [Within], ?_, fun _ => rfl⟩
    intro _
    simpa [demand, unwritten] using hstored v rfl
  · have hrec := reconcile_spec
      (s :=
        { maxBytes := maxBytes, usage := usage, nextEntry := 1
          file := stored.map fun state => ⟨0, state.measuredbytes⟩
          stateEntry := stored.map fun _ => 0 })
      (by constructor <;> simp [hmax', show (0 : ℤ) ≤ maxSafeInteger by decide])
      (by simp [Within]) o
    split at hopen
    · rename_i heq
      rw [heq] at hrec
      obtain rfl := Option.some.inj hopen
      obtain ⟨-, h1, h2⟩ := hrec.done (by simp)
      exact ⟨hrec.ledger, hrec.within, fun _ => h1, fun _ => h2⟩
    · exact absurd hopen (by simp)

section

variable (hl : Ledger s) (hw : Within s)
include hl hw

theorem run_ledger (es : List Event) :
    Ledger (runEvents s es) ∧ Within (runEvents s es) :=
  Runs.run_invariant step (fun s => Ledger s ∧ Within s)
    (fun _ e h => ⟨(step_keeps h.1 h.2 e).ledger, (step_keeps h.1 h.2 e).within⟩) ⟨hl, hw⟩ es

theorem run_covered (hc : Covered s) {es : List Event} (hclean : Runs.Guarded step Clean s es) :
    Covered (runEvents s es) :=
  (Runs.guarded_invariant step (fun s => Ledger s ∧ Within s ∧ Covered s) Clean
    (fun _ e h hok => ⟨(step_keeps h.1 h.2.1 e).ledger, (step_keeps h.1 h.2.1 e).within,
      (step_keeps h.1 h.2.1 e).covered hok h.2.2⟩) ⟨hl, hw, hc⟩ es hclean).2.2

theorem run_persisted (hp : Persisted s) {es : List Event}
    (hlossless : Runs.Guarded step Lossless s es) :
    Persisted (runEvents s es) :=
  (Runs.guarded_invariant step (fun s => Ledger s ∧ Within s ∧ Persisted s) Lossless
    (fun _ e h hok => ⟨(step_keeps h.1 h.2.1 e).ledger, (step_keeps h.1 h.2.1 e).within,
      (step_keeps h.1 h.2.1 e).persisted hok h.2.2⟩) ⟨hl, hw, hp⟩ es hlossless).2.2

end

/-- **The snapshot quota never under-counts.**  In every run of an opened
accounting the active bytes are the sum of the active reservations, no published
value is negative and no reservation leaves the active set twice.  If every
release that does not measure gives back an unwritten reservation, the measured
bytes bound the demand whenever no reconciliation is due, and a successful
`reserve` leaves the demand within `maxBytes`.  If no exact reconciliation that
was not due throws after its file was replaced, the file records the measured
bytes whenever no reconciliation is due. -/
theorem snapshot_quota_never_undercounts (maxBytes : ℤ) (usage : Nat)
    (stored : Option StoredQuotaState) (o : ReconcileOutcome) (s₀ : SnapshotQuotaAccounting)
    (hopen : openAccounting maxBytes usage stored o = some s₀)
    (hstored : ∀ v, stored = some ⟨true, v⟩ → usage ≤ v) (es : List Event) :
    let s := runEvents s₀ es
    s.activeReservedBytes = ∑ i ∈ s.activeReservations, (s.reservations i).reservedBytes ∧
    (∀ v, v ∈ s.published → 0 ≤ v) ∧
    s.resolutions.Nodup ∧
    (Runs.Guarded step Clean s₀ es →
      (s.needsReconcile = false → s.demand ≤ s.measuredBytes) ∧
      ∀ contentBytes metadataBytes o' i s',
        s.reserve contentBytes metadataBytes o' = (s', some i) → s'.demand ≤ s.maxBytes) ∧
    (Runs.Guarded step Lossless s₀ es →
      s.needsReconcile = false →
        s.file.map StateFile.measuredbytes = some s.measuredBytes) := by
  intro s
  obtain ⟨hl₀, hw₀, hc₀, hp₀⟩ := open_spec hopen hstored
  obtain ⟨hl, hw⟩ := run_ledger hl₀ hw₀ es
  refine ⟨hl.sum, hl.published_nonneg, hl.resolutions_nodup, ?_, run_persisted hl₀ hw₀ hp₀⟩
  intro hclean
  have hc := run_covered hl₀ hw₀ hc₀ hclean
  refine ⟨hc, ?_⟩
  intro contentBytes metadataBytes o' i s' hreserve
  have h := reserve_reserved hl hw contentBytes metadataBytes o'
  rw [show runEvents s₀ es = s from rfl, hreserve] at h
  obtain ⟨hn, hfits⟩ := h.fits (by simp)
  exact (h.keeps.covered trivial hc hn).trans hfits

/-- Two sessions reserve, one commits what it wrote, the other releases. -/
theorem snapshot_quota_never_undercounts_two_writers :
    ∃ s₀, openAccounting 1000 200 none {} = some s₀ ∧
      (runEvents s₀
        [.reserve 400 0 {}, .reserve 300 0 {}, .store (.write 0 100), .commit 0 0 {},
          .release 1 {}]).demand ≤ 300 := by
  refine ⟨_, rfl, ?_⟩
  have h := (snapshot_quota_never_undercounts 1000 200 none {} _ rfl (by simp)
    [.reserve 400 0 {}, .reserve 300 0 {}, .store (.write 0 100), .commit 0 0 {},
      .release 1 {}]).2.2.2.1 (by decide)
  exact (h.1 (by decide)).trans (by decide)

/-- The store writes under a reservation that is then released, so the measured
bytes fall below the usage; and an exact reconciliation that was not due loses
its acknowledgement, so the file differs from memory. -/
theorem snapshot_quota_escapes :
    ∃ s₀, openAccounting 1000 200 none {} = some s₀ ∧
      (let s := runEvents s₀ [.reserve 400 0 {}, .store (.write 0 100), .release 0 {}]
       s.needsReconcile = false ∧ s.measuredBytes < s.demand) ∧
      (let s := runEvents s₀
        [.store (.delete 50), .reconcileExactUsage { publish := .throwsAfter }]
       s.needsReconcile = false ∧ s.file.map StateFile.measuredbytes ≠ some s.measuredBytes) := by
  refine ⟨_, rfl, ?_, ?_⟩ <;> decide

end SnapshotQuota

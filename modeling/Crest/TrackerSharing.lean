import Crest.TrackerInvariant

/-!
# Sessions share the trackers of a workspace

Each event keeps the invariant, so it holds however the calls of `acquire` and `release`, the
timers, the initializations and the disposals interleave.  What it says of the entries gives the
guarantees that the sessions rely on.
-/

namespace TrackerRegistry

open Slots

open WorkspaceTrackerRegistry

variable {ρ : Type}
variable {registry : WorkspaceTrackerRegistry ρ}
variable {e : EntryId}
variable {entry : WorkspaceTrackerRegistryEntry ρ}
variable {i : Nat}
variable {d : DisposalId}

theorem Inv.rest (h : Inv registry (some e)) (hentry : registry.objects[e]? = some entry)
    (hrest : registry.entries.get entry.key = some e → entry.refCount = 0 →
      (∃ resource, entry.initialization = .fulfilled resource) ∧
        (entry.idleDisposalTimer ≠ none ∨ entry.disposal ≠ none)) :
    Inv registry none := by
  refine ⟨h.mapped, h.acquired, h.scheduled, ?_⟩
  intro other entry' hother
  have hold := h.objects other entry' hother
  by_cases hsame : other = e
  · subst hsame
    rw [hentry, Option.some.injEq] at hother
    subst hother
    refine ⟨hold.counted, hold.kept, fun _ hmapped hzero => (hrest hmapped hzero).1, hold.unheld,
      hold.timer, hold.active, hold.known, hold.deleted, fun _ hmapped hzero => ?_⟩
    rcases (hrest hmapped hzero).2 with htimer | hdisposal
    · exact .inl htimer
    · exact .inr (.inl hdisposal)
  · exact hold.mono fun _ heq => hsame (Option.some.inj heq).symm

theorem disposeEntry_acquires (key : JsString) (e : EntryId) :
    (registry.disposeEntry key e).1.acquires = registry.acquires := by
  rw [disposeEntry]
  split <;> rfl

theorem Inv.disposeEntry (h : Inv registry (some e))
    (hentry : registry.objects[e]? = some entry) (hzero : entry.refCount = 0)
    (hresource : ∃ resource, entry.initialization = .fulfilled resource) :
    Inv (registry.disposeEntry entry.key e).1 none := by
  have hok := h.objects e entry hentry
  have hheld : registry.objects[e]?.bind (·.disposal) = entry.disposal := by
    rw [hentry]
    rfl
  rw [WorkspaceTrackerRegistry.disposeEntry, hheld]
  cases hdisposal : entry.disposal with
  | some disposal =>
    refine h.rest hentry fun _ _ => ⟨hresource, .inr ?_⟩
    rw [hdisposal]
    simp
  | none =>
    have hdisposed : ∀ {other : EntryId} {d : DisposalId} {stage : Stage},
        (∃ key, (registry.disposals ++ [⟨entry.key, e, .scheduled⟩])[d]? = some ⟨key, other, stage⟩) ↔
          registry.Disposes other d stage ∨
            d = registry.disposals.length ∧ other = e ∧ stage = .scheduled := by
      intro other d stage
      simp only [getElem?_concat_iff, Disposal.mk.injEq, exists_or, exists_and_left,
        exists_eq_left', Disposes, eq_comm (a := e), eq_comm (a := Stage.scheduled)]
    refine h.update (by simp [eq_comm]) hentry (modifyEntry_self hentry _)
      (fun other hother => registry.modifyEntry_other hother _) ⟨rfl, fun _ hresource => hresource⟩
      (.refl _ _) (fun _ _ => rfl) ?_ h.acquired ?_ (hok.schedule hzero hresource hdisposal ?_)
    · intro other d stage hother
      exact hdisposed.trans (or_iff_left fun hnew => hother hnew.2.1)
    · intro d disposal hdisposal
      rcases getElem?_concat_iff.mp hdisposal with hold | ⟨-, rfl⟩
      · exact h.scheduled d disposal hold
      · exact ⟨entry, hentry, rfl⟩
    · intro other stage
      refine hdisposed.trans (or_comm.trans (or_congr_left ?_))
      simp only [true_and]

theorem Inv.holders_eq_zero {focus : Option EntryId} (h : Inv registry focus)
    (hnone : registry.objects[e]? = none) :
    registry.holders e = 0 := by
  rw [holders, List.countP_eq_zero]
  intro acquire hacquire hholds
  obtain ⟨i, hi⟩ := List.getElem?_of_mem hacquire
  have hok := h.acquired i acquire hi
  cases acquire with
  | initializing key other =>
    obtain ⟨entry, hentry, -⟩ := hok
    have hsame : other = e := by simpa [Acquire.holds] using hholds
    rw [hsame, hnone] at hentry
    exact absurd hentry (by simp)
  | leased lease =>
    obtain ⟨entry, hentry, -⟩ := hok
    have hsame : lease.entry = e := by
      simp only [Acquire.holds, Bool.and_eq_true, beq_iff_eq] at hholds
      exact hholds.1
    rw [hsame, hnone] at hentry
    exact absurd hentry (by simp)
  | running | disposing _ _ _ | rejected => simp [Acquire.holds] at hholds

theorem Inv.makeEntry (h : Inv registry none) (binding : WorkspaceTrackerRegistryBinding)
    (hget : registry.entries.get binding.identity.key = none) :
    Inv { registry with
        objects := registry.objects ++ [WorkspaceTrackerRegistry.makeEntry binding]
        entries := registry.entries.set binding.identity.key registry.objects.length }
      (some registry.objects.length) := by
  have hnone : registry.objects[registry.objects.length]? = none := by simp
  have hback : ∀ {other : Nat} {entry : WorkspaceTrackerRegistryEntry ρ},
      registry.objects[other]? = some entry →
        (registry.objects ++ [WorkspaceTrackerRegistry.makeEntry binding])[other]? =
          some entry :=
    fun hentry => getElem?_concat_iff.mpr (.inl hentry)
  refine ⟨?_, fun i acquire hacquire => (h.acquired i acquire hacquire).transfer
    fun other entry hentry => ⟨entry, hback hentry, .refl entry⟩, ?_, ?_⟩
  · intro key other hother
    rw [JsMap.get_set] at hother
    split at hother
    · rename_i hkey
      rw [Option.some.injEq] at hother
      subst hother
      refine ⟨WorkspaceTrackerRegistry.makeEntry binding, by simp, ?_⟩
      exact hkey.symm
    · obtain ⟨entry, hentry, hkey⟩ := h.mapped key other hother
      exact ⟨entry, hback hentry, hkey⟩
  · intro d disposal hdisposal
    obtain ⟨entry, hentry, hkey⟩ := h.scheduled d disposal hdisposal
    exact ⟨entry, hback hentry, hkey⟩
  · intro other entry hother
    rcases getElem?_concat_iff.mp hother with hother | ⟨hsame, hmade⟩
    · have hlt := (List.getElem?_eq_some_iff.mp hother).1
      have hold := h.objects other entry hother
      have hmapped : ((registry.entries.set binding.identity.key registry.objects.length).get
          entry.key = some other) = (registry.entries.get entry.key = some other) := by
        rw [JsMap.get_set]
        split
        · rename_i hkey
          rw [hkey, hget]
          refine propext ⟨fun heq => ?_, fun heq => absurd heq (by simp)⟩
          exact absurd (Option.some.inj heq) (Nat.ne_of_gt hlt)
        · rfl
      show EntryOk entry ((registry.entries.set binding.identity.key registry.objects.length).get
        entry.key = some other) (registry.holders other) (registry.Disposes other) _
      rw [hmapped]
      exact hold.mono fun _ => by simp
    · subst hsame hmade
      have hunheld : ∀ d stage, ¬ registry.Disposes registry.objects.length d stage := by
        intro d stage hdisposes
        obtain ⟨key, hkey⟩ := hdisposes
        obtain ⟨entry, hentry, -⟩ := h.scheduled d _ hkey
        exact absurd (hentry.symm.trans hnone) (by simp)
      show EntryOk _ ((registry.entries.set binding.identity.key registry.objects.length).get
        binding.identity.key = some registry.objects.length)
        (registry.holders registry.objects.length)
        (registry.Disposes registry.objects.length) _
      rw [h.holders_eq_zero hnone, JsMap.get_set, if_pos rfl]
      exact ⟨rfl, .inl rfl, fun hat => absurd rfl hat,
        fun d stage hdisposes => absurd hdisposes (hunheld d stage),
        fun _ hkey => absurd hkey (by simp [WorkspaceTrackerRegistry.makeEntry]),
        fun d stage hdisposes => absurd hdisposes (hunheld d stage),
        fun _ hknown => absurd hknown (by simp [WorkspaceTrackerRegistry.makeEntry]),
        fun d hdisposes => absurd hdisposes (hunheld d _), fun hat => absurd rfl hat⟩

section Calls

variable {focus : Option EntryId}
variable {before : Acquire ρ}

theorem Inv.join (h : Inv registry focus) (hfocus : ∀ other, focus = some other → other = e)
    (hentry : registry.objects[e]? = some entry)
    (hbefore : registry.acquires[i]? = some before) (hnot : ∀ e, before.holds e = false)
    (hmapped : registry.entries.get entry.key = some e)
    (hunheld : ∀ d stage, ¬ registry.Disposes e d stage)
    (htimer : entry.idleDisposalTimer = none) :
    Inv (registry.join i entry.key e) none := by
  have hcount := registry.holders_setAcquire hbefore (.initializing entry.key e) e
  rw [hnot e] at hcount
  simp only [Acquire.holds, beq_self_eq_true, if_true, Bool.false_eq_true, if_false,
    Nat.add_zero] at hcount
  have hacquire : AcquireOk registry (.initializing entry.key e) := ⟨entry, hentry, rfl⟩
  refine h.modifySet hfocus hentry hbefore hacquire ?_ ⟨rfl, fun _ hresource => hresource⟩
    (.refl _ _) ?_
  · intro other hother
    rw [hnot other]
    simpa [Acquire.holds] using Ne.symm hother
  · rw [hcount]
    exact (h.objects e entry hentry).join hmapped hunheld htimer

theorem Inv.acquireLoop (h : Inv registry none)
    (hbefore : registry.acquires[i]? = some before) (hnot : ∀ e, before.holds e = false)
    (binding : WorkspaceTrackerRegistryBinding) :
    Inv (registry.acquireLoop i binding.identity.key binding) none := by
  rw [WorkspaceTrackerRegistry.acquireLoop]
  cases hget : registry.entries.get binding.identity.key with
  | none =>
    have hmade := h.makeEntry binding hget
    have hentry : (registry.objects ++ [WorkspaceTrackerRegistry.makeEntry binding])[
        registry.objects.length]? = some (WorkspaceTrackerRegistry.makeEntry binding) := by
      simp
    refine hmade.join (by simp [eq_comm]) hentry hbefore hnot ?_ ?_ rfl
    · show (registry.entries.set binding.identity.key registry.objects.length).get
        binding.identity.key = _
      rw [JsMap.get_set, if_pos rfl]
    · intro d stage hdisposes
      obtain ⟨key, hkey⟩ := hdisposes
      obtain ⟨entry, hentry, -⟩ := h.scheduled d _ hkey
      simp at hentry
  | some e =>
    obtain ⟨entry, hentry, hkey⟩ := h.mapped _ e hget
    have hok := h.objects e entry hentry
    have hmapped : registry.entries.get entry.key = some e := by rw [hkey, hget]
    dsimp only
    rw [hentry]
    dsimp only
    split
    · exact h.setAcquire hbefore trivial fun e => (hnot e).symm
    split
    · rename_i hzero
      rw [beq_iff_eq] at hzero
      cases hdisposal : entry.disposal with
      | some disposal => exact h.setAcquire hbefore rfl fun e => (hnot e).symm
      | none =>
        dsimp only
        cases htimer : entry.idleDisposalTimer with
        | some key =>
          obtain ⟨-, -, -, hunheld⟩ := hok.timer key htimer
          have hstopped : Inv (registry.modifyEntry e fun entry =>
              { entry with idleDisposalTimer := none }) (some e) :=
            h.modifyEntry (by simp) hentry ⟨rfl, fun _ hresource => hresource⟩
              (hok.stopTimer.mono fun hat => hat rfl)
          have hentry' := modifyEntry_self hentry fun entry =>
            { entry with idleDisposalTimer := none }
          have hjoined := hstopped.join (by simp [eq_comm]) hentry' hbefore hnot hmapped hunheld rfl
          rw [← hkey]
          exact hjoined
        | none =>
          have hresource := hok.ready (by simp) hmapped hzero
          have hlooked : Inv registry (some e) := h.mono fun _ _ => by simp
          have hdisposed := hlooked.disposeEntry hentry hzero hresource
          rw [← hkey]
          refine hdisposed.setAcquire ?_ hkey fun e => (hnot e).symm
          rw [disposeEntry_acquires]
          exact hbefore
    · rename_i hzero
      rw [beq_iff_eq] at hzero
      have hunheld : ∀ d stage, ¬ registry.Disposes e d stage :=
        fun d stage hdisposes => hzero (hok.unheld d stage hdisposes).1
      have htimer : entry.idleDisposalTimer = none := by
        cases htimer : entry.idleDisposalTimer with
        | none => rfl
        | some key => exact absurd (hok.timer key htimer).2.1 hzero
      rw [← hkey]
      exact h.join (by simp) hentry hbefore hnot hmapped hunheld htimer

theorem Inv.acquire (h : Inv registry none) (resolve : JsString → JsString)
    (input : WorkspaceTrackerAcquireInput) :
    Inv (registry.acquire resolve input) none := by
  have hcalled : Inv { registry with acquires := registry.acquires ++ [Acquire.running] } none := by
    refine ⟨h.mapped, ?_, h.scheduled, ?_⟩
    · intro j acquire hacquire
      rcases getElem?_concat_iff.mp hacquire with hold | ⟨-, rfl⟩
      · exact (h.acquired j acquire hold).transfer fun e entry hentry =>
          ⟨entry, hentry, .refl entry⟩
      · trivial
    · intro e entry hentry
      have hsame : holders { registry with acquires := registry.acquires ++ [Acquire.running] } e =
          registry.holders e := by
        simp [holders, Acquire.holds]
      rw [hsame]
      exact h.objects e entry hentry
  have hcall : (registry.acquires ++ [Acquire.running])[registry.acquires.length]? =
      some Acquire.running := by
    simp
  exact hcalled.acquireLoop hcall (fun _ => rfl) (makeBinding resolve input)

theorem Inv.resume (h : Inv registry none) (i : Nat) : Inv (registry.resume i) none := by
  rw [WorkspaceTrackerRegistry.resume]
  cases hacquire : registry.acquires[i]? with
  | none => exact h
  | some acquire =>
    have hok := h.acquired i acquire hacquire
    cases acquire with
    | running | leased _ | rejected => exact h
    | disposing key binding disposal =>
      dsimp only
      split
      · rw [show key = binding.identity.key from hok]
        exact h.acquireLoop hacquire (fun _ => rfl) binding
      · exact h.setAcquire hacquire trivial fun _ => rfl
      · exact h
    | initializing key e =>
      obtain ⟨entry, hentry, hkey⟩ := hok
      dsimp only [initializationOf]
      rw [hentry]
      dsimp only [Option.map_some]
      cases hinitialization : entry.initialization with
      | opening | sourcing | cleanup => exact h
      | fulfilled resource =>
        refine h.setAcquire hacquire ⟨entry, hentry, hkey, hinitialization⟩ fun other => ?_
        simp [Acquire.holds]
      | rejected =>
        dsimp only
        have hentries : ∀ entries : JsMap JsString EntryId,
            Leaves e registry.entries entries →
            entries.get entry.key ≠ some e →
            Inv { (registry.modifyEntry e fun entry =>
              { entry with refCount := entry.refCount - 1 }).setAcquire i .rejected with
                entries := entries } none := by
          intro entries hleaves hnot
          have hcount := registry.holders_setAcquire hacquire .rejected e
          simp only [Acquire.holds, beq_self_eq_true, if_true, Bool.false_eq_true, if_false,
            Nat.add_zero] at hcount
          have hrejected : AcquireOk registry Acquire.rejected := trivial
          refine h.modifySet (by simp) hentry hacquire hrejected ?_
            ⟨rfl, fun _ hresource => hresource⟩ hleaves ?_
          · intro other hother
            simpa [Acquire.holds] using Ne.symm hother
          · have hold := h.objects e entry hentry
            rw [← hcount] at hold
            rw [eq_false hnot]
            exact hold.giveUp hinitialization
        split
        · rename_i hmapped
          refine hentries (registry.entries.delete key) (.delete hmapped) ?_
          rw [hkey, JsMap.get_delete, if_pos rfl]
          simp
        · rename_i hmapped
          refine hentries registry.entries (.refl _ _) ?_
          rw [hkey]
          exact hmapped

end Calls

/-- A lease has been released, and its release may be tried again now or when it has failed. -/
def WorkspaceTrackerLease.Retriable (lease : WorkspaceTrackerLease ρ) : Prop :=
  (lease.decremented = true ∧ lease.releasePromise = none) ∨
    ∃ disposal, lease.releasePromise = some (.disposal disposal)

/-- Releases are tried again only in a registry that disposes at once. -/
def Settled (registry : WorkspaceTrackerRegistry ρ) : Prop :=
  ∀ (i : Nat) lease, registry.acquires[i]? = some (.leased lease) → lease.Retriable →
    registry.idleTtlMs ≤ 0

section Releases

theorem releaseEntry_acquires (key : JsString) (e : EntryId) :
    (registry.releaseEntry key e).1.acquires = registry.acquires := by
  rw [releaseEntry]
  split
  · exact disposeEntry_acquires key e
  · split
    · rfl
    · split <;> rfl

theorem Inv.releaseEntry (h : Inv registry (some e))
    (hentry : registry.objects[e]? = some entry) (hzero : entry.refCount = 0)
    (hresource : ∃ resource, entry.initialization = .fulfilled resource)
    (hunheld : 0 < registry.idleTtlMs → ∀ d stage, ¬ registry.Disposes e d stage) :
    Inv (registry.releaseEntry entry.key e).1 none := by
  rw [WorkspaceTrackerRegistry.releaseEntry]
  split
  · exact h.disposeEntry hentry hzero hresource
  · rename_i hidle
    rw [hentry]
    dsimp only
    split
    · rename_i hcondition
      refine h.rest hentry fun hmapped _ => ⟨hresource, ?_⟩
      simp only [hmapped, ne_eq, not_true_eq_false, decide_false, Bool.or_false, Bool.or_eq_true,
        Option.isSome_iff_ne_none] at hcondition
      exact hcondition
    · rename_i hcondition
      have hmapped : registry.entries.get entry.key = some e := by
        by_contra hnot
        exact hcondition (by simp [hnot])
      exact h.modifyEntry (by simp [eq_comm]) hentry
        ⟨rfl, fun _ hresource => hresource⟩ ((h.objects e entry hentry).startTimer hmapped hzero
          hresource (hunheld (by omega)))

theorem Inv.finishRelease {lease : WorkspaceTrackerLease ρ} (h : Inv registry (some lease.entry))
    (hacquire : registry.acquires[i]? = some (.leased lease))
    (hunheld : 0 < registry.idleTtlMs → ∀ d stage, ¬ registry.Disposes lease.entry d stage) :
    Inv (registry.finishRelease i lease) none := by
  have hok := h.acquired i _ hacquire
  obtain ⟨entry, hentry, hkey, hresource⟩ := hok
  have hcounted := (h.objects lease.entry entry hentry).counted
  have hholds : ∀ (promise : Option ReleasePromise) e,
      Acquire.holds e (.leased { lease with releasePromise := promise }) =
        Acquire.holds e (.leased lease) := by
    intro promise e
    rfl
  rw [WorkspaceTrackerRegistry.finishRelease, hentry]
  dsimp only
  split
  · refine (h.rest hentry fun _ hzero => ?_).setAcquire hacquire ⟨entry, hentry, hkey, hresource⟩
      (hholds _)
    omega
  · have hreleased := h.releaseEntry hentry (by omega) ⟨_, hresource⟩ hunheld
    rw [hkey] at hreleased
    have hacquire' : (registry.releaseEntry lease.key lease.entry).1.acquires[i]? =
        some (.leased lease) := by
      rw [releaseEntry_acquires]
      exact hacquire
    have hleased := hreleased.acquired i (.leased lease) hacquire'
    exact hreleased.setAcquire hacquire' hleased (hholds _)

theorem Inv.release (h : Inv registry none) (hsettled : Settled registry) (i : Nat) :
    Inv (registry.release i) none := by
  rw [WorkspaceTrackerRegistry.release]
  cases hacquire : registry.acquires[i]? with
  | none => exact h
  | some acquire =>
    have hok := h.acquired i acquire hacquire
    cases acquire with
    | running | disposing _ _ _ | initializing _ _ | rejected => exact h
    | leased lease =>
      dsimp only
      split
      · exact h
      rename_i hpromise
      rw [letGo]
      split
      · rename_i hdecremented
        have hlease : { lease with decremented := true } = lease := by
          rw [← hdecremented]
        have hlooked : Inv registry (some lease.entry) := h.mono fun _ _ => by simp
        have hidle := hsettled i lease hacquire
          (.inl ⟨hdecremented, by simpa using hpromise⟩)
        rw [hlease]
        exact hlooked.finishRelease hacquire (by omega)
      · rename_i hdecremented
        obtain ⟨entry, hentry, hkey, hresource⟩ := hok
        have hheld := h.objects lease.entry entry hentry
        have hcount := registry.holders_setAcquire hacquire
          (.leased { lease with decremented := true }) lease.entry
        simp only [Acquire.holds, beq_self_eq_true, hdecremented, Bool.not_true, Bool.and_false,
          Bool.not_false, Bool.and_true, Bool.false_eq_true, if_true, if_false,
          Nat.add_zero] at hcount
        rw [← hcount] at hheld
        have hcounted := hheld.counted
        have hunheld : ∀ d stage, ¬ registry.Disposes lease.entry d stage := by
          intro d stage hdisposes
          have hzero := (hheld.unheld d stage hdisposes).1
          omega
        have hleased : AcquireOk registry (.leased { lease with decremented := true }) :=
          ⟨entry, hentry, hkey, hresource⟩
        have hleft : Inv ((registry.modifyEntry lease.entry fun entry =>
            { entry with refCount := entry.refCount - 1 }).setAcquire i
              (.leased { lease with decremented := true })) (some lease.entry) := by
          refine h.modifySet (by simp) hentry hacquire hleased ?_
            ⟨rfl, fun _ hresource => hresource⟩ (.refl _ _) (hheld.letGo.mono fun hat => hat rfl)
          intro other hother
          simp [Acquire.holds, Ne.symm hother]
        refine @Inv.finishRelease _ _ i { lease with decremented := true } hleft ?_
          fun _ => hunheld
        show (registry.acquires.set i _)[i]? = _
        rw [List.getElem?_set_self (List.getElem?_eq_some_iff.mp hacquire).1]

theorem Inv.releaseRejected (h : Inv registry none) (i : Nat) :
    Inv (registry.releaseRejected i) none := by
  rw [WorkspaceTrackerRegistry.releaseRejected]
  split
  · rename_i lease hacquire
    have hok := h.acquired i _ hacquire
    split
    · split
      · exact h.setAcquire hacquire hok fun _ => rfl
      · exact h
    · exact h
  · exact h

end Releases

section Callbacks

theorem Inv.fire (h : Inv registry none) (e : EntryId) : Inv (registry.fire e) none := by
  rw [WorkspaceTrackerRegistry.fire]
  cases hentry : registry.objects[e]? with
  | none => exact h
  | some entry =>
    have hok := h.objects e entry hentry
    dsimp only
    cases htimer : entry.idleDisposalTimer with
    | none => exact h
    | some key =>
      obtain ⟨rfl, hzero, hmapped, -⟩ := hok.timer key htimer
      have hstopped : Inv (registry.modifyEntry e fun entry =>
          { entry with idleDisposalTimer := none }) (some e) :=
        h.modifyEntry (by simp) hentry ⟨rfl, fun _ hresource => hresource⟩
          (hok.stopTimer.mono fun hat => hat rfl)
      have hentry' := modifyEntry_self hentry fun entry =>
        { entry with idleDisposalTimer := none }
      have hcondition : ¬ (decide (0 < entry.refCount) ||
          decide (registry.entries.get entry.key ≠ some e)) = true := by
        simp [hzero, hmapped]
      dsimp only
      split
      · exact absurd ‹_› hcondition
      · have hdisposed := hstopped.disposeEntry hentry' hzero
          (hok.ready (by simp) hmapped hzero)
        exact hdisposed

theorem Inv.advance (h : Inv registry none) (e : EntryId)
    {next : Initialization ρ → Initialization ρ}
    (hfulfilled : ∀ resource, next (.fulfilled resource) = .fulfilled resource)
    (hrejected : next .rejected = .rejected) :
    Inv (registry.advance e next) none := by
  rw [WorkspaceTrackerRegistry.advance]
  cases hentry : registry.objects[e]? with
  | none =>
    have hsame : registry.modifyEntry e (fun entry =>
        { entry with initialization := next entry.initialization }) = registry := by
      rw [WorkspaceTrackerRegistry.modifyEntry, List.modify_eq_self (by simpa using hentry)]
    rw [hsame]
    exact h
  | some entry =>
    have hok := h.objects e entry hentry
    refine h.modifyEntry (by simp) hentry ⟨rfl, ?_⟩ ?_
    · intro resource hresource
      show next entry.initialization = _
      rw [hresource, hfulfilled]
    · by_cases hsettled : entry.initialization = .rejected ∨
        ∃ resource, entry.initialization = .fulfilled resource
      · have hsame : next entry.initialization = entry.initialization := by
          rcases hsettled with heq | ⟨resource, heq⟩
          · rw [heq, hrejected]
          · rw [heq, hfulfilled]
        rw [hsame]
        exact hok
      · exact (EntryOk.advance (hok.mono fun _ => by simp)
          (fun resource heq => hsettled (.inr ⟨resource, heq⟩))
          (fun heq => hsettled (.inl heq)) _).mono fun _ => trivial

variable {key : JsString}
variable {before stage : Stage}

variable (h : Inv registry none)
include h

theorem Inv.moveStage (hd : registry.disposals[d]? = some ⟨key, e, before⟩)
    (hbefore : before ≠ .fulfilled ∧ before ≠ .rejected)
    (hstage : stage ≠ .fulfilled ∧ stage ≠ .rejected) :
    Inv (registry.setStage d stage) none := by
  obtain ⟨entry, hentry, -⟩ := h.scheduled d _ hd
  refine Inv.setStage h hd hentry hentry (fun _ _ => rfl) (.refl _) (.refl _ _) ?_
  exact ((h.objects e entry hentry).setStage (disposes_iff hd) (disposes_setStage hd) hbefore
    hstage).mono fun _ => by simp

theorem Inv.beginDisposal (d : DisposalId) (hasDispose : Bool) :
    Inv (registry.beginDisposal d hasDispose) none := by
  rw [WorkspaceTrackerRegistry.beginDisposal]
  split
  · rename_i key e hd
    split
    · refine h.moveStage hd (by simp) ?_
      cases hasDispose <;> simp
    · exact h.moveStage hd (by simp) (by simp)
    · exact h
  · exact h

theorem Inv.sourceDisposed (d : DisposalId) (failures : Nat) :
    Inv (registry.sourceDisposed d failures) none := by
  rw [WorkspaceTrackerRegistry.sourceDisposed]
  split
  · exact h.moveStage ‹_› (by simp) (by simp)
  · exact h

theorem Inv.feedDisposed (d : DisposalId) (failures : Nat) :
    Inv (registry.feedDisposed d failures) none := by
  rw [WorkspaceTrackerRegistry.feedDisposed]
  split
  · refine h.moveStage ‹_› (by simp) ?_
    split <;> simp
  · exact h

theorem Inv.settleDisposal (d : DisposalId) :
    Inv (registry.settleDisposal d) none := by
  rw [WorkspaceTrackerRegistry.settleDisposal]
  split
  · rename_i key e hd
    obtain ⟨entry, hentry, hkey⟩ := h.scheduled d _ hd
    have hok := h.objects e entry hentry
    have hfulfilled : ∀ entries : JsMap JsString EntryId,
        Leaves e registry.entries entries →
        entries.get entry.key ≠ some e →
        Inv { registry.setStage d .fulfilled with entries := entries } none := by
      intro entries hleaves hnot
      refine Inv.setStage h hd hentry hentry (fun _ _ => rfl) (.refl _) hleaves ?_
      rw [eq_false hnot]
      exact (hok.fulfill (disposes_iff hd) (disposes_setStage hd) (by simp)).mono fun _ => by simp
    dsimp only at hkey ⊢
    subst hkey
    split
    · rename_i hmapped
      refine hfulfilled (registry.entries.delete entry.key) (.delete hmapped) ?_
      rw [JsMap.get_delete, if_pos rfl]
      simp
    · rename_i hmapped
      exact hfulfilled registry.entries (.refl _ _) hmapped
  · rename_i key e hd
    obtain ⟨entry, hentry, -⟩ := h.scheduled d _ hd
    refine Inv.setStage h hd hentry (modifyEntry_self hentry _)
      (fun _ hother => registry.modifyEntry_other hother _) ⟨rfl, fun _ hresource => hresource⟩
      (.refl _ _) ?_
    exact ((h.objects e entry hentry).reject (disposes_iff hd) (disposes_setStage hd)
      (by simp)).mono fun _ => by simp
  · exact h

end Callbacks

section Retries

variable {registry' : WorkspaceTrackerRegistry ρ}

theorem Settled.of_acquires (h : Settled registry)
    (hidle : registry'.idleTtlMs = registry.idleTtlMs)
    (hacquires : ∀ (i : Nat) lease, registry'.acquires[i]? = some (.leased lease) →
      registry.acquires[i]? = some (.leased lease) ∨
        (lease.Retriable → registry.idleTtlMs ≤ 0)) :
    Settled registry' := by
  intro i lease hlease hretriable
  rw [hidle]
  rcases hacquires i lease hlease with hold | hnew
  · exact h i lease hold hretriable
  · exact hnew hretriable

theorem Settled.setAcquire (h : Settled registry) (i : Nat) {acquire : Acquire ρ}
    (hacquire : ∀ lease, acquire = .leased lease → lease.Retriable → registry.idleTtlMs ≤ 0) :
    Settled (registry.setAcquire i acquire) := by
  refine h.of_acquires rfl fun j lease hlease => ?_
  rcases getElem?_set_cases hlease with ⟨-, heq⟩ | ⟨-, hold⟩
  · exact .inr (hacquire lease heq.symm)
  · exact .inl hold

theorem Settled.of_eq (h : Settled registry) (hidle : registry'.idleTtlMs = registry.idleTtlMs)
    (hacquires : registry'.acquires = registry.acquires) :
    Settled registry' :=
  h.of_acquires hidle fun i lease hlease => .inl (by rw [← hacquires, hlease])

theorem disposeEntry_idleTtlMs (key : JsString) (e : EntryId) :
    (registry.disposeEntry key e).1.idleTtlMs = registry.idleTtlMs := by
  rw [disposeEntry]
  split <;> rfl

theorem releaseEntry_idleTtlMs (key : JsString) (e : EntryId) :
    (registry.releaseEntry key e).1.idleTtlMs = registry.idleTtlMs := by
  rw [releaseEntry]
  split
  · exact disposeEntry_idleTtlMs key e
  · split
    · rfl
    · split <;> rfl

theorem releaseEntry_resolved (key : JsString) (e : EntryId) (h : ¬ registry.idleTtlMs ≤ 0) :
    (registry.releaseEntry key e).2 = .resolved := by
  rw [releaseEntry, if_neg h]
  split
  · rfl
  · split <;> rfl

variable (h : Settled registry)
include h

theorem Settled.acquireLoop (i : Nat) (key : JsString)
    (binding : WorkspaceTrackerRegistryBinding) :
    Settled (registry.acquireLoop i key binding) := by
  have hset : ∀ {registry' : WorkspaceTrackerRegistry ρ} {acquire : Acquire ρ},
      registry'.idleTtlMs = registry.idleTtlMs → registry'.acquires = registry.acquires →
      (∀ lease, acquire ≠ .leased lease) → Settled (registry'.setAcquire i acquire) :=
    fun hidle hacquires hnot => (h.of_eq hidle hacquires).setAcquire i
      fun lease heq => absurd heq (hnot lease)
  rw [WorkspaceTrackerRegistry.acquireLoop]
  split
  · exact hset rfl rfl (by simp)
  · split
    · exact h
    · split
      · exact hset rfl rfl (by simp)
      · split
        · split
          · exact hset rfl rfl (by simp)
          · split
            · exact hset rfl rfl (by simp)
            · exact hset (disposeEntry_idleTtlMs _ _) (disposeEntry_acquires _ _) (by simp)
        · exact hset rfl rfl (by simp)

theorem Settled.acquire (resolve : JsString → JsString) (input : WorkspaceTrackerAcquireInput) :
    Settled (registry.acquire resolve input) := by
  have hcalled : Settled { registry with acquires := registry.acquires ++ [Acquire.running] } := by
    refine h.of_acquires rfl fun i lease hlease => .inl ?_
    rcases getElem?_concat_iff.mp hlease with hold | ⟨-, heq⟩
    · exact hold
    · exact absurd heq (by simp)
  exact hcalled.acquireLoop _ _ _

theorem Settled.resume (i : Nat) : Settled (registry.resume i) := by
  rw [WorkspaceTrackerRegistry.resume]
  split
  · split
    · exact h.acquireLoop _ _ _
    · exact h.setAcquire _ fun _ heq => absurd heq (by simp)
    · exact h
  · split
    · refine h.setAcquire _ fun lease heq hretriable => ?_
      cases heq
      simp [WorkspaceTrackerLease.Retriable] at hretriable
    · rename_i key e _ _ _
      have hleft : Settled ((registry.modifyEntry e fun entry =>
          { entry with refCount := entry.refCount - 1 }).setAcquire i .rejected) :=
        Settled.setAcquire (h.of_eq rfl rfl) i fun _ heq => absurd heq (by simp)
      dsimp only
      split
      · exact hleft.of_eq rfl rfl
      · exact hleft
    · exact h
  · exact h

theorem Settled.release (hinv : Inv registry none) (i : Nat) :
    Settled (registry.release i) := by
  rw [WorkspaceTrackerRegistry.release]
  split
  · rename_i lease hacquire
    split
    · exact h
    · obtain ⟨entry, hentry, -, -⟩ := hinv.acquired i _ hacquire
      -- The lease counts down, and in the same piece of code it gets the promise.
      have hcounted : ∃ entry', (registry.letGo i lease).objects[lease.entry]? = some entry' := by
        rw [letGo]
        split
        · exact ⟨entry, hentry⟩
        · exact ⟨_, modifyEntry_self hentry _⟩
      have hidle : (registry.letGo i lease).idleTtlMs = registry.idleTtlMs := by
        rw [letGo]
        split <;> rfl
      have hothers : ∀ (j : Nat) other, i ≠ j →
          (registry.letGo i lease).acquires[j]? = some (.leased other) →
            registry.acquires[j]? = some (.leased other) := by
        intro j other hne hother
        rw [letGo] at hother
        split at hother
        · exact hother
        · have hset : (registry.acquires.set i _)[j]? = some (.leased other) := hother
          rwa [List.getElem?_set_ne hne] at hset
      obtain ⟨entry', hentry'⟩ := hcounted
      have hfinish : ∀ {left : WorkspaceTrackerRegistry ρ} {promise : ReleasePromise},
          left.idleTtlMs = registry.idleTtlMs →
          left.acquires = (registry.letGo i lease).acquires →
          (∀ disposal, promise = .disposal disposal → registry.idleTtlMs ≤ 0) →
          Settled (left.setAcquire i
            (.leased { lease with decremented := true, releasePromise := some promise })) := by
        intro left promise hidle' hacquires hpromise
        refine h.of_acquires hidle' fun j other hother => ?_
        rcases getElem?_set_cases hother with ⟨-, heq⟩ | ⟨hsame, hold⟩
        · refine .inr fun hretriable => ?_
          cases heq
          rcases hretriable with ⟨-, hnone⟩ | ⟨disposal, hdisposal⟩
          · exact absurd hnone (by simp)
          · exact hpromise disposal (Option.some.inj hdisposal)
        · rw [hacquires] at hold
          exact .inl (hothers j other (Ne.symm hsame) hold)
      rw [WorkspaceTrackerRegistry.finishRelease, hentry']
      dsimp only
      split
      · exact hfinish hidle rfl fun _ heq => absurd heq (by simp)
      · refine hfinish (by rw [releaseEntry_idleTtlMs, hidle]) (releaseEntry_acquires _ _)
          fun disposal hdisposal => ?_
        by_contra hlong
        rw [releaseEntry_resolved _ _ (by rw [hidle]; exact hlong)] at hdisposal
        exact absurd hdisposal (by simp)
  · exact h

theorem Settled.releaseRejected (i : Nat) :
    Settled (registry.releaseRejected i) := by
  rw [WorkspaceTrackerRegistry.releaseRejected]
  split
  · rename_i lease hacquire
    split
    · rename_i disposal hpromise
      split
      · exact h.setAcquire i fun _ _ _ => h i lease hacquire (.inr ⟨disposal, hpromise⟩)
      · exact h
    · exact h
  · exact h

end Retries

/-- **One event keeps the invariant.** -/
theorem step_inv (resolve : JsString → JsString) (h : Inv registry none ∧ Settled registry)
    (event : Event ρ) :
    Inv (step resolve registry event) none ∧ Settled (step resolve registry event) := by
  obtain ⟨hinv, hsettled⟩ := h
  cases event with
  | acquire input => exact ⟨hinv.acquire resolve input, hsettled.acquire resolve input⟩
  | storeOpened e _ | sourceMade e _ | feedCleaned e =>
    exact ⟨hinv.advance e (fun _ => rfl) rfl, hsettled.of_eq rfl rfl⟩
  | resume i => exact ⟨hinv.resume i, hsettled.resume i⟩
  | release i => exact ⟨hinv.release hsettled i, hsettled.release hinv i⟩
  | releaseRejected i => exact ⟨hinv.releaseRejected i, hsettled.releaseRejected i⟩
  | fire e =>
    refine ⟨hinv.fire e, ?_⟩
    rw [step, fire]
    split
    · exact hsettled
    · split
      · exact hsettled
      · dsimp only
        split
        · exact hsettled.of_eq rfl rfl
        · exact hsettled.of_eq (disposeEntry_idleTtlMs _ _) (disposeEntry_acquires _ _)
  | beginDisposal d hasDispose =>
    refine ⟨hinv.beginDisposal d hasDispose, ?_⟩
    rw [step, beginDisposal]
    split
    · split <;> exact hsettled.of_eq rfl rfl
    · exact hsettled
  | sourceDisposed d failures =>
    refine ⟨hinv.sourceDisposed d failures, ?_⟩
    rw [step, sourceDisposed]
    split <;> exact hsettled.of_eq rfl rfl
  | feedDisposed d failures =>
    refine ⟨hinv.feedDisposed d failures, ?_⟩
    rw [step, feedDisposed]
    split <;> exact hsettled.of_eq rfl rfl
  | settleDisposal d =>
    refine ⟨hinv.settleDisposal d, ?_⟩
    rw [step, settleDisposal]
    split
    · dsimp only
      split <;> exact hsettled.of_eq rfl rfl
    · exact hsettled.of_eq rfl rfl
    · exact hsettled

/-- **Every run keeps the invariant.** -/
theorem run_inv (resolve : JsString → JsString) (idleTtlMs : Int) (events : List (Event ρ)) :
    Inv (Runs.run (step resolve) (make idleTtlMs) events) none ∧
      Settled (Runs.run (step resolve) (make idleTtlMs) events) := by
  refine Runs.run_invariant (step resolve)
    (fun registry : WorkspaceTrackerRegistry ρ => Inv registry none ∧ Settled registry)
    (fun registry event h => step_inv resolve h event) ?_ events
  refine ⟨⟨?_, ?_, ?_, ?_⟩, ?_⟩
  · intro key e hget
    simp [make] at hget
  · intro i acquire hacquire
    simp [make] at hacquire
  · intro d disposal hdisposal
    simp [make] at hdisposal
  · intro e entry hentry
    simp [make] at hentry
  · intro i lease hlease
    simp [make] at hlease

/-- The resource of an entry has been made, and not been disposed of. -/
def WorkspaceTrackerRegistry.Live (registry : WorkspaceTrackerRegistry ρ) (e : EntryId) : Prop :=
  (∃ resource, registry.initializationOf e = some (.fulfilled resource)) ∧
    ∀ d, ¬ registry.Disposes e d .disposed ∧ ¬ registry.Disposes e d .fulfilled

/-- What the sessions rely on. -/
structure Shared (registry : WorkspaceTrackerRegistry ρ) : Prop where
  /-- There are no two live resources for one key. -/
  one_live : ∀ (e e' : Nat) entry entry', registry.objects[e]? = some entry →
    registry.objects[e']? = some entry' → entry.key = entry'.key →
      registry.Live e → registry.Live e' → e = e'
  /-- No disposal of the resource of an unreleased lease has even been thought of. -/
  intact : ∀ (i : Nat) lease, registry.acquires[i]? = some (.leased lease) →
    lease.decremented = false →
      registry.initializationOf lease.entry = some (.fulfilled lease.resource) ∧
        ∀ d stage, ¬ registry.Disposes lease.entry d stage
  /-- The unreleased leases of a key share one resource. -/
  one_resource : ∀ (i j : Nat) lease lease', registry.acquires[i]? = some (.leased lease) →
    registry.acquires[j]? = some (.leased lease') → lease.key = lease'.key →
      lease.decremented = false → lease'.decremented = false →
        lease.entry = lease'.entry ∧ lease.resource = lease'.resource
  /-- The count of an entry is the number of unreleased leases on it and of calls that wait for
  its initialization. -/
  counted : ∀ (e : Nat) entry, registry.objects[e]? = some entry →
    entry.refCount = (registry.holders e : Int)
  /-- Nothing is left once nobody holds anything, no timer runs, and every disposal has
  succeeded. -/
  none_left : (∀ e, registry.holders e = 0) →
    (∀ (e : Nat) entry, registry.objects[e]? = some entry → entry.idleDisposalTimer = none) →
    (∀ (d : Nat) disposal, registry.disposals[d]? = some disposal →
      disposal.stage = .fulfilled) →
    registry.entries.size = 0

theorem Inv.intact {lease : WorkspaceTrackerLease ρ} (h : Inv registry none)
    (hacquire : registry.acquires[i]? = some (.leased lease))
    (hheld : lease.decremented = false) :
    registry.initializationOf lease.entry = some (.fulfilled lease.resource) ∧
      (∀ d stage, ¬ registry.Disposes lease.entry d stage) ∧
        registry.entries.get lease.key = some lease.entry := by
  obtain ⟨entry, hentry, hkey, hresource⟩ := h.acquired i _ hacquire
  have hok := h.objects lease.entry entry hentry
  have hpositive : 0 < registry.holders lease.entry :=
    List.countP_pos_iff.mpr ⟨_, List.mem_of_getElem? hacquire, by simp [Acquire.holds, hheld]⟩
  have hcounted := hok.counted
  have hunheld : ∀ d stage, ¬ registry.Disposes lease.entry d stage := by
    intro d stage hdisposes
    have hzero := (hok.unheld d stage hdisposes).1
    omega
  refine ⟨?_, hunheld, ?_⟩
  · rw [initializationOf, hentry, Option.map_some, hresource]
  · rcases hok.kept with hmapped | hrejected | ⟨d, hdisposes⟩
    · rwa [hkey] at hmapped
    · rw [hresource] at hrejected
      exact absurd hrejected (by simp)
    · exact absurd hdisposes (hunheld d _)

theorem Inv.live (h : Inv registry none) (hentry : registry.objects[e]? = some entry)
    (hlive : registry.Live e) :
    registry.entries.get entry.key = some e := by
  obtain ⟨⟨resource, hresource⟩, hdisposes⟩ := hlive
  rw [initializationOf, hentry, Option.map_some, Option.some.injEq] at hresource
  rcases (h.objects e entry hentry).kept with hmapped | hrejected | ⟨d, hfulfilled⟩
  · exact hmapped
  · rw [hresource] at hrejected
    exact absurd hrejected (by simp)
  · exact absurd hfulfilled (hdisposes d).2

theorem Inv.shared (h : Inv registry none) : Shared registry where
  one_live := by
    intro e e' entry entry' hentry hentry' hkey hlive hlive'
    have hmapped := h.live hentry hlive
    rw [hkey, h.live hentry' hlive'] at hmapped
    exact (Option.some.inj hmapped).symm
  intact := by
    intro i lease hacquire hheld
    obtain ⟨hresource, hunheld, -⟩ := h.intact hacquire hheld
    exact ⟨hresource, hunheld⟩
  one_resource := by
    intro i j lease lease' hacquire hacquire' hkey hheld hheld'
    obtain ⟨hresource, -, hmapped⟩ := h.intact hacquire hheld
    obtain ⟨hresource', -, hmapped'⟩ := h.intact hacquire' hheld'
    rw [hkey, hmapped', Option.some.injEq] at hmapped
    rw [← hmapped, hresource', Option.some.injEq, Initialization.fulfilled.injEq] at hresource
    exact ⟨hmapped.symm, hresource.symm⟩
  counted := fun e entry hentry => (h.objects e entry hentry).counted
  none_left := by
    intro hunheld htimers hdisposals
    rw [JsMap.size_eq_zero_iff]
    intro key
    cases hget : registry.entries.get key with
    | none => rfl
    | some e =>
      exfalso
      obtain ⟨entry, hentry, rfl⟩ := h.mapped key e hget
      have hok := h.objects e entry hentry
      have hzero : entry.refCount = 0 := by
        rw [hok.counted, hunheld e]
        rfl
      have hstage : ∀ d stage, registry.Disposes e d stage → stage = .fulfilled := by
        intro d stage hdisposes
        obtain ⟨key, hkey⟩ := hdisposes
        exact hdisposals d _ hkey
      rcases hok.resting (by simp) hget hzero with htimer | hdisposal | ⟨d, hdisposes⟩
      · exact htimer (htimers e entry hentry)
      · obtain ⟨d, hd⟩ := Option.ne_none_iff_exists'.mp hdisposal
        obtain ⟨stage, hdisposes, -⟩ := hok.known d hd
        exact hok.deleted d (hstage d stage hdisposes ▸ hdisposes) hget
      · exact absurd (hstage d _ hdisposes) (by simp)

/-- A workspace for a test. -/
private def workspace : WorkspaceTrackerAcquireInput where
  dataRoot := js "d"
  identity := ⟨js "r", js "w", js "i", js "s", []⟩
  processOwner := ⟨1, js "t", js "n"⟩

example :
    let registry := Runs.run (step id) (make 0) [.acquire workspace, .storeOpened 0 .sourcing,
      .acquire workspace, .sourceMade 0 (some 7), .resume 0, .resume 1, .release 0,
      .acquire workspace, .release 0, .resume 2]
    registry.objects.map (·.refCount) = [2] ∧ registry.disposals = [] ∧
      (Runs.run (step id) registry [.release 1, .release 2, .acquire workspace,
        .beginDisposal 0 true, .sourceDisposed 0 0, .feedDisposed 0 0, .settleDisposal 0]).entries.size
          = 0 := by
  decide

end TrackerRegistry

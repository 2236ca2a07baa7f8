import Crest.Slots
import Crest.TrackerRegistry

/-!
# The invariant of the registry of workspace trackers

The entry of a workspace stays in the map of the registry until its initialization has failed or
its resources are disposed of.  Its count is positive until the initialization has ended, a
disposal begins only when the count is zero, and from then on nobody joins the entry again.  What
holds of an entry depends on the rest of the registry only through the map, the number of its
holders and its disposals, so each operation is one lemma about the entry it changes.
-/

namespace TrackerRegistry

open Slots

variable {ρ : Type}

/-- The key under which an entry was made. -/
def WorkspaceTrackerRegistryEntry.key (entry : WorkspaceTrackerRegistryEntry ρ) : JsString :=
  entry.binding.identity.key

namespace WorkspaceTrackerRegistry

/-- The calls of `acquire` that wait for the initialization of an entry or hold an unreleased
lease on it. -/
def holders (registry : WorkspaceTrackerRegistry ρ) (e : EntryId) : Nat :=
  registry.acquires.countP (Acquire.holds e)

/-- A disposal is one of an entry, at a stage. -/
def Disposes (registry : WorkspaceTrackerRegistry ρ) (e : EntryId) (d : DisposalId)
    (stage : Stage) : Prop :=
  ∃ key, registry.disposals[d]? = some ⟨key, e, stage⟩

end WorkspaceTrackerRegistry

/-- What holds of an entry that is in the map or not, has so many holders and these disposals. -/
structure EntryOk
    (entry : WorkspaceTrackerRegistryEntry ρ) (mapped : Prop) (holders : Nat)
    (disposes : DisposalId → Stage → Prop)
    (atRest : Prop) : Prop where
  /-- The count counts the holders. -/
  counted : entry.refCount = (holders : Int)
  /-- An entry is in the map, or it is no use any more. -/
  kept : mapped ∨ entry.initialization = .rejected ∨ ∃ d, disposes d .fulfilled
  /-- Somebody waits for each initialization. -/
  ready : atRest → mapped → entry.refCount = 0 →
    ∃ resource, entry.initialization = .fulfilled resource
  /-- Nobody holds what a disposal is about. -/
  unheld : ∀ d stage, disposes d stage →
    entry.refCount = 0 ∧ ∃ resource, entry.initialization = .fulfilled resource
  /-- The timer runs for an intact entry that nobody holds. -/
  timer : ∀ key, entry.idleDisposalTimer = some key →
    key = entry.key ∧ entry.refCount = 0 ∧ mapped ∧ ∀ d stage, ¬ disposes d stage
  /-- There is no disposal under way but the one the entry knows. -/
  active : ∀ d stage, disposes d stage → stage ≠ .fulfilled → stage ≠ .rejected →
    entry.disposal = some d
  /-- The disposal that the entry knows has not failed. -/
  known : ∀ d, entry.disposal = some d → ∃ stage, disposes d stage ∧ stage ≠ .rejected
  /-- An entry that is disposed of leaves the map. -/
  deleted : ∀ d, disposes d .fulfilled → ¬ mapped
  /-- An entry that nobody holds is going to be disposed of, or that has failed. -/
  resting : atRest → mapped → entry.refCount = 0 →
    entry.idleDisposalTimer ≠ none ∨ entry.disposal ≠ none ∨ ∃ d, disposes d .rejected

/-- What holds of a call of `acquire`. -/
def AcquireOk (registry : WorkspaceTrackerRegistry ρ) : Acquire ρ → Prop
  | .disposing key binding _ => key = binding.identity.key
  | .initializing key e => ∃ entry, registry.objects[e]? = some entry ∧ entry.key = key
  | .leased lease => ∃ entry, registry.objects[lease.entry]? = some entry ∧
      entry.key = lease.key ∧ entry.initialization = .fulfilled lease.resource
  | _ => True

/-- The invariant of a registry, where one entry may just have lost its last holder. -/
structure Inv (registry : WorkspaceTrackerRegistry ρ) (focus : Option EntryId) : Prop where
  /-- An entry is in the map under its own key. -/
  mapped : ∀ key e, registry.entries.get key = some e →
    ∃ entry, registry.objects[e]? = some entry ∧ entry.key = key
  /-- The calls of `acquire`. -/
  acquired : ∀ (i : Nat) acquire, registry.acquires[i]? = some acquire → AcquireOk registry acquire
  /-- A disposal is one of an entry, under its key. -/
  scheduled : ∀ (d : Nat) disposal, registry.disposals[d]? = some disposal →
    ∃ entry, registry.objects[disposal.entry]? = some entry ∧ disposal.key = entry.key
  /-- The entries. -/
  objects : ∀ (e : Nat) entry, registry.objects[e]? = some entry →
    EntryOk entry (registry.entries.get entry.key = some e) (registry.holders e)
      (registry.Disposes e) (focus ≠ some e)

/-- An entry that has changed kept its key and its resource. -/
structure Keeps (entry entry' : WorkspaceTrackerRegistryEntry ρ) : Prop where
  key : entry'.key = entry.key
  resource : ∀ resource, entry.initialization = .fulfilled resource →
    entry'.initialization = .fulfilled resource

theorem Keeps.refl (entry : WorkspaceTrackerRegistryEntry ρ) : Keeps entry entry :=
  ⟨rfl, fun _ hresource => hresource⟩

/-- No entry joins the map, and only `e` may leave it. -/
structure Leaves (e : EntryId) (entries entries' : JsMap JsString EntryId) : Prop where
  back : ∀ key other, entries'.get key = some other → entries.get key = some other
  others : ∀ key other, other ≠ e → entries.get key = some other → entries'.get key = some other

theorem Leaves.refl (e : EntryId) (entries : JsMap JsString EntryId) : Leaves e entries entries :=
  ⟨fun _ _ hget => hget, fun _ _ _ hget => hget⟩

theorem Leaves.delete {e : EntryId} {entries : JsMap JsString EntryId} {key : JsString}
    (hkey : entries.get key = some e) : Leaves e entries (entries.delete key) := by
  constructor
  · intro key' other hget
    rw [JsMap.get_delete] at hget
    split at hget
    · exact absurd hget (by simp)
    · exact hget
  · intro key' other hother hget
    rw [JsMap.get_delete, if_neg]
    · exact hget
    · intro heq
      rw [heq, hkey] at hget
      exact hother (Option.some.inj hget).symm

theorem EntryOk.mono {entry : WorkspaceTrackerRegistryEntry ρ} {mapped : Prop}
    {holders : Nat} {disposes : DisposalId → Stage → Prop} {atRest atRest' : Prop}
    (h : EntryOk entry mapped holders disposes atRest) (hrest : atRest' → atRest) :
    EntryOk entry mapped holders disposes atRest' :=
  ⟨h.counted, h.kept, fun hat => h.ready (hrest hat), h.unheld, h.timer, h.active, h.known,
    h.deleted, fun hat => h.resting (hrest hat)⟩

variable {registry registry' : WorkspaceTrackerRegistry ρ}

theorem AcquireOk.transfer (hobjects : ∀ (e : Nat) entry, registry.objects[e]? = some entry →
      ∃ entry', registry'.objects[e]? = some entry' ∧ Keeps entry entry')
    {acquire : Acquire ρ} (h : AcquireOk registry acquire) :
    AcquireOk registry' acquire := by
  cases acquire with
  | running | disposing _ _ _ | rejected => exact h
  | initializing key e =>
    obtain ⟨entry, hentry, hkey⟩ := h
    obtain ⟨entry', hentry', hkeeps⟩ := hobjects e entry hentry
    exact ⟨entry', hentry', hkeeps.key.trans hkey⟩
  | leased lease =>
    obtain ⟨entry, hentry, hkey, hresource⟩ := h
    obtain ⟨entry', hentry', hkeeps⟩ := hobjects lease.entry entry hentry
    exact ⟨entry', hentry', hkeeps.key.trans hkey, hkeeps.resource _ hresource⟩

/-- **One entry changes.**  What happens to an entry, its disposals and its holders leaves the
others as they were. -/
theorem Inv.update {focus focus' : Option EntryId} {e : EntryId}
    {entry entry' : WorkspaceTrackerRegistryEntry ρ} (h : Inv registry focus)
    (hfocus : ∀ other, focus = some other → other = e)
    (hentry : registry.objects[e]? = some entry) (hentry' : registry'.objects[e]? = some entry')
    (hothers : ∀ other : Nat, other ≠ e → registry'.objects[other]? = registry.objects[other]?)
    (hkeeps : Keeps entry entry') (hleaves : Leaves e registry.entries registry'.entries)
    (hholders : ∀ other, other ≠ e → registry'.holders other = registry.holders other)
    (hdisposes : ∀ other d stage, other ≠ e →
      (registry'.Disposes other d stage ↔ registry.Disposes other d stage))
    (hacquired : ∀ (i : Nat) acquire, registry'.acquires[i]? = some acquire → AcquireOk registry acquire)
    (hscheduled : ∀ (d : Nat) disposal, registry'.disposals[d]? = some disposal →
      ∃ entry, registry.objects[disposal.entry]? = some entry ∧ disposal.key = entry.key)
    (hok : EntryOk entry' (registry'.entries.get entry.key = some e) (registry'.holders e)
      (registry'.Disposes e) (focus' ≠ some e)) :
    Inv registry' focus' := by
  have hobjects : ∀ (other : Nat) entry₀, registry.objects[other]? = some entry₀ →
      ∃ entry₁, registry'.objects[other]? = some entry₁ ∧ Keeps entry₀ entry₁ := by
    intro other entry₀ hother
    by_cases hsame : other = e
    · subst hsame
      rw [hentry, Option.some.injEq] at hother
      subst hother
      exact ⟨entry', hentry', hkeeps⟩
    · exact ⟨entry₀, by rw [hothers other hsame, hother], .refl entry₀⟩
  refine ⟨?_, ?_, ?_, ?_⟩
  · intro key other hother
    obtain ⟨entry₀, hentry₀, hkey₀⟩ := h.mapped key other (hleaves.back key other hother)
    obtain ⟨entry₁, hentry₁, hkept⟩ := hobjects other entry₀ hentry₀
    exact ⟨entry₁, hentry₁, hkept.key.trans hkey₀⟩
  · intro i acquire hacquire
    exact (hacquired i acquire hacquire).transfer hobjects
  · intro d disposal hdisposal
    obtain ⟨entry₀, hentry₀, hkey₀⟩ := hscheduled d disposal hdisposal
    obtain ⟨entry₁, hentry₁, hkept⟩ := hobjects disposal.entry entry₀ hentry₀
    exact ⟨entry₁, hentry₁, hkey₀.trans hkept.key.symm⟩
  · intro other entry₁ hother
    by_cases hsame : other = e
    · subst hsame
      rw [hentry', Option.some.injEq] at hother
      subst hother
      rw [hkeeps.key]
      exact hok
    · rw [hothers other hsame] at hother
      have hold := h.objects other entry₁ hother
      have hmapped : (registry'.entries.get entry₁.key = some other) =
          (registry.entries.get entry₁.key = some other) :=
        propext ⟨hleaves.back _ _, hleaves.others _ _ hsame⟩
      have hdisposals : registry'.Disposes other = registry.Disposes other := by
        funext d stage
        exact propext (hdisposes other d stage hsame)
      rw [hmapped, hdisposals, hholders other hsame]
      exact hold.mono fun _ heq => hsame (hfocus other heq)

namespace WorkspaceTrackerRegistry

variable {registry : WorkspaceTrackerRegistry ρ}

theorem holders_setAcquire {i : Nat} {before : Acquire ρ}
    (h : registry.acquires[i]? = some before) (acquire : Acquire ρ) (e : EntryId) :
    (registry.setAcquire i acquire).holders e + (if before.holds e then 1 else 0) =
      registry.holders e + (if acquire.holds e then 1 else 0) := by
  obtain ⟨hi, rfl⟩ := List.getElem?_eq_some_iff.mp h
  have hset := @List.countP_set _ (Acquire.holds e) registry.acquires i acquire hi
  show List.countP _ (registry.acquires.set i acquire) + _ = _
  rw [hset, holders]
  split
  · rename_i hholds
    have hpos : 0 < registry.acquires.countP (Acquire.holds e) :=
      List.countP_pos_iff.mpr ⟨_, List.getElem_mem hi, hholds⟩
    omega
  · omega

theorem modifyEntry_self {e : EntryId} {entry : WorkspaceTrackerRegistryEntry ρ}
    (h : registry.objects[e]? = some entry)
    (f : WorkspaceTrackerRegistryEntry ρ → WorkspaceTrackerRegistryEntry ρ) :
    (registry.objects.modify e f)[e]? = some (f entry) := by
  rw [List.getElem?_modify_eq, h]
  rfl

theorem modifyEntry_other (registry : WorkspaceTrackerRegistry ρ) {e other : EntryId}
    (h : other ≠ e) (f : WorkspaceTrackerRegistryEntry ρ → WorkspaceTrackerRegistryEntry ρ) :
    (registry.objects.modify e f)[other]? = registry.objects[other]? :=
  List.getElem?_modify_ne f _ (Ne.symm h)

end WorkspaceTrackerRegistry

section Entries

variable {entry : WorkspaceTrackerRegistryEntry ρ}
variable {mapped atRest atRest' : Prop}
variable {holders : Nat}
variable {disposes disposes' : DisposalId → Stage → Prop}
variable {d : DisposalId}
variable {before stage : Stage}

theorem EntryOk.advance (h : EntryOk entry mapped holders disposes True)
    (hpending : ∀ resource, entry.initialization ≠ .fulfilled resource)
    (hrejected : entry.initialization ≠ .rejected) (initialization : Initialization ρ) :
    EntryOk { entry with initialization := initialization } mapped holders disposes True := by
  have hnone : ∀ d stage, ¬ disposes d stage := by
    intro d stage hdisposes
    obtain ⟨-, resource, hresource⟩ := h.unheld d stage hdisposes
    exact hpending resource hresource
  have hmapped : mapped := by
    rcases h.kept with hmapped | hrejected' | ⟨d, hdisposes⟩
    · exact hmapped
    · exact absurd hrejected' hrejected
    · exact absurd hdisposes (hnone d _)
  have hheld : entry.refCount ≠ 0 := by
    intro hzero
    obtain ⟨resource, hresource⟩ := h.ready trivial hmapped hzero
    exact hpending resource hresource
  exact ⟨h.counted, .inl hmapped, fun _ _ hzero => absurd hzero hheld,
    fun d stage hdisposes => absurd hdisposes (hnone d stage),
    fun key hkey => absurd (h.timer key hkey).2.1 hheld,
    fun d stage hdisposes => absurd hdisposes (hnone d stage), h.known,
    fun d hdisposes => absurd hdisposes (hnone d _), fun _ _ hzero => absurd hzero hheld⟩

theorem EntryOk.join (h : EntryOk entry mapped holders disposes atRest) (hmapped : mapped)
    (hnone : ∀ d stage, ¬ disposes d stage) (htimer : entry.idleDisposalTimer = none) :
    EntryOk { entry with refCount := entry.refCount + 1 } mapped (holders + 1) disposes
      atRest' := by
  have hcounted := h.counted
  have hheld : entry.refCount + 1 ≠ 0 := by omega
  refine ⟨?_, .inl hmapped, fun _ _ hzero => absurd hzero hheld,
    fun d stage hdisposes => absurd hdisposes (hnone d stage), ?_,
    fun d stage hdisposes => absurd hdisposes (hnone d stage), h.known,
    fun d hdisposes => absurd hdisposes (hnone d _), fun _ _ hzero => absurd hzero hheld⟩
  · show entry.refCount + 1 = ((holders + 1 : Nat) : Int)
    omega
  · intro key hkey
    rw [htimer] at hkey
    exact absurd hkey (by simp)

theorem EntryOk.stopTimer (h : EntryOk entry mapped holders disposes atRest) :
    EntryOk { entry with idleDisposalTimer := none } mapped holders disposes False :=
  ⟨h.counted, h.kept, fun hat => hat.elim, h.unheld, fun _ hkey => absurd hkey (by simp),
    h.active, h.known, h.deleted, fun hat => hat.elim⟩

theorem EntryOk.letGo (h : EntryOk entry mapped (holders + 1) disposes atRest) :
    EntryOk { entry with refCount := entry.refCount - 1 } mapped holders disposes False := by
  have hcounted := h.counted
  have hheld : entry.refCount ≠ 0 := by omega
  have hnone : ∀ d stage, ¬ disposes d stage :=
    fun d stage hdisposes => hheld (h.unheld d stage hdisposes).1
  refine ⟨?_, h.kept, fun hat => hat.elim,
    fun d stage hdisposes => absurd hdisposes (hnone d stage),
    fun key hkey => absurd (h.timer key hkey).2.1 hheld,
    fun d stage hdisposes => absurd hdisposes (hnone d stage), h.known, h.deleted,
    fun hat => hat.elim⟩
  show entry.refCount - 1 = (holders : Int)
  omega

theorem EntryOk.giveUp (h : EntryOk entry mapped (holders + 1) disposes atRest)
    (hrejected : entry.initialization = .rejected) :
    EntryOk { entry with refCount := entry.refCount - 1 } False holders disposes atRest' := by
  have hcounted := h.counted
  have hheld : entry.refCount ≠ 0 := by omega
  have hnone : ∀ d stage, ¬ disposes d stage :=
    fun d stage hdisposes => hheld (h.unheld d stage hdisposes).1
  refine ⟨?_, .inr (.inl hrejected), fun _ hmapped => hmapped.elim,
    fun d stage hdisposes => absurd hdisposes (hnone d stage),
    fun key hkey => absurd (h.timer key hkey).2.1 hheld,
    fun d stage hdisposes => absurd hdisposes (hnone d stage), h.known,
    fun _ _ hmapped => hmapped, fun _ hmapped => hmapped.elim⟩
  show entry.refCount - 1 = (holders : Int)
  omega

variable (h : EntryOk entry mapped holders disposes atRest)
include h

theorem EntryOk.startTimer (hmapped : mapped) (hzero : entry.refCount = 0)
    (hresource : ∃ resource, entry.initialization = .fulfilled resource)
    (hnone : ∀ d stage, ¬ disposes d stage) :
    EntryOk { entry with idleDisposalTimer := some entry.key } mapped holders disposes
      atRest' := by
  refine ⟨h.counted, h.kept, fun _ _ _ => hresource, h.unheld, ?_, h.active, h.known, h.deleted,
    fun _ _ _ => .inl (by simp)⟩
  intro key hkey
  exact ⟨(Option.some.inj hkey).symm, hzero, hmapped, hnone⟩

theorem EntryOk.schedule (hzero : entry.refCount = 0)
    (hresource : ∃ resource, entry.initialization = .fulfilled resource)
    (hdisposal : entry.disposal = none)
    (hdisposes : ∀ other stage,
      disposes' other stage ↔ (other = d ∧ stage = .scheduled) ∨ disposes other stage) :
    EntryOk { entry with idleDisposalTimer := none, disposal := some d } mapped holders disposes'
      atRest' := by
  refine ⟨h.counted, ?_, fun _ _ _ => hresource, fun _ _ _ => ⟨hzero, hresource⟩,
    fun _ hkey => absurd hkey (by simp), ?_, ?_, ?_, fun _ _ _ => .inr (.inl (by simp))⟩
  · rcases h.kept with hmapped | hrejected | ⟨other, hother⟩
    · exact .inl hmapped
    · exact .inr (.inl hrejected)
    · exact .inr (.inr ⟨other, (hdisposes other _).mpr (.inr hother)⟩)
  · intro other stage hother hnot hnot'
    rcases (hdisposes other stage).mp hother with ⟨rfl, -⟩ | hother
    · rfl
    · have hknown := h.active other stage hother hnot hnot'
      rw [hdisposal] at hknown
      exact absurd hknown (by simp)
  · intro other hother
    obtain rfl := Option.some.inj hother
    exact ⟨.scheduled, (hdisposes d _).mpr (.inl ⟨rfl, rfl⟩), by simp⟩
  · intro other hother
    rcases (hdisposes other _).mp hother with ⟨-, hstage⟩ | hother
    · exact absurd hstage (by simp)
    · exact h.deleted other hother

variable (hd : ∀ stage, disposes d stage ↔ stage = before)
include hd

theorem EntryOk.setStage (hdisposes : ∀ other stage', disposes' other stage' ↔
      if other = d then stage' = stage else disposes other stage')
    (hbefore : before ≠ .fulfilled ∧ before ≠ .rejected)
    (hstage : stage ≠ .fulfilled ∧ stage ≠ .rejected) :
    EntryOk entry mapped holders disposes' atRest := by
  have hsame : disposes' d stage := (hdisposes d stage).mpr (by rw [if_pos rfl])
  have hother : ∀ {other stage'}, disposes' other stage' →
      (other = d ∧ stage' = stage) ∨ (other ≠ d ∧ disposes other stage') := by
    intro other stage' hdisposes'
    have hcases := (hdisposes other stage').mp hdisposes'
    split at hcases
    · exact .inl ⟨‹_›, hcases⟩
    · exact .inr ⟨‹_›, hcases⟩
  have hback : ∀ {other stage'}, disposes other stage' → stage' ≠ before →
      disposes' other stage' := by
    intro other stage' hold hnot
    rw [hdisposes, if_neg]
    · exact hold
    · intro heq
      exact hnot ((hd stage').mp (heq ▸ hold))
  have hunder := h.active d before ((hd before).mpr rfl) hbefore.1 hbefore.2
  refine ⟨h.counted, ?_, h.ready, ?_, ?_, ?_, ?_, ?_, ?_⟩
  · rcases h.kept with hmapped | hrejected | ⟨other, hfulfilled⟩
    · exact .inl hmapped
    · exact .inr (.inl hrejected)
    · exact .inr (.inr ⟨other, hback hfulfilled (Ne.symm hbefore.1)⟩)
  · intro other stage' hdisposes'
    exact h.unheld d before ((hd before).mpr rfl)
  · intro key hkey
    obtain ⟨-, -, -, hnone⟩ := h.timer key hkey
    exact absurd ((hd before).mpr rfl) (hnone d before)
  · intro other stage' hdisposes' hnot hnot'
    rcases hother hdisposes' with ⟨rfl, -⟩ | ⟨-, hold⟩
    · exact hunder
    · exact h.active other stage' hold hnot hnot'
  · intro other hknown
    rw [hunder] at hknown
    obtain rfl := Option.some.inj hknown
    exact ⟨stage, hsame, hstage.2⟩
  · intro other hfulfilled
    rcases hother hfulfilled with ⟨-, heq⟩ | ⟨-, hold⟩
    · exact absurd heq.symm hstage.1
    · exact h.deleted other hold
  · intro _ _ _
    exact .inr (.inl (by rw [hunder]; simp))

theorem EntryOk.fulfill (hdisposes : ∀ other stage', disposes' other stage' ↔
      if other = d then stage' = .fulfilled else disposes other stage')
    (hbefore : before ≠ .fulfilled ∧ before ≠ .rejected) :
    EntryOk entry False holders disposes' atRest := by
  have hunheld := h.unheld d before ((hd before).mpr rfl)
  have hunder := h.active d before ((hd before).mpr rfl) hbefore.1 hbefore.2
  refine ⟨h.counted, .inr (.inr ⟨d, (hdisposes d _).mpr (by rw [if_pos rfl])⟩),
    fun _ hmapped => hmapped.elim, fun _ _ _ => hunheld, ?_, ?_, ?_, fun _ _ hmapped => hmapped,
    fun _ hmapped => hmapped.elim⟩
  · intro key hkey
    obtain ⟨-, -, -, hnone⟩ := h.timer key hkey
    exact absurd ((hd before).mpr rfl) (hnone d before)
  · intro other stage' hdisposes' hnot hnot'
    have hcases := (hdisposes other stage').mp hdisposes'
    split at hcases
    · exact absurd hcases hnot
    · exact h.active other stage' hcases hnot hnot'
  · intro other hknown
    rw [hunder] at hknown
    obtain rfl := Option.some.inj hknown
    exact ⟨.fulfilled, (hdisposes d _).mpr (by rw [if_pos rfl]), by simp⟩

theorem EntryOk.reject (hdisposes : ∀ other stage', disposes' other stage' ↔
      if other = d then stage' = .rejected else disposes other stage')
    (hbefore : before ≠ .fulfilled ∧ before ≠ .rejected) :
    EntryOk { entry with disposal := none } mapped holders disposes' atRest := by
  have hunheld := h.unheld d before ((hd before).mpr rfl)
  have hunder := h.active d before ((hd before).mpr rfl) hbefore.1 hbefore.2
  refine ⟨h.counted, ?_, h.ready, fun _ _ _ => hunheld, ?_, ?_, fun _ hknown => absurd hknown (by simp),
    ?_, fun _ _ _ => .inr (.inr ⟨d, (hdisposes d _).mpr (by rw [if_pos rfl])⟩)⟩
  · rcases h.kept with hmapped | hrejected | ⟨other, hfulfilled⟩
    · exact .inl hmapped
    · exact .inr (.inl hrejected)
    · refine .inr (.inr ⟨other, (hdisposes other _).mpr ?_⟩)
      rw [if_neg]
      · exact hfulfilled
      · intro heq
        exact hbefore.1 ((hd .fulfilled).mp (heq ▸ hfulfilled)).symm
  · intro key hkey
    obtain ⟨-, -, -, hnone⟩ := h.timer key hkey
    exact absurd ((hd before).mpr rfl) (hnone d before)
  · intro other stage' hdisposes' hnot hnot'
    have hcases := (hdisposes other stage').mp hdisposes'
    split at hcases
    · exact absurd hcases hnot'
    · rename_i hne
      have hknown := h.active other stage' hcases hnot hnot'
      rw [hunder] at hknown
      exact absurd (Option.some.inj hknown).symm hne
  · intro other hfulfilled
    have hcases := (hdisposes other _).mp hfulfilled
    split at hcases
    · exact absurd hcases (by simp)
    · exact h.deleted other hcases

end Entries

section Registries

variable {registry : WorkspaceTrackerRegistry ρ}
variable {focus focus' : Option EntryId}
variable {e : EntryId}
variable {entry : WorkspaceTrackerRegistryEntry ρ}
variable {i : Nat}
variable {before acquire : Acquire ρ}

theorem Inv.mono (h : Inv registry focus) (hfocus : ∀ e, focus' ≠ some e → focus ≠ some e) :
    Inv registry focus' :=
  ⟨h.mapped, h.acquired, h.scheduled, fun e entry hentry =>
    (h.objects e entry hentry).mono (hfocus e)⟩

theorem Inv.setAcquire (h : Inv registry focus)
    (hbefore : registry.acquires[i]? = some before) (hacquire : AcquireOk registry acquire)
    (hholds : ∀ e, acquire.holds e = before.holds e) :
    Inv (registry.setAcquire i acquire) focus := by
  refine ⟨h.mapped, ?_, h.scheduled, ?_⟩
  · intro j other hother
    have hok : AcquireOk registry other := by
      rcases getElem?_set_cases hother with ⟨-, rfl⟩ | ⟨-, hold⟩
      · exact hacquire
      · exact h.acquired j other hold
    exact hok.transfer fun e entry hentry => ⟨entry, hentry, .refl entry⟩
  · intro e entry hentry
    have hcount := registry.holders_setAcquire hbefore acquire e
    rw [hholds e] at hcount
    have hsame : (registry.setAcquire i acquire).holders e = registry.holders e := by omega
    rw [hsame]
    exact h.objects e entry hentry

variable {f : WorkspaceTrackerRegistryEntry ρ → WorkspaceTrackerRegistryEntry ρ}

variable (h : Inv registry focus) (hfocus : ∀ other, focus = some other → other = e)
  (hentry : registry.objects[e]? = some entry)
include h hfocus hentry

theorem Inv.modifySet
    (hbefore : registry.acquires[i]? = some before) (hacquire : AcquireOk registry acquire)
    (hholds : ∀ other, other ≠ e → acquire.holds other = before.holds other)
    (hkeeps : Keeps entry (f entry)) {entries : JsMap JsString EntryId}
    (hleaves : Leaves e registry.entries entries)
    (hok : EntryOk (f entry) (entries.get entry.key = some e)
      ((registry.setAcquire i acquire).holders e) (registry.Disposes e) (focus' ≠ some e)) :
    Inv { (registry.modifyEntry e f).setAcquire i acquire with entries := entries } focus' := by
  refine h.update hfocus hentry (WorkspaceTrackerRegistry.modifyEntry_self hentry f)
    (fun _ hother => registry.modifyEntry_other hother f) hkeeps hleaves ?_
    (fun _ _ _ _ => Iff.rfl) ?_ h.scheduled hok
  · intro other hother
    have hcount := registry.holders_setAcquire hbefore acquire other
    rw [hholds other hother] at hcount
    have hsame : (registry.setAcquire i acquire).holders other = registry.holders other := by
      omega
    exact hsame
  · intro j other hother
    rcases getElem?_set_cases hother with ⟨-, rfl⟩ | ⟨-, hold⟩
    · exact hacquire
    · exact h.acquired j other hold

theorem Inv.modifyEntry (hkeeps : Keeps entry (f entry))
    (hok : EntryOk (f entry) (registry.entries.get entry.key = some e) (registry.holders e)
      (registry.Disposes e) (focus' ≠ some e)) :
    Inv (registry.modifyEntry e f) focus' :=
  h.update hfocus hentry (WorkspaceTrackerRegistry.modifyEntry_self hentry f)
    (fun _ hother => registry.modifyEntry_other hother f) hkeeps (.refl _ _) (fun _ _ => rfl)
    (fun _ _ _ _ => Iff.rfl) h.acquired h.scheduled hok

end Registries

section Disposals

variable {registry : WorkspaceTrackerRegistry ρ}
variable {e : EntryId}
variable {d : DisposalId}
variable {key : JsString}
variable {before stage : Stage}

section

variable (h : registry.disposals[d]? = some ⟨key, e, before⟩)
include h

theorem disposes_iff (stage : Stage) :
    registry.Disposes e d stage ↔ stage = before := by
  constructor
  · intro hdisposes
    obtain ⟨key', hkey'⟩ := hdisposes
    rw [h] at hkey'
    cases hkey'
    rfl
  · intro hstage
    subst hstage
    exact ⟨key, h⟩

theorem disposes_setStage (other : DisposalId) (stage' : Stage) :
    (registry.setStage d stage).Disposes e other stage' ↔
      if other = d then stage' = stage else registry.Disposes e other stage' := by
  by_cases hother : other = d
  · subst hother
    rw [if_pos rfl]
    have hset : (registry.setStage other stage).disposals[other]? = some ⟨key, e, stage⟩ := by
      rw [WorkspaceTrackerRegistry.setStage, List.getElem?_modify_eq, h]
      rfl
    exact disposes_iff hset stage'
  · rw [if_neg hother]
    have hset : (registry.setStage d stage).disposals[other]? = registry.disposals[other]? :=
      List.getElem?_modify_ne _ _ (Ne.symm hother)
    simp only [WorkspaceTrackerRegistry.Disposes, hset]

theorem disposes_setStage_other
    {other : EntryId} (hother : other ≠ e) (d' : DisposalId) (stage' : Stage) :
    (registry.setStage d stage).Disposes other d' stage' ↔ registry.Disposes other d' stage' := by
  by_cases hsame : d' = d
  · subst hsame
    have hset : (registry.setStage d' stage).disposals[d']? = some ⟨key, e, stage⟩ := by
      rw [WorkspaceTrackerRegistry.setStage, List.getElem?_modify_eq, h]
      rfl
    simp only [WorkspaceTrackerRegistry.Disposes, hset, h, Option.some.injEq, Disposal.mk.injEq,
      Ne.symm hother, false_and, and_false, exists_false]
  · have hset : (registry.setStage d stage).disposals[d']? = registry.disposals[d']? :=
      List.getElem?_modify_ne _ _ (Ne.symm hsame)
    simp only [WorkspaceTrackerRegistry.Disposes, hset]

end

theorem Inv.setStage (h : Inv registry none) {entry entry' : WorkspaceTrackerRegistryEntry ρ}
    (hd : registry.disposals[d]? = some ⟨key, e, before⟩)
    (hentry : registry.objects[e]? = some entry)
    {objects : List (WorkspaceTrackerRegistryEntry ρ)} (hentry' : objects[e]? = some entry')
    (hothers : ∀ other : Nat, other ≠ e → objects[other]? = registry.objects[other]?)
    (hkeeps : Keeps entry entry') {entries : JsMap JsString EntryId}
    (hleaves : Leaves e registry.entries entries)
    (hok : EntryOk entry' (entries.get entry.key = some e) (registry.holders e)
      ((registry.setStage d stage).Disposes e) True) :
    Inv { registry.setStage d stage with objects := objects, entries := entries } none := by
  refine h.update (by simp) hentry hentry' hothers hkeeps hleaves (fun _ _ => rfl) (fun _ d' stage' hother => disposes_setStage_other hd hother d' stage')
    h.acquired ?_ (hok.mono fun _ => trivial)
  intro d' disposal hdisposal
  have hmodify : (registry.disposals.modify d fun disposal =>
      { disposal with stage := stage })[d']? = some disposal := hdisposal
  by_cases hsame : d' = d
  · subst hsame
    rw [List.getElem?_modify_eq, hd] at hmodify
    obtain rfl := Option.some.inj hmodify
    have hold := h.scheduled d' ⟨key, e, before⟩ hd
    exact hold
  · rw [List.getElem?_modify_ne _ _ (Ne.symm hsame)] at hmodify
    exact h.scheduled d' disposal hmodify

end Disposals

end TrackerRegistry

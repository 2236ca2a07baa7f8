import Crest.CheckpointManagerRecovery

/-!
# One checkpoint for each turn

`SessionInv` is kept by every step in which the checkpoint at the end of a turn is sound,
whatever becomes of the calls and wherever a process stops.  What the runs of the manager
promise of the turns of a session is read off it.
-/

namespace CheckpointManager

open Workspace Faults Faulty

/-- What is true of a boundary between operations, as long as its turn has not ended. -/
structure TurnOk (c : JsString → Option JsString) (t : JsString) (boundary : ActiveBoundary)
    (w : World) : Prop extends BoundaryOk c t boundary where
  first : ∀ u, c t = some u → turnCount w.durable u = 0
  own : ∀ record, w.durable.files.get t = some record ∨ w.durable.refs.get t = some record →
    record.processOwner = w.processOwner ∧ record.after = none
  leased : boundary.lease = true → boundary.pending = true ∧
    ∃ base, boundary.base = some base ∧ ∀ record,
      w.durable.files.get t = some record ∨ w.durable.refs.get t = some record →
        record.before = base.ref
  fresh : boundary.lease = false →
    boundary.acquisitionFailure = none ∨ boundary.beforeFailure = none →
    boundary.pending = false ∧ w.durable.files.get t = none ∧ w.durable.refs.get t = none ∧
      ∀ u, ¬ EverBound w.log t u

/-- What holds between operations, except for the boundaries of the turns of `T`. -/
structure SessionInv (input : Registration) (T : JsString → Prop) (s : SessionTurns) : Prop where
  durable : DurableInv input s.committed.get s.world
  turn : ∀ t boundary, ¬ T t → s.world.boundaries.get t = some boundary → t ∉ s.ended →
    TurnOk s.committed.get t boundary s.world
  unused : ∀ t, t ∉ s.used → s.world.boundaries.get t = none ∧ s.committed.get t = none ∧
    s.world.durable.files.get t = none ∧ s.world.durable.refs.get t = none
  active : ∀ t, ¬ T t → s.world.activeBoundaryToken = some t → t ∉ s.ended
  injective : ∀ t t' u, s.committed.get t = some u → s.committed.get t' = some u → t = t'
  ended : ∀ t ∈ s.ended, t ∈ s.used
  handled : ∀ t ∈ s.handled, t ∈ s.ended ∧
    ∀ u, s.committed.get t = some u → turnCount s.world.durable u = 1

namespace TurnOk

variable {c : JsString → Option JsString} {t : JsString} {boundary : ActiveBoundary}
  {w : World}

theorem frame (h : TurnOk c t boundary w) {T : JsString → Prop} {w' : World}
    (hframe : Frame c T w w') (ht : ¬ T t)
    (hinjective : ∀ t t' u, c t = some u → c t' = some u → t = t') :
    TurnOk c t boundary w' := by
  have hfiles := hframe.files t ht
  have hrefs := hframe.refs t ht
  refine
    { h with
      first := ?_
      own := ?_
      leased := ?_
      fresh := ?_ }
  · intro u hu
    rw [hframe.counts u]
    · exact h.first u hu
    · intro t' ht' hu'
      exact ht (hinjective t' t u hu' hu ▸ ht')
  · intro record hrecord
    rw [hfiles, hrefs] at hrecord
    rw [hframe.owner]
    exact h.own record hrecord
  · intro hlease
    obtain ⟨hpending, base, hbase, hbefore⟩ := h.leased hlease
    refine ⟨hpending, base, hbase, ?_⟩
    intro record hrecord
    rw [hfiles, hrefs] at hrecord
    exact hbefore record hrecord
  · intro hlease hnone
    obtain ⟨hpending, hfile, href, hnever⟩ := h.fresh hlease hnone
    refine ⟨hpending, hfiles.trans hfile, hrefs.trans href, ?_⟩
    exact fun u hb => hnever u (hframe.bound t u ht hb)

theorem recommit (h : TurnOk c t boundary w) {c' : JsString → Option JsString}
    (hc : c' t = c t) : TurnOk c' t boundary w :=
  { h with
    user := h.user.trans hc.symm
    unbound := fun hnone => h.unbound (hc ▸ hnone)
    first := fun u hu => h.first u (hc ▸ hu) }

theorem of_acquired {input : Registration} {P : PendingWorkspaceBoundaryV1 → Prop} {w₀ : World}
    (h : At input c t P w₀ 0 (some boundary) w) (hacquired : Acquired c t P boundary)
    (hP : ∀ record, P record → record.processOwner = w₀.processOwner ∧ record.after = none) :
    TurnOk c t boundary w := by
  refine
    { hacquired.toBoundaryOk with
      first := h.count
      own := ?_
      leased := ?_
      fresh := ?_ }
  · intro record hrecord
    rw [h.frame.owner]
    exact hP record (h.records record hrecord)
  · intro hlease
    obtain ⟨hpending, base, hbase, hbefore⟩ := hacquired.leased hlease
    exact ⟨hpending, base, hbase, fun record hrecord => hbefore record (h.records record hrecord)⟩
  · intro hlease hnone
    obtain ⟨hacquisition, hbefore⟩ := hacquired.failed hlease
    rcases hnone with hnone | hnone
    · simp [hnone] at hacquisition
    · simp [hnone] at hbefore

end TurnOk

namespace SessionInv

variable {input : Registration} {T : JsString → Prop} {s : SessionTurns}

theorem moved (h : SessionInv input T s) {w' : World}
    (hdurable : DurableInv input s.committed.get w') (hframe : Frame s.committed.get T s.world w')
    (hused : ∀ t, T t → t ∈ s.used)
    (hturn : ∀ t boundary, T t → w'.boundaries.get t = some boundary → t ∉ s.ended →
      TurnOk s.committed.get t boundary w')
    (hactive : ∀ t, T t → w'.activeBoundaryToken = some t → t ∉ s.ended) :
    SessionInv input (fun _ => False) { s with world := w' } where
  durable := hdurable
  turn := by
    intro t boundary _ hboundary hended
    by_cases ht : T t
    · exact hturn t boundary ht hboundary hended
    · exact (h.turn t boundary ht ((hframe.boundaries t ht).symm.trans hboundary) hended).frame
        hframe ht h.injective
  unused := by
    intro t ht
    have hT : ¬ T t := fun hT => ht (hused t hT)
    obtain ⟨hboundary, hcommitted, hfile, href⟩ := h.unused t ht
    exact ⟨(hframe.boundaries t hT).trans hboundary, hcommitted,
      (hframe.files t hT).trans hfile, (hframe.refs t hT).trans href⟩
  active := by
    intro t _ hactive'
    by_cases ht : T t
    · exact hactive t ht hactive'
    · exact h.active t ht (hframe.active t hactive')
  injective := h.injective
  ended := h.ended
  handled := by
    intro t ht
    obtain ⟨hended, hone⟩ := h.handled t ht
    refine ⟨hended, ?_⟩
    intro u hu
    have hgrows := hframe.grows u
    have honce := hdurable.once u
    rw [hone u hu] at hgrows
    show turnCount w'.durable u = 1
    omega

theorem halted (h : SessionInv input T s) {w' : World}
    (hdurable : DurableInv input s.committed.get w') (hframe : Frame s.committed.get T s.world w')
    (hused : ∀ t, T t → t ∈ s.used) :
    SessionInv input (fun _ => False) { s with world := stopped w', running := false } where
  durable := hdurable.congr rfl rfl
  turn := by
    intro t boundary _ hboundary
    cases hboundary
  unused := by
    intro t ht
    have hT : ¬ T t := fun hT => ht (hused t hT)
    obtain ⟨-, hcommitted, hfile, href⟩ := h.unused t ht
    exact ⟨rfl, hcommitted, (hframe.files t hT).trans hfile, (hframe.refs t hT).trans href⟩
  active := by
    intro t _ hactive
    cases hactive
  injective := h.injective
  ended := h.ended
  handled := by
    intro t ht
    obtain ⟨hended, hone⟩ := h.handled t ht
    refine ⟨hended, ?_⟩
    intro u hu
    have hgrows := hframe.grows u
    have honce := hdurable.once u
    rw [hone u hu] at hgrows
    show turnCount w'.durable u = 1
    omega

theorem except (h : SessionInv input (fun _ => False) s) (T : JsString → Prop) :
    SessionInv input T s :=
  { h with
    turn := fun t boundary _ => h.turn t boundary not_false
    active := fun t _ => h.active t not_false }

theorem at_turn (h : SessionInv input T s) {t : JsString} {boundary : ActiveBoundary}
    {P : PendingWorkspaceBoundaryV1 → Prop} (hboundary : s.world.boundaries.get t = some boundary)
    (hfirst : ∀ u, s.committed.get t = some u → turnCount s.world.durable u = 0)
    (hP : ∀ record, s.world.durable.files.get t = some record ∨
      s.world.durable.refs.get t = some record → P record) :
    At input s.committed.get t P s.world 0 (some boundary) s.world :=
  ⟨h.durable, Frame.refl _ _ _, hfirst, hP, hboundary⟩

theorem used_of_boundary (h : SessionInv input T s) {t : JsString} {boundary : ActiveBoundary}
    (hboundary : s.world.boundaries.get t = some boundary) : t ∈ s.used := by
  by_contra ht
  rw [(h.unused t ht).1] at hboundary
  cases hboundary

theorem acquired {t : JsString} {P : PendingWorkspaceBoundaryV1 → Prop}
    (h : SessionInv input (· = t) s) (hused : t ∈ s.used) (hended : t ∉ s.ended)
    (hP : ∀ record, P record → record.processOwner = s.world.processOwner ∧ record.after = none)
    (w' : World)
    (h' : ∃ boundary, At input s.committed.get t P s.world 0 (some boundary) w' ∧
      Acquired s.committed.get t P boundary) :
    SessionInv input (fun _ => False) { s with world := w' } := by
  obtain ⟨boundary, hat, hacquired⟩ := h'
  apply h.moved hat.durable hat.frame
  · rintro t' rfl
    exact hused
  · rintro t' boundary' rfl hboundary' _
    rw [hat.boundary] at hboundary'
    cases hboundary'
    exact TurnOk.of_acquired hat hacquired hP
  · rintro t' rfl _
    exact hended

theorem died {t : JsString} {P : PendingWorkspaceBoundaryV1 → Prop} {w' : World}
    (h : SessionInv input (· = t) s) (hused : t ∈ s.used)
    (h' : Stopped input s.committed.get t P s.world w') :
    SessionInv input (fun _ => False) { s with world := stopped w', running := false } := by
  obtain ⟨n, ob, hat⟩ := h'
  apply h.halted hat.durable hat.frame
  rintro t' rfl
  exact hused

end SessionInv

theorem SessionTurns.after_of_wpFor {α : Type} {s : SessionTurns} {p : Operation α}
    {os : List (Outcome Thrown)} {Q : α → World → Prop} {X : Thrown → World → Prop}
    {D : World → Prop} {I : SessionTurns → Prop} (h : wpFor os p Q X D s.world)
    (hQ : ∀ a w', Q a w' → I { s with world := w' })
    (hX : ∀ e w', X e w' → I { s with world := w' })
    (hD : ∀ w', D w' → I { s with world := stopped w', running := false }) :
    I (s.after (p s.world os)) := by
  unfold wpFor at h
  unfold SessionTurns.after
  cases hrun : p s.world os with
  | mk ending rest =>
    obtain ⟨w', os'⟩ := rest
    rw [hrun] at h
    cases ending with
    | returned a => exact hQ a w' h
    | threw e => exact hX e w' h
    | died => exact hD w' h

section Steps

variable {input : Registration} {s : SessionTurns} {os : List (Outcome Thrown)}

variable (h : SessionInv input (fun _ => False) s)
include h

theorem SessionInv.before {boundaryToken : JsString} (hfresh : boundaryToken ∉ s.used) :
    SessionInv input (fun _ => False)
      ({ s with used := boundaryToken :: s.used }.after (onBefore boundaryToken s.world os)) := by
  obtain ⟨-, hcommitted, hfile, href⟩ := h.unused boundaryToken hfresh
  show SessionInv input (fun _ => False)
    { s with
      used := boundaryToken :: s.used
      world :=
        { s.world with
          boundaries := s.world.boundaries.set boundaryToken { token := boundaryToken }
          activeBoundaryToken := some boundaryToken } }
  refine
    { durable := h.durable.congr rfl rfl
      turn := ?_
      unused := ?_
      active := ?_
      injective := h.injective
      ended := fun t ht => List.mem_cons_of_mem _ (h.ended t ht)
      handled := h.handled }
  · intro t boundary _ hboundary hended
    simp only [JsMap.get_set] at hboundary
    split at hboundary
    case isFalse _ =>
      have hturn := h.turn t boundary not_false hboundary hended
      exact { hturn with }
    case isTrue ht =>
      subst ht
      cases hboundary
      exact
        { token_eq := rfl
          user := hcommitted.symm
          unbound := fun _ => rfl
          plain := by simp
          first := by simp [hcommitted]
          own := by simp [hfile, href]
          leased := by simp
          fresh := by
            intro _ _
            refine ⟨rfl, hfile, href, ?_⟩
            intro u hb
            have hu := (h.durable.kept t u hb).1
            rw [hcommitted] at hu
            cases hu }
  · intro t ht
    obtain ⟨hne, ht⟩ := not_or.mp (fun hor => ht (List.mem_cons.mpr hor))
    obtain ⟨hboundary, hrest⟩ := h.unused t ht
    exact ⟨by simpa [hne] using hboundary, hrest⟩
  · intro t _ hactive hended
    cases hactive
    exact hfresh (h.ended _ hended)

theorem SessionInv.writing (lease : Except Thrown Unit)
    (base : Except Thrown WorkspaceCheckpointHead) (nonce : JsString) :
    SessionInv input (fun _ => False)
      (s.after (beforeWritingOperation input lease base nonce s.world os)) := by
  have hunchanged : SessionInv input (fun _ => False) { s with world := s.world } := h
  suffices hwp : wp (beforeWritingOperation input lease base nonce)
      (fun _ w' => SessionInv input (fun _ => False) { s with world := w' })
      (fun _ w' => SessionInv input (fun _ => False) { s with world := w' })
      (fun w' => SessionInv input (fun _ => False)
        { s with world := stopped w', running := false }) s.world from
    SessionTurns.after_of_wpFor (hwp os) (fun _ _ h' => h') (fun _ _ h' => h') fun _ h' => h'
  apply wp_bind
  apply wp_get
  cases hactive : s.world.activeBoundaryToken with
  | none => exact wp_throwing hunchanged
  | some t =>
    have hended := h.active t not_false hactive
    cases hboundary : s.world.boundaries.get t with
    | none =>
      simp only [Option.bind_some, hboundary]
      exact wp_throwing hunchanged
    | some boundary =>
      have hturn := h.turn t boundary not_false hboundary hended
      simp only [Option.bind_some, hboundary]
      unfold acquireBoundary
      rcases Option.eq_none_or_eq_some boundary.acquisitionFailure with hnone | ⟨failure, hsome⟩
      case inr =>
        rw [hsome]
        exact wp_throwing hunchanged
      rw [hnone]
      dsimp only
      cases hlease : boundary.lease with
      | true =>
        obtain ⟨-, base', hbase, -⟩ := hturn.leased hlease
        rw [if_pos (by simp [hbase])]
        exact wp_pure hunchanged
      | false =>
        obtain ⟨-, hfile, href, -⟩ := hturn.fresh hlease (Or.inl hnone)
        have hused := h.used_of_boundary hboundary
        have hat := h.at_turn
          (P := fun record => record.processOwner = s.world.processOwner ∧
            record.after = none ∧ ∀ head, base = .ok head → record.before = head.ref)
          hboundary hturn.first (by simp [hfile, href])
        have hdone := (h.except (· = t)).acquired hused hended (P := fun record =>
          record.processOwner = s.world.processOwner ∧ record.after = none ∧
            ∀ head, base = .ok head → record.before = head.ref)
          fun record hrecord => ⟨hrecord.1, hrecord.2.1⟩
        rw [if_neg (by simp), hturn.token_eq]
        apply wp_catching
        apply wp_mono (wp_acquire hat hturn.toBoundaryOk ?_ ?_ ?_)
        · exact fun _ w' h' => hdone w' h'
        · rintro error w' ⟨boundary', hat', hboundary'⟩
          apply wp_mono (wp_acquisitionFailed hat' hboundary' error _)
          · exact fun _ _ h' => h'
          · exact fun _ w'' h'' => hdone w'' h''
          · exact fun _ h'' => (h.except (· = t)).died hused ⟨0, h''⟩
        · exact fun _ h' => (h.except (· = t)).died hused ⟨0, h'⟩
        · intro head hhead record howner hafter hbefore
          refine ⟨howner, hafter, ?_⟩
          intro head' hhead'
          rw [hhead] at hhead'
          cases hhead'
          exact hbefore
        · exact fun record userEntryId hrecord => hrecord
        · exact fun head hhead record hrecord => hrecord.2.2 head hhead

theorem SessionInv.commit {t userEntryId : JsString} {boundary : ActiveBoundary}
    (hboundary : s.world.boundaries.get t = some boundary) (hended : t ∉ s.ended)
    (hnone : s.committed.get t = none) (hfresh : ∀ t', s.committed.get t' ≠ some userEntryId) :
    SessionInv input (· = t) { s with committed := s.committed.set t userEntryId } := by
  have hother : ∀ t', ¬ t' = t →
      (s.committed.set t userEntryId).get t' = s.committed.get t' := by
    intro t' ht'
    simp [ht']
  refine
    { durable := h.durable.mono ?_
      turn := ?_
      unused := ?_
      active := fun t' _ => h.active t' not_false
      injective := ?_
      ended := h.ended
      handled := ?_ }
  · intro t' u hu
    by_cases ht' : t' = t
    · subst ht'
      rw [hnone] at hu
      cases hu
    · rw [hother t' ht', hu]
  · intro t' boundary' ht' hboundary' hended'
    exact (h.turn t' boundary' not_false hboundary' hended').recommit (hother t' ht')
  · intro t' ht'
    have hne : ¬ t' = t := by
      rintro rfl
      exact ht' (h.used_of_boundary hboundary)
    rw [hother t' hne]
    exact h.unused t' ht'
  · intro t₁ t₂ u h₁ h₂
    simp only [JsMap.get_set] at h₁ h₂
    split at h₁ <;> split at h₂
    case isTrue.isTrue ht₁ ht₂ => rw [ht₁, ht₂]
    case isTrue.isFalse _ _ =>
      cases h₁
      exact absurd h₂ (hfresh t₂)
    case isFalse.isTrue _ _ =>
      cases h₂
      exact absurd h₁ (hfresh t₁)
    case isFalse.isFalse _ _ => exact h.injective t₁ t₂ u h₁ h₂
  · intro t' ht'
    obtain ⟨hin, hone⟩ := h.handled t' ht'
    refine ⟨hin, ?_⟩
    have hne : ¬ t' = t := by
      rintro rfl
      exact hended hin
    rw [hother t' hne]
    exact hone

theorem SessionInv.committing {t userEntryId : JsString} {boundary : ActiveBoundary}
    (hboundary : s.world.boundaries.get t = some boundary) (hended : t ∉ s.ended)
    (hnone : s.committed.get t = none) (hfresh : ∀ t', s.committed.get t' ≠ some userEntryId) :
    SessionInv input (fun _ => False)
      ({ s with committed := s.committed.set t userEntryId }.after
        (onCommitted t userEntryId s.world os)) := by
  have hturn := h.turn t boundary not_false hboundary hended
  have hunbound := hturn.unbound hnone
  have hused := h.used_of_boundary hboundary
  have hcommit := h.commit hboundary hended hnone hfresh
  have hc : (s.committed.set t userEntryId).get t = some userEntryId := by simp
  have hzero : turnCount s.world.durable userEntryId = 0 := by
    by_contra hne
    obtain ⟨checkpoint, hmem, hid⟩ := List.countP_pos_iff.mp (Nat.pos_of_ne_zero hne)
    obtain ⟨t', ht'⟩ := h.durable.committed checkpoint hmem
    rw [of_decide_eq_true hid] at ht'
    exact hfresh t' ht'
  have hfirst : ∀ u, (s.committed.set t userEntryId).get t = some u →
      turnCount s.world.durable u = 0 := by
    intro u hu
    rw [hc] at hu
    cases hu
    exact hzero
  cases hpending : boundary.pending with
  | true =>
    have hat := hcommit.at_turn
      (P := fun record => record.processOwner = s.world.processOwner ∧ record.after = none ∧
        (boundary.lease = true → ∀ base, boundary.base = some base →
          record.before = base.ref))
      hboundary hfirst ?_
    case refine_1 =>
      intro record hrecord
      obtain ⟨howner, hafter⟩ := hturn.own record hrecord
      refine ⟨howner, hafter, ?_⟩
      intro hlease base hbase
      obtain ⟨-, base', hbase', hbefore⟩ := hturn.leased hlease
      rw [hbase] at hbase'
      cases hbase'
      exact hbefore record hrecord
    have hdone := hcommit.acquired (P := fun record =>
        record.processOwner = s.world.processOwner ∧ record.after = none ∧
          (boundary.lease = true → ∀ base, boundary.base = some base →
            record.before = base.ref)) hused hended
      fun record hrecord => ⟨hrecord.1, hrecord.2.1⟩
    have hwp := wp_onCommitted hat hc hturn.token_eq hturn.plain hpending hunbound ?_ ?_
      (fun record hrecord => hrecord)
    · apply SessionTurns.after_of_wpFor (hwp os)
      · exact fun _ w' h' => hdone w' h'
      · exact fun _ w' h' => hdone w' h'
      · exact fun _ h' => hcommit.died hused ⟨0, h'⟩
    · intro hlease
      obtain ⟨-, base, hbase, -⟩ := hturn.leased hlease
      exact ⟨base, hbase, fun record hrecord => hrecord.2.2 hlease base hbase⟩
    · intro hlease
      by_contra hfailed
      have hor : boundary.acquisitionFailure = none ∨ boundary.beforeFailure = none := by
        cases hacquisition : boundary.acquisitionFailure with
        | none => exact Or.inl rfl
        | some _ =>
          cases hbefore : boundary.beforeFailure with
          | none => exact Or.inr rfl
          | some _ => simp [hacquisition, hbefore] at hfailed
      rw [(hturn.fresh hlease hor).1] at hpending
      cases hpending
  | false =>
    have hupdated : wp (onCommitted t userEntryId)
        (fun _ w' => w' =
          { s.world with
            boundaries := s.world.boundaries.setSome t
              ((s.world.boundaries.get t).map fun boundary =>
                { boundary with userEntryId := some userEntryId }) })
        (fun _ _ => False) (fun _ => False) s.world := by
      apply wp_bind
      apply wp_get
      rw [hboundary]
      apply wp_bind
      apply wp_modify
      rw [if_neg (by simp [hpending])]
      apply wp_pure
      rw [hboundary]
    apply SessionTurns.after_of_wpFor
      (s := { s with committed := s.committed.set t userEntryId }) (hupdated os)
    case hX => exact fun _ _ hf => hf.elim
    case hD => exact fun _ hf => hf.elim
    rintro _ w' rfl
    have hat := hcommit.at_turn (P := fun record =>
      s.world.durable.files.get t = some record ∨ s.world.durable.refs.get t = some record)
      hboundary hfirst (fun record hrecord => hrecord)
    have hat' := hat.update fun boundary => { boundary with userEntryId := some userEntryId }
    apply hcommit.moved hat'.durable hat'.frame
    · rintro t' rfl
      exact hused
    · rintro t' boundary' rfl hboundary' _
      rw [hat'.boundary] at hboundary'
      cases hboundary'
      exact
        { token_eq := hturn.token_eq
          user := hc.symm
          unbound := fun _ => hunbound
          plain := hturn.plain
          first := hfirst
          own := hturn.own
          leased := hturn.leased
          fresh := hturn.fresh }
    · rintro t' rfl _
      exact hended

theorem SessionInv.terminal {t : JsString} {boundary : ActiveBoundary} {turnEnd : TurnEnd}
    (hboundary : s.world.boundaries.get t = some boundary) (hended : t ∉ s.ended)
    (hsound : Sound input boundary turnEnd os) :
    SessionInv input (fun _ => False)
      ({ s with
          ended := t :: s.ended
          handled :=
            match (onTerminal input t turnEnd s.world os).1 with
            | .returned _ => t :: s.handled
            | _ => s.handled }.after (onTerminal input t turnEnd s.world os)) := by
  have hturn := h.turn t boundary not_false hboundary hended
  have hused := h.used_of_boundary hboundary
  have hending : SessionInv input (· = t) { s with ended := t :: s.ended } :=
    { h with
      turn := fun t' boundary' _ hboundary' hended' =>
        h.turn t' boundary' not_false hboundary' fun hin => hended' (List.mem_cons_of_mem _ hin)
      active := fun t' ht' hactive hin =>
        (List.mem_cons.mp hin).elim ht' (h.active t' not_false hactive)
      ended := by
        intro t' ht'
        rcases List.mem_cons.mp ht' with rfl | ht'
        · exact hused
        · exact h.ended t' ht'
      handled := fun t' ht' =>
        ⟨List.mem_cons_of_mem _ (h.handled t' ht').1, (h.handled t' ht').2⟩ }
  have hat := hending.at_turn
    (P := fun record => boundary.lease = true → ∀ base, boundary.base = some base →
      record.before = base.ref) hboundary hturn.first ?_
  case refine_1 =>
    intro record hrecord hlease base hbase
    obtain ⟨-, base', hbase', hbefore⟩ := hturn.leased hlease
    rw [hbase] at hbase'
    cases hbase'
    exact hbefore record hrecord
  have hwp := wpFor_onTerminal hat hturn.toBoundaryOk
    (fun t' u hu hu' => h.injective t' t u hu' hu) ?_ ?_ ?_ (fun _ _ hrecord => hrecord) hsound
  case refine_1 =>
    intro record hrecord
    obtain ⟨json, hfile, -, href | ⟨-, rfl⟩⟩ := pendingRecord_eq_some hrecord
    · exact (hturn.own record (Or.inr href)).2
    · exact (hturn.own json (Or.inl hfile)).2
  case refine_2 =>
    intro hlease
    obtain ⟨hpending, base, hbase, -⟩ := hturn.leased hlease
    exact ⟨hpending, base, hbase, fun record hrecord => hrecord hlease base hbase⟩
  case refine_3 =>
    intro hlease hbefore
    exact (hturn.fresh hlease (Or.inr hbefore)).2.2.2
  have hmoved : ∀ P w', Stopped input s.committed.get t P s.world w' →
      w'.activeBoundaryToken ≠ some t →
      SessionInv input (fun _ => False) { s with ended := t :: s.ended, world := w' } := by
    rintro P w' ⟨n, ob, hat'⟩ hactive
    apply hending.moved hat'.durable hat'.frame
    · rintro t' rfl
      exact hused
    · rintro t' boundary' rfl _ hnot
      exact absurd List.mem_cons_self hnot
    · rintro t' rfl hactive'
      exact absurd hactive' hactive
  unfold wpFor at hwp
  cases hrun : onTerminal input t turnEnd s.world os with
  | mk ending rest =>
    obtain ⟨w', os'⟩ := rest
    rw [hrun] at hwp
    cases ending with
    | threw e => exact hmoved _ w' hwp.1 hwp.2
    | died => exact hending.died hused hwp
    | returned result =>
      obtain ⟨⟨ob, hfinished⟩, hactive⟩ := hwp
      have hone : ∀ u, s.committed.get t = some u → turnCount w'.durable u = 1 := by
        intro u hu
        rcases hfinished with ⟨hnone, -⟩ | hat'
        · rw [hnone] at hu
          cases hu
        · exact hat'.count u hu
      have hdone : SessionInv input (fun _ => False)
          { s with ended := t :: s.ended, world := w' } := by
        rcases hfinished with ⟨-, hat'⟩ | hat'
        · exact hmoved _ w' ⟨0, ob, hat'⟩ hactive
        · exact hmoved _ w' ⟨1, ob, hat'⟩ hactive
      refine { hdone with handled := ?_ }
      intro t' ht'
      rcases List.mem_cons.mp ht' with rfl | ht'
      · exact ⟨List.mem_cons_self, hone⟩
      · exact hdone.handled t' ht'

theorem SessionInv.recovering (dead : List ProcessOwnerIdentity) :
    SessionInv input (fun _ => False) (s.after (recover input dead s.world os)) := by
  have hused : ∀ t, Orphaned dead s.world t → t ∈ s.used := by
    rintro t ⟨json, hfile, -⟩
    by_contra ht
    rw [(h.unused t ht).2.2.1] at hfile
    cases hfile
  have hmoved : ∀ w', DurableInv input s.committed.get w' ∧
      Frame s.committed.get (Orphaned dead s.world) s.world w' ∧
      (∀ t, w'.boundaries.get t = s.world.boundaries.get t) →
      SessionInv input (fun _ => False) { s with world := w' } := by
    rintro w' ⟨hdurable, hframe, hboundaries⟩
    apply (h.except (Orphaned dead s.world)).moved hdurable hframe hused
    · -- No turn of this process was found dead.
      rintro t boundary ⟨json, hfile, hdead⟩ hboundary hended
      rw [hboundaries t] at hboundary
      have hturn := h.turn t boundary not_false hboundary hended
      simp [foundDead, (hturn.own json (Or.inl hfile)).1] at hdead
    · intro t _ hactive
      exact h.active t not_false (hframe.active t hactive)
  apply SessionTurns.after_of_wpFor (wp_recover h.durable h.injective dead os)
  · exact fun _ w' h' => hmoved w' h'.1
  · exact fun _ w' h' => hmoved w' h'
  · exact fun _ h' => (h.except (Orphaned dead s.world)).halted h'.1 h'.2.1 hused

theorem SessionInv.restart (processOwner : ProcessOwnerIdentity) :
    SessionInv input (fun _ => False)
      { s with
        world := { stopped s.world with processOwner }
        running := true
        owners := processOwner :: s.owners } where
  durable := h.durable.congr rfl rfl
  turn := by
    intro t boundary _ hboundary
    cases hboundary
  unused := by
    intro t ht
    obtain ⟨-, hrest⟩ := h.unused t ht
    exact ⟨rfl, hrest⟩
  active := by
    intro t _ hactive
    cases hactive
  injective := h.injective
  ended := h.ended
  handled := h.handled

end Steps

/-- Whether the checkpoint that a step would append at the end of a turn is sound. -/
def SoundStep (input : Registration) (s : SessionTurns) : Event × List (Outcome Thrown) → Prop
  | (.terminal boundaryToken turnEnd, os) =>
    ∀ boundary ∈ s.world.boundaries.get boundaryToken, Sound input boundary turnEnd os
  | _ => True

instance (input : Registration) (s : SessionTurns) (e : Event × List (Outcome Thrown)) :
    Decidable (SoundStep input s e) := by
  unfold SoundStep
  split <;> infer_instance

theorem SessionInv.step {input : Registration} {s : SessionTurns}
    {e : Event × List (Outcome Thrown)} (h : SessionInv input (fun _ => False) s)
    (hsound : SoundStep input s e) :
    SessionInv input (fun _ => False) (s.step input e) := by
  obtain ⟨event, os⟩ := e
  cases event with
  | before boundaryToken =>
    simp only [SessionTurns.step]
    split
    case isTrue hguard =>
      apply h.before
      simp only [Bool.and_eq_true, decide_eq_true_eq] at hguard
      exact hguard.2
    case isFalse _ => exact h
  | writing lease base nonce =>
    simp only [SessionTurns.step]
    split
    case isTrue _ => exact h.writing lease base nonce
    case isFalse _ => exact h
  | committed boundaryToken userEntryId =>
    simp only [SessionTurns.step]
    split
    case isTrue hguard =>
      simp only [Bool.and_eq_true, decide_eq_true_eq, JsMap.has] at hguard
      obtain ⟨⟨⟨⟨-, hhas⟩, hended⟩, hnone⟩, hfresh⟩ := hguard
      obtain ⟨boundary, hboundary⟩ := Option.isSome_iff_exists.mp hhas
      apply h.committing hboundary hended (by simpa using hnone)
      intro t' ht'
      exact hfresh (List.mem_map.mpr ⟨(t', userEntryId), JsMap.mem_entries_of_get ht', rfl⟩)
    case isFalse _ => exact h
  | terminal boundaryToken turnEnd =>
    simp only [SessionTurns.step]
    split
    case isTrue hguard =>
      simp only [Bool.and_eq_true, decide_eq_true_eq, JsMap.has] at hguard
      obtain ⟨⟨-, hhas⟩, hended⟩ := hguard
      obtain ⟨boundary, hboundary⟩ := Option.isSome_iff_exists.mp hhas
      exact h.terminal hboundary hended (hsound boundary hboundary)
    case isFalse _ => exact h
  | recover dead =>
    simp only [SessionTurns.step]
    split
    case isTrue _ => exact h.recovering dead
    case isFalse _ => exact h
  | restart processOwner =>
    simp only [SessionTurns.step]
    split
    case isTrue _ => exact h
    case isFalse _ => exact h.restart processOwner

theorem SessionInv.initial (input : Registration) (processOwner : ProcessOwnerIdentity) :
    SessionInv input (fun _ => False) (SessionTurns.initial processOwner) where
  durable :=
    { replayed := rfl
      keeps := fun front entry back heq => by simp [SessionTurns.initial] at heq
      file := fun t record hfile => by cases hfile
      ref := fun t record href => by cases href
      successor := fun t json record hfile => by cases hfile
      readable := fun checkpoint hmem => by cases hmem
      once := fun u => Nat.zero_le 1
      committed := fun checkpoint hmem => by cases hmem
      kept := fun t u ⟨entry, hmem, _⟩ => by cases hmem
      content := fun checkpoint hmem => by cases hmem }
  turn := fun t boundary _ hboundary => by cases hboundary
  unused := fun t _ => ⟨rfl, rfl, rfl, rfl⟩
  active := fun t _ hactive => by cases hactive
  injective := fun t t' u hu => by cases hu
  ended := fun t ht => by cases ht
  handled := fun t ht => by cases ht

/-- **What the manager promises of the turns of a session.** -/
structure OneCheckpointEach (input : Registration) (s : SessionTurns) : Prop where
  /-- The durable state is what the calls have made. -/
  replayed : s.world.durable = replay s.world.log
  /-- Until its removal starts, a record loses neither a user entry nor a snapshot. -/
  keeps : KeepsRecords s.world.log
  /-- No turn has two checkpoints. -/
  once : ∀ u, turnCount s.world.durable u ≤ 1
  /-- Only turns with a user entry have one. -/
  committed : ∀ checkpoint ∈ s.world.durable.session,
    ∃ t, s.committed.get t = some checkpoint.turnId
  /-- The snapshots of an available one are those of the record of its turn. -/
  content : ∀ checkpoint, .available checkpoint ∈ s.world.durable.session →
    Content s.world.log checkpoint
  /-- A turn whose end was handled without a throw has one if it has a user entry. -/
  handled : ∀ t ∈ s.handled, ∀ u, s.committed.get t = some u → turnCount s.world.durable u = 1
  /-- A turn whose bound record became durable still has a bound record, or a checkpoint, or
  lost it in `onTerminal`. -/
  bound : ∀ t u, EverBound s.world.log t u → s.committed.get t = some u ∧
    ((∃ record, pendingRecord s.world.durable t = some record ∧ record.userEntryId = some u) ∨
      turnCount s.world.durable u = 1 ∨ Dropped s.world.log u)
  /-- It has a checkpoint, or lost it, when `recover` has returned with its process dead. -/
  recovered : ∀ dead os w' rest, recover input dead s.world os = (.returned (), w', rest) →
    ∀ t u, EverBound w'.log t u →
      (∀ json, s.world.durable.files.get t = some json →
        foundDead dead s.world json.processOwner = true) →
      turnCount w'.durable u = 1 ∨ Dropped w'.log u

theorem SessionInv.oneCheckpointEach {input : Registration} {s : SessionTurns}
    (h : SessionInv input (fun _ => False) s) : OneCheckpointEach input s where
  replayed := h.durable.replayed
  keeps := h.durable.keeps
  once := h.durable.once
  committed := h.durable.committed
  content := h.durable.content
  handled := fun t ht => (h.handled t ht).2
  bound := h.durable.kept
  recovered := by
    intro dead os w' rest hrun t u hb horphan
    have hwp := wp_recover h.durable h.injective dead os
    unfold wpFor at hwp
    rw [hrun] at hwp
    obtain ⟨⟨hdurable, hframe, -⟩, hgone⟩ := hwp
    have hfile : w'.durable.files.get t = none := by
      cases hjson : s.world.durable.files.get t with
      | some json => exact hgone t ⟨json, hjson, horphan json hjson⟩
      | none =>
        rw [hframe.files t, hjson]
        rintro ⟨json, hfile, -⟩
        rw [hjson] at hfile
        cases hfile
    rcases (hdurable.kept t u hb).2 with ⟨record, hrecord, -⟩ | hrest
    · rw [pendingRecord_of_no_file hfile] at hrecord
      cases hrecord
    · exact hrest

/-- **Each turn has its checkpoint.**  In every run whose checkpoints at the end of a turn
are sound, whatever the calls do and wherever the processes stop, no turn ever has two
checkpoints, and a turn that was bound or handled has one in the end unless `onTerminal`
could not write it. -/
theorem SessionTurns.each_turn_has_its_checkpoint (input : Registration)
    (processOwner : ProcessOwnerIdentity) (es : List (Event × List (Outcome Thrown)))
    (hsound : Runs.Guarded (SessionTurns.step input) (SoundStep input)
      (SessionTurns.initial processOwner) es) :
    OneCheckpointEach input
      (Runs.run (SessionTurns.step input) (SessionTurns.initial processOwner) es) :=
  (Runs.guarded_invariant (SessionTurns.step input) (SessionInv input fun _ => False)
    (SoundStep input) (fun _ _ h hok => h.step hok) (SessionInv.initial input processOwner) es
    hsound).oneCheckpointEach

section Interrupted

def someRegistration : Registration where
  sessionId := js "s"
  workspaceIdentity := List.replicate 64 0x61
  workspaceIncarnation := List.replicate 64 0x62

def processNumber (n : Nat) : ProcessOwnerIdentity where
  pid := n
  processStartToken := js "t"
  nonce := js "n"

/-- A snapshot, and what it covers. -/
def headNamed (unit : UInt16) : WorkspaceCheckpointHead where
  ref :=
    { id := List.replicate 40 unit
      workspaceIdentity := List.replicate 64 0x61
      workspaceIncarnation := List.replicate 64 0x62
      tree := List.replicate 40 0x31
      scopeManifest := List.replicate 40 0x66 }
  coverage :=
    { complete := true
      eligibleEntryCount := 1
      newlyHashedBytes := 0
      exclusions := [] }

/-- The end of a turn that was captured. -/
def capturedEnd : TurnEnd where
  hostedRunning := false
  head := .ok (headNamed 0x31)
  captured := .ok
    { after := (headNamed 0x32).ref
      changes := []
      coverage := (headNamed 0x32).coverage }
  reason := []

/-- A turn that writes, up to its user entry. -/
def writingTurn : List (Event × List (Outcome Thrown)) :=
  [(.before (js "a"), []), (.writing (.ok ()) (.ok (headNamed 0x31)) (js "n"), []),
    (.committed (js "a") (js "u"), [])]

/-- Its process stops between the snapshot and the checkpoint, and the next one stops after
it has appended the checkpoint. -/
def stoppedTwice : List (Event × List (Outcome Thrown)) :=
  writingTurn ++
    [(.terminal (js "a") capturedEnd, [.ok, .ok, .dies]), (.restart (processNumber 2), []),
      (.recover [processNumber 1], [.ok, .dies]), (.restart (processNumber 3), []),
      (.recover [processNumber 1, processNumber 2], [])]

/-- There is one checkpoint in the end, and no record. -/
theorem each_turn_has_its_checkpoint_stoppedTwice :
    OneCheckpointEach someRegistration
      (Runs.run (SessionTurns.step someRegistration) (SessionTurns.initial (processNumber 1))
        stoppedTwice) ∧
    turnCount
      (Runs.run (SessionTurns.step someRegistration) (SessionTurns.initial (processNumber 1))
        stoppedTwice).world.durable (js "u") = 1 ∧
    (Runs.run (SessionTurns.step someRegistration) (SessionTurns.initial (processNumber 1))
      stoppedTwice).world.durable.files.get (js "a") = none :=
  ⟨SessionTurns.each_turn_has_its_checkpoint someRegistration (processNumber 1) stoppedTwice
    (by decide +kernel), by decide +kernel, by decide +kernel⟩

/-- The append of the checkpoint throws and has no effect. -/
def appendLost : List (Event × List (Outcome Thrown)) :=
  writingTurn ++
    [(.terminal (js "a") capturedEnd, [.ok, .ok, .lost (.other (js "disk full"))]),
      (.restart (processNumber 2), []), (.recover [processNumber 1], [])]

/-- The record of the turn was bound and is gone, and the turn has no checkpoint. -/
theorem retired_turn_has_no_checkpoint :
    ¬ ∀ (es : List (Event × List (Outcome Thrown))) (t u : JsString),
      EverBound (Runs.run (SessionTurns.step someRegistration)
        (SessionTurns.initial (processNumber 1)) es).world.log t u →
      (Runs.run (SessionTurns.step someRegistration)
        (SessionTurns.initial (processNumber 1)) es).world.durable.files.get t = none →
      turnCount (Runs.run (SessionTurns.step someRegistration)
        (SessionTurns.initial (processNumber 1)) es).world.durable u = 1 := by
  intro hclaim
  have hbound : EverBound (Runs.run (SessionTurns.step someRegistration)
      (SessionTurns.initial (processNumber 1)) appendLost).world.log (js "a") (js "u") := by
    refine ⟨(.anchorPending
      { boundaryToken := js "a"
        sessionId := js "s"
        workspaceIdentity := List.replicate 64 0x61
        workspaceIncarnation := List.replicate 64 0x62
        processOwner := processNumber 1
        nonce := js "n"
        before := (headNamed 0x31).ref
        userEntryId := some (js "u") }, .ok), ?_, rfl, _, rfl, rfl, rfl⟩
    decide +kernel
  have hone := hclaim appendLost (js "a") (js "u") hbound (by decide +kernel)
  exact absurd hone (by decide +kernel)

end Interrupted

end CheckpointManager

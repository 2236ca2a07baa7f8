import Crest.CheckpointManagerInvariant

/-!
# What the operations of the manager do

Almost every operation works on one turn.  `At t P w₀ n ob w` is what is known of the world
`w` in the middle of one that began in `w₀`: the durable invariant, that nothing of another
turn has changed, how many checkpoints the turn has, that its records meet `P`, and its
boundary.  There is one lemma for each operation, about where it can get.
-/

namespace CheckpointManager

open Workspace Faults Faulty

/-- What changes where only turns of `T` are worked on. -/
structure Frame (c : JsString → Option JsString) (T : JsString → Prop) (w w' : World) :
    Prop where
  files : ∀ t, ¬ T t → w'.durable.files.get t = w.durable.files.get t
  refs : ∀ t, ¬ T t → w'.durable.refs.get t = w.durable.refs.get t
  boundaries : ∀ t, ¬ T t → w'.boundaries.get t = w.boundaries.get t
  counts : ∀ u, (∀ t, T t → c t ≠ some u) → turnCount w'.durable u = turnCount w.durable u
  grows : ∀ u, turnCount w.durable u ≤ turnCount w'.durable u
  bound : ∀ t u, ¬ T t → EverBound w'.log t u → EverBound w.log t u
  owner : w'.processOwner = w.processOwner
  active : ∀ t, w'.activeBoundaryToken = some t → w.activeBoundaryToken = some t

namespace Frame

variable {c : JsString → Option JsString} {T : JsString → Prop} {w w' w'' : World}

theorem refl (c : JsString → Option JsString) (T : JsString → Prop) (w : World) :
    Frame c T w w where
  files _ _ := rfl
  refs _ _ := rfl
  boundaries _ _ := rfl
  counts _ _ := rfl
  grows _ := le_rfl
  bound _ _ _ h := h
  owner := rfl
  active _ h := h

theorem trans (h : Frame c T w w') (h' : Frame c T w' w'') : Frame c T w w'' where
  files t ht := (h'.files t ht).trans (h.files t ht)
  refs t ht := (h'.refs t ht).trans (h.refs t ht)
  boundaries t ht := (h'.boundaries t ht).trans (h.boundaries t ht)
  counts u hu := (h'.counts u hu).trans (h.counts u hu)
  grows u := (h.grows u).trans (h'.grows u)
  bound t u ht hb := h.bound t u ht (h'.bound t u ht hb)
  owner := h'.owner.trans h.owner
  active t ht := h.active t (h'.active t ht)

theorem mono (h : Frame c T w w') {T' : JsString → Prop} (hT : ∀ t, T t → T' t) :
    Frame c T' w w' where
  files t ht := h.files t fun hin => ht (hT t hin)
  refs t ht := h.refs t fun hin => ht (hT t hin)
  boundaries t ht := h.boundaries t fun hin => ht (hT t hin)
  counts u hu := h.counts u fun t ht => hu t (hT t ht)
  grows := h.grows
  bound t u ht := h.bound t u fun hin => ht (hT t hin)
  owner := h.owner
  active := h.active

theorem pendingRecord (h : Frame c T w w') {t : JsString} (ht : ¬ T t) :
    pendingRecord w'.durable t = pendingRecord w.durable t :=
  pendingRecord_congr (h.files t ht) (h.refs t ht)

end Frame

/-- The turn a call is about. -/
def Concerns (c : JsString → Option JsString) (t : JsString) : DurableCall → Prop
  | .anchorPending record => record.boundaryToken = t
  | .writeDurableJson record => record.boundaryToken = t
  | .deleteCrestRef boundaryToken => boundaryToken = t
  | .removeDurableFile boundaryToken => boundaryToken = t
  | .appendCheckpoint checkpoint _ => c t = some checkpoint.turnId

attribute [local simp] CheckpointManager.effect Durable.apply

theorem Frame.effect {c : JsString → Option JsString} {t : JsString} {call : DurableCall}
    (hcall : Concerns c t call) (outcome : Outcome Thrown) (w : World) :
    Frame c (· = t) w (effect call outcome w) := by
  have hbound : ∀ t' u, ¬ t' = t → EverBound (w.log ++ [(call, outcome)]) t' u →
      EverBound w.log t' u := by
    intro t' u ht' hb
    rcases everBound_append hb with hold | ⟨-, record, hrecord, htoken, -⟩
    · exact hold
    · cases call with
      | anchorPending _ | writeDurableJson _ =>
        cases hrecord
        exact absurd (htoken.symm.trans hcall) ht'
      | deleteCrestRef _ | removeDurableFile _ | appendCheckpoint _ _ => cases hrecord
  cases hpersisted : outcome.persisted with
  | false =>
    rw [effect_lost hpersisted]
    exact
      { files := fun _ _ => rfl
        refs := fun _ _ => rfl
        boundaries := fun _ _ => rfl
        counts := fun _ _ => rfl
        grows := fun _ => le_rfl
        bound := hbound
        owner := rfl
        active := fun _ h => h }
  | true =>
    rw [effect_persisted hpersisted]
    refine
      { files := ?_
        refs := ?_
        boundaries := fun _ _ => rfl
        counts := ?_
        grows := ?_
        bound := hbound
        owner := rfl
        active := fun _ h => h }
    · intro t' ht'
      cases call <;> simp_all [Concerns]
    · intro t' ht'
      cases call <;> simp_all [Concerns]
    · intro u hu
      cases call with
      | appendCheckpoint checkpoint recovering =>
        rw [turnCount_append]
        have hne : checkpoint.turnId ≠ u := by
          intro heq
          exact hu t rfl (heq ▸ hcall)
        simp [hne]
      | _ => rfl
    · intro u
      cases call with
      | appendCheckpoint checkpoint recovering =>
        rw [turnCount_append]
        omega
      | _ => exact le_rfl

theorem Closable.effect {w : World} {t : JsString} {call : DurableCall} (h : Closable w t)
    (hrecord : call.record? = none)
    (hsession : (w.durable.apply call).session = w.durable.session)
    (outcome : Outcome Thrown) : Closable (effect call outcome w) t := by
  intro u hb
  have hold : EverBound w.log t u := by
    rcases everBound_append hb with hold | ⟨-, record, hrecord', -⟩
    · exact hold
    · rw [hrecord] at hrecord'
      cases hrecord'
  have hcount : turnCount (CheckpointManager.effect call outcome w).durable u =
      turnCount w.durable u := by
    cases hpersisted : outcome.persisted with
    | false => simp [hpersisted]
    | true =>
      simp only [CheckpointManager.effect, hpersisted, ite_true, turnCount, hsession]
  rw [hcount]
  exact (h u hold).imp_right fun hd => hd.append _

/-- What is known in the middle of an operation on a turn. -/
structure At (input : Registration) (c : JsString → Option JsString) (t : JsString)
    (P : PendingWorkspaceBoundaryV1 → Prop) (w₀ : World) (n : Nat) (ob : Option ActiveBoundary)
    (w : World) : Prop where
  durable : DurableInv input c w
  frame : Frame c (· = t) w₀ w
  count : ∀ u, c t = some u → turnCount w.durable u = n
  records : ∀ record, w.durable.files.get t = some record ∨ w.durable.refs.get t = some record →
    P record
  boundary : w.boundaries.get t = ob

/-- Calls: every outcome that is not the end of the process changes the log. -/
theorem wp_perform {call : DurableCall} {Q : Unit → World → Prop} {X : Thrown → World → Prop}
    {D : World → Prop} {w : World} (hok : Q () (effect call .ok w))
    (hthrow : ∀ e outcome, outcome ≠ .ok → X e (effect call outcome w))
    (hdies : D w) : wp (perform call) Q X D w := by
  apply wp_attempt hok
  · intro e
    exact hthrow e (.lost e) (by simp)
  · intro e
    exact hthrow e (.kept e) (by simp)
  · exact hdies

section Rules

variable {input : Registration} {c : JsString → Option JsString} {t : JsString}
  {P : PendingWorkspaceBoundaryV1 → Prop} {w₀ : World} {n : Nat} {ob : Option ActiveBoundary}
  {w : World}

theorem DurableInv.closable_of_unbound (h : DurableInv input c w)
    (hrecord : ∀ record, pendingRecord w.durable t = some record → record.userEntryId = none) :
    Closable w t := by
  intro u hb
  obtain ⟨-, ⟨record, hr, hid⟩ | hrest⟩ := h.kept t u hb
  · rw [hrecord record hr] at hid
    cases hid
  · exact hrest

namespace At

theorem pendingRecord (h : At input c t P w₀ n ob w) {record : PendingWorkspaceBoundaryV1}
    (hrecord : pendingRecord w.durable t = some record) : P record := by
  obtain ⟨json, hfile, -, href | ⟨-, rfl⟩⟩ := pendingRecord_eq_some hrecord
  · exact h.records record (Or.inr href)
  · exact h.records json (Or.inl hfile)

theorem closable (h : At input c t P w₀ 1 ob w) : Closable w t := by
  intro u hb
  exact Or.inl (h.count u (h.durable.kept t u hb).1)

theorem update (h : At input c t P w₀ n ob w) (f : ActiveBoundary → ActiveBoundary) :
    At input c t P w₀ n (ob.map f)
      { w with boundaries := w.boundaries.setSome t ((w.boundaries.get t).map f) } where
  durable := h.durable.congr rfl rfl
  frame :=
    { h.frame with
      boundaries := by
        intro t' ht'
        rw [← h.frame.boundaries t' ht']
        simp [ht'] }
  count := h.count
  records := h.records
  boundary := by
    rw [h.boundary]
    cases ob <;> simp [h.boundary]

theorem effect (h : At input c t P w₀ n ob w) {call : DurableCall} {outcome : Outcome Thrown}
    (hdurable : DurableInv input c (effect call outcome w)) (hcall : Concerns c t call)
    (hsession : (w.durable.apply call).session = w.durable.session)
    (hP : ∀ record, call.record? = some record → P record) :
    At input c t P w₀ n ob (effect call outcome w) where
  durable := hdurable
  frame := h.frame.trans (Frame.effect hcall outcome w)
  count := by
    intro u hu
    rw [← h.count u hu]
    cases hpersisted : outcome.persisted with
    | false => simp [hpersisted]
    | true => simp only [CheckpointManager.effect, hpersisted, ite_true, turnCount, hsession]
  records := by
    intro record hrecord
    cases hpersisted : outcome.persisted with
    | false =>
      apply h.records
      simpa [hpersisted] using hrecord
    | true =>
      simp only [CheckpointManager.effect, hpersisted, ite_true] at hrecord
      cases call with
      | anchorPending record' =>
        simp only [Durable.apply, show record'.boundaryToken = t from hcall, JsMap.get_set,
          ite_true, Option.some.injEq] at hrecord
        rcases hrecord with hfile | rfl
        · exact h.records record (Or.inl hfile)
        · exact hP record' rfl
      | writeDurableJson record' =>
        simp only [Durable.apply, show record'.boundaryToken = t from hcall, JsMap.get_set,
          ite_true, Option.some.injEq] at hrecord
        rcases hrecord with rfl | href
        · exact hP record' rfl
        · exact h.records record (Or.inr href)
      | deleteCrestRef t' =>
        simp only [Durable.apply, show t' = t from hcall, JsMap.get_delete, ite_true,
          reduceCtorEq, or_false] at hrecord
        exact h.records record (Or.inl hrecord)
      | removeDurableFile t' =>
        simp only [Durable.apply, show t' = t from hcall, JsMap.get_delete, ite_true,
          reduceCtorEq, false_or] at hrecord
        exact h.records record (Or.inr hrecord)
      | appendCheckpoint checkpoint recovering => exact h.records record hrecord
  boundary := h.boundary

end At

theorem wp_readPending {Q : PendingWorkspaceBoundaryV1 → World → Prop}
    {X : Thrown → World → Prop} {D : World → Prop}
    (hsome : ∀ record, pendingRecord w.durable t = some record → Q record w)
    (hnone : pendingRecord w.durable t = none → ∀ e, X e w) :
    wp (readPending t) Q X D w := by
  apply wp_bind
  apply wp_get
  cases hrecord : pendingRecord w.durable t with
  | none => exact wp_throwing (hnone hrecord _)
  | some record => exact wp_pure (hsome record hrecord)

section

variable (h : At input c t P w₀ n ob w)
include h

theorem wp_removePending (hclosable : Closable w t) :
    wp (removePending t)
      (fun _ w' => At input c t P w₀ n ob w' ∧ w'.durable.files.get t = none)
      (fun _ => At input c t P w₀ n ob) (At input c t P w₀ n ob) w := by
  have hdelete : ∀ outcome, At input c t P w₀ n ob (effect (.deleteCrestRef t) outcome w) :=
    fun outcome => h.effect (h.durable.deleteRef hclosable outcome) rfl rfl (by simp [DurableCall.record?])
  apply wp_bind
  apply wp_perform
  case hthrow => exact fun _ outcome _ => hdelete outcome
  case hdies => exact h
  have hclosable' : Closable (effect (.deleteCrestRef t) .ok w) t := hclosable.effect rfl rfl .ok
  have hremove : ∀ outcome, At input c t P w₀ n ob
      (effect (.removeDurableFile t) outcome (effect (.deleteCrestRef t) .ok w)) :=
    fun outcome => (hdelete .ok).effect ((hdelete .ok).durable.removeFile hclosable' outcome) rfl rfl
      (by simp [DurableCall.record?])
  apply wp_perform
  · exact ⟨hremove .ok, by simp [effect, Outcome.persisted]⟩
  · exact fun _ outcome _ => hremove outcome
  · exact hdelete .ok

theorem wp_retireUnavailable (hclosable : Closable w t) :
    wp (retireUnavailable t)
      (fun _ w' => At input c t P w₀ n ob w' ∧ w'.durable.files.get t = none)
      (fun _ => At input c t P w₀ n ob) (At input c t P w₀ n ob) w := by
  apply wp_bind
  apply wp_readPending
  case hnone => exact fun _ _ => h
  intro record hrecord
  split
  case isTrue _ => exact wp_throwing h
  case isFalse _ =>
    rw [(h.durable.pendingRecord_ok hrecord).token_eq]
    exact wp_removePending h hclosable

theorem wp_completePending (hclosable : Closable w t) :
    wp (completePending t)
      (fun _ => At input c t P w₀ n ob) (fun _ => At input c t P w₀ n ob)
      (At input c t P w₀ n ob) w := by
  apply wp_bind
  apply wp_readPending
  case hnone => exact fun _ _ => h
  intro record hrecord
  have htoken := (h.durable.pendingRecord_ok hrecord).token_eq
  simp only [htoken]
  split
  case isTrue _ => exact wp_throwing h
  case isFalse _ =>
    exact wp_mono (wp_removePending h hclosable) (fun _ _ h' => h'.1) (fun _ _ h' => h')
      fun _ h' => h'

theorem wp_retireUnbound (processOwner : ProcessOwnerIdentity) :
    wp (retireUnbound t processOwner)
      (fun _ => At input c t P w₀ n ob) (fun _ => At input c t P w₀ n ob)
      (At input c t P w₀ n ob) w := by
  apply wp_bind
  apply wp_readPending
  case hnone => exact fun _ _ => h
  intro record hrecord
  have htoken := (h.durable.pendingRecord_ok hrecord).token_eq
  simp only [htoken]
  split
  case isTrue _ => exact wp_throwing h
  case isFalse hunbound =>
    have hid : record.userEntryId = none := by
      cases hid : record.userEntryId with
      | none => rfl
      | some _ => simp [hid] at hunbound
    have hclosable : Closable w t := by
      apply h.durable.closable_of_unbound
      intro record' hrecord'
      rw [hrecord] at hrecord'
      cases hrecord'
      exact hid
    split
    case isTrue _ => exact wp_throwing h
    case isFalse _ =>
      exact wp_mono (wp_removePending h hclosable) (fun _ _ h' => h'.1) (fun _ _ h' => h')
        fun _ h' => h'

theorem wp_retireFailedPending
    (hclosable : (∃ boundary, ob = some boundary ∧ boundary.pendingBound = true) →
      Closable w t) :
    wp (retireFailedPending t)
      (fun _ w' => At input c t P w₀ n ob w' ∨
        At input c t P w₀ n (ob.map fun boundary => { boundary with pending := false }) w')
      (fun _ => At input c t P w₀ n ob) (At input c t P w₀ n ob) w := by
  apply wp_bind
  apply wp_get
  rw [h.boundary]
  cases hob : ob with
  | none =>
    rw [hob] at h
    exact wp_pure (Or.inl h)
  | some boundary =>
    rw [hob] at h
    simp only []
    split
    case isTrue _ => exact wp_pure (Or.inl h)
    case isFalse _ =>
      have hdone : ∀ w', At input c t P w₀ n (some boundary) w' →
          wp (updateBoundary t fun boundary => { boundary with pending := false })
            (fun _ w' => At input c t P w₀ n (some boundary) w' ∨
              At input c t P w₀ n
                ((some boundary).map fun boundary => { boundary with pending := false }) w')
            (fun _ => At input c t P w₀ n (some boundary))
            (At input c t P w₀ n (some boundary)) w' :=
        fun w' h' => wp_modify (Or.inr (h'.update _))
      split
      case isTrue hbound =>
        apply wp_bind
        apply wp_mono (wp_retireUnavailable h (hclosable ⟨boundary, hob, hbound⟩))
        · exact fun _ w' h' => hdone w' h'.1
        · exact fun _ _ h' => h'
        · exact fun _ h' => h'
      case isFalse _ =>
        apply wp_bind
        apply wp_mono (wp_retireUnbound h w.processOwner)
        · exact fun _ w' h' => hdone w' h'
        · exact fun _ _ h' => h'
        · exact fun _ h' => h'

end

theorem pendingRecord_anchored {d : Durable} {record record' : PendingWorkspaceBoundaryV1}
    (href : d.refs.get t = some record) (hrecord : pendingRecord d t = some record') :
    record' = record := by
  obtain ⟨-, -, -, hcase | ⟨hnone, -⟩⟩ := pendingRecord_eq_some hrecord
  · rw [href] at hcase
    cases hcase
    rfl
  · rw [href] at hnone
    cases hnone

section Writing

variable {record : PendingWorkspaceBoundaryV1}

theorem anchored_ref (w : World) :
    (effect (.anchorPending record) .ok w).durable.refs.get record.boundaryToken = some record := by
  simp [effect, Outcome.persisted]

section

variable (h : At input c t P w₀ n ob w) (htoken : record.boundaryToken = t)
  (hok : WriteOk input c w record) (hP : P record)
include h htoken hok hP

theorem At.anchor (outcome : Outcome Thrown) :
    At input c t P w₀ n ob (CheckpointManager.effect (.anchorPending record) outcome w) := by
  apply h.effect (h.durable.anchor hok outcome) htoken rfl
  intro record' hrecord'
  cases hrecord'
  exact hP

theorem At.writeJson (outcome : Outcome Thrown) :
    At input c t P w₀ n ob (CheckpointManager.effect (.writeDurableJson record) outcome
      (CheckpointManager.effect (.anchorPending record) .ok w)) := by
  have hok' : WriteOk input c (CheckpointManager.effect (.anchorPending record) .ok w) record := by
    refine { hok with keeps := ?_ }
    intro current hcurrent
    rw [pendingRecord_anchored (anchored_ref w) hcurrent]
    exact isPendingSuccessor_refl record
  have hanchor := h.anchor htoken hok hP .ok
  apply hanchor.effect (hanchor.durable.writeJson hok' (anchored_ref w) outcome) htoken rfl
  intro record' hrecord'
  cases hrecord'
  exact hP

theorem wp_persist :
    wp (persist record)
      (fun _ w' => At input c t P w₀ n ob w' ∧
        ∃ entry ∈ w'.log, entry.2.persisted = true ∧ entry.1 = .anchorPending record)
      (fun _ w' => At input c t P w₀ n ob w' ∧
        ∀ u, record.userEntryId = some u → record.after.isSome = true → Dropped w'.log u)
      (At input c t P w₀ n ob) w := by
  have hdropped : ∀ (log : CallLog) (call : DurableCall) (outcome : Outcome Thrown),
      outcome ≠ .ok → call.record? = some record →
      ∀ u, record.userEntryId = some u → record.after.isSome = true →
        Dropped (log ++ [(call, outcome)]) u := by
    intro log call outcome houtcome hrecord u hu hafter
    exact ⟨_, List.mem_append_right _ (List.mem_singleton.mpr rfl),
      Or.inl ⟨houtcome, record, hrecord, hu, hafter⟩⟩
  apply wp_bind
  apply wp_perform
  case hthrow =>
    exact fun _ outcome hne => ⟨h.anchor htoken hok hP outcome, hdropped _ _ outcome hne rfl⟩
  case hdies => exact h
  apply wp_perform
  · refine ⟨h.writeJson htoken hok hP .ok, (.anchorPending record, .ok), ?_, rfl, rfl⟩
    simp [effect]
  · exact fun _ outcome hne => ⟨h.writeJson htoken hok hP outcome, hdropped _ _ outcome hne rfl⟩
  · exact h.anchor htoken hok hP .ok

end

theorem wp_beginPending (h : At input c t P w₀ n ob w) (htoken : record.boundaryToken = t)
    (hsession : record.sessionId = input.sessionId) (hunbound : record.userEntryId = none)
    (hP : P record) :
    wp (beginPending record)
      (fun _ => At input c t P w₀ n ob) (fun _ => At input c t P w₀ n ob)
      (At input c t P w₀ n ob) w := by
  apply wp_bind
  apply wp_get
  split
  case isTrue _ => exact wp_throwing h
  case isFalse hfile =>
    have hnone : pendingRecord w.durable record.boundaryToken = none := by
      apply pendingRecord_of_no_file
      simpa using hfile
    have hok : WriteOk input c w record :=
      { record_ok := ⟨rfl, hsession, fun u hu => by simp [hunbound] at hu⟩
        keeps := fun current hcurrent => by simp [hnone] at hcurrent
        bound := fun u hu => by simp [hunbound] at hu }
    apply wp_bind
    apply wp_perform
    case hthrow => exact fun _ outcome _ => h.anchor htoken hok hP outcome
    case hdies => exact h
    apply wp_catching
    apply wp_perform (h.writeJson htoken hok hP .ok)
    case hdies => exact h.anchor htoken hok hP .ok
    intro e outcome _
    have hwrite := h.writeJson htoken hok hP outcome
    have hclosable : Closable
        (effect (.writeDurableJson record) outcome (effect (.anchorPending record) .ok w)) t := by
      apply hwrite.durable.closable_of_unbound
      intro record' hrecord'
      have href : (effect (.writeDurableJson record) outcome
          (effect (.anchorPending record) .ok w)).durable.refs.get t = some record := by
        rw [← htoken, ← anchored_ref w]
        cases hpersisted : outcome.persisted <;> simp [effect, hpersisted]
      rw [pendingRecord_anchored href hrecord', hunbound]
    have hdelete : ∀ outcome', At input c t P w₀ n ob (effect (.deleteCrestRef t) outcome'
        (effect (.writeDurableJson record) outcome (effect (.anchorPending record) .ok w))) :=
      fun outcome' => hwrite.effect (hwrite.durable.deleteRef hclosable outcome') rfl rfl
        (by simp [DurableCall.record?])
    rw [htoken]
    apply wp_bind
    apply wp_perform
    · exact wp_throwing (hdelete .ok)
    · exact fun _ outcome' _ => hdelete outcome'
    · exact hwrite

end Writing

theorem wp_bindPending (h : At input c t P w₀ 0 ob w) {userEntryId : JsString}
    (hturn : c t = some userEntryId)
    (hP : ∀ record, P record → P { record with userEntryId := some userEntryId }) :
    wp (bindPending t userEntryId)
      (fun _ => At input c t P w₀ 0 ob) (fun _ => At input c t P w₀ 0 ob)
      (At input c t P w₀ 0 ob) w := by
  apply wp_bind
  apply wp_readPending
  case hnone => exact fun _ _ => h
  intro record hrecord
  have hrecordOk := h.durable.pendingRecord_ok hrecord
  have htoken := hrecordOk.token_eq
  split
  case isTrue _ => exact wp_throwing h
  case isFalse hguard =>
    have hunbound : record.userEntryId = none := by
      cases hid : record.userEntryId with
      | none => rfl
      | some _ => simp [hid] at hguard
    have hok : WriteOk input c w { record with userEntryId := some userEntryId } := by
      refine
        { record_ok := ⟨rfl, hrecordOk.session_eq, ?_⟩
          keeps := ?_
          bound := ?_ }
      · intro u hu
        cases hu
        rw [htoken]
        exact hturn
      · intro current hcurrent
        rw [show pendingRecord w.durable record.boundaryToken = some record by
          rw [htoken, hrecord]] at hcurrent
        cases hcurrent
        exact isPendingSuccessor_iff.mpr
          ⟨rfl, fun id hid => by simp [hunbound] at hid, fun ref href => href⟩
      · intro u hu
        cases hu
        obtain ⟨json, hfile, -, -⟩ := pendingRecord_eq_some hrecord
        exact ⟨h.count userEntryId hturn, by rw [htoken, hfile]; rfl⟩
    exact wp_mono (wp_persist h htoken hok (hP record (h.pendingRecord hrecord)))
      (fun _ _ h' => h'.1) (fun _ _ h' => h'.1) fun _ h' => h'

theorem wp_recordAfter (h : At input c t P w₀ 0 ob w) {userEntryId : JsString}
    {after : WorkspaceSnapshotRefV1} (hturn : c t = some userEntryId)
    (hopen : ∀ record, pendingRecord w.durable t = some record → record.after = none)
    (hP : ∀ record, P record → P { record with after := some after }) :
    wp (recordAfter t after)
      (fun _ w' => At input c t P w₀ 0 ob w' ∧ ∃ record, P record ∧
        record.userEntryId = some userEntryId ∧ record.after = some after ∧
        ∃ entry ∈ w'.log, entry.2.persisted = true ∧ entry.1 = .anchorPending record)
      (fun _ w' => At input c t P w₀ 0 ob w' ∧ Closable w' t)
      (At input c t P w₀ 0 ob) w := by
  apply wp_bind
  apply wp_readPending
  case hnone =>
    intro hnone _
    refine ⟨h, h.durable.closable_of_unbound ?_⟩
    intro record hrecord
    rw [hnone] at hrecord
    cases hrecord
  intro record hrecord
  have hrecordOk := h.durable.pendingRecord_ok hrecord
  have htoken := hrecordOk.token_eq
  have hafter := hopen record hrecord
  rcases Option.eq_none_or_eq_some record.userEntryId with hid | ⟨u, hid⟩
  · rw [if_pos (by simp [hid])]
    refine wp_throwing ⟨h, h.durable.closable_of_unbound ?_⟩
    intro record' hrecord'
    rw [hrecord] at hrecord'
    cases hrecord'
    exact hid
  · have hu : u = userEntryId := by
      have hbound := hrecordOk.bound u hid
      rw [hturn] at hbound
      cases hbound
      rfl
    subst hu
    rw [if_neg (by simp [hid]), if_neg (by simp [hafter])]
    have hok : WriteOk input c w { record with after := some after } := by
      refine
        { record_ok := ⟨rfl, hrecordOk.session_eq, ?_⟩
          keeps := ?_
          bound := ?_ }
      · intro u' hu'
        rw [htoken]
        exact hrecordOk.bound u' hu'
      · intro current hcurrent
        rw [show pendingRecord w.durable record.boundaryToken = some record by
          rw [htoken, hrecord]] at hcurrent
        cases hcurrent
        exact isPendingSuccessor_iff.mpr
          ⟨rfl, fun id h' => h', fun ref href => by simp [hafter] at href⟩
      · intro u' hu'
        obtain ⟨json, hfile, -, -⟩ := pendingRecord_eq_some hrecord
        exact ⟨h.count u' (hrecordOk.bound u' hu'), by rw [htoken, hfile]; rfl⟩
    have hPr := hP record (h.pendingRecord hrecord)
    refine wp_mono (wp_persist h ?_ hok hPr) ?_ ?_ ?_
    · exact htoken
    · rintro _ w' ⟨h', hentry⟩
      exact ⟨h', _, hPr, hid, rfl, hentry⟩
    · rintro _ w' ⟨h', hdropped⟩
      refine ⟨h', ?_⟩
      intro u' hb
      have hu' := (h'.durable.kept t u' hb).1
      rw [hturn] at hu'
      cases hu'
      exact Or.inr (hdropped u hid rfl)
    · exact fun _ h' => h'

end Rules

end CheckpointManager

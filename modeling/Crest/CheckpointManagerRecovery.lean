import Crest.CheckpointManagerTurns

/-!
# What `recover` does

It works on the turns whose process was found dead, one after the other, and leaves no
record of them.
-/

namespace CheckpointManager

open Workspace Faults Faulty

section Recovery

variable {input : Registration} {c : JsString → Option JsString} {w : World}

theorem scan_records {d : Durable} {names : List JsString}
    {records : List PendingWorkspaceBoundaryV1}
    (htoken : ∀ t record, pendingRecord d t = some record → record.boundaryToken = t)
    (h : (names.mapM fun boundaryToken =>
      match pendingRecord d boundaryToken with
      | some record => Except.ok record
      | none => Except.error (Thrown.other (js "Invalid pending boundary ref descriptor"))) =
        .ok records) :
    records.map (·.boundaryToken) = names ∧
      ∀ record ∈ records, pendingRecord d record.boundaryToken = some record := by
  induction names generalizing records with
  | nil =>
    cases h
    simp
  | cons name names ih =>
    rw [List.mapM_cons] at h
    cases hrecord : pendingRecord d name with
    | none =>
      rw [hrecord] at h
      cases h
    | some record =>
      rw [hrecord] at h
      cases hrest : (names.mapM fun boundaryToken =>
          match pendingRecord d boundaryToken with
          | some record => Except.ok record
          | none =>
            Except.error (Thrown.other (js "Invalid pending boundary ref descriptor"))) with
      | error error =>
        rw [hrest] at h
        cases h
      | ok rest =>
        rw [hrest] at h
        cases h
        obtain ⟨hnames, hrecords⟩ := ih hrest
        have hname := htoken name record hrecord
        refine ⟨by simp [hname, hnames], ?_⟩
        intro record' hmem
        rcases List.mem_cons.mp hmem with rfl | hmem
        · rw [hname, hrecord]
        · exact hrecords record' hmem

theorem DurableInv.mem_finalizedTurns (h : DurableInv input c w) (u : JsString) :
    u ∈ finalizedTurns w.durable ↔ turnCount w.durable u ≠ 0 := by
  rw [← Nat.pos_iff_ne_zero, turnCount, List.countP_pos_iff]
  simp only [finalizedTurns, List.mem_filterMap, decide_eq_true_eq]
  constructor
  · rintro ⟨checkpoint, hmem, hid⟩
    rw [h.readable checkpoint hmem] at hid
    exact ⟨checkpoint, hmem, by simpa using hid⟩
  · rintro ⟨checkpoint, hmem, hid⟩
    exact ⟨checkpoint, hmem, by rw [h.readable checkpoint hmem]; simp [hid]⟩

/-- What is known in the middle of `recover`, which changes no boundary. -/
def Reached (input : Registration) (c : JsString → Option JsString) (t : JsString)
    (w₀ w : World) : Prop :=
  ∃ n, At input c t (fun _ => True) w₀ n (w₀.boundaries.get t) w

variable {dead : List ProcessOwnerIdentity} {record : PendingWorkspaceBoundaryV1}

/-- One record of `recover`, of a process that was found dead: it is gone in the end. -/
theorem wp_recoverRecord {finalized : List JsString} (h : DurableInv input c w)
    (hrecord : pendingRecord w.durable record.boundaryToken = some record)
    (hdead : foundDead dead w record.processOwner = true)
    (hfinalized : ∀ u, record.userEntryId = some u →
      (u ∈ finalized ↔ turnCount w.durable u ≠ 0)) :
    wp (recoverRecord input dead finalized record)
      (fun _ w' => Reached input c record.boundaryToken w w' ∧
        w'.durable.files.get record.boundaryToken = none)
      (fun _ => Reached input c record.boundaryToken w)
      (Reached input c record.boundaryToken w) w := by
  have hok := h.pendingRecord_ok hrecord
  have hat : ∀ n, (∀ u, c record.boundaryToken = some u → turnCount w.durable u = n) →
      At input c record.boundaryToken (fun _ => True) w n
        (w.boundaries.get record.boundaryToken) w :=
    fun n hn => ⟨h, Frame.refl c _ w, hn, fun _ _ => trivial, rfl⟩
  apply wp_bind
  apply wp_get
  rw [if_neg (by simp [hok.session_eq, hdead])]
  rcases Option.eq_none_or_eq_some record.userEntryId with hid | ⟨u, hid⟩
  · -- The turn need not be without checkpoint: its record may just not have been bound.
    have hcount : ∃ n, ∀ u, c record.boundaryToken = some u → turnCount w.durable u = n := by
      cases c record.boundaryToken with
      | none => exact ⟨0, fun u hu => by cases hu⟩
      | some u => exact ⟨turnCount w.durable u, fun u' hu' => by cases hu'; rfl⟩
    obtain ⟨n, hn⟩ := hcount
    have hstart := hat n hn
    have hsame : Reached input c record.boundaryToken w w := ⟨n, hstart⟩
    have hclosable : Closable w record.boundaryToken := by
      apply h.closable_of_unbound
      intro record' hrecord'
      rw [hrecord] at hrecord'
      cases hrecord'
      exact hid
    rw [hid]
    apply wp_bind
    apply wp_readPending
    case hnone => exact fun _ _ => hsame
    intro record' hrecord'
    rw [hrecord] at hrecord'
    cases hrecord'
    split
    case isTrue _ => exact wp_throwing hsame
    case isFalse _ =>
      apply wp_bind
      apply wp_get
      split
      case isTrue _ => exact wp_throwing hsame
      case isFalse _ =>
        apply wp_mono (wp_removePending hstart hclosable)
        · exact fun _ _ h' => ⟨⟨n, h'.1⟩, h'.2⟩
        · exact fun _ _ h' => ⟨n, h'⟩
        · exact fun _ h' => ⟨n, h'⟩
  · have hturn : c record.boundaryToken = some u := hok.bound u hid
    have hretire : ∀ w', At input c record.boundaryToken (fun _ => True) w 1
        (w.boundaries.get record.boundaryToken) w' →
        wp (retireUnavailable record.boundaryToken)
          (fun _ w' => Reached input c record.boundaryToken w w' ∧
            w'.durable.files.get record.boundaryToken = none)
          (fun _ => Reached input c record.boundaryToken w)
          (Reached input c record.boundaryToken w) w' := by
      intro w' h'
      apply wp_mono (wp_retireUnavailable h' h'.closable)
      · exact fun _ _ h'' => ⟨⟨1, h''.1⟩, h''.2⟩
      · exact fun _ _ h'' => ⟨1, h''⟩
      · exact fun _ h'' => ⟨1, h''⟩
    rw [hid]
    dsimp only
    split
    case isTrue hmem =>
      have hone : turnCount w.durable u = 1 := by
        have hne := (hfinalized u hid).mp hmem
        have honce := h.once u
        omega
      have hstart := hat 1 fun u' hu' => by
        rw [hturn] at hu'
        cases hu'
        exact hone
      exact hretire w hstart
    case isFalse hmem =>
      have hzero : turnCount w.durable u = 0 := by
        by_contra hne
        exact hmem ((hfinalized u hid).mpr hne)
      have hstart := hat 0 fun u' hu' => by
        rw [hturn] at hu'
        cases hu'
        exact hzero
      apply wp_bind
      apply wp_mono (wp_appendUnavailable hstart hturn rfl true)
      · exact fun _ w' h' => hretire w' h'
      · intro _ _ hrest
        obtain ⟨n, h', _⟩ := hrest
        exact ⟨n, h'⟩
      · exact fun _ h' => ⟨0, h'⟩

/-- The turns whose process was found dead. -/
def Orphaned (dead : List ProcessOwnerIdentity) (w : World) (t : JsString) : Prop :=
  ∃ json, w.durable.files.get t = some json ∧ foundDead dead w json.processOwner = true

/-- What is known before each round of `recover`. -/
structure Recovering (input : Registration) (c : JsString → Option JsString)
    (dead : List ProcessOwnerIdentity) (w₀ : World) (rest : List PendingWorkspaceBoundaryV1)
    (w : World) : Prop where
  durable : DurableInv input c w
  frame : Frame c (Orphaned dead w₀) w₀ w
  boundaries : ∀ t, w.boundaries.get t = w₀.boundaries.get t
  nodup : (rest.map (·.boundaryToken)).Nodup
  untouched : ∀ record ∈ rest,
    pendingRecord w₀.durable record.boundaryToken = some record ∧
    pendingRecord w.durable record.boundaryToken = some record ∧
    ∀ u, record.userEntryId = some u → turnCount w.durable u = turnCount w₀.durable u
  left : ∀ t, Orphaned dead w₀ t →
    w.durable.files.get t = none ∨ ∃ record ∈ rest, record.boundaryToken = t

theorem foundDead_congr {dead : List ProcessOwnerIdentity} {w w' : World}
    (howner : w'.processOwner = w.processOwner) (owner : ProcessOwnerIdentity) :
    foundDead dead w' owner = foundDead dead w owner := by
  simp only [foundDead, howner]

theorem processOwner_of_pendingRecord {d : Durable} {t : JsString}
    {json record : PendingWorkspaceBoundaryV1} (hfile : d.files.get t = some json)
    (hrecord : pendingRecord d t = some record) : json.processOwner = record.processOwner := by
  obtain ⟨json', hfile', hsucc, -⟩ := pendingRecord_eq_some hrecord
  rw [hfile] at hfile'
  cases hfile'
  exact congrArg (·.processOwner) (isPendingSuccessor_iff.mp hsucc).1

theorem wp_recoverRound {w₀ : World} (h₀ : DurableInv input c w₀)
    (hinjective : ∀ t t' u, c t = some u → c t' = some u → t = t')
    {rest : List PendingWorkspaceBoundaryV1} (h : Recovering input c dead w₀ (record :: rest) w) :
    wp (recoverRecord input dead (finalizedTurns w₀.durable) record)
      (fun _ => Recovering input c dead w₀ rest)
      (fun _ w' => DurableInv input c w' ∧ Frame c (Orphaned dead w₀) w₀ w' ∧
        ∀ t, w'.boundaries.get t = w₀.boundaries.get t)
      (fun w' => DurableInv input c w' ∧ Frame c (Orphaned dead w₀) w₀ w' ∧
        ∀ t, w'.boundaries.get t = w₀.boundaries.get t) w := by
  obtain ⟨hrecord₀, hrecord, hcount⟩ := h.untouched record List.mem_cons_self
  obtain ⟨hfresh, hnodup⟩ := List.nodup_cons.mp h.nodup
  have howner : foundDead dead w record.processOwner = foundDead dead w₀ record.processOwner :=
    foundDead_congr h.frame.owner record.processOwner
  cases hdead : foundDead dead w₀ record.processOwner with
  | false =>
    apply wp_bind
    apply wp_get
    rw [if_pos (by simp [howner, hdead])]
    refine wp_pure { h with nodup := hnodup, untouched := ?_, left := ?_ }
    · exact fun record' hmem => h.untouched record' (List.mem_cons_of_mem _ hmem)
    · rintro t ⟨json, hfile, hjson⟩
      apply (h.left t ⟨json, hfile, hjson⟩).imp_right
      rintro ⟨record', hmem, htoken⟩
      rcases List.mem_cons.mp hmem with rfl | hmem
      · rw [processOwner_of_pendingRecord hfile (htoken ▸ hrecord₀), hdead] at hjson
        cases hjson
      · exact ⟨record', hmem, htoken⟩
  | true =>
    have horphaned : Orphaned dead w₀ record.boundaryToken := by
      obtain ⟨json, hfile, -, -⟩ := pendingRecord_eq_some hrecord₀
      refine ⟨json, hfile, ?_⟩
      rw [processOwner_of_pendingRecord hfile hrecord₀, hdead]
    have hframe : ∀ w', Reached input c record.boundaryToken w w' →
        DurableInv input c w' ∧ Frame c (· = record.boundaryToken) w w' ∧
          Frame c (Orphaned dead w₀) w₀ w' ∧
          ∀ t, w'.boundaries.get t = w₀.boundaries.get t := by
      rintro w' ⟨n, h'⟩
      refine ⟨h'.durable, h'.frame, h.frame.trans (h'.frame.mono ?_), ?_⟩
      · rintro t rfl
        exact horphaned
      · intro t
        rw [← h.boundaries t]
        by_cases ht : t = record.boundaryToken
        · rw [ht]
          exact h'.boundary
        · exact h'.frame.boundaries t ht
    apply wp_mono (wp_recoverRecord h.durable hrecord (howner.trans hdead) ?_)
    case hX => exact fun _ w' h' => ⟨(hframe w' h').1, (hframe w' h').2.2⟩
    case hD => exact fun w' h' => ⟨(hframe w' h').1, (hframe w' h').2.2⟩
    · rintro _ w' ⟨h', hgone⟩
      obtain ⟨hdurable, hone, hall, hboundaries⟩ := hframe w' h'
      refine ⟨hdurable, hall, hboundaries, hnodup, ?_, ?_⟩
      · intro record' hmem
        obtain ⟨hrecord₀', hrecord', hcount'⟩ :=
          h.untouched record' (List.mem_cons_of_mem _ hmem)
        have hne : ¬ record'.boundaryToken = record.boundaryToken := by
          intro heq
          exact hfresh (List.mem_map.mpr ⟨record', hmem, heq⟩)
        refine ⟨hrecord₀', by rw [hone.pendingRecord hne, hrecord'], ?_⟩
        intro u hid
        rw [← hcount' u hid]
        apply hone.counts
        rintro t rfl hturn
        exact hne (hinjective _ _ u ((h.durable.pendingRecord_ok hrecord').bound u hid) hturn)
      · intro t horphan
        by_cases ht : t = record.boundaryToken
        · exact Or.inl (ht ▸ hgone)
        · rw [hone.files t ht]
          apply (h.left t horphan).imp_right
          rintro ⟨record', hmem, htoken⟩
          rcases List.mem_cons.mp hmem with rfl | hmem
          · exact absurd htoken.symm ht
          · exact ⟨record', hmem, htoken⟩
    · intro u hid
      rw [h₀.mem_finalizedTurns, hcount u hid]

theorem wp_recover (h : DurableInv input c w)
    (hinjective : ∀ t t' u, c t = some u → c t' = some u → t = t')
    (dead : List ProcessOwnerIdentity) :
    wp (recover input dead)
      (fun _ w' => (DurableInv input c w' ∧ Frame c (Orphaned dead w) w w' ∧
        ∀ t, w'.boundaries.get t = w.boundaries.get t) ∧
        ∀ t, Orphaned dead w t → w'.durable.files.get t = none)
      (fun _ w' => DurableInv input c w' ∧ Frame c (Orphaned dead w) w w' ∧
        ∀ t, w'.boundaries.get t = w.boundaries.get t)
      (fun w' => DurableInv input c w' ∧ Frame c (Orphaned dead w) w w' ∧
        ∀ t, w'.boundaries.get t = w.boundaries.get t) w := by
  apply wp_bind
  apply wp_get
  apply wp_bind
  apply wp_ofExcept
  case herror => exact fun _ _ => ⟨h, Frame.refl c _ w, fun _ => rfl⟩
  intro records hscan
  obtain ⟨hnames, hrecords⟩ := scan_records
    (fun t record hrecord => (h.pendingRecord_ok hrecord).token_eq) hscan
  have hstart : Recovering input c dead w records w := by
    refine ⟨h, Frame.refl c _ w, fun _ => rfl, ?_, ?_, ?_⟩
    · rw [hnames]
      exact (List.perm_insertionSort _ _).nodup_iff.mpr w.durable.files.nodup
    · exact fun record hmem => ⟨hrecords record hmem, hrecords record hmem, fun _ _ => rfl⟩
    · rintro t ⟨json, hfile, -⟩
      right
      have hmem : t ∈ records.map (·.boundaryToken) := by
        rw [hnames, (List.perm_insertionSort _ _).mem_iff]
        exact List.mem_map.mpr ⟨(t, json), JsMap.mem_entries_of_get hfile, rfl⟩
      exact List.mem_map.mp hmem
  have hloop := wp_forEach (I := Recovering input c dead w)
    (fun record rest w' h' => wp_recoverRound h hinjective h') hstart
  apply wp_mono hloop
  · intro _ w' h'
    refine ⟨⟨h'.durable, h'.frame, h'.boundaries⟩, ?_⟩
    intro t horphan
    rcases h'.left t horphan with hgone | ⟨record, hmem, -⟩
    · exact hgone
    · cases hmem
  · exact fun _ _ h' => h'
  · exact fun _ h' => h'

end Recovery

end CheckpointManager

import Crest.CheckpointManager

/-!
# What the store and the session keep true

The durable state is what the calls that took effect have made of it.  `DurableInv` says
what it looks like between any two calls: a record never loses what was added to it, a
turn has at most one checkpoint, and a turn whose record was bound still has a bound
record, or its checkpoint, or lost it when `onTerminal` could not write it.

Each kind of call keeps this under conditions of its own, whatever becomes of the call.
-/

namespace CheckpointManager

open Workspace Faults Faulty

/-- The calls of a log. -/
abbrev CallLog := List (DurableCall × Outcome Thrown)

/-- What the calls of a log that took effect have made. -/
def replay (log : CallLog) : Durable :=
  log.foldl (fun d entry => if entry.2.persisted then d.apply entry.1 else d) {}

/-- The record a call writes. -/
def DurableCall.record? : DurableCall → Option PendingWorkspaceBoundaryV1
  | .anchorPending record => some record
  | .writeDurableJson record => some record
  | _ => none

/-- Whether a record that was bound to a user entry became durable. -/
def EverBound (log : CallLog) (boundaryToken userEntryId : JsString) : Prop :=
  ∃ entry ∈ log, entry.2.persisted = true ∧ ∃ record, entry.1.record? = some record ∧
    record.boundaryToken = boundaryToken ∧ record.userEntryId = some userEntryId

/-- Whether `onTerminal` failed to write the snapshot after a turn, or its checkpoint. -/
def Dropped (log : CallLog) (userEntryId : JsString) : Prop :=
  ∃ entry ∈ log,
    (entry.2 ≠ .ok ∧ ∃ record, entry.1.record? = some record ∧
      record.userEntryId = some userEntryId ∧ record.after.isSome = true) ∨
    (entry.2.persisted = false ∧ ∃ checkpoint, entry.1 = .appendCheckpoint checkpoint false ∧
      checkpoint.turnId = userEntryId)

/-- How many checkpoints a turn has. -/
def turnCount (d : Durable) (turnId : JsString) : Nat :=
  d.session.countP fun checkpoint => decide (checkpoint.turnId = turnId)

/-- The snapshots of an available checkpoint are those of the record of its turn; a turn
that has no record has the same one twice. -/
def Content (log : CallLog) (checkpoint : AvailableCheckpoint) : Prop :=
  (∃ record, (∃ entry ∈ log, entry.2.persisted = true ∧ entry.1 = .anchorPending record) ∧
      record.userEntryId = some checkpoint.turnId ∧ record.before = checkpoint.before ∧
      record.after = some checkpoint.after) ∨
    ((∀ boundaryToken, ¬ EverBound log boundaryToken checkpoint.turnId) ∧
      checkpoint.before = checkpoint.after ∧ checkpoint.changes = [])

/-- A call other than one that takes the record of a turn away leaves what was added to the
record. -/
def Keeps (d d' : Durable) (call : DurableCall) : Prop :=
  ∀ boundaryToken current,
    call ≠ .deleteCrestRef boundaryToken →
    call ≠ .removeDurableFile boundaryToken →
    pendingRecord d boundaryToken = some current →
    ∃ next, pendingRecord d' boundaryToken = some next ∧ isPendingSuccessor current next = true

/-- So does every one of a log. -/
def KeepsRecords (log : CallLog) : Prop :=
  ∀ front entry back, log = front ++ entry :: back →
    Keeps (replay front) (replay (front ++ [entry])) entry.1

section Records

theorem isPendingSuccessor_refl (record : PendingWorkspaceBoundaryV1) :
    isPendingSuccessor record record = true := by
  simp [isPendingSuccessor, Option.all_eq_true]

theorem isPendingSuccessor_iff {previous next : PendingWorkspaceBoundaryV1} :
    isPendingSuccessor previous next = true ↔
      unboundPart previous = unboundPart next ∧
      (∀ id, previous.userEntryId = some id → next.userEntryId = some id) ∧
      ∀ ref, previous.after = some ref → next.after = some ref := by
  simp [isPendingSuccessor, Option.all_eq_true, and_assoc]

theorem isPendingSuccessor_trans {a b c : PendingWorkspaceBoundaryV1}
    (hab : isPendingSuccessor a b = true) (hbc : isPendingSuccessor b c = true) :
    isPendingSuccessor a c = true := by
  rw [isPendingSuccessor_iff] at hab hbc ⊢
  exact ⟨hab.1.trans hbc.1, fun id h => hbc.2.1 id (hab.2.1 id h),
    fun ref h => hbc.2.2 ref (hab.2.2 ref h)⟩

theorem pendingRecord_eq_some {d : Durable} {boundaryToken : JsString}
    {record : PendingWorkspaceBoundaryV1} (h : pendingRecord d boundaryToken = some record) :
    ∃ json, d.files.get boundaryToken = some json ∧ isPendingSuccessor json record = true ∧
      (d.refs.get boundaryToken = some record ∨
        d.refs.get boundaryToken = none ∧ json = record) := by
  unfold pendingRecord at h
  cases hfile : d.files.get boundaryToken with
  | none => simp [hfile] at h
  | some json =>
    simp only [hfile] at h
    cases href : d.refs.get boundaryToken with
    | none =>
      simp only [href, Option.some.injEq] at h
      subst h
      exact ⟨json, rfl, isPendingSuccessor_refl json, Or.inr ⟨rfl, rfl⟩⟩
    | some ref =>
      simp only [href] at h
      split at h
      case isTrue hsucc =>
        cases h
        exact ⟨json, rfl, hsucc, Or.inl rfl⟩
      case isFalse _ => cases h

theorem pendingRecord_of_ref {d : Durable} {boundaryToken : JsString}
    {json record : PendingWorkspaceBoundaryV1} (hfile : d.files.get boundaryToken = some json)
    (href : d.refs.get boundaryToken = some record)
    (hsucc : isPendingSuccessor json record = true) :
    pendingRecord d boundaryToken = some record := by
  simp only [pendingRecord, hfile, href, hsucc, ite_true]

theorem pendingRecord_of_file {d : Durable} {boundaryToken : JsString}
    (href : d.refs.get boundaryToken = none) :
    pendingRecord d boundaryToken = d.files.get boundaryToken := by
  unfold pendingRecord
  cases d.files.get boundaryToken with
  | none => rfl
  | some json => simp only [href]

theorem pendingRecord_of_no_file {d : Durable} {boundaryToken : JsString}
    (hfile : d.files.get boundaryToken = none) : pendingRecord d boundaryToken = none := by
  simp only [pendingRecord, hfile]

theorem pendingRecord_congr {d d' : Durable} {boundaryToken : JsString}
    (hfiles : d'.files.get boundaryToken = d.files.get boundaryToken)
    (hrefs : d'.refs.get boundaryToken = d.refs.get boundaryToken) :
    pendingRecord d' boundaryToken = pendingRecord d boundaryToken := by
  simp only [pendingRecord, hfiles, hrefs]

end Records

section Logs

variable {log : CallLog} {call : DurableCall} {outcome : Outcome Thrown}

theorem replay_append (log : CallLog) (entry : DurableCall × Outcome Thrown) :
    replay (log ++ [entry]) =
      if entry.2.persisted then (replay log).apply entry.1 else replay log := by
  simp [replay]

theorem KeepsRecords.append (h : KeepsRecords log)
    (hcall : Keeps (replay log) (replay (log ++ [(call, outcome)])) call) :
    KeepsRecords (log ++ [(call, outcome)]) := by
  intro front entry back heq
  rcases List.eq_nil_or_concat back with rfl | ⟨back', last, rfl⟩
  · obtain ⟨rfl, hlast⟩ := List.append_inj' heq rfl
    cases hlast
    exact hcall
  · have hsplit : front ++ entry :: (back' ++ [last]) = (front ++ entry :: back') ++ [last] := by
      simp
    rw [List.concat_eq_append, hsplit] at heq
    obtain ⟨hfront, -⟩ := List.append_inj' heq rfl
    exact h front entry back' hfront

theorem everBound_append {t u : JsString} (h : EverBound (log ++ [(call, outcome)]) t u) :
    EverBound log t u ∨
      (outcome.persisted = true ∧ ∃ record, call.record? = some record ∧
        record.boundaryToken = t ∧ record.userEntryId = some u) := by
  obtain ⟨e, he, hpersisted, hrest⟩ := h
  rcases List.mem_append.mp he with hold | hnew
  · exact Or.inl ⟨e, hold, hpersisted, hrest⟩
  · rw [List.mem_singleton.mp hnew] at hpersisted hrest
    exact Or.inr ⟨hpersisted, hrest⟩

theorem Dropped.append {u : JsString} (h : Dropped log u)
    (entry : DurableCall × Outcome Thrown) : Dropped (log ++ [entry]) u := by
  obtain ⟨e, he, hrest⟩ := h
  exact ⟨e, List.mem_append_left _ he, hrest⟩

theorem Content.append {checkpoint : AvailableCheckpoint} (h : Content log checkpoint)
    (hcall : ∀ record, call.record? = some record →
      record.userEntryId ≠ some checkpoint.turnId) :
    Content (log ++ [(call, outcome)]) checkpoint := by
  rcases h with ⟨record, ⟨entry, hentry, hpersisted, hanchor⟩, hrest⟩ | ⟨hnever, hsame⟩
  · exact Or.inl ⟨record, ⟨entry, List.mem_append_left _ hentry, hpersisted, hanchor⟩, hrest⟩
  · refine Or.inr ⟨?_, hsame⟩
    intro t hbound
    rcases everBound_append hbound with hold | ⟨-, record, hrecord, -, hid⟩
    · exact hnever t hold
    · exact hcall record hrecord hid

end Logs

/-- What a record of a turn says. -/
structure RecordOk (input : Registration) (c : JsString → Option JsString) (t : JsString)
    (record : PendingWorkspaceBoundaryV1) : Prop where
  token_eq : record.boundaryToken = t
  session_eq : record.sessionId = input.sessionId
  bound : ∀ u, record.userEntryId = some u → c t = some u

/-- What holds between any two calls; `c` has the user entry of each turn that has one. -/
structure DurableInv (input : Registration) (c : JsString → Option JsString) (w : World) :
    Prop where
  replayed : w.durable = replay w.log
  keeps : KeepsRecords w.log
  file : ∀ t record, w.durable.files.get t = some record → RecordOk input c t record
  ref : ∀ t record, w.durable.refs.get t = some record → RecordOk input c t record
  successor : ∀ t json record, w.durable.files.get t = some json →
    w.durable.refs.get t = some record → isPendingSuccessor json record = true
  readable : ∀ checkpoint ∈ w.durable.session,
    decodeWorkspaceCheckpointV1 checkpoint.toJson = some checkpoint
  once : ∀ u, turnCount w.durable u ≤ 1
  committed : ∀ checkpoint ∈ w.durable.session, ∃ t, c t = some checkpoint.turnId
  kept : ∀ t u, EverBound w.log t u → c t = some u ∧
    ((∃ record, pendingRecord w.durable t = some record ∧ record.userEntryId = some u) ∨
      turnCount w.durable u = 1 ∨ Dropped w.log u)
  content : ∀ checkpoint, .available checkpoint ∈ w.durable.session → Content w.log checkpoint

theorem turnCount_pos {d : Durable} {checkpoint : WorkspaceCheckpointV1}
    (h : checkpoint ∈ d.session) : 0 < turnCount d checkpoint.turnId :=
  List.countP_pos_iff.mpr ⟨checkpoint, h, by simp⟩

theorem turnCount_append (d : Durable) (checkpoint : WorkspaceCheckpointV1) (recovering : Bool)
    (u : JsString) :
    turnCount (d.apply (.appendCheckpoint checkpoint recovering)) u =
      turnCount d u + if checkpoint.turnId = u then 1 else 0 := by
  simp only [turnCount, Durable.apply, List.countP_append, List.countP_singleton,
    decide_eq_true_eq]

theorem effect_lost {call : DurableCall} {outcome : Outcome Thrown} {w : World}
    (h : outcome.persisted = false) :
    effect call outcome w = { w with log := w.log ++ [(call, outcome)] } := by
  simp [effect, h]

theorem effect_persisted {call : DurableCall} {outcome : Outcome Thrown} {w : World}
    (h : outcome.persisted = true) :
    effect call outcome w =
      { w with durable := w.durable.apply call, log := w.log ++ [(call, outcome)] } := by
  simp [effect, h]

namespace DurableInv

variable {input : Registration} {c : JsString → Option JsString} {w : World}

variable (h : DurableInv input c w)
include h

theorem exists_pendingRecord {t : JsString}
    {json : PendingWorkspaceBoundaryV1} (hfile : w.durable.files.get t = some json) :
    ∃ record, pendingRecord w.durable t = some record ∧
      isPendingSuccessor json record = true := by
  cases href : w.durable.refs.get t with
  | none =>
    refine ⟨json, ?_, isPendingSuccessor_refl json⟩
    rw [pendingRecord_of_file href, hfile]
  | some record =>
    have hsucc := h.successor t json record hfile href
    exact ⟨record, pendingRecord_of_ref hfile href hsucc, hsucc⟩

theorem pendingRecord_ok {t : JsString}
    {record : PendingWorkspaceBoundaryV1} (hrecord : pendingRecord w.durable t = some record) :
    RecordOk input c t record := by
  obtain ⟨json, hfile, -, href | ⟨-, rfl⟩⟩ := pendingRecord_eq_some hrecord
  · exact h.ref t record href
  · exact h.file t json hfile

theorem mono {c' : JsString → Option JsString}
    (hc : ∀ t u, c t = some u → c' t = some u) : DurableInv input c' w := by
  have hok : ∀ t record, RecordOk input c t record → RecordOk input c' t record :=
    fun t record hr => ⟨hr.token_eq, hr.session_eq, fun u hu => hc t u (hr.bound u hu)⟩
  refine { h with file := ?_, ref := ?_, committed := ?_, kept := ?_ }
  · intro t record hfile
    exact hok t record (h.file t record hfile)
  · intro t record href
    exact hok t record (h.ref t record href)
  · intro checkpoint hmem
    obtain ⟨t, ht⟩ := h.committed checkpoint hmem
    exact ⟨t, hc t _ ht⟩
  · intro t u hbound
    obtain ⟨ht, hrest⟩ := h.kept t u hbound
    exact ⟨hc t u ht, hrest⟩

theorem congr {w' : World} (hdurable : w'.durable = w.durable)
    (hlog : w'.log = w.log) : DurableInv input c w' := by
  obtain ⟨h1, h2, h3, h4, h5, h6, h7, h8, h9, h10⟩ := h
  constructor <;> simp only [hdurable, hlog] <;> assumption

theorem logged {call : DurableCall} {outcome : Outcome Thrown} {d : Durable}
    (hd : (if outcome.persisted then w.durable.apply call else w.durable) = d) :
    d = replay (w.log ++ [(call, outcome)]) ∧
      (Keeps w.durable d call → KeepsRecords (w.log ++ [(call, outcome)])) := by
  have hreplayed : d = replay (w.log ++ [(call, outcome)]) := by
    rw [← hd, replay_append, ← h.replayed]
  refine ⟨hreplayed, fun hcall => h.keeps.append ?_⟩
  rwa [← h.replayed, ← hreplayed]

theorem lost (call : DurableCall) {outcome : Outcome Thrown}
    (hlost : outcome.persisted = false) : DurableInv input c (effect call outcome w) := by
  obtain ⟨hreplayed, hkeeps⟩ := h.logged (if_neg (ne_true_of_eq_false hlost))
  rw [effect_lost hlost]
  have hbound : ∀ t u, EverBound (w.log ++ [(call, outcome)]) t u → EverBound w.log t u := by
    intro t u hb
    rcases everBound_append hb with hold | ⟨hpersisted, -⟩
    · exact hold
    · rw [hlost] at hpersisted
      cases hpersisted
  refine
    { h with
      replayed := hreplayed
      keeps := hkeeps fun t current _ _ hcurrent =>
        ⟨current, hcurrent, isPendingSuccessor_refl current⟩
      kept := ?_
      content := ?_ }
  · intro t u hb
    obtain ⟨ht, hrest⟩ := h.kept t u (hbound t u hb)
    exact ⟨ht, hrest.imp_right fun hr => hr.imp_right fun hd => hd.append _⟩
  · intro checkpoint hmem
    rcases h.content checkpoint hmem with
      ⟨record, ⟨entry, hentry, hpersisted, hanchor⟩, hrest⟩ | ⟨hnever, hsame⟩
    · exact Or.inl ⟨record, ⟨entry, List.mem_append_left _ hentry, hpersisted, hanchor⟩, hrest⟩
    · exact Or.inr ⟨fun t hb => hnever t (hbound t _ hb), hsame⟩

end DurableInv

/-- A turn whose record may go. -/
def Closable (w : World) (t : JsString) : Prop :=
  ∀ u, EverBound w.log t u → turnCount w.durable u = 1 ∨ Dropped w.log u

/-- What a call that writes a record has to meet: the record keeps what the one before it
had, and a bound record has a file before it and belongs to a turn without checkpoint. -/
structure WriteOk (input : Registration) (c : JsString → Option JsString) (w : World)
    (record : PendingWorkspaceBoundaryV1) : Prop where
  record_ok : RecordOk input c record.boundaryToken record
  keeps : ∀ current, pendingRecord w.durable record.boundaryToken = some current →
    isPendingSuccessor current record = true
  bound : ∀ u, record.userEntryId = some u → turnCount w.durable u = 0 ∧
    (w.durable.files.get record.boundaryToken).isSome = true

namespace DurableInv

variable {input : Registration} {c : JsString → Option JsString} {w : World}

theorem content_write (h : DurableInv input c w) (call : DurableCall)
    {record : PendingWorkspaceBoundaryV1} (hrecord : call.record? = some record)
    (hok : WriteOk input c w record) (outcome : Outcome Thrown) :
    ∀ checkpoint, .available checkpoint ∈ w.durable.session →
      Content (w.log ++ [(call, outcome)]) checkpoint := by
  intro checkpoint hmem
  apply (h.content checkpoint hmem).append
  intro record' hrecord' hid
  rw [hrecord] at hrecord'
  cases hrecord'
  have hzero := (hok.bound _ hid).1
  have hpos := turnCount_pos hmem
  have hsame : (WorkspaceCheckpointV1.available checkpoint).turnId = checkpoint.turnId := rfl
  rw [hsame] at hpos
  omega

theorem keeps_write {call : DurableCall} {d : Durable} {record : PendingWorkspaceBoundaryV1}
    (hok : WriteOk input c w record)
    (hother : ∀ t, t ≠ record.boundaryToken → pendingRecord d t = pendingRecord w.durable t)
    (hthere : (w.durable.files.get record.boundaryToken).isSome = true →
      pendingRecord d record.boundaryToken = some record) :
    Keeps w.durable d call := by
  intro t current _ _ hcurrent
  by_cases ht : t = record.boundaryToken
  · subst ht
    obtain ⟨json, hfile, -, -⟩ := pendingRecord_eq_some hcurrent
    exact ⟨record, hthere (by rw [hfile]; rfl), hok.keeps current hcurrent⟩
  · exact ⟨current, by rw [hother t ht, hcurrent], isPendingSuccessor_refl current⟩

variable (h : DurableInv input c w)
include h

theorem kept_write (call : DurableCall)
    (outcome : Outcome Thrown) (d : Durable) {record : PendingWorkspaceBoundaryV1}
    (hrecord : call.record? = some record) (hok : WriteOk input c w record)
    (hsession : d.session = w.durable.session)
    (hother : ∀ t, t ≠ record.boundaryToken → pendingRecord d t = pendingRecord w.durable t)
    (hthere : (w.durable.files.get record.boundaryToken).isSome = true →
      pendingRecord d record.boundaryToken = some record) :
    ∀ t u, EverBound (w.log ++ [(call, outcome)]) t u → c t = some u ∧
      ((∃ r, pendingRecord d t = some r ∧ r.userEntryId = some u) ∨
        turnCount d u = 1 ∨ Dropped (w.log ++ [(call, outcome)]) u) := by
  intro t u hbound
  rcases everBound_append hbound with hold | ⟨-, record', hrecord', htoken, hid⟩
  · obtain ⟨hct, hrest⟩ := h.kept t u hold
    refine ⟨hct, ?_⟩
    rcases hrest with ⟨current, hcurrent, hid⟩ | hdone | hdropped
    · by_cases ht : t = record.boundaryToken
      · subst ht
        obtain ⟨json, hfile, -, -⟩ := pendingRecord_eq_some hcurrent
        refine Or.inl ⟨record, hthere (by rw [hfile]; rfl), ?_⟩
        exact (isPendingSuccessor_iff.mp (hok.keeps current hcurrent)).2.1 u hid
      · exact Or.inl ⟨current, by rw [hother t ht, hcurrent], hid⟩
    · refine Or.inr (Or.inl ?_)
      rw [turnCount, hsession]
      exact hdone
    · exact Or.inr (Or.inr (hdropped.append _))
  · rw [hrecord] at hrecord'
    cases hrecord'
    subst htoken
    exact ⟨hok.record_ok.bound u hid,
      Or.inl ⟨record, hthere (hok.bound u hid).2, hid⟩⟩

theorem anchor {record : PendingWorkspaceBoundaryV1}
    (hok : WriteOk input c w record) (outcome : Outcome Thrown) :
    DurableInv input c (effect (.anchorPending record) outcome w) := by
  cases hpersisted : outcome.persisted with
  | false => exact h.lost _ hpersisted
  | true =>
    obtain ⟨hreplayed, hkeeps⟩ := h.logged (if_pos hpersisted)
    rw [effect_persisted hpersisted]
    have hsucc : ∀ json, w.durable.files.get record.boundaryToken = some json →
        isPendingSuccessor json record = true := by
      intro json hfile
      obtain ⟨current, hcurrent, hjson⟩ := h.exists_pendingRecord hfile
      exact isPendingSuccessor_trans hjson (hok.keeps current hcurrent)
    have hother : ∀ t, t ≠ record.boundaryToken →
        pendingRecord (w.durable.apply (.anchorPending record)) t = pendingRecord w.durable t := by
      intro t ht
      apply pendingRecord_congr
      · rfl
      · simp [Durable.apply, ht]
    have hthere : (w.durable.files.get record.boundaryToken).isSome = true →
        pendingRecord (w.durable.apply (.anchorPending record)) record.boundaryToken =
          some record := by
      intro hthere
      obtain ⟨json, hfile⟩ := Option.isSome_iff_exists.mp hthere
      exact pendingRecord_of_ref hfile (by simp [Durable.apply]) (hsucc json hfile)
    refine
      { replayed := hreplayed
        keeps := hkeeps (keeps_write hok hother hthere)
        file := h.file
        ref := ?_
        successor := ?_
        readable := h.readable
        once := h.once
        committed := h.committed
        kept := ?_
        content := ?_ }
    · intro t record' href
      simp only [Durable.apply, JsMap.get_set] at href
      split at href
      case isTrue ht =>
        cases href
        rw [ht]
        exact hok.record_ok
      case isFalse _ => exact h.ref t record' href
    · intro t json record' hfile href
      simp only [Durable.apply, JsMap.get_set] at hfile href
      split at href
      case isTrue ht =>
        cases href
        rw [ht] at hfile
        exact hsucc json hfile
      case isFalse _ => exact h.successor t json record' hfile href
    · exact h.kept_write (.anchorPending record) outcome _ rfl hok rfl hother hthere
    · exact h.content_write _ rfl hok outcome

theorem writeJson {record : PendingWorkspaceBoundaryV1} (hok : WriteOk input c w record)
    (href : w.durable.refs.get record.boundaryToken = some record) (outcome : Outcome Thrown) :
    DurableInv input c (effect (.writeDurableJson record) outcome w) := by
  cases hpersisted : outcome.persisted with
  | false => exact h.lost _ hpersisted
  | true =>
    obtain ⟨hreplayed, hkeeps⟩ := h.logged (if_pos hpersisted)
    rw [effect_persisted hpersisted]
    have hother : ∀ t, t ≠ record.boundaryToken →
        pendingRecord (w.durable.apply (.writeDurableJson record)) t =
          pendingRecord w.durable t := by
      intro t ht
      apply pendingRecord_congr
      · simp [Durable.apply, ht]
      · rfl
    have hthere : pendingRecord (w.durable.apply (.writeDurableJson record))
        record.boundaryToken = some record :=
      pendingRecord_of_ref (by simp [Durable.apply]) href (isPendingSuccessor_refl record)
    refine
      { replayed := hreplayed
        keeps := hkeeps (keeps_write hok hother fun _ => hthere)
        file := ?_
        ref := h.ref
        successor := ?_
        readable := h.readable
        once := h.once
        committed := h.committed
        kept := ?_
        content := ?_ }
    · intro t record' hfile
      simp only [Durable.apply, JsMap.get_set] at hfile
      split at hfile
      case isTrue ht =>
        cases hfile
        rw [ht]
        exact hok.record_ok
      case isFalse _ => exact h.file t record' hfile
    · intro t json record' hfile href'
      simp only [Durable.apply, JsMap.get_set] at hfile href'
      split at hfile
      case isTrue ht =>
        cases hfile
        rw [ht, href] at href'
        cases href'
        exact isPendingSuccessor_refl record
      case isFalse _ => exact h.successor t json record' hfile href'
    · exact h.kept_write (.writeDurableJson record) outcome _ rfl hok rfl hother
        fun _ => hthere
    · exact h.content_write _ rfl hok outcome

theorem takeAway {t : JsString} (call : DurableCall)
    (hcall : call = .deleteCrestRef t ∨ call = .removeDurableFile t) (hclosable : Closable w t)
    (hsession : (w.durable.apply call).session = w.durable.session)
    (hfile : ∀ t' record, (w.durable.apply call).files.get t' = some record →
      w.durable.files.get t' = some record)
    (href : ∀ t' record, (w.durable.apply call).refs.get t' = some record →
      w.durable.refs.get t' = some record)
    (hother : ∀ t', t' ≠ t → pendingRecord (w.durable.apply call) t' = pendingRecord w.durable t')
    (outcome : Outcome Thrown) :
    DurableInv input c (effect call outcome w) := by
  have hrecord : call.record? = none := by
    rcases hcall with rfl | rfl <;> rfl
  cases hpersisted : outcome.persisted with
  | false => exact h.lost _ hpersisted
  | true =>
    obtain ⟨hreplayed, hkeeps⟩ := h.logged (if_pos hpersisted)
    rw [effect_persisted hpersisted]
    have hbound : ∀ t' u, EverBound (w.log ++ [(call, outcome)]) t' u → EverBound w.log t' u := by
      intro t' u hb
      rcases everBound_append hb with hold | ⟨-, record, hrecord', -⟩
      · exact hold
      · rw [hrecord] at hrecord'
        cases hrecord'
    refine
      { replayed := hreplayed
        keeps := hkeeps ?_
        file := ?_
        ref := ?_
        successor := ?_
        readable := by rw [hsession]; exact h.readable
        once := by simpa only [turnCount, hsession] using h.once
        committed := by rw [hsession]; exact h.committed
        kept := ?_
        content := ?_ }
    · intro t' current hdelete hremove hcurrent
      have ht : t' ≠ t := by
        intro ht
        subst ht
        exact hcall.elim hdelete hremove
      rw [hother t' ht]
      exact ⟨current, hcurrent, isPendingSuccessor_refl current⟩
    · intro t' record hf
      exact h.file t' record (hfile t' record hf)
    · intro t' record hr
      exact h.ref t' record (href t' record hr)
    · intro t' json record hf hr
      exact h.successor t' json record (hfile t' json hf) (href t' record hr)
    · intro t' u hb
      have hold := hbound t' u hb
      obtain ⟨hct, hrest⟩ := h.kept t' u hold
      refine ⟨hct, ?_⟩
      have hcount : turnCount (w.durable.apply call) u = turnCount w.durable u := by
        rw [turnCount, hsession]
        rfl
      rw [hcount]
      by_cases ht : t' = t
      · subst ht
        exact Or.inr ((hclosable u hold).imp_right fun hd => hd.append _)
      · rw [hother t' ht]
        exact hrest.imp_right fun hr => hr.imp_right fun hd => hd.append _
    · intro checkpoint hmem
      rw [hsession] at hmem
      apply (h.content checkpoint hmem).append
      intro record hrecord'
      rw [hrecord] at hrecord'
      cases hrecord'

theorem deleteRef {t : JsString} (hclosable : Closable w t) (outcome : Outcome Thrown) :
    DurableInv input c (effect (.deleteCrestRef t) outcome w) := by
  apply h.takeAway (.deleteCrestRef t) (Or.inl rfl) hclosable rfl (fun _ _ hf => hf)
  · intro t' record hr
    simp only [Durable.apply, JsMap.get_delete] at hr
    split at hr
    case isTrue _ => cases hr
    case isFalse _ => exact hr
  · intro t' ht
    apply pendingRecord_congr
    · rfl
    · simp [Durable.apply, ht]

theorem removeFile {t : JsString} (hclosable : Closable w t) (outcome : Outcome Thrown) :
    DurableInv input c (effect (.removeDurableFile t) outcome w) := by
  apply h.takeAway (.removeDurableFile t) (Or.inr rfl) hclosable rfl
  · intro t' record hf
    simp only [Durable.apply, JsMap.get_delete] at hf
    split at hf
    case isTrue _ => cases hf
    case isFalse _ => exact hf
  · intro t' record hr
    exact hr
  · intro t' ht
    apply pendingRecord_congr
    · simp [Durable.apply, ht]
    · rfl

theorem append {checkpoint : WorkspaceCheckpointV1} {recovering : Bool} {t : JsString}
    (hturn : c t = some checkpoint.turnId) (hfirst : turnCount w.durable checkpoint.turnId = 0)
    (hread : decodeWorkspaceCheckpointV1 checkpoint.toJson = some checkpoint)
    (hcontent : ∀ available, checkpoint = .available available → Content w.log available)
    (outcome : Outcome Thrown) :
    DurableInv input c (effect (.appendCheckpoint checkpoint recovering) outcome w) := by
  cases hpersisted : outcome.persisted with
  | false => exact h.lost _ hpersisted
  | true =>
    obtain ⟨hreplayed, hkeeps⟩ := h.logged (if_pos hpersisted)
    rw [effect_persisted hpersisted]
    have hmem : ∀ checkpoint',
        checkpoint' ∈ (w.durable.apply (.appendCheckpoint checkpoint recovering)).session →
        checkpoint' ∈ w.durable.session ∨ checkpoint' = checkpoint := by
      intro checkpoint' hm
      exact (List.mem_append.mp hm).imp_right List.mem_singleton.mp
    have hcount := turnCount_append w.durable checkpoint recovering
    refine
      { replayed := hreplayed
        keeps := hkeeps fun t current _ _ hcurrent =>
          ⟨current, hcurrent, isPendingSuccessor_refl current⟩
        file := h.file
        ref := h.ref
        successor := h.successor
        readable := ?_
        once := ?_
        committed := ?_
        kept := ?_
        content := ?_ }
    · intro checkpoint' hm
      rcases hmem checkpoint' hm with hold | rfl
      · exact h.readable checkpoint' hold
      · exact hread
    · intro u
      rw [hcount]
      have honce := h.once u
      split
      case isTrue heq =>
        rw [heq] at hfirst
        omega
      case isFalse _ => exact honce
    · intro checkpoint' hm
      rcases hmem checkpoint' hm with hold | rfl
      · exact h.committed checkpoint' hold
      · exact ⟨t, hturn⟩
    · intro t' u hb
      have hold : EverBound w.log t' u := by
        rcases everBound_append hb with hold | ⟨-, record, hrecord', -⟩
        · exact hold
        · cases hrecord'
      obtain ⟨hct, hrest⟩ := h.kept t' u hold
      refine ⟨hct, ?_⟩
      rcases hrest with ⟨record, hrecord, hid⟩ | hdone | hdropped
      · refine Or.inl ⟨record, ?_, hid⟩
        exact hrecord
      · refine Or.inr (Or.inl ?_)
        rw [hcount]
        split
        case isTrue heq =>
          rw [heq] at hfirst
          omega
        case isFalse _ => exact hdone
      · exact Or.inr (Or.inr (hdropped.append _))
    · intro available hm
      have hnone : ∀ record, (DurableCall.appendCheckpoint checkpoint recovering).record? =
          some record → record.userEntryId ≠ some available.turnId := by
        intro record hrecord
        cases hrecord
      rcases hmem _ hm with hold | heq
      · exact (h.content available hold).append hnone
      · exact (hcontent available heq.symm).append hnone

end DurableInv

end CheckpointManager

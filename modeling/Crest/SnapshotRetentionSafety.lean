import Crest.SessionAppend
import Crest.SnapshotRetention

/-!
# No owned snapshot is deleted

What the ledger says about a ref is true of the runs so far: the ref was written to it
by a run that found no owner, and no later run that wrote the ledger found one.  A run
deletes only what the ledger has held for long enough and what has no owner now.

This rests on the directory of the sessions being reachable whenever it exists.  A
directory that cannot be reached is taken for one that does not exist, so two runs
that cannot reach it delete what the sessions in it own.
-/

namespace Workspace

open JsString

section Ledger

variable {firstSeen : Nat}

theorem readLedgerFields_mem (fields : List (JsString × Json))
    {ledger ledger' : JsMap JsString Nat}
    (h : fields.foldlM readLedgerField ledger = some ledger') {name : JsString}
    (hget : ledger'.get name = some firstSeen) :
    ledger.get name = some firstSeen ∨
      ∃ value, (name, value) ∈ fields ∧ decodeNonnegativeInteger value = some firstSeen := by
  induction fields generalizing ledger with
  | nil =>
    obtain rfl : ledger = ledger' := by simpa using h
    exact .inl hget
  | cons field fields ih =>
    rw [List.foldlM_cons] at h
    obtain ⟨middle, hmiddle, hrest⟩ := Option.bind_eq_some_iff.mp h
    unfold readLedgerField at hmiddle
    split at hmiddle
    case isFalse _ => cases hmiddle
    case isTrue _ =>
      obtain ⟨time, htime, hset⟩ := Option.bind_eq_some_iff.mp hmiddle
      obtain rfl := Option.some.inj hset
      rcases ih hrest with hfound | ⟨value, hmem, hvalue⟩
      · rw [JsMap.get_set] at hfound
        split at hfound
        case isTrue heq =>
          obtain rfl := Option.some.inj hfound
          exact .inr ⟨field.2, by rw [heq]; exact .head _, htime⟩
        case isFalse _ => exact .inl hfound
      · exact .inr ⟨value, .tail _ hmem, hvalue⟩

theorem decodeNonnegativeInteger_int {time : Int}
    (h : decodeNonnegativeInteger (.num time) = some firstSeen) :
    time = firstSeen := by
  simp only [decodeNonnegativeInteger, Rat.den_intCast, Rat.num_intCast] at h
  split at h
  case isTrue hrange =>
    obtain rfl := Option.some.inj h
    omega
  case isFalse _ => cases h

theorem copyFields_numbers (entries : List (JsString × Int)) :
    Json.copyFields (entries.map fun e => (e.1, .num e.2)) =
      entries.map fun e => (e.1, .num e.2) := by
  induction entries with
  | nil => rfl
  | cons e entries ih => simp only [List.map_cons, Json.copyFields, Json.copyJsonValue, ih]

theorem readLedger_ledgerJson {written : JsMap JsString Int} {ledger : JsMap JsString Nat}
    (h : readLedger (.json (ledgerJson written)) = some ledger) {name : JsString}
    (hget : ledger.get name = some firstSeen) :
    written.get name = some (firstSeen : Int) := by
  have hfields : (ledgerJson written).get (js "firstseenbyref") =
      some (.obj ((written.entries.map fun e => (e.1, Json.num e.2)).insertionSort
        fun a b => Json.keyLE a.1 b.1)) := by
    have horder : Json.keyLE (js "schemaversion") (js "firstseenbyref") = false := by
      decide +kernel
    simp [ledgerJson, Json.copyJsonValue, Json.copyFields, copyFields_numbers,
      List.insertionSort, List.orderedInsert, horder, Json.get]
  simp only [readLedger, hfields] at h
  split at h
  case isFalse _ => cases h
  case isTrue _ =>
    rcases readLedgerFields_mem _ h hget with hempty | ⟨value, hmem, hvalue⟩
    · simp at hempty
    · rw [List.mem_insertionSort] at hmem
      obtain ⟨entry, hentry, heq⟩ := List.mem_map.mp hmem
      obtain ⟨rfl, rfl⟩ := Prod.mk.inj heq
      rw [← decodeNonnegativeInteger_int hvalue]
      exact JsMap.get_of_mem_entries hentry

end Ledger

variable (digest : Digest) (store : StoreIdentity)

/-- A run at that time recorded the ref and found no owner of it, and no later run that
wrote the ledger found one. -/
def UnownedSince (runs : List RunRecord) (name : JsString) (time : Int) : Prop :=
  ∃ newer old older, runs = newer ++ old :: older ∧
    old.wroteLedger = true ∧ name ∈ old.recorded ∧ old.now = time ∧
    ¬ Owns digest store old.sources name ∧
    ∀ r ∈ newer, r.wroteLedger = true → ¬ Owns digest store r.sources name

/-- What a run may delete, after the runs `older`. -/
structure Justified (r : RunRecord) (older : List RunRecord) : Prop where
  /-- Nothing that is owned. -/
  unowned : ∀ name ∈ r.deleted, ¬ Owns digest store r.sources name
  /-- A ref that had no owner for longer than the grace period, or the second ref of
  such a snapshot. -/
  waited : ∀ name ∈ r.deleted, ∃ listed time,
    (name = listed ∨ ∃ id, listed = ownerRefName id ∧ name = snapshotObjectRefName id) ∧
    UnownedSince digest store older listed time ∧ orphanGraceMs < r.now - time
  /-- Nothing at all, if a source or the ledger cannot be read. -/
  failsClosed : SourceFails r.sources ∨ readLedger r.ledger = none → r.deleted = []

/-- Every run so far deleted only what it may. -/
def AllJustified (runs : List RunRecord) : Prop :=
  ∀ newer r older, runs = newer ++ r :: older → Justified digest store r older

/-- The ledger says what the runs found. -/
def LedgerTrue (h : History) : Prop :=
  ∀ ledger, readLedger h.store.ledger = some ledger →
    ∀ name firstSeen, ledger.get name = some firstSeen →
      UnownedSince digest store h.runs name firstSeen

theorem reconcile_cases (descriptorOid : PendingWorkspaceBoundaryV1 → JsString)
    (input : RunInput) (s : RefStore) :
    ((reconcileSnapshotRefsLocked digest descriptorOid store input s).1.ledger = s.ledger ∧
      (reconcileSnapshotRefsLocked digest descriptorOid store input s).2 =
        { sources := input.sources, now := input.now, ledger := s.ledger }) ∨
    ∃ owners ledger allRefs refs,
      scanOwners digest store input.sources = some owners ∧
      readLedger s.ledger = some ledger ∧
      listCrestRefs allRefs = some refs ∧
      (reconcileSnapshotRefsLocked digest descriptorOid store input s).1.ledger =
        .json (ledgerJson (nextLedger owners.liveRefNames ledger input.now refs)) ∧
      (reconcileSnapshotRefsLocked digest descriptorOid store input s).2 =
        { sources := input.sources
          now := input.now
          ledger := s.ledger
          wroteLedger := true
          recorded := newOrphans owners.liveRefNames ledger refs
          deleted := Stop.deletions input.stop
            ((expiredRefs owners.liveRefNames ledger input.now refs).flatMap
              (deletionNames allRefs))
          removedRefs :=
            if input.stop = none then expiredRefs owners.liveRefNames ledger input.now refs
            else [] } := by
  unfold reconcileSnapshotRefsLocked
  cases hscan : scanOwners digest store input.sources with
  | none => exact .inl ⟨rfl, rfl⟩
  | some owners =>
    simp only
    split
    · exact .inl ⟨rfl, rfl⟩
    · exact .inl ⟨rfl, rfl⟩
    · unfold sweep
      split
      case h_1 refs ledger hrefs hledger =>
        split
        · exact .inl ⟨rfl, rfl⟩
        · exact .inr ⟨owners, ledger, _, refs, rfl, hledger, hrefs, rfl, rfl⟩
      case h_2 => exact .inl ⟨rfl, rfl⟩

variable {refs : JsMap JsString JsString} {name : JsString}

theorem listed_ne_objectRef {allRefs : JsMap JsString JsString}
    (h : listCrestRefs allRefs = some refs) (hname : name ∈ refs.keys) (id : JsString) :
    name ≠ snapshotObjectRefName id := by
  unfold listCrestRefs at h
  simp only at h
  split at h
  case isFalse _ => cases h
  case isTrue _ =>
    obtain rfl := Option.some.inj h
    obtain ⟨oid, hget⟩ := JsMap.exists_get_of_mem_keys hname
    rw [JsMap.get_filterMap] at hget
    obtain ⟨oid', -, hlisted⟩ := Option.bind_eq_some_iff.mp hget
    have hnamespace : isListedNamespace name = true := by
      by_contra hne
      simp [hne] at hlisted
    intro heq
    subst heq
    have hstart : ∀ start : JsString, start.take 11 = js "refs/crest/" →
        11 ≤ start.length → start.isPrefixOf (snapshotObjectRefName id) = false := by
      intro start htake hlen
      by_contra hne
      have hstarts : start.isPrefixOf (snapshotObjectRefName id) = true := by
        simpa only [Bool.not_eq_false] using hne
      obtain ⟨rest, hrest⟩ := List.isPrefixOf_iff_prefix.mp hstarts
      have hsplit : start = js "refs/crest/" ++ start.drop 11 := by
        rw [← htake, List.take_append_drop]
      rw [hsplit, List.append_assoc] at hrest
      exact crestRef_ne_objectRef _ id hrest
    simp [isListedNamespace, hstart (js "refs/crest/snapshots/") (by decide) (by decide),
      hstart (js "refs/crest/pending/") (by decide) (by decide),
      hstart (js "refs/crest/ops/") (by decide) (by decide)] at hnamespace

theorem mem_deletionNames {listed : JsString} (h : name ∈ deletionNames refs listed) :
    name = listed ∨ ∃ id, listed = ownerRefName id ∧ name = snapshotObjectRefName id := by
  unfold deletionNames at h
  split at h
  case h_2 => exact .inl (by simpa using h)
  case h_1 id hid =>
    obtain ⟨hafter, -⟩ := Option.filter_eq_some_iff.mp hid
    have howner : listed = ownerRefName id := by
      unfold afterStart at hafter
      split at hafter
      case isFalse _ => cases hafter
      case isTrue hstart =>
        obtain ⟨rest, hrest⟩ := List.isPrefixOf_iff_prefix.mp hstart
        obtain rfl := Option.some.inj hafter
        rw [ownerRefName, ← hrest, List.drop_left']
        rfl
    split at h
    · rcases List.mem_cons.mp h with rfl | hmem
      · exact .inl rfl
      · exact .inr ⟨id, howner, by simpa using hmem⟩
    · exact .inl (by simpa using h)

theorem mem_expiredRefs {live : List JsString} {ledger : JsMap JsString Nat} {now : Int}
    (h : name ∈ expiredRefs live ledger now refs) :
    name ∈ refs.keys ∧ name ∉ live ∧
      ∃ firstSeen, ledger.get name = some firstSeen ∧ orphanGraceMs < now - firstSeen := by
  obtain ⟨hkey, hfate⟩ := List.mem_filter.mp h
  have hfate := of_decide_eq_true hfate
  unfold refFate at hfate
  split at hfate
  case isTrue _ => cases hfate
  case isFalse hlive =>
    split at hfate
    case h_1 => cases hfate
    case h_2 firstSeen hget =>
      split at hfate
      case isTrue _ => cases hfate
      case isFalse hlate => exact ⟨hkey, hlive, firstSeen, hget, by omega⟩

theorem get_nextLedger {live : List JsString} {ledger : JsMap JsString Nat} {now : Int}
    {time : Int} (h : (nextLedger live ledger now refs).get name = some time) :
    name ∈ refs.keys ∧ name ∉ live ∧
      (ledger.get name = none ∧ time = now ∨
        ∃ firstSeen, ledger.get name = some firstSeen ∧ time = firstSeen) := by
  rw [nextLedger, JsMap.get_filterMap] at h
  obtain ⟨oid, hoid, htime⟩ := Option.bind_eq_some_iff.mp h
  refine ⟨List.mem_map_of_mem (JsMap.mem_entries_of_get hoid), ?_⟩
  unfold refFate at htime
  by_cases hlive : name ∈ live
  · simp [hlive] at htime
  · refine ⟨hlive, ?_⟩
    rw [if_neg hlive] at htime
    cases hget : ledger.get name with
    | none =>
      simp only [hget, Option.some.injEq] at htime
      exact .inl ⟨rfl, htime.symm⟩
    | some firstSeen =>
      simp only [hget] at htime
      by_cases hlate : now - firstSeen ≤ orphanGraceMs
      · simp only [hlate, ite_true, Option.some.injEq] at htime
        exact .inr ⟨firstSeen, rfl, htime.symm⟩
      · simp [hlate] at htime

/-- The sessions are reachable, if there are any, whenever a run looks for them. -/
def SessionsReachable : StoreEvent → Prop
  | .reconcile input => ∀ sessions, input.sources.sessionsRoot ≠ .inaccessible sessions
  | .changeRefs _ | .damageLedger _ => True

variable {digest store}

theorem UnownedSince.cons {runs : List RunRecord} {time : Int}
    (h : UnownedSince digest store runs name time) {r : RunRecord}
    (hr : r.wroteLedger = true → ¬ Owns digest store r.sources name) :
    UnownedSince digest store (r :: runs) name time := by
  obtain ⟨newer, old, older, rfl, hwrote, hrecorded, htime, howns, hnewer⟩ := h
  refine ⟨r :: newer, old, older, rfl, hwrote, hrecorded, htime, howns, ?_⟩
  intro r' hr'
  cases hr' with
  | head => exact hr
  | tail _ hmem => exact hnewer r' hmem

theorem reconcile_keeps (descriptorOid : PendingWorkspaceBoundaryV1 → JsString)
    {h : History} {input : RunInput}
    (hroot : ∀ sessions, input.sources.sessionsRoot ≠ .inaccessible sessions)
    (hledger : LedgerTrue digest store h) :
    Justified digest store
        (reconcileSnapshotRefsLocked digest descriptorOid store input h.store).2 h.runs ∧
      LedgerTrue digest store (h.step digest descriptorOid store (.reconcile input)) := by
  rcases reconcile_cases digest store descriptorOid input h.store with
    ⟨hfile, hrecord⟩ | ⟨owners, ledger, allRefs, refs, hscan, hread, hrefs, hfile, hrecord⟩
  · refine ⟨?_, ?_⟩
    · rw [hrecord]
      exact ⟨by simp, by simp, fun _ => rfl⟩
    · intro ledger hread name firstSeen hget
      simp only [History.step, hfile] at hread
      have hold := hledger ledger hread name firstSeen hget
      simp only [History.step, hrecord]
      exact hold.cons (by simp)
  · have hunowned : ∀ name ∈ refs.keys, name ∉ owners.liveRefNames →
        ¬ Owns digest store input.sources name := by
      intro name hkey hlive howns
      exact hlive (live_of_owns hscan hroot (listed_ne_objectRef hrefs hkey) howns)
    refine ⟨?_, ?_⟩
    · rw [hrecord]
      have hdeleted : ∀ name ∈ Stop.deletions input.stop
          ((expiredRefs owners.liveRefNames ledger input.now refs).flatMap
            (deletionNames allRefs)),
          ∃ listed ∈ expiredRefs owners.liveRefNames ledger input.now refs,
            name = listed ∨ ∃ id, listed = ownerRefName id ∧ name = snapshotObjectRefName id := by
        intro name hname
        have hmem : name ∈ (expiredRefs owners.liveRefNames ledger input.now refs).flatMap
            (deletionNames allRefs) := by
          unfold Stop.deletions at hname
          split at hname
          · exact hname
          · exact List.mem_of_mem_take hname
          · cases hname
        obtain ⟨listed, hlisted, hnames⟩ := List.mem_flatMap.mp hmem
        exact ⟨listed, hlisted, mem_deletionNames hnames⟩
      constructor
      · intro name hname howns
        obtain ⟨listed, hlisted, hcases⟩ := hdeleted name hname
        obtain ⟨hkey, hlive, -⟩ := mem_expiredRefs hlisted
        rcases hcases with rfl | ⟨id, rfl, rfl⟩
        · exact hunowned name hkey hlive howns
        · exact hlive (ownerRef_live_of_owns hscan hroot howns)
      · intro name hname
        obtain ⟨listed, hlisted, hcases⟩ := hdeleted name hname
        obtain ⟨-, -, firstSeen, hget, hlate⟩ := mem_expiredRefs hlisted
        exact ⟨listed, firstSeen, hcases, hledger ledger hread listed firstSeen hget, hlate⟩
      · intro hfails
        rcases hfails with hsource | hnone
        · exact absurd hsource (not_sourceFails_of_scanOwners digest store hscan hroot)
        · simp [hread] at hnone
    · intro ledger' hread' name firstSeen hget
      simp only [History.step, hfile] at hread'
      have hnext := readLedger_ledgerJson hread' hget
      obtain ⟨hkey, hlive, hcases⟩ := get_nextLedger hnext
      have hnot := hunowned name hkey hlive
      simp only [History.step, hrecord]
      rcases hcases with ⟨hnone, htime⟩ | ⟨time, hold, htime⟩
      · refine ⟨[], _, h.runs, rfl, rfl, ?_, htime.symm, hnot, by simp⟩
        apply List.mem_filter.mpr
        exact ⟨hkey, decide_eq_true ⟨hlive, hnone⟩⟩
      · rw [htime]
        exact (hledger ledger hread name time hold).cons fun _ => hnot

/-- **Retention deletes only what nobody owns.**  When the sessions are reachable in
every run, each run deletes only refs without an owner, which an earlier run recorded
longer ago than the grace period and every run since that wrote the ledger found
without an owner; and nothing when a source or the ledger cannot be read. -/
theorem retention_deletes_only_unowned
    (digest : Digest) (descriptorOid : PendingWorkspaceBoundaryV1 → JsString)
    (store : StoreIdentity) (events : List StoreEvent)
    (hreachable : Runs.Guarded (History.step digest descriptorOid store)
      (fun _ e => SessionsReachable e) {} events) :
    AllJustified digest store
      (Runs.run (History.step digest descriptorOid store) {} events).runs := by
  have hinvariant := Runs.guarded_invariant (History.step digest descriptorOid store)
    (fun h => AllJustified digest store h.runs ∧ LedgerTrue digest store h)
    (fun _ e => SessionsReachable e) ?_ ?_ events hreachable
  · exact hinvariant.1
  · intro h e ⟨hall, hledger⟩ hok
    cases e with
    | reconcile input =>
      obtain ⟨hjustified, htrue⟩ := reconcile_keeps descriptorOid hok hledger
      refine ⟨?_, htrue⟩
      intro newer r older hsplit
      cases newer with
      | nil =>
        obtain ⟨rfl, rfl⟩ := List.cons.inj hsplit
        exact hjustified
      | cons first newer => exact hall newer r older (List.cons.inj hsplit).2
    | changeRefs refs => exact ⟨hall, hledger⟩
    | damageLedger file =>
      simp only [History.step]
      split
      case isFalse _ => exact ⟨hall, hledger⟩
      case isTrue hdamaged =>
        refine ⟨hall, ?_⟩
        intro ledger hread name firstSeen hget
        rcases hdamaged with rfl | hnone
        · obtain rfl : JsMap.empty = ledger := by simpa [readLedger] using hread
          simp at hget
        · simp [hnone] at hread
  · refine ⟨?_, ?_⟩
    · intro newer r older hsplit
      simp at hsplit
    · intro ledger hread name firstSeen hget
      obtain rfl : JsMap.empty = ledger := by simpa [readLedger] using hread
      simp at hget

section Unreachable

/-- A snapshot. -/
def keptSnapshot (digit : UInt16) : WorkspaceSnapshotRefV1 where
  id := List.replicate 40 digit
  workspaceIdentity := List.replicate 64 0x61
  workspaceIncarnation := List.replicate 64 0x62
  tree := List.replicate 40 digit
  scopeManifest := List.replicate 40 0x66

/-- The workspace of the snapshot. -/
def keptStore : StoreIdentity where
  workspaceIdentity := List.replicate 64 0x61
  workspaceIncarnation := List.replicate 64 0x62

/-- A session with one checkpoint. -/
def keptSession : SessionSource where
  entries :=
    [{ id := js "checkpoint", parentId := none,
       body := .custom Session.checkpointCustomType (some (WorkspaceCheckpointV1.available
        { originSessionId := js "session", turnId := js "turn"
          workspaceIdentity := List.replicate 64 0x61
          workspaceIncarnation := List.replicate 64 0x62
          before := keptSnapshot 0x30, after := keptSnapshot 0x31, changes := []
          coverage := { complete := true, eligibleEntryCount := 0, newlyHashedBytes := 0,
                        exclusions := [] } }).toJson) }]

/-- Sources that are fine but for the directory of the sessions. -/
def sourcesWith (sessionsRoot : SessionsRoot) : OwnerSources where
  sessionsRoot := sessionsRoot
  pending := some []
  activeRestore := .none
  head := some none
  readCommitSnapshot := fun _ => none

/-- Two runs that both find the sessions in this state, more than the grace period
apart, on a store with one ref. -/
def twoRuns (sessionsRoot : SessionsRoot) : List StoreEvent :=
  [.changeRefs (JsMap.empty.set (ownerRefName (keptSnapshot 0x30).id) (List.replicate 40 0x66)),
    .reconcile { sources := sourcesWith sessionsRoot, now := 0 },
    .reconcile { sources := sourcesWith sessionsRoot, now := orphanGraceMs + 1 }]

theorem keptSession_names :
    NamesSnapshot (sourcesWith (.inaccessible [keptSession])) (keptSnapshot 0x30) := by
  refine .entry (List.mem_singleton_self keptSession) (List.mem_singleton_self _) ?_
    (List.mem_cons_self (a := keptSnapshot 0x30) (l := [keptSnapshot 0x31]))
  decide +kernel

theorem twoRuns_deleted :
    (Runs.run (History.step Session.constantDigest (fun _ => []) keptStore) {}
      (twoRuns (.inaccessible [keptSession]))).runs.head?.map RunRecord.deleted =
    some [ownerRefName (keptSnapshot 0x30).id] := by
  decide +kernel

/-- **Sessions that cannot be reached lose their snapshots.**  Two runs that cannot
reach the directory of the sessions delete the ref of a snapshot that a checkpoint
names. -/
theorem unreachable_sessions_lose_snapshots :
    ¬ AllJustified Session.constantDigest keptStore
      (Runs.run (History.step Session.constantDigest (fun _ => []) keptStore) {}
        (twoRuns (.inaccessible [keptSession]))).runs := by
  generalize hruns : (Runs.run (History.step Session.constantDigest (fun _ => []) keptStore) {}
    (twoRuns (.inaccessible [keptSession]))).runs = runs
  have hdeleted : runs.head?.map RunRecord.deleted = some [ownerRefName (keptSnapshot 0x30).id] := by
    rw [← hruns]
    exact twoRuns_deleted
  have hsources : runs.head?.map RunRecord.sources =
      some (sourcesWith (.inaccessible [keptSession])) := by
    rw [← hruns]
    rfl
  intro hall
  cases runs with
  | nil => cases hdeleted
  | cons r older =>
    have hdeleted : r.deleted = [ownerRefName (keptSnapshot 0x30).id] :=
      Option.some.inj hdeleted
    have hsources : r.sources = sourcesWith (.inaccessible [keptSession]) :=
      Option.some.inj hsources
    apply (hall [] r older rfl).unowned (ownerRefName (keptSnapshot 0x30).id)
    · rw [hdeleted]
      exact List.mem_singleton_self _
    · rw [hsources]
      exact .inl ⟨keptSnapshot 0x30, keptSession_names, by decide +kernel, .inl rfl⟩

/-- The same two runs with the sessions in reach. -/
theorem retention_deletes_only_unowned_twoRuns :
    AllJustified Session.constantDigest keptStore
      (Runs.run (History.step Session.constantDigest (fun _ => []) keptStore) {}
        (twoRuns (.listed []))).runs := by
  apply retention_deletes_only_unowned
  refine ⟨trivial, ?_, ?_, trivial⟩ <;> exact fun _ h => nomatch h

end Unreachable

end Workspace

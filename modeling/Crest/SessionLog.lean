import Crest.SessionAppend
import Crest.SessionBranch

/-!
# Session storages as logs

Whatever carries a session, it is a log of entries: the leaf is where the last entry
puts it, a label is what the last label entry says, and the path to the root follows
the parents.  The storages in memory, in a JSONL file and in a SQLite database append
alike; the last one also looks at its leaf first.

An entry is appended only when its id is new and its parent is there, so a log has a
path to the root from every entry, and what is appended on the leaf extends the path
to it.
-/

namespace JsString

def trim (s : JsString) : JsString :=
  ((s.dropWhile isTrimUnit).reverse.dropWhile isTrimUnit).reverse

end JsString

namespace Session

/-- The codes of the errors a storage throws. -/
inductive SessionErrorCode
  | notFound
  | invalidSession
  | invalidEntry
  | staleLeaf
  | storage
  | invalidTransaction
  deriving DecidableEq, Repr

/-- How a walk to the root fails: with an error, or it never ends. -/
inductive WalkError
  | thrown (code : SessionErrorCode)
  | endless
  deriving DecidableEq, Repr

def leafIdAfterEntry (entry : SessionTreeEntry) : Option JsString :=
  match entry.body with
  | .leaf targetId => targetId
  | _ => some entry.id

def updateLabelCache (labelsById : JsMap JsString JsString) (entry : SessionTreeEntry) :
    JsMap JsString JsString :=
  match entry.body with
  | .label targetId label =>
    match label.map JsString.trim with
    | some (u :: rest) => labelsById.set targetId (u :: rest)
    | _ => labelsById.delete targetId
  | _ => labelsById

def buildLabelsById (entries : List SessionTreeEntry) : JsMap JsString JsString :=
  entries.foldl updateLabelCache JsMap.empty

/-- The leaf after some entries. -/
def leafIdOf (entries : List SessionTreeEntry) : Option JsString :=
  entries.foldl (fun _ entry => leafIdAfterEntry entry) none

/-- The loop of `getPathToRoot` from an entry on. -/
def walkToRoot (entries : List SessionTreeEntry) :
    Nat → SessionTreeEntry → List SessionTreeEntry → Except WalkError (List SessionTreeEntry)
  | 0, _, _ => .error .endless
  | fuel + 1, current, path =>
    match current.parentId with
    | none => .ok (current :: path)
    | some [] => .ok (current :: path)
    | some parentId =>
      match entryById entries parentId with
      | none => .error (.thrown .invalidSession)
      | some parent => walkToRoot entries fuel parent (current :: path)

example (e) : walkToRoot [] 0 e [] = .error .endless := by rw [walkToRoot]

/-- `getPathToRoot`.  A walk that visits more entries than there are goes on for ever. -/
def getPathToRoot (entries : List SessionTreeEntry) (leafId : Option JsString) :
    Except WalkError (List SessionTreeEntry) :=
  match leafId with
  | none => .ok []
  | some id =>
    match entryById entries id with
    | none => .error (.thrown .notFound)
    | some current => walkToRoot entries (entries.length + 1) current []

/-- What carries a session. -/
inductive StorageKind
  | memory
  | jsonl
  | sqlite
  deriving DecidableEq, Repr

/-- A session storage, as its log. -/
structure SessionLog where
  kind : StorageKind
  /-- The entries, in the order in which they were appended. -/
  entries : List SessionTreeEntry := []
  deriving DecidableEq, Repr

namespace SessionLog

/-- The leaf as it was set. -/
def leafId (log : SessionLog) : Option JsString := leafIdOf log.entries

/-- Whether the leaf is an entry of the log. -/
def leafKnown (log : SessionLog) : Bool :=
  log.leafId.all fun id => decide (id ∈ logEntryIds log.entries)

def getLeafId (log : SessionLog) : Except SessionErrorCode (Option JsString) :=
  if log.leafKnown then .ok log.leafId else .error .invalidSession

def getEntry (log : SessionLog) (id : JsString) : Option SessionTreeEntry :=
  entryById log.entries id

def getLabel (log : SessionLog) (id : JsString) : Option JsString :=
  (buildLabelsById log.entries).get id

/-- `appendEntries`, with the expected leaf if one is given. -/
def appendEntries
    (digest : Digest) (log : SessionLog) (batch : List SessionTreeEntry)
    (expectedLeafId : Option (Option JsString)) : Except SessionErrorCode SessionLog :=
  if expectedLeafId.any fun expected => decide (expected ≠ log.leafId) then .error .staleLeaf
  else if log.kind = .sqlite ∧ log.leafKnown = false then .error .invalidSession
  else
    match validateSessionEntriesForAppend digest (logEntryIds log.entries)
        (logTransactionIds log.entries) batch with
    | .error _ => .error .invalidTransaction
    | .ok () => .ok { log with entries := log.entries ++ batch }

end SessionLog

/-- The appends of a session before: those that fail change nothing. -/
def appendAll
    (digest : Digest) (log : SessionLog)
    (appends : List (List SessionTreeEntry × Option (Option JsString))) : SessionLog :=
  appends.foldl (fun log a => (log.appendEntries digest a.1 a.2).toOption.getD log) log

/-- A log as appends make it: every entry has an id of its own, and its parent is before
it. -/
inductive GrownLog : List SessionTreeEntry → Prop
  | nil : GrownLog []
  | snoc {log : List SessionTreeEntry} {e : SessionTreeEntry} (hlog : GrownLog log)
      (hne : e.id ≠ []) (hnew : e.id ∉ logEntryIds log)
      (hparent : ∀ parent, e.parentId = some parent → parent ∈ logEntryIds log) :
      GrownLog (log ++ [e])

@[simp] theorem logEntryIds_append (log more : List SessionTreeEntry) :
    logEntryIds (log ++ more) = logEntryIds log ++ logEntryIds more :=
  List.map_append

theorem exists_entryById {log : List SessionTreeEntry} {id : JsString}
    (h : id ∈ logEntryIds log) : ∃ entry, entryById log id = some entry := by
  cases hfound : entryById log id with
  | some entry => exact ⟨entry, rfl⟩
  | none =>
    obtain ⟨entry, hmem, hid⟩ := List.mem_map.mp h
    have hnone := List.find?_eq_none.mp hfound entry hmem
    simp [hid] at hnone

theorem entryById_append {log : List SessionTreeEntry} {id : JsString} {entry : SessionTreeEntry}
    (h : entryById log id = some entry) (more : List SessionTreeEntry) :
    entryById (log ++ more) id = some entry := by
  simp only [entryById] at h
  simp only [entryById, List.find?_append, h, Option.some_or]

theorem entryById_new {log : List SessionTreeEntry} {e : SessionTreeEntry}
    (hnew : e.id ∉ logEntryIds log) : entryById (log ++ [e]) e.id = some e := by
  have hnone : log.find? (fun entry => entry.id == e.id) = none := by
    apply List.find?_eq_none.mpr
    intro entry hmem heq
    have hid : entry.id = e.id := by simpa using heq
    exact hnew (hid ▸ List.mem_map_of_mem hmem)
  simp only [entryById, List.find?_append, hnone, Option.none_or, List.find?_cons, beq_self_eq_true]

namespace GrownLog

variable {log more : List SessionTreeEntry}

theorem parent_mem (h : GrownLog log) :
    ∀ e ∈ log, ∀ parent, e.parentId = some parent →
      parent ∈ logEntryIds log ∧ parent ≠ [] := by
  have hids : ∀ id ∈ logEntryIds log, id ≠ [] := by
    induction h with
    | nil =>
      intro id hid
      cases hid
    | snoc _ hne _ _ ih =>
      intro id hid
      rw [logEntryIds_append, List.mem_append] at hid
      rcases hid with hold | hlast
      · exact ih id hold
      · rw [List.mem_singleton.mp hlast]
        exact hne
  have hparents : ∀ e ∈ log, ∀ parent, e.parentId = some parent →
      parent ∈ logEntryIds log := by
    clear hids
    induction h with
    | nil =>
      intro e he
      cases he
    | snoc _ _ _ hparent ih =>
      intro e he parent hp
      rw [logEntryIds_append]
      apply List.mem_append_left
      rcases List.mem_append.mp he with hold | hlast
      · exact ih e hold parent hp
      · rw [List.mem_singleton.mp hlast] at hp
        exact hparent parent hp
  intro e he parent hp
  have hmem := hparents e he parent hp
  exact ⟨hmem, hids parent hmem⟩

theorem walkToRoot_append (h : GrownLog log) (more : List SessionTreeEntry) (fuel : Nat)
    {current : SessionTreeEntry} (hcurrent : current ∈ log) (path : List SessionTreeEntry) :
    walkToRoot (log ++ more) fuel current path = walkToRoot log fuel current path := by
  induction fuel generalizing current path with
  | zero => rfl
  | succ fuel ih =>
    cases hparent : current.parentId with
    | none => simp only [walkToRoot, hparent]
    | some parentId =>
      obtain ⟨hmem, hne⟩ := h.parent_mem current hcurrent parentId hparent
      obtain ⟨parent, hfound⟩ := exists_entryById hmem
      cases parentId with
      | nil => exact absurd rfl hne
      | cons u rest =>
        simp only [walkToRoot, hparent, entryById_append hfound more, hfound]
        exact ih (entryById_eq_some hfound).1 _

end GrownLog

theorem walkToRoot_path (log : List SessionTreeEntry) (fuel : Nat)
    (current : SessionTreeEntry) (path : List SessionTreeEntry) :
    walkToRoot log fuel current path =
      (walkToRoot log fuel current []).map fun front => front ++ path := by
  induction fuel generalizing current path with
  | zero => rfl
  | succ fuel ih =>
    simp only [walkToRoot]
    split
    case h_1 _ => rfl
    case h_2 _ => rfl
    case h_3 parentId _ =>
      split
      case h_1 _ => rfl
      case h_2 parent _ =>
        rw [ih parent (current :: path), ih parent [current]]
        cases walkToRoot log fuel parent [] with
        | error e => rfl
        | ok front =>
          show Except.ok (front ++ current :: path) = Except.ok (front ++ [current] ++ path)
          rw [List.append_assoc]
          rfl

variable {log : List SessionTreeEntry}

theorem walkToRoot_fuel {fuel : Nat} {current : SessionTreeEntry}
    {path result : List SessionTreeEntry} (h : walkToRoot log fuel current path = .ok result) :
    walkToRoot log (fuel + 1) current path = .ok result := by
  induction fuel generalizing current path with
  | zero => cases h
  | succ fuel ih =>
    rw [walkToRoot] at h ⊢
    cases hp : current.parentId with
    | none => simpa only [hp] using h
    | some parentId =>
      cases parentId with
      | nil => simpa only [hp] using h
      | cons u rest =>
        simp only [hp] at h ⊢
        cases hfound : entryById log (u :: rest) with
        | none => simp only [hfound, reduceCtorEq] at h
        | some parent =>
          simp only [hfound] at h ⊢
          exact ih h

theorem leafIdOf_append_singleton (log : List SessionTreeEntry) (e : SessionTreeEntry) :
    leafIdOf (log ++ [e]) = leafIdAfterEntry e := by
  simp [leafIdOf]

/-- **The path from a new entry is the path from its parent, and the entry.** -/
theorem getPathToRoot_new (h : GrownLog log) {e : SessionTreeEntry}
    (hnew : e.id ∉ logEntryIds log)
    (hparent : ∀ parent, e.parentId = some parent → parent ∈ logEntryIds log ∧ parent ≠ []) :
    getPathToRoot (log ++ [e]) (some e.id) =
      (getPathToRoot log e.parentId).map fun path => path ++ [e] := by
  simp only [getPathToRoot, entryById_new hnew, List.length_append, List.length_singleton]
  rw [walkToRoot]
  cases hp : e.parentId with
  | none => rfl
  | some parentId =>
    obtain ⟨hmem, hne⟩ := hparent parentId hp
    obtain ⟨parent, hfound⟩ := exists_entryById hmem
    cases parentId with
    | nil => exact absurd rfl hne
    | cons u rest =>
      simp only [entryById_append hfound [e], hfound]
      rw [h.walkToRoot_append [e] _ (entryById_eq_some hfound).1, walkToRoot_path]

theorem getPathToRoot_append (h : GrownLog log) (e : SessionTreeEntry) {id : JsString}
    (hid : id ∈ logEntryIds log) {path : List SessionTreeEntry}
    (hpath : getPathToRoot log (some id) = .ok path) :
    getPathToRoot (log ++ [e]) (some id) = .ok path := by
  obtain ⟨current, hfound⟩ := exists_entryById hid
  simp only [getPathToRoot, hfound] at hpath
  simp only [getPathToRoot, entryById_append hfound [e], List.length_append,
    List.length_singleton]
  rw [h.walkToRoot_append [e] _ (entryById_eq_some hfound).1]
  exact walkToRoot_fuel hpath

/-- **Every entry has a path to the root, in the order of the log.** -/
theorem GrownLog.exists_path {log : List SessionTreeEntry} (h : GrownLog log) :
    ∀ id ∈ logEntryIds log, ∃ path,
      getPathToRoot log (some id) = .ok path ∧ path.Sublist log := by
  induction h with
  | nil =>
    intro id hid
    cases hid
  | @snoc log e hlog hne hnew hparent ih =>
    intro id hid
    have hold : id ∈ logEntryIds log → ∃ path,
        getPathToRoot (log ++ [e]) (some id) = .ok path ∧ path.Sublist (log ++ [e]) := by
      intro hmem
      obtain ⟨path, hpath, hsub⟩ := ih id hmem
      exact ⟨path, getPathToRoot_append hlog e hmem hpath,
        hsub.trans (List.sublist_append_left log [e])⟩
    rw [logEntryIds_append, List.mem_append] at hid
    rcases hid with hmem | hlast
    · exact hold hmem
    · rw [List.mem_singleton.mp hlast]
      have hparent' : ∀ parent, e.parentId = some parent →
          parent ∈ logEntryIds log ∧ parent ≠ [] := fun parent hp =>
        (hlog.snoc hne hnew hparent).parent_mem e
          (List.mem_append_right _ (List.mem_singleton.mpr rfl)) parent hp |>.imp_left
            fun _ => hparent parent hp
      rw [getPathToRoot_new hlog hnew hparent']
      cases hp : e.parentId with
      | none => exact ⟨[e], rfl, List.sublist_append_right log [e]⟩
      | some parent =>
        obtain ⟨path, hpath, hsub⟩ := ih parent (hparent parent hp)
        refine ⟨path ++ [e], ?_, hsub.append_right [e]⟩
        rw [hpath]
        rfl

/-- Entries each of which is the child of the one before, from a leaf on. -/
def chainsFrom : Option JsString → List SessionTreeEntry → Bool
  | _, [] => true
  | leafId, e :: rest =>
    decide (e.parentId = leafId) && !e.isLeaf && chainsFrom (some e.id) rest

theorem leafIdAfterEntry_of_isLeaf {e : SessionTreeEntry} (h : e.isLeaf = false) :
    leafIdAfterEntry e = some e.id := by
  unfold leafIdAfterEntry
  split
  case h_1 targetId hbody => simp [SessionTreeEntry.isLeaf, hbody] at h
  case h_2 _ => rfl

theorem GrownLog.of_append {log : List SessionTreeEntry} :
    ∀ more, GrownLog (log ++ more) → GrownLog log := by
  intro more
  induction more using List.reverseRecOn with
  | nil =>
    intro h
    simpa using h
  | append_singleton more e ih =>
    intro h
    apply ih
    rw [← List.append_assoc] at h
    generalize hl : log ++ more ++ [e] = l at h
    cases h with
    | nil => simp at hl
    | snoc hlog _ _ _ =>
      obtain ⟨heq, -⟩ := List.append_inj' hl rfl
      rw [heq]
      exact hlog

theorem GrownLog.last {e : SessionTreeEntry} (h : GrownLog (log ++ [e])) :
    e.id ∉ logEntryIds log ∧
      ∀ parent, e.parentId = some parent → parent ∈ logEntryIds log ∧ parent ≠ [] := by
  have hne := h.parent_mem e (List.mem_append_right _ (List.mem_singleton.mpr rfl))
  generalize hl : log ++ [e] = l at h
  cases h with
  | nil => simp at hl
  | snoc _ _ hnew hparent =>
    obtain ⟨rfl, heq⟩ := List.append_inj' hl rfl
    cases heq
    exact ⟨hnew, fun parent hp => ⟨hparent parent hp, (hne parent hp).2⟩⟩

/-- **What is chained to the leaf extends the path from it.** -/
theorem getPathToRoot_chain {batch : List SessionTreeEntry} (h : GrownLog (log ++ batch))
    (hchain : chainsFrom (leafIdOf log) batch = true) :
    getPathToRoot (log ++ batch) (leafIdOf (log ++ batch)) =
      (getPathToRoot log (leafIdOf log)).map fun path => path ++ batch := by
  induction batch generalizing log with
  | nil =>
    rw [List.append_nil]
    cases getPathToRoot log (leafIdOf log) with
    | error e => rfl
    | ok path => simp [Except.map]
  | cons e rest ih =>
    simp only [chainsFrom, Bool.and_eq_true, decide_eq_true_eq, Bool.not_eq_true'] at hchain
    obtain ⟨⟨hparent, hbody⟩, hrest⟩ := hchain
    have hsplit : log ++ e :: rest = (log ++ [e]) ++ rest := by simp
    rw [hsplit] at h ⊢
    have hlog := h.of_append
    obtain ⟨hnew, hknown⟩ := hlog.last
    have hleaf : leafIdOf (log ++ [e]) = some e.id := by
      rw [leafIdOf_append_singleton, leafIdAfterEntry_of_isLeaf hbody]
    rw [← hleaf] at hrest
    rw [ih h hrest, hleaf, getPathToRoot_new hlog.of_append hnew hknown, hparent]
    cases getPathToRoot log (leafIdOf log) with
    | error e => rfl
    | ok path => simp [Except.map]

section Accepted

variable (digest : Digest)

variable {batch : List SessionTreeEntry}

theorem grownLog_checkAppendedEntries {existingIds existingTxs batchIds : List JsString}
    {log : List SessionTreeEntry}
    (h : checkAppendedEntries existingIds existingTxs batchIds batch = .ok ())
    (hlog : GrownLog log) (hids : ∀ id, id ∈ logEntryIds log ↔ id ∈ existingIds ∨ id ∈ batchIds) :
    GrownLog (log ++ batch) := by
  induction batch generalizing log batchIds with
  | nil => simpa using hlog
  | cons e rest ih =>
    simp only [checkAppendedEntries, bind, Except.bind] at h
    split at h
    case h_1 _ => cases h
    case h_2 id hid =>
      obtain ⟨rfl, hne, hnew, hbatch, -⟩ := checkAppendedEntry_ok hid
      have hfresh : e.id ∉ logEntryIds log := by
        rw [hids]
        exact not_or.mpr ⟨hnew, hbatch⟩
      have hparent : ∀ parent, e.parentId = some parent → parent ∈ logEntryIds log := by
        intro parent hp
        rw [hids]
        exact List.mem_append.mp (checkAppendedEntry_parent hid hp)
      have hsplit : log ++ e :: rest = (log ++ [e]) ++ rest := by simp
      rw [hsplit]
      apply ih h (hlog.snoc hne hfresh hparent)
      intro id
      rw [logEntryIds_append, List.mem_append, hids, List.mem_cons]
      have hlast : id ∈ logEntryIds [e] ↔ id = e.id := List.mem_singleton
      rw [hlast]
      tauto

theorem SessionLog.appendEntries_ok {log log' : SessionLog}
    {expectedLeafId : Option (Option JsString)}
    (h : log.appendEntries digest batch expectedLeafId = .ok log') :
    log' = { log with entries := log.entries ++ batch } ∧
      (∀ expected, expectedLeafId = some expected → expected = log.leafId) ∧
      (GrownLog log.entries → GrownLog (log.entries ++ batch)) := by
  unfold SessionLog.appendEntries at h
  split at h
  case isTrue _ => cases h
  case isFalse hexpected =>
    split at h
    case isTrue _ => cases h
    case isFalse _ =>
      split at h
      case h_1 _ => cases h
      case h_2 hcheck =>
        refine ⟨(Except.ok.inj h).symm, ?_, ?_⟩
        · intro expected heq
          simpa [heq] using hexpected
        · intro hlog
          simp only [validateSessionEntriesForAppend, bind, Except.bind] at hcheck
          split at hcheck
          case h_1 _ => cases hcheck
          case h_2 hloop =>
            apply grownLog_checkAppendedEntries hloop hlog
            intro id
            simp

theorem grownLog_appendAll (log : SessionLog) (hlog : GrownLog log.entries)
    (appends : List (List SessionTreeEntry × Option (Option JsString))) :
    GrownLog (appendAll digest log appends).entries := by
  induction appends generalizing log with
  | nil => exact hlog
  | cons a rest ih =>
    apply ih
    show GrownLog ((log.appendEntries digest a.1 a.2).toOption.getD log).entries
    cases happend : log.appendEntries digest a.1 a.2 with
    | error e => exact hlog
    | ok log' =>
      obtain ⟨rfl, -, hgrown⟩ := SessionLog.appendEntries_ok digest happend
      exact hgrown hlog

end Accepted

end Session

import Mathlib.Data.Finset.Card
import Mathlib.Data.List.Chain
import Crest.SessionEntry

/-!
# The active branch of a session

A session file lists entries that name their parents; the active branch is the
path from the root to the raw leaf.  The session state and the restore planners
each walk it with a function of their own.  The two differ in what they make of
entries of type `leaf`: the session state looks them up like any other entry, the
planners do not look them up at all.
-/

namespace Session

/-- Whether an entry only moves the leaf. -/
def SessionTreeEntry.isLeaf (entry : SessionTreeEntry) : Bool :=
  match entry.body with
  | .leaf _ => true
  | _ => false

/-- `rawLeafId`: the last entry, or what it points at. -/
def rawLeafId (entries : List SessionTreeEntry) : Option JsString :=
  entries.foldl (fun _ entry =>
    match entry.body with
    | .leaf targetId => targetId
    | _ => some entry.id) none

/-- `byId.get(id)`, where ids are distinct. -/
def entryById (entries : List SessionTreeEntry) (id : JsString) : Option SessionTreeEntry :=
  entries.find? fun entry => entry.id == id

/-- How a walk to the root can fail. -/
inductive BranchError
  | cycle
  | missingParent
  deriving DecidableEq, Repr

/-- The loop from a cursor to the root.  The branch is built in front, so the root
ends up first.  The fuel exceeds the number of entries that can be visited. -/
def walkBranch (lookup : JsString → Option SessionTreeEntry) :
    Nat → List SessionTreeEntry → Option JsString → Except BranchError (List SessionTreeEntry)
  | _, branch, none => .ok branch
  | 0, _, some _ => .error .cycle
  | fuel + 1, branch, some cursorId =>
    if cursorId ∈ branch.map SessionTreeEntry.id then .error .cycle
    else
      match lookup cursorId with
      | none => .error .missingParent
      | some cursor => walkBranch lookup fuel (cursor :: branch) cursor.parentId

/-- `activeBranch` of the session state: no branch when an id is repeated. -/
def activeBranch (entries : List SessionTreeEntry) (leafId : Option JsString) :
    Option (List SessionTreeEntry) :=
  if leafId = none then some []
  else if ¬ (entries.map SessionTreeEntry.id).Nodup then none
  else (walkBranch (entryById entries) (entries.length + 1) [] leafId).toOption

/-- The entries the planners look up. -/
def branchEntries (entries : List SessionTreeEntry) : List SessionTreeEntry :=
  entries.filter fun entry => !entry.isLeaf

/-- `activeBranch` of the restore planners, with the reason there is none. -/
def activeBranchForRestore (entries : List SessionTreeEntry) (semanticLeafId : Option JsString) :
    Except JsString (List SessionTreeEntry) :=
  if rawLeafId entries ≠ semanticLeafId then .error (js "semantic leaf changed")
  else if semanticLeafId = none then .ok []
  else if ¬ ((branchEntries entries).map SessionTreeEntry.id).Nodup then
    .error (js "session contains duplicate entry IDs")
  else
    match walkBranch (entryById (branchEntries entries)) (entries.length + 1) []
        semanticLeafId with
    | .ok branch => .ok branch
    | .error .cycle => .error (js "session branch contains a cycle")
    | .error .missingParent => .error (js "session branch contains a missing parent")

/-- Whether each entry of a branch is the parent of the next. -/
def IsParentChain (branch : List SessionTreeEntry) : Prop :=
  branch.IsChain fun parent child => child.parentId = some parent.id

variable {entries : List SessionTreeEntry}

theorem entryById_eq_some {id : JsString} {entry : SessionTreeEntry}
    (h : entryById entries id = some entry) :
    entry ∈ entries ∧ entry.id = id :=
  ⟨List.mem_of_find?_eq_some h, by simpa using List.find?_some h⟩

theorem entryById_of_mem (hnodup : (entries.map SessionTreeEntry.id).Nodup)
    {entry : SessionTreeEntry} (hmem : entry ∈ entries) :
    entryById entries entry.id = some entry := by
  cases hfound : entryById entries entry.id with
  | none =>
    have hnone := List.find?_eq_none.mp hfound entry hmem
    simp at hnone
  | some found =>
    obtain ⟨hfoundMem, hid⟩ := entryById_eq_some hfound
    rw [List.inj_on_of_nodup_map hnodup hfoundMem hmem hid]

section Walk

variable {lookup : JsString → Option SessionTreeEntry}

/-- What a walk keeps of the branch it has built so far. -/
structure WalkInvariant (lookup : JsString → Option SessionTreeEntry)
    (branch : List SessionTreeEntry) (cursor : Option JsString) : Prop where
  /-- Every entry was looked up. -/
  found : ∀ entry ∈ branch, lookup entry.id = some entry
  nodup : (branch.map SessionTreeEntry.id).Nodup
  chain : IsParentChain branch
  /-- The cursor is the parent of the first. -/
  cursor : ∀ first, branch.head? = some first → first.parentId = cursor

variable {branch result : List SessionTreeEntry} {fuel : Nat} {cursor : Option JsString}

/-- **A walk that reaches the root returns a chain of looked-up entries.** -/
theorem walkBranch_ok (hid : ∀ id entry, lookup id = some entry → entry.id = id)
    (hinv : WalkInvariant lookup branch cursor)
    (h : walkBranch lookup fuel branch cursor = .ok result) :
    WalkInvariant lookup result none := by
  induction fuel generalizing branch cursor with
  | zero =>
    cases cursor with
    | none =>
      obtain rfl := Except.ok.inj h
      exact hinv
    | some cursorId => cases h
  | succ fuel ih =>
    cases cursor with
    | none =>
      obtain rfl := Except.ok.inj h
      exact hinv
    | some cursorId =>
      simp only [walkBranch] at h
      split at h
      · cases h
      rename_i hvisited
      split at h
      · cases h
      rename_i entry hentry
      have hentryId := hid cursorId entry hentry
      refine ih ?_ h
      refine { found := ?_, nodup := ?_, chain := ?_, cursor := ?_ }
      · intro other hmem
        rcases List.mem_cons.mp hmem with rfl | hmem
        · rw [hentryId, hentry]
        · exact hinv.found other hmem
      · rw [List.map_cons, List.nodup_cons, hentryId]
        exact ⟨hvisited, hinv.nodup⟩
      · cases branch with
        | nil => exact List.IsChain.singleton _
        | cons first rest =>
          refine List.isChain_cons_cons.mpr ⟨?_, hinv.chain⟩
          rw [hinv.cursor first rfl, hentryId]
      · rintro first hfirst
        obtain rfl := Option.some.inj hfirst
        rfl

theorem walkInvariant_nil (cursor : Option JsString) : WalkInvariant lookup [] cursor :=
  { found := by simp
    nodup := by simp
    chain := List.IsChain.nil
    cursor := by simp }

theorem suffix_of_walkBranch (h : walkBranch lookup fuel branch cursor = .ok result) :
    branch <:+ result := by
  induction fuel generalizing branch cursor with
  | zero =>
    cases cursor with
    | none =>
      obtain rfl := Except.ok.inj h
      exact List.suffix_rfl
    | some cursorId => cases h
  | succ fuel ih =>
    cases cursor with
    | none =>
      obtain rfl := Except.ok.inj h
      exact List.suffix_rfl
    | some cursorId =>
      simp only [walkBranch] at h
      split at h
      · cases h
      split at h
      · cases h
      · exact (List.suffix_cons _ _).trans (ih h)

/-- **A path to a root is walked to its end**, whatever part of it has been walked. -/
theorem walkBranch_path (ahead : List SessionTreeEntry)
    (hinv : WalkInvariant lookup (ahead ++ branch) none) (hfuel : ahead.length ≤ fuel)
    (hcursor : cursor = ahead.getLast?.map SessionTreeEntry.id) :
    walkBranch lookup fuel branch cursor = .ok (ahead ++ branch) := by
  induction ahead using List.reverseRecOn generalizing fuel branch cursor with
  | nil =>
    obtain rfl : cursor = none := by simpa using hcursor
    cases fuel <;> rfl
  | append_singleton ahead entry ih =>
    obtain rfl : cursor = some entry.id := by simpa using hcursor
    obtain ⟨fuel, rfl⟩ : ∃ n, fuel = n + 1 := ⟨fuel - 1, by simp at hfuel; omega⟩
    rw [List.append_assoc, List.singleton_append] at hinv ⊢
    have hnew : entry.id ∉ branch.map SessionTreeEntry.id := by
      have hnodup := hinv.nodup
      rw [List.map_append, List.map_cons] at hnodup
      exact (List.nodup_cons.mp hnodup.of_append_right).1
    rw [walkBranch, if_neg hnew, hinv.found entry (by simp)]
    refine ih hinv (by simpa using hfuel) ?_
    -- the parent is the entry ahead, or there is none at the root
    cases ahead using List.reverseRecOn with
    | nil => exact hinv.cursor entry rfl
    | append_singleton before parent _ =>
      have hchain := hinv.chain
      rw [List.append_assoc, IsParentChain, List.isChain_append] at hchain
      simpa using (List.isChain_cons_cons.mp hchain.2.1).1

end Walk

/-- What both walks promise about the branch they return. -/
structure IsActiveBranch (entries branch : List SessionTreeEntry) : Prop where
  /-- Its entries are entries of the session. -/
  mem : ∀ entry ∈ branch, entry ∈ entries
  nodup : (branch.map SessionTreeEntry.id).Nodup
  chain : IsParentChain branch

variable {branch : List SessionTreeEntry}

/-- A branch that leads from a root to an entry. -/
structure IsRootPath (entries : List SessionTreeEntry) (leafId : JsString)
    (branch : List SessionTreeEntry) : Prop extends IsActiveBranch entries branch where
  root : ∀ first, branch.head? = some first → first.parentId = none
  leaf : branch.getLast?.map SessionTreeEntry.id = some leafId

/-- **The walk finds the path to a root if there is one, and nothing else.** -/
theorem walkBranch_eq_ok_iff (hnodup : (entries.map SessionTreeEntry.id).Nodup) {fuel : Nat}
    (hfuel : entries.length < fuel) {leafId : JsString} :
    walkBranch (entryById entries) fuel [] (some leafId) = .ok branch ↔
      IsRootPath entries leafId branch := by
  constructor
  · intro h
    have hinv := walkBranch_ok (fun _ _ hfound => (entryById_eq_some hfound).2)
      (walkInvariant_nil _) h
    refine { mem := fun entry hmem => (entryById_eq_some (hinv.found entry hmem)).1
             nodup := hinv.nodup, chain := hinv.chain, root := hinv.cursor, leaf := ?_ }
    obtain ⟨fuel, rfl⟩ : ∃ n, fuel = n + 1 := ⟨fuel - 1, by omega⟩
    simp only [walkBranch, List.map_nil, List.not_mem_nil, if_false] at h
    split at h
    · cases h
    rename_i entry hentry
    obtain ⟨ahead, rfl⟩ := suffix_of_walkBranch h
    simp [(entryById_eq_some hentry).2]
  · intro h
    have hlength : branch.length ≤ entries.length :=
      ((h.nodup.of_map _).subperm h.mem).length_le
    have hwalk := @walkBranch_path (entryById entries) [] fuel (some leafId) branch
      { found := fun entry hmem => by
          rw [List.append_nil] at hmem
          exact entryById_of_mem hnodup (h.mem entry hmem)
        nodup := by simpa using h.nodup
        chain := by simpa using h.chain
        cursor := by simpa using h.root } (by omega) h.leaf.symm
    simpa using hwalk

theorem activeBranch_eq_some_iff {leafId : JsString} :
    activeBranch entries (some leafId) = some branch ↔
      (entries.map SessionTreeEntry.id).Nodup ∧ IsRootPath entries leafId branch := by
  rw [activeBranch, if_neg (by simp)]
  by_cases hnodup : (entries.map SessionTreeEntry.id).Nodup
  · rw [if_neg (not_not.mpr hnodup), ← walkBranch_eq_ok_iff hnodup (Nat.lt_succ_self _)]
    cases walkBranch (entryById entries) (entries.length + 1) [] (some leafId) <;>
      simp [Except.toOption, hnodup]
  · simp [hnodup]

theorem activeBranchForRestore_eq_ok_iff {leafId : JsString} :
    activeBranchForRestore entries (some leafId) = .ok branch ↔
      rawLeafId entries = some leafId ∧
        ((branchEntries entries).map SessionTreeEntry.id).Nodup ∧
        IsRootPath (branchEntries entries) leafId branch := by
  rw [activeBranchForRestore]
  by_cases hleaf : rawLeafId entries = some leafId
  swap
  · simp [hleaf]
  by_cases hnodup : ((branchEntries entries).map SessionTreeEntry.id).Nodup
  swap
  · simp [hleaf, hnodup]
  have hlength : (branchEntries entries).length ≤ entries.length := List.length_filter_le _ _
  rw [← walkBranch_eq_ok_iff hnodup (Nat.lt_succ_of_le hlength), if_neg (not_not.mpr hleaf),
    if_neg (by simp), if_neg (not_not.mpr hnodup)]
  split <;> simp_all

theorem isActiveBranch_nil : IsActiveBranch entries [] :=
  { mem := by simp, nodup := by simp, chain := List.IsChain.nil }

theorem activeBranch_spec {leafId : Option JsString}
    (h : activeBranch entries leafId = some branch) :
    IsActiveBranch entries branch := by
  cases leafId with
  | none =>
    obtain rfl := Option.some.inj h
    exact isActiveBranch_nil
  | some leafId => exact (activeBranch_eq_some_iff.mp h).2.toIsActiveBranch

theorem activeBranchForRestore_none (h : activeBranchForRestore entries none = .ok branch) :
    branch = [] := by
  unfold activeBranchForRestore at h
  split at h
  · cases h
  · exact (Except.ok.inj h).symm

theorem mem_branchEntries {entry : SessionTreeEntry} :
    entry ∈ branchEntries entries ↔ entry ∈ entries ∧ entry.isLeaf = false := by
  simp [branchEntries]

theorem activeBranchForRestore_spec {leafId : Option JsString}
    (h : activeBranchForRestore entries leafId = .ok branch) :
    IsActiveBranch entries branch ∧ ∀ entry ∈ branch, entry.isLeaf = false := by
  cases leafId with
  | none =>
    obtain rfl := activeBranchForRestore_none h
    exact ⟨isActiveBranch_nil, by simp⟩
  | some leafId =>
    obtain ⟨-, -, hpath⟩ := activeBranchForRestore_eq_ok_iff.mp h
    have hmem entry (hentry : entry ∈ branch) := mem_branchEntries.mp (hpath.mem entry hentry)
    exact ⟨{ hpath with mem := fun entry h => (hmem entry h).1 }, fun entry h => (hmem entry h).2⟩

/-- **Where all ids are distinct, the planners' branch is the branch of the session
state.** -/
theorem activeBranch_of_restore {leafId : Option JsString}
    (h : activeBranchForRestore entries leafId = .ok branch)
    (hnodup : (entries.map SessionTreeEntry.id).Nodup) :
    activeBranch entries leafId = some branch := by
  cases leafId with
  | none =>
    obtain rfl := activeBranchForRestore_none h
    rfl
  | some leafId =>
    have hpath := (activeBranchForRestore_eq_ok_iff.mp h).2.2
    exact activeBranch_eq_some_iff.mpr
      ⟨hnodup, { hpath with mem := fun entry h => (mem_branchEntries.mp (hpath.mem entry h)).1 }⟩

theorem nodup_of_activeBranch {leafId : Option JsString}
    (h : activeBranch entries leafId = some branch) (hne : branch ≠ []) :
    (entries.map SessionTreeEntry.id).Nodup := by
  cases leafId with
  | none => exact absurd (Option.some.inj h).symm hne
  | some leafId => exact (activeBranch_eq_some_iff.mp h).1

/-- **A branch of the session state without leaf entries is the planners'
branch.** -/
theorem restore_of_activeBranch (h : activeBranch entries (rawLeafId entries) = some branch)
    (hleaf : ∀ entry ∈ branch, entry.isLeaf = false) :
    activeBranchForRestore entries (rawLeafId entries) = .ok branch := by
  cases hraw : rawLeafId entries with
  | none =>
    rw [hraw] at h
    obtain rfl := Option.some.inj h
    simp [activeBranchForRestore, hraw]
  | some leafId =>
    rw [hraw] at h
    obtain ⟨hnodup, hpath⟩ := activeBranch_eq_some_iff.mp h
    exact activeBranchForRestore_eq_ok_iff.mpr ⟨hraw, hnodup.sublist (List.filter_sublist.map _),
      { hpath with
        mem := fun entry h => mem_branchEntries.mpr ⟨hpath.mem entry h, hleaf entry h⟩ }⟩

end Session

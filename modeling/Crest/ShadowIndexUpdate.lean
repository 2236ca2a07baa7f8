import Mathlib.Data.List.TakeWhile
import Crest.ShadowIndex

/-!
# What an update of the shadow index does

The index after an update is read path by path: a path that is named has its new entry or none, a
path under a named one or above one that comes has none, and every other path keeps what it had.
The order in which the changes are named does not matter.

Git is given bytes.  A path with an unpaired surrogate is not among the paths that are read from
bytes, so that its entry cannot be found again; no other path is lost.
-/

namespace Workspace

open JsString

namespace ShadowIndex

section Ancestors

/-- The first path is a directory on the way to the second. -/
def IsAncestor (directory path : JsString) : Prop := (directory ++ [0x2F]) <+: path

theorem IsAncestor.trans {first second third : JsString} (h : IsAncestor first second)
    (h' : IsAncestor second third) :
    IsAncestor first third :=
  List.IsPrefix.trans h (List.IsPrefix.trans (List.prefix_append second [0x2F]) h')

theorem IsAncestor.length_lt {directory path : JsString} (h : IsAncestor directory path) :
    directory.length < path.length := by
  have hle := h.length_le
  rw [List.length_append, List.length_singleton] at hle
  omega

theorem IsAncestor.irrefl (path : JsString) : ¬ IsAncestor path path := by
  intro h
  exact absurd h.length_lt (Nat.lt_irrefl _)

theorem parent_split (path : JsString) (h : path.contains 0x2F = true) :
    ∃ name, path = ((path.reverse.dropWhile (· ≠ 0x2F)).drop 1).reverse ++ 0x2F :: name ∧
      (0x2F : UInt16) ∉ name := by
  have hmem : (0x2F : UInt16) ∈ path.reverse := by
    rw [List.mem_reverse]
    exact List.contains_iff_mem.mp h
  have hsplit := List.takeWhile_append_dropWhile (p := fun u : UInt16 => decide (u ≠ 0x2F))
    (l := path.reverse)
  have hname : (0x2F : UInt16) ∉ path.reverse.takeWhile fun u => decide (u ≠ 0x2F) := by
    intro hin
    have := List.mem_takeWhile_imp hin
    simp at this
  cases hdrop : path.reverse.dropWhile fun u => decide (u ≠ 0x2F) with
  | nil =>
    rw [hdrop, List.append_nil] at hsplit
    rw [hsplit] at hname
    exact absurd hmem hname
  | cons u rest =>
    have hu : u = 0x2F := by
      have hhead := List.head?_dropWhile_not (fun u : UInt16 => decide (u ≠ 0x2F)) path.reverse
      rw [hdrop] at hhead
      simpa using hhead
    refine ⟨(path.reverse.takeWhile fun u => decide (u ≠ 0x2F)).reverse, ?_, ?_⟩
    · rw [hdrop, hu] at hsplit
      have := congrArg List.reverse hsplit
      rw [List.reverse_reverse] at this
      rw [List.drop_one, List.tail_cons]
      simpa using this.symm
    · rwa [List.mem_reverse]

theorem isAncestor_append {parent name : JsString} (hname : (0x2F : UInt16) ∉ name)
    (directory : JsString) :
    IsAncestor directory (parent ++ 0x2F :: name) ↔
      directory = parent ∨ IsAncestor directory parent := by
  constructor
  · intro h
    obtain ⟨rest, hrest⟩ := h
    rw [List.append_assoc, List.singleton_append] at hrest
    rcases List.append_eq_append_iff.mp hrest with ⟨more, hparent, htail⟩ | ⟨more, hdir, htail⟩
    · cases more with
      | nil => exact Or.inl (by simpa using hparent.symm)
      | cons u more =>
        rw [List.cons_append, List.cons.injEq] at htail
        refine Or.inr ⟨more, ?_⟩
        rw [hparent, htail.1, List.append_assoc, List.singleton_append]
    · cases more with
      | nil => exact Or.inl (by simpa using hdir)
      | cons u more =>
        rw [List.cons_append, List.cons.injEq] at htail
        have hin : (0x2F : UInt16) ∈ name := by
          rw [htail.2]
          exact List.mem_append_right _ List.mem_cons_self
        exact absurd hin hname
  · intro h
    rcases h with rfl | h
    · exact ⟨name, by rw [List.append_assoc, List.singleton_append]⟩
    · exact List.IsPrefix.trans h (List.prefix_append parent _)

theorem not_isAncestor_of_contains {directory path : JsString}
    (h : path.contains 0x2F = false) :
    ¬ IsAncestor directory path := by
  intro habove
  obtain ⟨rest, rfl⟩ := habove
  have hin : (0x2F : UInt16) ∈ directory ++ [0x2F] ++ rest :=
    List.mem_append_left _ (List.mem_append_right _ List.mem_cons_self)
  rw [List.contains_iff_mem.mpr hin] at h
  cases h

theorem mem_ancestorsWithin (fuel : Nat) (directory path : JsString)
    (h : path.length ≤ fuel) :
    directory ∈ ancestorsWithin fuel path ↔ IsAncestor directory path := by
  induction fuel generalizing path with
  | zero =>
    obtain rfl : path = [] := List.length_eq_zero_iff.mp (Nat.le_zero.mp h)
    refine iff_of_false (by simp [ancestorsWithin]) (not_isAncestor_of_contains rfl)
  | succ fuel ih =>
    cases hslash : path.contains 0x2F with
    | false =>
      rw [ancestorsWithin, hslash]
      exact iff_of_false (by simp) (not_isAncestor_of_contains hslash)
    | true =>
      obtain ⟨name, hsplit, hname⟩ := parent_split path hslash
      rw [ancestorsWithin, if_pos hslash, List.mem_cons]
      generalize hparent :
        ((path.reverse.dropWhile (· ≠ 0x2F)).drop 1).reverse = parent at hsplit ⊢
      have hshort : parent.length ≤ fuel := by
        rw [hsplit, List.length_append, List.length_cons] at h
        omega
      rw [ih parent hshort, hsplit, isAncestor_append hname]

/-- **The loop finds exactly what is above the path.** -/
theorem mem_ancestors (directory path : JsString) :
    directory ∈ ancestors path ↔ IsAncestor directory path :=
  mem_ancestorsWithin _ directory path (Nat.le_refl _)

end Ancestors

section Bytes

/-- The path that Git reads. -/
def gitPath (path : JsString) : JsString := fromUtf8 (utf8 path)

variable {path : JsString}

theorem gitPath_formed (h : hasUnpairedSurrogate path = false) :
    gitPath path = path :=
  (fromUtf8_utf8_iff path).mpr h

theorem codePoints_append (first : JsString) {u : UInt16} (rest : JsString)
    (hlow : isLowSurrogate u = false) :
    codePoints (first ++ u :: rest) = codePoints first ++ codePoints (u :: rest) := by
  fun_induction codePoints first with
  | case1 => rfl
  | case2 v =>
    rw [List.singleton_append, codePoints, hlow, Bool.and_false, if_neg (by simp)]
    rfl
  | case3 v w more hpair ih =>
    rw [List.cons_append, List.cons_append, codePoints, if_pos hpair, ih, List.cons_append]
  | case4 v w more hpair ih =>
    rw [List.cons_append, List.cons_append, codePoints, if_neg hpair, ← List.cons_append, ih,
      List.cons_append]

theorem codePoints_append_slash (directory rest : JsString) :
    codePoints (directory ++ 0x2F :: rest) =
      codePoints directory ++ codePoints (0x2F :: rest) :=
  codePoints_append directory rest (by decide)

theorem IsAncestor.utf8 {directory : JsString} (h : IsAncestor directory path) :
    (utf8 directory ++ [0x2F]) <+: utf8 path := by
  obtain ⟨rest, rfl⟩ := h
  have hslash : codePoints (0x2F :: rest) = '/' :: codePoints rest :=
    codePoints_utf16Units_append '/' rest
  rw [List.append_assoc, List.singleton_append, JsString.utf8, JsString.utf8,
    codePoints_append_slash, hslash, List.flatMap_append, List.flatMap_cons]
  have hbyte : String.utf8EncodeChar '/' = [0x2F] := by decide
  rw [hbyte, ← List.append_assoc]
  exact List.prefix_append _ _

theorem IsAncestor.formed {directory : JsString} (h : IsAncestor directory path)
    (hformed : hasUnpairedSurrogate path = false) :
    hasUnpairedSurrogate directory = false := by
  obtain ⟨rest, rfl⟩ := h
  rw [List.append_assoc, List.singleton_append] at hformed
  fun_induction hasUnpairedSurrogate directory with
  | case1 => rfl
  | case2 u =>
    have hlow : isLowSurrogate 0x2F = false := by decide
    rw [List.singleton_append, hasUnpairedSurrogate, hlow] at hformed
    cases hhigh : isHighSurrogate u with
    | true => simp [hhigh] at hformed
    | false =>
      cases hu : isLowSurrogate u with
      | true => simp [hhigh, hu] at hformed
      | false => rfl
  | case3 u v more hhigh hlow ih =>
    rw [List.cons_append, List.cons_append, hasUnpairedSurrogate, if_pos hhigh, if_pos hlow]
      at hformed
    exact ih hformed
  | case4 u v more hhigh hlow =>
    rw [List.cons_append, List.cons_append, hasUnpairedSurrogate, if_pos hhigh, if_neg hlow]
      at hformed
    exact hformed
  | case5 u v more hhigh hlow =>
    rw [List.cons_append, List.cons_append, hasUnpairedSurrogate, if_neg hhigh, if_pos hlow]
      at hformed
    exact hformed
  | case6 u v more hhigh hlow ih =>
    rw [List.cons_append, List.cons_append, hasUnpairedSurrogate, if_neg hhigh, if_neg hlow,
      ← List.cons_append] at hformed
    exact ih hformed

end Bytes

section Accepted

/-- The mutation of a state. -/
def mutationOf (input : PathState) : ValidatedMutation :=
  ⟨input.path, input.state, toIndexEntry input.path input.state⟩

/-- The path is named. -/
def Mutated (states : List PathState) (path : JsString) : Prop :=
  ∃ input ∈ states, input.path = path

/-- The path is to be a file or a symbolic link. -/
def Added (states : List PathState) (path : JsString) : Prop :=
  ∃ input ∈ states, input.path = path ∧ (toIndexEntry input.path input.state).isSome = true

/-- A list of states that is accepted. -/
structure Accepted (states : List PathState) : Prop where
  relative : ∀ input ∈ states, validateWorkspaceRelativePath input.path = true
  valid : ∀ input ∈ states, validateState input.state = .ok input.state
  nodup : (states.map PathState.path).Nodup
  free : ∀ directory path, Added states directory → Added states path →
    ¬ IsAncestor directory path

theorem validateState_ok {state state' : CapturedPathStateV1}
    (h : validateState state = .ok state') :
    state' = state := by
  cases state <;> simp only [validateState] at h
  · cases h
    rfl
  · split at h
    · cases h
    · cases h
      rfl
  · split at h
    · cases h
    · cases h
      rfl
  · cases h
    rfl

theorem readMutations_iff (seen : List JsString) (states : List PathState)
    (mutations : List ValidatedMutation) :
    readMutations seen states = .ok mutations ↔
      mutations = states.map mutationOf ∧
        (∀ input ∈ states, validateWorkspaceRelativePath input.path = true ∧
          validateState input.state = .ok input.state ∧ input.path ∉ seen) ∧
        (states.map PathState.path).Nodup := by
  induction states generalizing seen mutations with
  | nil =>
    rw [readMutations]
    constructor
    · intro h
      cases h
      simp
    · intro h
      rw [h.1]
      rfl
  | cons input rest ih =>
    constructor
    · intro h
      rw [readMutations] at h
      split at h
      · cases h
      · rename_i hrelative
        split at h
        · cases h
        · rename_i hseen
          cases hstate : validateState input.state with
          | error e =>
            rw [hstate] at h
            cases h
          | ok state =>
            obtain rfl := validateState_ok hstate
            rw [hstate] at h
            cases hrest : readMutations (input.path :: seen) rest with
            | error e =>
              simp only [hrest, Except.map] at h
              cases h
            | ok found =>
              simp only [hrest, Except.map] at h
              cases h
              obtain ⟨rfl, hall, hnodup⟩ := (ih _ _).mp hrest
              refine ⟨rfl, ?_, ?_⟩
              · intro other hother
                rcases List.mem_cons.mp hother with rfl | hother
                · exact ⟨by simpa using hrelative, hstate, hseen⟩
                · obtain ⟨hone, htwo, hthree⟩ := hall other hother
                  exact ⟨hone, htwo, fun hin => hthree (List.mem_cons_of_mem _ hin)⟩
              · refine List.nodup_cons.mpr ⟨?_, hnodup⟩
                intro hin
                obtain ⟨other, hother, hsame⟩ := List.mem_map.mp hin
                refine (hall other hother).2.2 ?_
                rw [hsame]
                exact List.mem_cons_self
    · intro h
      obtain ⟨rfl, hall, hnodup⟩ := h
      obtain ⟨hrelative, hstate, hseen⟩ := hall input List.mem_cons_self
      obtain ⟨hnew, hnodup⟩ := List.nodup_cons.mp hnodup
      have hrest : readMutations (input.path :: seen) rest = .ok (rest.map mutationOf) := by
        refine (ih _ _).mpr ⟨rfl, ?_, hnodup⟩
        intro other hother
        obtain ⟨hone, htwo, hthree⟩ := hall other (List.mem_cons_of_mem _ hother)
        refine ⟨hone, htwo, ?_⟩
        intro hin
        rcases List.mem_cons.mp hin with hsame | hin
        · exact hnew (List.mem_map.mpr ⟨other, hother, hsame⟩)
        · exact hthree hin
      rw [readMutations, hrelative, if_neg (by simp), if_neg hseen, hstate]
      simp only [hrest, Except.map]
      rfl

variable {states : List PathState}

theorem mem_additions {entry : IndexEntry} :
    entry ∈ additions (states.map mutationOf) ↔
      ∃ input ∈ states, toIndexEntry input.path input.state = some entry := by
  simp [additions, mutationOf]

theorem toIndexEntry_path {path : JsString} {state : CapturedPathStateV1}
    {entry : IndexEntry} (h : toIndexEntry path state = some entry) :
    entry.path = path := by
  cases state <;> simp only [toIndexEntry, Option.some.injEq, reduceCtorEq] at h
  · rw [← h]
  · rw [← h]

theorem mem_additions_path {path : JsString} :
    path ∈ (additions (states.map mutationOf)).map IndexEntry.path ↔ Added states path := by
  rw [List.mem_map]
  constructor
  · intro h
    obtain ⟨entry, hentry, rfl⟩ := h
    obtain ⟨input, hinput, hadds⟩ := mem_additions.mp hentry
    exact ⟨input, hinput, (toIndexEntry_path hadds).symm, by rw [hadds]; rfl⟩
  · intro h
    obtain ⟨input, hinput, rfl, hadds⟩ := h
    obtain ⟨entry, hentry⟩ := Option.isSome_iff_exists.mp hadds
    exact ⟨entry, mem_additions.mpr ⟨input, hinput, hentry⟩, toIndexEntry_path hentry⟩

theorem conflict_none (added paths : List JsString) :
    conflict added paths = none ↔
      ∀ path ∈ paths, ∀ directory ∈ added, ¬ IsAncestor directory path := by
  induction paths with
  | nil => simp [conflict]
  | cons path rest ih =>
    rw [conflict]
    cases hfound : (ancestors path).find? (· ∈ added) with
    | some parent =>
      have hin := List.mem_of_find?_eq_some hfound
      have hadded : parent ∈ added := by
        simpa using List.find?_some hfound
      refine iff_of_false (by simp) ?_
      intro h
      exact h path List.mem_cons_self parent hadded ((mem_ancestors _ _).mp hin)
    | none =>
      rw [List.find?_eq_none] at hfound
      show conflict added rest = none ↔ _
      rw [ih]
      constructor
      · intro h other hother directory hdirectory habove
        rcases List.mem_cons.mp hother with rfl | hother
        · have := hfound directory ((mem_ancestors _ _).mpr habove)
          simp [hdirectory] at this
        · exact h other hother directory hdirectory habove
      · intro h other hother
        exact h other (List.mem_cons_of_mem _ hother)

/-- **Which lists of states are accepted, and as what.** -/
theorem validateMutations_iff (states : List PathState)
    (mutations : List ValidatedMutation) :
    validateMutations states = .ok mutations ↔
      Accepted states ∧ mutations = states.map mutationOf := by
  constructor
  · intro h
    rw [validateMutations] at h
    cases hread : readMutations [] states with
    | error e =>
      rw [hread] at h
      cases h
    | ok found =>
      rw [hread] at h
      obtain ⟨rfl, hall, hnodup⟩ := (readMutations_iff _ _ _).mp hread
      simp only at h
      cases hconflict : conflict ((additions (states.map mutationOf)).map IndexEntry.path)
          ((additions (states.map mutationOf)).map IndexEntry.path) with
      | some pair =>
        rw [hconflict] at h
        cases h
      | none =>
        rw [hconflict] at h
        cases h
        refine ⟨⟨fun input hinput => (hall input hinput).1,
          fun input hinput => (hall input hinput).2.1, hnodup, ?_⟩, rfl⟩
        intro directory path hdirectory hpath
        exact (conflict_none _ _).mp hconflict path (mem_additions_path.mpr hpath) directory
          (mem_additions_path.mpr hdirectory)
  · intro h
    obtain ⟨haccepted, rfl⟩ := h
    have hread : readMutations [] states = .ok (states.map mutationOf) := by
      refine (readMutations_iff _ _ _).mpr ⟨rfl, ?_, haccepted.nodup⟩
      intro input hinput
      exact ⟨haccepted.relative input hinput, haccepted.valid input hinput, List.not_mem_nil⟩
    have hconflict : conflict ((additions (states.map mutationOf)).map IndexEntry.path)
        ((additions (states.map mutationOf)).map IndexEntry.path) = none := by
      rw [conflict_none]
      intro path hpath directory hdirectory
      exact haccepted.free directory path (mem_additions_path.mp hdirectory)
        (mem_additions_path.mp hpath)
    rw [validateMutations, hread]
    simp only [hconflict]

theorem Accepted.perm {states' : List PathState} (h : Accepted states)
    (hperm : states'.Perm states) :
    Accepted states' := by
  have hadded : ∀ path, Added states' path → Added states path := by
    intro path hpath
    obtain ⟨input, hinput, hrest⟩ := hpath
    exact ⟨input, hperm.mem_iff.mp hinput, hrest⟩
  refine ⟨?_, ?_, ?_, ?_⟩
  · intro input hinput
    exact h.relative input (hperm.mem_iff.mp hinput)
  · intro input hinput
    exact h.valid input (hperm.mem_iff.mp hinput)
  · exact (hperm.map PathState.path).nodup_iff.mpr h.nodup
  · intro directory path hdirectory hpath
    exact h.free directory path (hadded directory hdirectory) (hadded path hpath)

end Accepted

section Index

/-- The entries of an index: workspace-relative paths as bytes can hold them, each once. -/
structure Entries (index : List IndexEntry) : Prop where
  relative : ∀ entry ∈ index, validateWorkspaceRelativePath entry.path = true
  formed : ∀ entry ∈ index, hasUnpairedSurrogate entry.path = false
  oid : ∀ entry ∈ index, MutationLog.validateSha1 entry.oid = true
  nodup : (index.map IndexEntry.path).Nodup

/-- The index of a tree: no entry is at a directory of another. -/
structure Tree (index : List IndexEntry) : Prop extends Entries index where
  prefixFree : ∀ entry ∈ index, ∀ other ∈ index, ¬ IsAncestor entry.path other.path

variable {path : JsString}

theorem mem_of_find {index : List IndexEntry} {found : IndexMode × JsString}
    (h : find index path = some found) :
    (⟨path, found.1, found.2⟩ : IndexEntry) ∈ index := by
  rw [find] at h
  cases hentry : index.find? fun entry => entry.path = path with
  | none =>
    rw [hentry] at h
    cases h
  | some entry =>
    rw [hentry] at h
    have hpath : entry.path = path := by
      simpa using List.find?_some hentry
    cases h
    rw [← hpath]
    exact List.mem_of_find?_eq_some hentry

theorem find_eq_none {index : List IndexEntry} :
    find index path = none ↔ ∀ entry ∈ index, entry.path ≠ path := by
  simp [find]

theorem Entries.find_eq {index : List IndexEntry} (h : Entries index) {entry : IndexEntry}
    (hentry : entry ∈ index) :
    find index entry.path = some (entry.mode, entry.oid) := by
  cases hfound : find index entry.path with
  | none => exact absurd rfl (find_eq_none.mp hfound entry hentry)
  | some found =>
    have hmem := mem_of_find hfound
    have hsame := List.inj_on_of_nodup_map h.nodup hmem hentry rfl
    rw [← hsame]

theorem find_filter (index : List IndexEntry) (gone path : JsString) :
    find (index.filter fun entry => entry.path ≠ gone) path =
      if gone = path then none else find index path := by
  split
  · rename_i hsame
    rw [find_eq_none]
    intro entry hentry
    rw [← hsame]
    simpa using (List.mem_filter.mp hentry).2
  · rename_i hne
    unfold find
    congr 1
    induction index with
    | nil => rfl
    | cons entry rest ih =>
      by_cases hgone : entry.path = gone
      · rw [List.filter_cons_of_neg (by simpa using hgone), ih,
          List.find?_cons_of_neg (by simpa [hgone] using hne)]
      · rw [List.filter_cons_of_pos (by simpa using hgone)]
        by_cases hpath : entry.path = path
        · rw [List.find?_cons_of_pos (by simpa using hpath),
            List.find?_cons_of_pos (by simpa using hpath)]
        · rw [List.find?_cons_of_neg (by simpa using hpath),
            List.find?_cons_of_neg (by simpa using hpath), ih]

/-- **What one line does**: the path it names has its entry or none, the others keep theirs. -/
theorem find_applyLine (index : List IndexEntry) (line : IndexLine) (path : JsString) :
    find (applyLine index line) path =
      if fromUtf8 line.path = path then line.mode.map fun mode => (mode, line.oid)
      else find index path := by
  unfold applyLine
  cases hmode : line.mode with
  | none =>
    simp only [find_filter]
    rfl
  | some mode =>
    simp only [find, List.find?_append, Option.map_or]
    have hothers := find_filter index (fromUtf8 line.path) path
    rw [find] at hothers
    rw [hothers]
    split
    · rename_i hsame
      simp [hsame]
    · rename_i hne
      simp [find, hne]

theorem Entries.after_line {index : List IndexEntry} {line : IndexLine} (h : Entries index)
    (hline : line.mode.isSome = true →
      validateWorkspaceRelativePath (fromUtf8 line.path) = true ∧
        MutationLog.validateSha1 line.oid = true) :
    Entries (applyLine index line) := by
  have hfilter : Entries (index.filter fun entry => entry.path ≠ fromUtf8 line.path) := by
    refine ⟨?_, ?_, ?_, ?_⟩
    · intro entry hentry
      exact h.relative entry (List.mem_of_mem_filter hentry)
    · intro entry hentry
      exact h.formed entry (List.mem_of_mem_filter hentry)
    · intro entry hentry
      exact h.oid entry (List.mem_of_mem_filter hentry)
    · exact h.nodup.sublist (List.filter_sublist.map _)
  unfold applyLine
  cases hmode : line.mode with
  | none => exact hfilter
  | some mode =>
    obtain ⟨hrelative, hoid⟩ := hline (by rw [hmode]; rfl)
    have hcases : ∀ entry ∈ index.filter (fun entry => entry.path ≠ fromUtf8 line.path) ++
        [⟨fromUtf8 line.path, mode, line.oid⟩],
        entry ∈ index.filter (fun entry => entry.path ≠ fromUtf8 line.path) ∨
          entry = ⟨fromUtf8 line.path, mode, line.oid⟩ := by
      intro entry hentry
      simpa only [List.mem_append, List.mem_singleton] using hentry
    refine ⟨?_, ?_, ?_, ?_⟩
    · intro entry hentry
      rcases hcases entry hentry with hold | rfl
      · exact hfilter.relative entry hold
      · exact hrelative
    · intro entry hentry
      rcases hcases entry hentry with hold | rfl
      · exact hfilter.formed entry hold
      · exact formed_fromUtf8 _
    · intro entry hentry
      rcases hcases entry hentry with hold | rfl
      · exact hfilter.oid entry hold
      · exact hoid
    · rw [List.map_append, List.nodup_append]
      refine ⟨hfilter.nodup, by simp, ?_⟩
      intro path hpath other hother
      obtain ⟨entry, hentry, rfl⟩ := List.mem_map.mp hpath
      have hne : entry.path ≠ fromUtf8 line.path := by
        simpa using (List.mem_filter.mp hentry).2
      have hother : other = fromUtf8 line.path := by
        simpa using hother
      rw [hother]
      exact hne

theorem Entries.after_lines {index : List IndexEntry} {lines : List IndexLine}
    (h : Entries index)
    (hlines : ∀ line ∈ lines, line.mode.isSome = true →
      validateWorkspaceRelativePath (fromUtf8 line.path) = true ∧
        MutationLog.validateSha1 line.oid = true) :
    Entries (updateIndex index lines) := by
  induction lines generalizing index with
  | nil => exact h
  | cons line rest ih =>
    exact ih (h.after_line (hlines line List.mem_cons_self))
      fun other hother => hlines other (List.mem_cons_of_mem _ hother)

theorem formed_updateIndex {index : List IndexEntry} {lines : List IndexLine}
    (h : ∀ entry ∈ index, hasUnpairedSurrogate entry.path = false) :
    ∀ entry ∈ updateIndex index lines, hasUnpairedSurrogate entry.path = false := by
  induction lines generalizing index with
  | nil => exact h
  | cons line rest ih =>
    refine ih ?_
    intro entry hentry
    unfold applyLine at hentry
    cases hmode : line.mode with
    | none =>
      rw [hmode] at hentry
      exact h entry (List.mem_of_mem_filter hentry)
    | some mode =>
      rw [hmode] at hentry
      rcases List.mem_append.mp hentry with hold | hnew
      · exact h entry (List.mem_of_mem_filter hold)
      · obtain rfl := List.mem_singleton.mp hnew
        exact formed_fromUtf8 _

theorem find_updateIndex_other {lines : List IndexLine} (index : List IndexEntry)
    (h : ∀ line ∈ lines, fromUtf8 line.path ≠ path) :
    find (updateIndex index lines) path = find index path := by
  induction lines generalizing index with
  | nil => rfl
  | cons line rest ih =>
    have hrest := ih (applyLine index line) fun other hother =>
      h other (List.mem_cons_of_mem _ hother)
    refine hrest.trans ?_
    rw [find_applyLine, if_neg (h line List.mem_cons_self)]

theorem find_updateIndex_last {before after : List IndexLine} {line : IndexLine}
    (index : List IndexEntry) (hpath : fromUtf8 line.path = path)
    (h : ∀ other ∈ after, fromUtf8 other.path ≠ path) :
    find (updateIndex index (before ++ line :: after)) path =
      line.mode.map fun mode => (mode, line.oid) := by
  rw [updateIndex, List.foldl_append, List.foldl_cons]
  refine (find_updateIndex_other _ h).trans ?_
  rw [find_applyLine, if_pos hpath]

end Index

end ShadowIndex

end Workspace

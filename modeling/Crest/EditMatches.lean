import Crest.EditFuzzy
import Crest.Splices

/-!
# Where edits match

A success of the engine is read off the content: every edit is found in it, at most one place is
counted, the places are apart, and what comes out is the content with those places replaced.
Nothing of this depends on the order of the edits.
-/

namespace EditDiff

open Splices

theorem normalizeEdit_oldText (edit : Edit) :
    (normalizeEdit edit).oldText = normalizeToLF edit.oldText := rfl

/-- The text that an edit puts in. -/
def replacement (edit : Edit) : JsString := normalizeToLF edit.newText

/-- The place of a matched edit, with the text it puts in. -/
def MatchedEdit.place (edit : MatchedEdit) : Splice JsString :=
  ⟨edit.matchIndex, edit.matchLength, edit.newText⟩

/-- A place of an edit, with the text it puts in. -/
def placeOf (s : Splice Edit) : Splice JsString := ⟨s.start, s.length, replacement s.label⟩

section Search

variable {pattern l : JsString} {i : Nat}

theorem indexOf_spec (h : indexOf pattern l = some i) :
    i + pattern.length ≤ l.length ∧ (l.drop i).take pattern.length = pattern := by
  induction l generalizing i with
  | nil =>
    rw [indexOf] at h
    split at h
    · rename_i hempty
      cases h
      rw [List.isEmpty_iff] at hempty
      rw [hempty]
      exact ⟨Nat.le_refl _, rfl⟩
    · cases h
  | cons u rest ih =>
    rw [indexOf] at h
    split at h
    · rename_i hfront
      cases h
      rw [List.isPrefixOf_iff_prefix] at hfront
      obtain ⟨back, hback⟩ := hfront
      rw [← hback, List.drop_zero, List.take_left, List.length_append]
      exact ⟨by omega, rfl⟩
    · obtain ⟨j, hj, rfl⟩ := Option.map_eq_some_iff.mp h
      obtain ⟨hle, htake⟩ := ih hj
      refine ⟨?_, htake⟩
      rw [List.length_cons]
      omega

end Search

section Places

variable (nfkc : JsString → JsString) (base : JsString)

/-- The place of an edit in a content. -/
def spliceOf (edit : Edit) : Splice Edit :=
  let result := fuzzyFindText nfkc base (normalizeToLF edit.oldText)
  ⟨(result.map FuzzyMatchResult.index).getD 0, (result.map FuzzyMatchResult.matchLength).getD 0,
    edit⟩

/-- An edit is found, and at most one place is counted. -/
structure Found (edit : Edit) : Prop where
  found : fuzzyFindText nfkc base (normalizeToLF edit.oldText) ≠ none
  once : countOccurrences nfkc base (normalizeToLF edit.oldText) ≤ 1

/-- The places of edits, in order. -/
def ordered (edits : List Edit) : List (Splice Edit) :=
  (edits.map (spliceOf nfkc base)).insertionSort fun s t => s.start ≤ t.start

/-- Places that are apart. -/
def Apart (splices : List (Splice Edit)) : Prop :=
  splices.IsChain fun s t => s.stop ≤ t.start

variable {nfkc base}

variable {edits : List Edit} {matchedEdits : List MatchedEdit}

theorem matchEdits_ok {path : String} {total i : Nat}
    (h : matchEdits nfkc base path total i (edits.map normalizeEdit) = .ok matchedEdits) :
    (∀ edit ∈ edits, Found nfkc base edit) ∧
      matchedEdits.map MatchedEdit.place = (edits.map (spliceOf nfkc base)).map placeOf := by
  induction edits generalizing i matchedEdits with
  | nil =>
    cases h
    exact ⟨fun _ hedit => absurd hedit List.not_mem_nil, rfl⟩
  | cons edit edits ih =>
    rw [List.map_cons, matchEdits] at h
    split at h
    · cases h
    · rename_i matchResult hfound
      split at h
      · cases h
      · rename_i honce
        cases hrest : matchEdits nfkc base path total (i + 1) (edits.map normalizeEdit) with
        | error e =>
          rw [hrest] at h
          cases h
        | ok rest =>
          rw [hrest] at h
          cases h
          obtain ⟨hall, hplaces⟩ := ih hrest
          have hedit : Found nfkc base edit := by
            refine ⟨?_, not_lt.mp honce⟩
            rw [← normalizeEdit_oldText, hfound]
            simp
          refine ⟨?_, ?_⟩
          · intro edit' hedit'
            rcases List.mem_cons.mp hedit' with rfl | hedit'
            · exact hedit
            · exact hall edit' hedit'
          · rw [List.map_cons, List.map_cons, List.map_cons, hplaces]
            congr 1
            rw [placeOf, spliceOf, ← normalizeEdit_oldText, hfound]
            rfl

theorem matchEdits_of_found (path : String) (total i : Nat)
    (h : ∀ edit ∈ edits, Found nfkc base edit) :
    ∃ matchedEdits, matchEdits nfkc base path total i (edits.map normalizeEdit) =
      .ok matchedEdits := by
  induction edits generalizing i with
  | nil => exact ⟨[], rfl⟩
  | cons edit edits ih =>
    obtain ⟨rest, hrest⟩ := ih (i + 1) fun edit' hedit' => h edit' (List.mem_cons_of_mem _ hedit')
    obtain ⟨hfound, honce⟩ := h edit List.mem_cons_self
    rw [List.map_cons, matchEdits]
    split
    · rename_i hnone
      exact absurd hnone hfound
    · rw [normalizeEdit_oldText, if_neg (not_lt.mpr honce), hrest]
      exact ⟨_, rfl⟩

theorem findOverlap_eq_none (matchedEdits : List MatchedEdit) :
    findOverlap matchedEdits = none ↔
      (matchedEdits.map MatchedEdit.place).IsChain fun s t => s.stop ≤ t.start := by
  induction matchedEdits with
  | nil => simp [findOverlap]
  | cons previous rest ih =>
    cases rest with
    | nil => simp [findOverlap]
    | cons current rest =>
      rw [findOverlap, List.map_cons, List.map_cons, List.isChain_cons_cons, ← List.map_cons,
        ← ih]
      split
      · rename_i hlt
        refine iff_of_false (by simp) ?_
        intro hapart
        exact absurd hapart.1 (not_le.mpr hlt)
      · rename_i hge
        exact (and_iff_right (not_lt.mp hge)).symm

theorem map_place_insertionSort
    (h : matchedEdits.map MatchedEdit.place = (edits.map (spliceOf nfkc base)).map placeOf) :
    (matchedEdits.insertionSort fun a b => a.matchIndex ≤ b.matchIndex).map MatchedEdit.place =
      (ordered nfkc base edits).map placeOf := by
  have hmatched := List.map_insertionSort (r := fun a b => a.matchIndex ≤ b.matchIndex)
    (s := fun s t : Splice JsString => s.start ≤ t.start) MatchedEdit.place matchedEdits
    fun _ _ _ _ => Iff.rfl
  have hplaces := List.map_insertionSort (r := fun s t : Splice Edit => s.start ≤ t.start)
    (s := fun s t : Splice JsString => s.start ≤ t.start) placeOf (edits.map (spliceOf nfkc base))
    fun _ _ _ _ => Iff.rfl
  rw [hmatched, h, ← hplaces, ordered]

theorem isChain_map_placeOf (splices : List (Splice Edit)) :
    (splices.map placeOf).IsChain (fun s t => s.stop ≤ t.start) ↔ Apart splices := by
  rw [List.isChain_map]
  rfl

theorem foldr_replaceEdit {splices : List (Splice Edit)}
    (h : matchedEdits.map MatchedEdit.place = splices.map placeOf) (content : JsString) :
    matchedEdits.foldr replaceEdit content = spliceAll replacement content splices := by
  have hmatched : matchedEdits.foldr replaceEdit content =
      spliceAll id content (matchedEdits.map MatchedEdit.place) := by
    rw [spliceAll, List.foldr_map]
    rfl
  rw [hmatched, h, spliceAll, List.foldr_map]
  rfl

/-- What a success of the engine comes from. -/
structure Applied (nfkc : JsString → JsString) (content : JsString) (edits : List Edit)
    (applied : AppliedEditsResult) : Prop where
  texts : ∀ edit ∈ edits, normalizeToLF edit.oldText ≠ []
  base : applied.baseContent = baseContentOf nfkc content (edits.map normalizeEdit)
  found : ∀ edit ∈ edits, Found nfkc applied.baseContent edit
  apart : Apart (ordered nfkc applied.baseContent edits)
  result : applied.newContent =
    spliceAll replacement applied.baseContent (ordered nfkc applied.baseContent edits)
  changed : applied.baseContent ≠ applied.newContent

theorem findIdx?_eq_none (edits : List Edit) :
    ((edits.map normalizeEdit).findIdx? fun edit => edit.oldText.isEmpty) = none ↔
      ∀ edit ∈ edits, normalizeToLF edit.oldText ≠ [] := by
  rw [List.findIdx?_eq_none_iff, List.forall_mem_map]
  refine forall₂_congr fun edit _ => ?_
  rw [normalizeEdit_oldText, List.isEmpty_eq_false_iff]

variable {applied : AppliedEditsResult} {content : JsString}

theorem applyEditsToNormalizedContent_ok {path : String} :
    applyEditsToNormalizedContent nfkc content edits path = .ok applied ↔
      Applied nfkc content edits applied := by
  constructor
  · intro h
    rw [applyEditsToNormalizedContent] at h
    split at h
    · cases h
    · rename_i htexts
      rw [findIdx?_eq_none] at htexts
      dsimp only at h
      generalize hbase : baseContentOf nfkc content (edits.map normalizeEdit) = base at h
      generalize (edits.map normalizeEdit).length = total at h
      cases hmatches : matchEdits nfkc base path total 0 (edits.map normalizeEdit) with
      | error e =>
        rw [hmatches] at h
        cases h
      | ok matchedEdits =>
        rw [hmatches] at h
        obtain ⟨hfound, hplaces⟩ := matchEdits_ok hmatches
        have hordered := map_place_insertionSort hplaces
        simp only [bind, Except.bind] at h
        split at h
        · cases h
        · rename_i hoverlap
          rw [findOverlap_eq_none, hordered, isChain_map_placeOf] at hoverlap
          split at h
          · cases h
          · rename_i hchanged
            cases h
            have hresult := foldr_replaceEdit hordered base
            exact ⟨htexts, hbase.symm, hfound, hoverlap, hresult, hchanged⟩
  · intro h
    obtain ⟨base, new⟩ := applied
    obtain ⟨htexts, hbase, hfound, hapart, hresult, hchanged⟩ := h
    dsimp only at hbase hfound hapart hresult hchanged
    obtain ⟨matchedEdits, hmatches⟩ :=
      matchEdits_of_found path (edits.map normalizeEdit).length 0 hfound
    have hordered := map_place_insertionSort (matchEdits_ok hmatches).2
    have hnew := (foldr_replaceEdit hordered base).trans hresult.symm
    rw [applyEditsToNormalizedContent]
    rw [(findIdx?_eq_none edits).mpr htexts]
    dsimp only
    rw [← hbase, hmatches]
    simp only [bind, Except.bind]
    rw [(findOverlap_eq_none _).mpr (by rwa [hordered, isChain_map_placeOf])]
    dsimp only
    rw [hnew, if_neg hchanged]

theorem Applied.base_cases (h : Applied nfkc content edits applied) :
    (applied.baseContent = content ∧
        ∀ edit ∈ edits, indexOf (normalizeToLF edit.oldText) content ≠ none) ∨
      (applied.baseContent = normalizeForFuzzyMatch nfkc content ∧
        ∃ edit ∈ edits, indexOf (normalizeToLF edit.oldText) content = none) := by
  have hbase := h.base
  rw [baseContentOf, List.any_map, List.any_map] at hbase
  split at hbase
  · rename_i hany
    obtain ⟨edit, hedit, hused⟩ := List.any_eq_true.mp hany
    refine .inr ⟨hbase, edit, hedit, ?_⟩
    rw [Function.comp_apply, Function.comp_apply, normalizeEdit_oldText, fuzzyFindText] at hused
    cases hindex : indexOf (normalizeToLF edit.oldText) content with
    | none => rfl
    | some i =>
      rw [hindex] at hused
      cases hused
  · rename_i hnone
    refine .inl ⟨hbase, fun edit hedit hindex => hnone (List.any_eq_true.mpr ⟨edit, hedit, ?_⟩)⟩
    have hfound := (h.found edit hedit).found
    rw [hbase, fuzzyFindText, hindex] at hfound
    rw [Function.comp_apply, Function.comp_apply, normalizeEdit_oldText, fuzzyFindText, hindex]
    dsimp only at hfound ⊢
    obtain ⟨i, hi⟩ := Option.ne_none_iff_exists'.mp hfound
    obtain ⟨j, hj, rfl⟩ := Option.map_eq_some_iff.mp hi
    rw [hj]
    rfl

theorem Found.region {edit : Edit} (h : Found nfkc base edit)
    (hbase : indexOf (normalizeToLF edit.oldText) base ≠ none ∨
      normalizeForFuzzyMatch nfkc base = base) :
    ∃ region, (region = normalizeToLF edit.oldText ∨
        (region = normalizeForFuzzyMatch nfkc (normalizeToLF edit.oldText) ∧
          indexOf (normalizeToLF edit.oldText) base = none)) ∧
      indexOf region base = some (spliceOf nfkc base edit).start ∧
        (spliceOf nfkc base edit).length = region.length := by
  obtain ⟨result, hresult⟩ := Option.ne_none_iff_exists'.mp h.found
  have hsplice : spliceOf nfkc base edit = ⟨result.index, result.matchLength, edit⟩ := by
    rw [spliceOf, hresult]
    rfl
  rw [hsplice]
  rw [fuzzyFindText] at hresult
  cases hindex : indexOf (normalizeToLF edit.oldText) base with
  | some i =>
    rw [hindex] at hresult
    cases hresult
    exact ⟨_, .inl rfl, hindex, rfl⟩
  | none =>
    rw [hindex] at hresult
    obtain ⟨j, hj, rfl⟩ := Option.map_eq_some_iff.mp hresult
    rcases hbase with hfound | hstable
    · exact absurd hindex hfound
    · rw [hstable] at hj
      exact ⟨_, .inr ⟨rfl, rfl⟩, hj, rfl⟩

theorem inOrder_ordered (hfound : ∀ edit ∈ edits, Found nfkc base edit)
    (hbase : (∀ edit ∈ edits, indexOf (normalizeToLF edit.oldText) base ≠ none) ∨
      normalizeForFuzzyMatch nfkc base = base)
    (hapart : Apart (ordered nfkc base edits)) :
    InOrder base.length 0 (ordered nfkc base edits) := by
  refine inOrder_of_isChain hapart ?_ (fun _ _ => Nat.zero_le _) (Nat.zero_le _)
  intro s hs
  rw [ordered, List.mem_insertionSort] at hs
  obtain ⟨edit, hedit, rfl⟩ := List.mem_map.mp hs
  obtain ⟨region, -, hindex, hlength⟩ :=
    (hfound edit hedit).region (hbase.imp_left fun hall => hall edit hedit)
  rw [Splice.stop, hlength]
  exact (indexOf_spec hindex).1

theorem Apart.strict {splices : List (Splice Edit)} (h : Apart splices)
    (hpos : ∀ s ∈ splices, 0 < s.length) :
    splices.Pairwise fun s t => s.start < t.start := by
  induction splices with
  | nil => exact List.Pairwise.nil
  | cons s splices ih =>
    have htail : splices.Pairwise fun s t => s.start < t.start :=
      ih h.tail fun t ht => hpos t (List.mem_cons_of_mem _ ht)
    refine List.Pairwise.cons ?_ htail
    intro t ht
    have hs := hpos s List.mem_cons_self
    cases splices with
    | nil => exact absurd ht List.not_mem_nil
    | cons next splices =>
      have hnext := (List.isChain_cons_cons.mp h).1
      rw [Splice.stop] at hnext
      rcases List.mem_cons.mp ht with rfl | ht
      · omega
      · have hlt := List.rel_of_pairwise_cons htail ht
        omega

theorem ordered_perm {edits' : List Edit} (hperm : edits.Perm edits')
    (hstrict : (ordered nfkc base edits).Pairwise fun s t => s.start < t.start) :
    ordered nfkc base edits' = ordered nfkc base edits := by
  have hsame : (ordered nfkc base edits).Perm (ordered nfkc base edits') :=
    (List.perm_insertionSort _ _).trans
      ((hperm.map _).trans (List.perm_insertionSort _ _).symm)
  have hle : ∀ es : List Edit, (ordered nfkc base es).Pairwise fun s t => s.start ≤ t.start := by
    intro es
    have htotal : Std.Total fun s t : Splice Edit => s.start ≤ t.start :=
      ⟨fun s t => Nat.le_total s.start t.start⟩
    have htrans : IsTrans (Splice Edit) fun s t => s.start ≤ t.start :=
      ⟨fun _ _ _ => Nat.le_trans⟩
    exact List.pairwise_insertionSort _ _
  refine (hsame.eq_of_pairwise ?_ (hle edits) (hle edits')).symm
  intro s t hs ht hst hts
  by_contra hne
  have hdistinct : (ordered nfkc base edits).Pairwise fun s t => s.start ≠ t.start :=
    hstrict.imp Nat.ne_of_lt
  have hsymm : Std.Symm fun s t : Splice Edit => s.start ≠ t.start := ⟨fun _ _ => Ne.symm⟩
  exact hdistinct.forall hs (hsame.mem_iff.mpr ht) hne (Nat.le_antisymm hst hts)

theorem Applied.perm {edits' : List Edit} (h : Applied nfkc content edits applied)
    (hbase : (∀ edit ∈ edits, indexOf (normalizeToLF edit.oldText) applied.baseContent ≠ none) ∨
      normalizeForFuzzyMatch nfkc applied.baseContent = applied.baseContent)
    (hblank : ∀ edit ∈ edits,
      normalizeForFuzzyMatch nfkc (normalizeToLF edit.oldText) ≠ [])
    (hperm : edits.Perm edits') :
    Applied nfkc content edits' applied := by
  have hstrict : (ordered nfkc applied.baseContent edits).Pairwise fun s t => s.start < t.start := by
    refine h.apart.strict fun s hs => ?_
    rw [ordered, List.mem_insertionSort] at hs
    obtain ⟨edit, hedit, rfl⟩ := List.mem_map.mp hs
    obtain ⟨region, hregion, -, hlength⟩ :=
      (h.found edit hedit).region (hbase.imp_left fun hall => hall edit hedit)
    rw [hlength]
    rcases hregion with rfl | ⟨rfl, -⟩
    · exact List.length_pos_of_ne_nil (h.texts edit hedit)
    · exact List.length_pos_of_ne_nil (hblank edit hedit)
  have hordered := ordered_perm hperm hstrict
  have hsame : baseContentOf nfkc content (edits'.map normalizeEdit) =
      baseContentOf nfkc content (edits.map normalizeEdit) := by
    rw [baseContentOf, baseContentOf, ((hperm.map normalizeEdit).map _).any_eq]
  refine ⟨fun edit hedit => h.texts edit (hperm.mem_iff.mpr hedit), h.base.trans hsame.symm,
    fun edit hedit => h.found edit (hperm.mem_iff.mpr hedit), ?_, ?_, h.changed⟩
  · rw [hordered]
    exact h.apart
  · rw [hordered]
    exact h.result

end Places

end EditDiff

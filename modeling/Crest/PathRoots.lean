import Crest.LowerBound
import Crest.ShadowIndexSafety

/-!
# Roots of paths

A path covers what is at or below it.  Lists of paths are compared through their roots: the paths
that no other one of the list is above.  Whether a path is covered is asked of its directories.
Whether a path has something at or below it is asked of the list in byte order, of the first path
that is not before it.

In byte order the paths below a directory do not follow it at once.  The bytes before the
separator come in between: `"a"`, `"a-b"`, `"a/c"`.
-/

namespace Workspace

open JsString ShadowIndex

namespace PathRoots

section Code

def hasCoveringPath (paths : List JsString) (path : JsString) : Bool :=
  (path :: ancestors path).any fun current => decide (current ∈ paths)

/-- A round of the loop of `normalizePathRoots`. -/
def addRoot (roots : List JsString) (path : JsString) : List JsString :=
  if hasCoveringPath roots path then roots else roots ++ [path]

def normalizePathRoots (paths : List JsString) : List JsString :=
  (collectPathspecs paths).foldl addRoot []

def hasPathAtOrBelow (sortedPaths : List JsString) (root : JsString) : Bool :=
  match sortedPaths[BinarySearch.lowerBound (comparePathBytes · root) sortedPaths]? with
  | none => false
  | some path => path == root || (root ++ [0x2F]).isPrefixOf path

/-- `pathsOverlapIndex`, where the set of the paths has the paths of the list. -/
def pathsOverlapIndex (sortedPaths : List JsString) (path : JsString) : Bool :=
  hasCoveringPath sortedPaths path || hasPathAtOrBelow sortedPaths path

end Code

section Meaning

/-- The path is the root or below it. -/
def AtOrBelow (root path : JsString) : Prop := root = path ∨ IsAncestor root path

/-- The path goes on after the root with a byte before the separator. -/
def Beside (root path : JsString) : Prop := ∃ u rest, u < 0x2F ∧ path = root ++ u :: rest

/-- The path is in the list, or one below it is and none beside it. -/
def Met (paths : List JsString) (root : JsString) : Prop :=
  root ∈ paths ∨ (∃ path ∈ paths, IsAncestor root path) ∧ ∀ path ∈ paths, ¬ Beside root path

/-- A path of the list is at or above the path, or one is below it and none beside it. -/
def Noticed (paths : List JsString) (path : JsString) : Prop :=
  (∃ root ∈ paths, AtOrBelow root path) ∨
    (∃ below ∈ paths, IsAncestor path below) ∧ ∀ other ∈ paths, ¬ Beside path other

/-- The paths are in byte order. -/
def Sorted (paths : List JsString) : Prop :=
  paths.Pairwise fun left right => utf8 left ≤ utf8 right

end Meaning

attribute [local simp] UInt16.le_iff_toNat_le UInt16.lt_iff_toNat_lt

section Order

theorem isPrefix_of_between {first second rest : List UInt8} (h : first ≤ second)
    (h' : second ≤ first ++ rest) :
    first <+: second := by
  induction first generalizing second with
  | nil => exact List.nil_prefix
  | cons b first ih =>
    cases second with
    | nil => exact absurd (List.nil_lt_cons b first) (List.not_lt.mpr h)
    | cons c second =>
      rw [List.cons_append, List.cons_le_cons_iff] at h'
      rw [List.cons_le_cons_iff] at h
      rcases h with hlt | ⟨rfl, hle⟩
      · rcases h' with hlt' | ⟨heq, -⟩
        · exact absurd (UInt8.lt_trans hlt hlt') (UInt8.lt_irrefl b)
        · rw [heq] at hlt
          exact absurd hlt (UInt8.lt_irrefl b)
      · rcases h' with hlt' | ⟨-, hle'⟩
        · exact absurd hlt' (UInt8.lt_irrefl b)
        · exact (List.cons_prefix_cons).mpr ⟨rfl, ih hle hle'⟩

theorem append_lt_append (first : List UInt8) {b c : UInt8} (hlt : b < c)
    (rest rest' : List UInt8) :
    first ++ b :: rest < first ++ c :: rest' := by
  induction first with
  | nil => exact List.cons_lt_cons_iff.mpr (Or.inl hlt)
  | cons d first ih => exact List.cons_lt_cons_iff.mpr (Or.inr ⟨rfl, ih⟩)

theorem encode_unitChar {u : UInt16} (h : u < 0x80) :
    String.utf8EncodeChar (unitChar u) = [u.toUInt8] := by
  have hu : u.toNat < 128 := by simpa using h
  have hhigh : isHighSurrogate u = false := by
    simp [isHighSurrogate]
    omega
  have hlow : isLowSurrogate u = false := by
    simp [isLowSurrogate]
    omega
  have hchar : unitChar u = Char.ofNat u.toNat := by
    rw [unitChar, hhigh, hlow]
    rfl
  have hnat : (Char.ofNat u.toNat).toNat = u.toNat := by
    rw [Char.ofNat, dif_pos (Or.inl (by omega))]
    rfl
  have hval : (Char.ofNat u.toNat).val.toNat = (Char.ofNat u.toNat).toNat := rfl
  rw [hchar]
  fun_cases String.utf8EncodeChar (Char.ofNat u.toNat) with
  | case1 v hsmall =>
    rw [show v = u.toNat from hval.trans hnat]
    rfl
  | case2 v hsmall hmid => omega
  | case3 v hsmall hmid hlarge => omega
  | case4 v hsmall hmid hlarge => omega

theorem utf8_append_ascii (root : JsString) {u : UInt16} (rest : JsString) (h : u < 0x80) :
    utf8 (root ++ u :: rest) = utf8 root ++ u.toUInt8 :: utf8 rest := by
  have hu : u.toNat < 128 := by simpa using h
  have hlow : isLowSurrogate u = false := by
    simp [isLowSurrogate]
    omega
  have hhigh : isHighSurrogate u = false := by
    simp [isHighSurrogate]
    omega
  have hfirst : codePoints (u :: rest) = unitChar u :: codePoints rest := by
    cases rest with
    | nil => rfl
    | cons v rest => rw [codePoints, hhigh, Bool.false_and, if_neg (by simp)]
  rw [JsString.utf8, codePoints_append root rest hlow, hfirst, List.flatMap_append,
    List.flatMap_cons, encode_unitChar h]
  rfl

theorem fromUtf8_append_ascii {root : JsString}
    (hformed : hasUnpairedSurrogate root = false) {b : UInt8} (h : b < 0x80) (rest : List UInt8) :
    fromUtf8 (utf8 root ++ b :: rest) = root ++ b.toUInt16 :: fromUtf8 rest := by
  have hread : ∀ (s : List Char) (bytes : List UInt8),
      Encoding.decodeUtf8 (s.flatMap String.utf8EncodeChar ++ bytes) =
        s ++ Encoding.decodeUtf8 bytes := by
    intro s bytes
    induction s with
    | nil => rfl
    | cons c s ih =>
      rw [List.flatMap_cons, List.append_assoc, Encoding.decodeUtf8_encodeChar, ih,
        List.cons_append]
  have hb : b.toNat < 128 := by simpa [UInt8.lt_iff_toNat_lt] using h
  have hunit : b.toUInt16 < 0x80 := by
    simpa using hb
  have hbyte : b.toUInt16.toUInt8 = b := by simp
  have hone : Encoding.decodeUtf8 (b :: rest) =
      unitChar b.toUInt16 :: Encoding.decodeUtf8 rest := by
    have hencode := encode_unitChar hunit
    rw [hbyte] at hencode
    rw [← Encoding.decodeUtf8_encodeChar, hencode]
    rfl
  have hhigh : isHighSurrogate b.toUInt16 = false := by
    simp [isHighSurrogate]
    omega
  have hlow : isLowSurrogate b.toUInt16 = false := by
    simp [isLowSurrogate]
    omega
  rw [fromUtf8, JsString.utf8, hread, hone, List.flatMap_append, flatMap_codePoints root hformed,
    List.flatMap_cons, utf16Units_unitChar _ hhigh hlow]
  rfl

end Order

section Bytes

variable {root path : JsString}

theorem utf8_lt_of_isAncestor (h : IsAncestor root path) : utf8 root < utf8 path := by
  obtain ⟨rest, hrest⟩ := h.utf8
  rw [← hrest, List.append_assoc]
  have hlt : utf8 root ++ [] < utf8 root ++ ([0x2F] ++ rest) :=
    List.append_left_lt (List.nil_lt_cons 0x2F rest)
  rwa [List.append_nil] at hlt

theorem Beside.utf8_lt (h : Beside root path) :
    utf8 root < utf8 path ∧ ∀ below, IsAncestor root below → utf8 path < utf8 below := by
  obtain ⟨u, rest, hu, rfl⟩ := h
  have hascii : u < 0x80 := UInt16.lt_trans hu (by decide)
  have hbyte : u.toUInt8 < 0x2F := by
    have hnat : u.toNat < 47 := by simpa using hu
    rw [UInt8.lt_iff_toNat_lt, UInt16.toNat_toUInt8, Nat.mod_eq_of_lt (by omega)]
    exact hnat
  rw [utf8_append_ascii root rest hascii]
  constructor
  · have hlt : utf8 root ++ [] < utf8 root ++ u.toUInt8 :: utf8 rest :=
      List.append_left_lt (List.nil_lt_cons _ _)
    rwa [List.append_nil] at hlt
  · intro below hbelow
    obtain ⟨more, hmore⟩ := hbelow.utf8
    rw [← hmore, List.append_assoc]
    exact append_lt_append _ hbyte _ _

theorem atOrBelow_or_beside (hroot : hasUnpairedSurrogate root = false)
    (hpath : hasUnpairedSurrogate path = false) (hle : utf8 root ≤ utf8 path)
    {below : JsString} (hbelow : IsAncestor root below) (hle' : utf8 path ≤ utf8 below) :
    AtOrBelow root path ∨ Beside root path := by
  obtain ⟨more, hmore⟩ := hbelow.utf8
  rw [← hmore, List.append_assoc, List.singleton_append] at hle'
  obtain ⟨rest, hrest⟩ := isPrefix_of_between hle hle'
  have hread : path = fromUtf8 (utf8 root ++ rest) := by
    rw [hrest]
    exact ((fromUtf8_utf8_iff path).mpr hpath).symm
  cases rest with
  | nil =>
    rw [List.append_nil, (fromUtf8_utf8_iff root).mpr hroot] at hread
    exact Or.inl (Or.inl hread.symm)
  | cons b rest =>
    have hb : ¬ 0x2F < b := by
      intro hlt
      rw [← hrest] at hle'
      exact absurd (append_lt_append (utf8 root) hlt more rest) (List.not_lt.mpr hle')
    have hascii : b < 0x80 := UInt8.lt_of_le_of_lt (UInt8.not_lt.mp hb) (by decide)
    rw [fromUtf8_append_ascii hroot hascii] at hread
    by_cases heq : b = 0x2F
    · subst heq
      refine Or.inl (Or.inr ⟨fromUtf8 rest, ?_⟩)
      rw [hread, List.append_assoc]
      rfl
    · refine Or.inr ⟨b.toUInt16, fromUtf8 rest, ?_, hread⟩
      have hlt : b.toNat < 47 := by
        have hle := UInt8.le_iff_toNat_le.mp (UInt8.not_lt.mp hb)
        have hne : b.toNat ≠ 47 := by
          intro hnat
          exact heq (UInt8.toNat_inj.mp hnat)
        change b.toNat ≤ 47 at hle
        omega
      rw [UInt16.lt_iff_toNat_lt, UInt8.toNat_toUInt16]
      exact hlt

end Bytes

section Look

variable {paths : List JsString} {root path : JsString}

/-- **A path is covered if a path of the list is at or above it.** -/
theorem hasCoveringPath_iff :
    hasCoveringPath paths path = true ↔ ∃ root ∈ paths, AtOrBelow root path := by
  rw [hasCoveringPath, List.any_eq_true]
  constructor
  · intro h
    obtain ⟨current, hcurrent, hmem⟩ := h
    rcases List.mem_cons.mp hcurrent with rfl | habove
    · exact ⟨current, of_decide_eq_true hmem, Or.inl rfl⟩
    · exact ⟨current, of_decide_eq_true hmem, Or.inr ((mem_ancestors _ _).mp habove)⟩
  · intro h
    obtain ⟨root, hroot, rfl | habove⟩ := h
    · exact ⟨root, List.mem_cons_self, decide_eq_true hroot⟩
    · exact ⟨root, List.mem_cons_of_mem _ ((mem_ancestors _ _).mpr habove), decide_eq_true hroot⟩

section

variable (hsorted : Sorted paths) (hformed : ∀ path ∈ paths, hasUnpairedSurrogate path = false)
include hsorted hformed

/-- **What the search in byte order finds**: the root itself, or a path below it where no path is
beside it. -/
theorem hasPathAtOrBelow_iff (hroot : hasUnpairedSurrogate root = false) :
    hasPathAtOrBelow paths root = true ↔ Met paths root := by
  have hsearch : paths.Pairwise fun left right =>
      comparePathBytes right root = true → comparePathBytes left root = true := by
    refine hsorted.imp ?_
    intro left right hle hright
    simp only [comparePathBytes, decide_eq_true_eq] at hright ⊢
    exact List.lt_of_le_of_lt hle hright
  rw [hasPathAtOrBelow, BinarySearch.getElem?_lowerBound hsearch]
  have hnext : ∀ path, (comparePathBytes path root = false) ↔ utf8 root ≤ utf8 path := by
    intro path
    rw [comparePathBytes, decide_eq_false_iff_not, List.not_lt]
  cases hfind : paths.find? fun path => !comparePathBytes path root with
  | none =>
    refine iff_of_false (by simp) ?_
    have hbefore : ∀ path ∈ paths, ¬ utf8 root ≤ utf8 path := by
      intro path hpath hle
      have h := List.find?_eq_none.mp hfind path hpath
      rw [(hnext path).mpr hle] at h
      exact h rfl
    intro h
    rcases h with hmem | ⟨⟨path, hpath, hbelow⟩, -⟩
    · exact hbefore root hmem (List.le_refl _)
    · exact hbefore path hpath (List.le_of_lt (utf8_lt_of_isAncestor hbelow))
  | some first =>
    obtain ⟨hafter, earlier, later, hsplit, hearlier⟩ := List.find?_eq_some_iff_append.mp hfind
    have hfirst : utf8 root ≤ utf8 first := by
      refine (hnext first).mp ?_
      simpa using hafter
    have hmem : first ∈ paths := by
      rw [hsplit]
      exact List.mem_append_right _ List.mem_cons_self
    have hleast : ∀ path ∈ paths, utf8 root ≤ utf8 path → utf8 first ≤ utf8 path := by
      intro path hpath hle
      rw [hsplit] at hpath hsorted
      rcases List.mem_append.mp hpath with hin | hin
      · have h := hearlier path hin
        rw [(hnext path).mpr hle] at h
        exact absurd h (by simp)
      · rcases List.mem_cons.mp hin with rfl | hlater
        · exact List.le_refl _
        · exact (List.pairwise_cons.mp (List.pairwise_append.mp hsorted).2.1).1 path hlater
    have hfound : (first == root || (root ++ [0x2F]).isPrefixOf first) = true ↔
        AtOrBelow root first := by
      rw [Bool.or_eq_true, beq_iff_eq, List.isPrefixOf_iff_prefix]
      exact or_congr_left eq_comm
    simp only [hfound]
    constructor
    · intro h
      rcases h with rfl | hbelow
      · exact Or.inl hmem
      · refine Or.inr ⟨⟨first, hmem, hbelow⟩, ?_⟩
        intro path hpath hbeside
        have hle := hleast path hpath (List.le_of_lt hbeside.utf8_lt.1)
        exact absurd (hbeside.utf8_lt.2 first hbelow) (List.not_lt.mpr hle)
    · intro h
      rcases h with hin | ⟨⟨path, hpath, hbelow⟩, hnone⟩
      · have hle := hleast root hin (List.le_refl _)
        have hbytes := List.le_antisymm hfirst hle
        refine Or.inl ?_
        rw [← (fromUtf8_utf8_iff root).mpr hroot, hbytes]
        exact (fromUtf8_utf8_iff first).mpr (hformed first hmem)
      · have hle := hleast path hpath (List.le_of_lt (utf8_lt_of_isAncestor hbelow))
        rcases atOrBelow_or_beside hroot (hformed first hmem) hfirst hbelow hle with h | h
        · exact h
        · exact absurd h (hnone first hmem)

theorem pathsOverlapIndex_iff (hpath : hasUnpairedSurrogate path = false) :
    pathsOverlapIndex paths path = true ↔ Noticed paths path := by
  rw [pathsOverlapIndex, Bool.or_eq_true, hasCoveringPath_iff,
    hasPathAtOrBelow_iff hsorted hformed hpath, Met, Noticed]
  constructor
  · intro h
    rcases h with h | hmem | h
    · exact Or.inl h
    · exact Or.inl ⟨path, hmem, Or.inl rfl⟩
    · exact Or.inr h
  · intro h
    rcases h with h | h
    · exact Or.inl h
    · exact Or.inr (Or.inr h)

end

theorem met_congr {others : List JsString} (h : ∀ path, path ∈ others ↔ path ∈ paths) :
    Met others root ↔ Met paths root := by
  simp only [Met, h]

theorem noticed_congr {others : List JsString} (h : ∀ path, path ∈ others ↔ path ∈ paths) :
    Noticed others path ↔ Noticed paths path := by
  simp only [Noticed, h]

end Look

section Roots

variable {paths : List JsString} {root path : JsString}

/-- A path of the list that no other one is above. -/
def IsRoot (paths : List JsString) (root : JsString) : Prop :=
  root ∈ paths ∧ ∀ path ∈ paths, ¬ IsAncestor path root

theorem exists_root (h : path ∈ paths) : ∃ root, IsRoot paths root ∧ AtOrBelow root path := by
  induction hlength : path.length using Nat.strong_induction_on generalizing path with
  | h n ih =>
    by_cases habove : ∃ other ∈ paths, IsAncestor other path
    · obtain ⟨other, hother, hup⟩ := habove
      have hshort : other.length < n := by
        rw [← hlength]
        exact hup.length_lt
      obtain ⟨root, hroot, hat⟩ := ih other.length hshort hother rfl
      refine ⟨root, hroot, Or.inr ?_⟩
      rcases hat with rfl | hat
      · exact hup
      · exact hat.trans hup
    · refine ⟨path, ⟨h, ?_⟩, Or.inl rfl⟩
      intro other hother hup
      exact habove ⟨other, hother, hup⟩

theorem AtOrBelow.trans {first second third : JsString} (h : AtOrBelow first second)
    (h' : AtOrBelow second third) :
    AtOrBelow first third := by
  rcases h with rfl | h
  · exact h'
  · rcases h' with rfl | h'
    · exact Or.inr h
    · exact Or.inr (h.trans h')

theorem atOrBelow_total {first second third : JsString} (h : AtOrBelow first third)
    (h' : AtOrBelow second third) :
    AtOrBelow first second ∨ AtOrBelow second first := by
  have hwhole : ∀ {root : JsString}, AtOrBelow root third → root <+: third := by
    intro root hat
    rcases hat with rfl | hup
    · exact List.prefix_refl _
    · exact (List.prefix_append root [0x2F]).trans hup
  have hshorter : ∀ {root other : JsString}, AtOrBelow root third → other <+: third →
      root.length < other.length → IsAncestor root other := by
    intro root other hat hother hlt
    rcases hat with rfl | hup
    · exact absurd hother.length_le (Nat.not_le.mpr hlt)
    · refine List.prefix_of_prefix_length_le hup hother ?_
      rw [List.length_append, List.length_singleton]
      omega
  rcases Nat.lt_trichotomy first.length second.length with hlt | heq | hlt
  · exact Or.inl (Or.inr (hshorter h (hwhole h') hlt))
  · have hsame := List.prefix_of_prefix_length_le (hwhole h) (hwhole h') (by omega)
    exact Or.inl (Or.inl (hsame.eq_of_length heq))
  · exact Or.inr (Or.inr (hshorter h' (hwhole h) hlt))

theorem mem_addRoot {seen roots : List JsString}
    (hroots : ∀ root, root ∈ roots ↔ IsRoot seen root)
    (hbefore : ∀ earlier ∈ seen, ¬ IsAncestor path earlier) :
    ∀ root, root ∈ addRoot roots path ↔ IsRoot (seen ++ [path]) root := by
  intro root
  have hold : root ∈ seen → (IsRoot (seen ++ [path]) root ↔ IsRoot seen root) := by
    intro hseen
    constructor
    · intro h
      exact ⟨hseen, fun other hother => h.2 other (List.mem_append_left _ hother)⟩
    · intro h
      refine ⟨List.mem_append_left _ hseen, ?_⟩
      intro other hother
      rcases List.mem_append.mp hother with hin | hin
      · exact h.2 other hin
      · obtain rfl := List.mem_singleton.mp hin
        exact hbefore root hseen
  have hcases : IsRoot (seen ++ [path]) root → root ∈ seen ∨ root = path := by
    intro h
    rcases List.mem_append.mp h.1 with hin | hin
    · exact Or.inl hin
    · exact Or.inr (List.mem_singleton.mp hin)
  rw [addRoot]
  by_cases hcovered : hasCoveringPath roots path = true
  · rw [if_pos hcovered, hroots]
    obtain ⟨cover, hcover, hat⟩ := hasCoveringPath_iff.mp hcovered
    have hmem := ((hroots cover).mp hcover).1
    constructor
    · intro h
      exact (hold h.1).mpr h
    · intro h
      rcases hcases h with hin | rfl
      · exact (hold hin).mp h
      · rcases hat with rfl | hup
        · exact (hold hmem).mp h
        · exact absurd hup (h.2 cover (List.mem_append_left _ hmem))
  · rw [if_neg hcovered, List.mem_append, List.mem_singleton, hroots]
    constructor
    · intro h
      rcases h with h | rfl
      · exact (hold h.1).mpr h
      · refine ⟨List.mem_append_right _ (List.mem_singleton_self _), ?_⟩
        intro other hother hup
        rcases List.mem_append.mp hother with hin | hin
        · obtain ⟨cover, hcover, hat⟩ := exists_root hin
          exact hcovered (hasCoveringPath_iff.mpr
            ⟨cover, (hroots cover).mpr hcover, hat.trans (Or.inr hup)⟩)
        · obtain rfl := List.mem_singleton.mp hin
          exact IsAncestor.irrefl _ hup
    · intro h
      rcases hcases h with hin | rfl
      · exact Or.inl ((hold hin).mp h)
      · exact Or.inr rfl

theorem mem_foldl_addRoot (later : List JsString) {seen roots : List JsString}
    (hroots : ∀ root, root ∈ roots ↔ IsRoot seen root) (hsorted : Sorted (seen ++ later)) :
    ∀ root, root ∈ later.foldl addRoot roots ↔ IsRoot (seen ++ later) root := by
  induction later generalizing seen roots with
  | nil =>
    rw [List.append_nil]
    exact hroots
  | cons path later ih =>
    have hsplit : seen ++ path :: later = (seen ++ [path]) ++ later := by simp
    rw [List.foldl_cons, hsplit]
    refine ih (mem_addRoot hroots ?_) (hsplit ▸ hsorted)
    intro earlier hearlier hup
    have hle := (List.pairwise_append.mp hsorted).2.2 earlier hearlier path List.mem_cons_self
    exact absurd (utf8_lt_of_isAncestor hup) (List.not_lt.mpr hle)

theorem foldl_addRoot_sublist (later roots : List JsString) :
    (later.foldl addRoot roots).Sublist (roots ++ later) := by
  induction later generalizing roots with
  | nil => simp
  | cons path later ih =>
    rw [List.foldl_cons]
    refine (ih _).trans ?_
    rw [addRoot]
    split
    · exact (List.Sublist.refl roots).append (List.sublist_cons_self path later)
    · rw [List.append_assoc]
      exact List.Sublist.refl _

theorem sorted_collectPathspecs (paths : List JsString) : Sorted (collectPathspecs paths) := by
  have : Std.Total fun left right : JsString => utf8 left ≤ utf8 right :=
    ⟨fun left right => List.le_total _ _⟩
  have : IsTrans JsString fun left right => utf8 left ≤ utf8 right :=
    ⟨fun _ _ _ h h' => List.le_trans h h'⟩
  exact List.pairwise_insertionSort _ _

/-- **The normalized list has exactly the roots.** -/
theorem mem_normalizePathRoots :
    root ∈ normalizePathRoots paths ↔ IsRoot paths root := by
  have h := @mem_foldl_addRoot (collectPathspecs paths) [] [] (by simp [IsRoot])
    (sorted_collectPathspecs paths) root
  rw [normalizePathRoots, h, List.nil_append]
  simp only [IsRoot, mem_collectPathspecs]

theorem sorted_normalizePathRoots (paths : List JsString) :
    Sorted (normalizePathRoots paths) :=
  (sorted_collectPathspecs paths).sublist (foldl_addRoot_sublist _ [])

theorem hasCoveringPath_normalizePathRoots :
    hasCoveringPath (normalizePathRoots paths) path = true ↔
      ∃ root ∈ paths, AtOrBelow root path := by
  rw [hasCoveringPath_iff]
  constructor
  · intro h
    obtain ⟨root, hroot, hat⟩ := h
    exact ⟨root, (mem_normalizePathRoots.mp hroot).1, hat⟩
  · intro h
    obtain ⟨other, hother, hat⟩ := h
    obtain ⟨root, hroot, hup⟩ := exists_root hother
    exact ⟨root, mem_normalizePathRoots.mpr hroot, hup.trans hat⟩

theorem Beside.above {other : JsString} (h : Beside path other) (hat : AtOrBelow root other) :
    AtOrBelow root path ∨ Beside path root := by
  obtain ⟨u, rest, hu, rfl⟩ := h
  rcases hat with rfl | hup
  · exact Or.inr ⟨u, rest, hu, rfl⟩
  · -- the separator after the root lies in the path or behind the byte that parts the two
    rcases Nat.lt_trichotomy root.length path.length with hlt | heq | hlt
    · refine Or.inl (Or.inr ?_)
      refine List.prefix_of_prefix_length_le hup (List.prefix_append _ _) ?_
      rw [List.length_append, List.length_singleton]
      omega
    · obtain ⟨more, hmore⟩ := hup
      rw [List.append_assoc] at hmore
      obtain ⟨-, htail⟩ := List.append_inj hmore heq
      rw [List.singleton_append] at htail
      have hslash := (List.cons.inj htail).1
      rw [← hslash] at hu
      exact absurd hu (by decide)
    · have hfirst : path ++ [u] <+: root := by
        refine List.prefix_of_prefix_length_le ?_ ((List.prefix_append root [0x2F]).trans hup) ?_
        · exact ⟨rest, by simp⟩
        · rw [List.length_append, List.length_singleton]
          omega
      obtain ⟨more, rfl⟩ := hfirst
      exact Or.inr ⟨u, more, hu, by simp⟩

/-- **The roots notice what the paths notice.** -/
theorem noticed_normalizePathRoots :
    Noticed (normalizePathRoots paths) path ↔ Noticed paths path := by
  have hcover : (∃ root ∈ normalizePathRoots paths, AtOrBelow root path) ↔
      ∃ root ∈ paths, AtOrBelow root path := by
    exact hasCoveringPath_iff.symm.trans hasCoveringPath_normalizePathRoots
  rw [Noticed, Noticed, hcover]
  by_cases hcovered : ∃ root ∈ paths, AtOrBelow root path
  · exact iff_of_true (Or.inl hcovered) (Or.inl hcovered)
  · have hnone : ∀ root ∈ normalizePathRoots paths, ¬ AtOrBelow root path := by
      intro root hroot hat
      exact hcovered (hcover.mp ⟨root, hroot, hat⟩)
    refine or_congr_right (and_congr ?_ ?_)
    · constructor
      · intro h
        obtain ⟨below, hbelow, hup⟩ := h
        exact ⟨below, (mem_normalizePathRoots.mp hbelow).1, hup⟩
      · intro h
        obtain ⟨below, hbelow, hup⟩ := h
        obtain ⟨root, hroot, hat⟩ := exists_root hbelow
        have hin := mem_normalizePathRoots.mpr hroot
        rcases hat with rfl | hat
        · exact ⟨root, hin, hup⟩
        · rcases atOrBelow_total (Or.inr hat) (Or.inr hup) with hless | hmore
          · exact absurd hless (hnone root hin)
          · rcases hmore with rfl | hmore
            · exact absurd (Or.inl rfl) (hnone path hin)
            · exact ⟨root, hin, hmore⟩
    · constructor
      · intro h other hother hbeside
        obtain ⟨root, hroot, hat⟩ := exists_root hother
        rcases hbeside.above hat with hup | hside
        · exact hnone root (mem_normalizePathRoots.mpr hroot) hup
        · exact h root (mem_normalizePathRoots.mpr hroot) hside
      · intro h other hother
        exact h other (mem_normalizePathRoots.mp hother).1

end Roots

section Canonical
variable {paths others : List JsString} {root : JsString}

theorem isRoot_iff : IsRoot paths root ↔
    hasCoveringPath paths root = true ∧
      ∀ above, IsAncestor above root → hasCoveringPath paths above = false := by
  simp only [← Bool.not_eq_true, hasCoveringPath_iff]
  constructor
  · intro h
    refine ⟨⟨root, h.1, Or.inl rfl⟩, ?_⟩
    rintro above hup ⟨other, hother, rfl | hat⟩
    · exact h.2 other hother hup
    · exact h.2 other hother (hat.trans hup)
  · rintro ⟨⟨other, hother, rfl | hat⟩, hnone⟩
    · exact ⟨hother, fun above habove hup => hnone above hup ⟨above, habove, Or.inl rfl⟩⟩
    · exact absurd ⟨other, hother, Or.inl rfl⟩ (hnone other hat)

theorem nodup_foldl_addRoot (later : List JsString) {roots : List JsString} (h : roots.Nodup) :
    (later.foldl addRoot roots).Nodup := by
  induction later generalizing roots with
  | nil => exact h
  | cons path later ih =>
    refine ih ?_
    rw [addRoot]
    split
    · exact h
    · rename_i hnot
      refine List.nodup_append.mpr ⟨h, List.nodup_singleton _, ?_⟩
      rintro root hroot _ hmem rfl
      rw [List.mem_singleton] at hmem
      exact hnot (hasCoveringPath_iff.mpr ⟨root, hroot, Or.inl hmem⟩)

/-- **Two lists have the same roots exactly if they cover the same paths.** -/
theorem normalizePathRoots_eq_iff (hpaths : ∀ path ∈ paths, hasUnpairedSurrogate path = false) :
    normalizePathRoots paths = normalizePathRoots others ↔
      ∀ path, hasCoveringPath paths path = hasCoveringPath others path := by
  constructor
  · intro h path
    rw [Bool.eq_iff_iff, hasCoveringPath_iff, hasCoveringPath_iff,
      ← hasCoveringPath_normalizePathRoots, h, hasCoveringPath_normalizePathRoots]
  · intro h
    have hmem : ∀ root, root ∈ normalizePathRoots paths ↔ root ∈ normalizePathRoots others :=
      fun root => by simp only [mem_normalizePathRoots, isRoot_iff, h]
    have hperm := (List.perm_ext_iff_of_nodup (nodup_foldl_addRoot _ List.nodup_nil)
      (nodup_foldl_addRoot _ List.nodup_nil)).mpr hmem
    have hformed : ∀ root ∈ normalizePathRoots paths, fromUtf8 (utf8 root) = root :=
      fun root hroot =>
        (fromUtf8_utf8_iff root).mpr (hpaths root (mem_normalizePathRoots.mp hroot).1)
    refine hperm.eq_of_pairwise (fun first second hfirst hsecond hle hge => ?_)
      (sorted_normalizePathRoots paths) (sorted_normalizePathRoots others)
    rw [← hformed first hfirst, List.le_antisymm hle hge,
      hformed second ((hmem second).mpr hsecond)]

theorem normalizePathRoots_eq_iff_below :
    normalizePathRoots [js "a", js "a/b"] = normalizePathRoots [js "a"] ↔
      ∀ path, hasCoveringPath [js "a", js "a/b"] path = hasCoveringPath [js "a"] path :=
  normalizePathRoots_eq_iff (by decide)

end Canonical

end PathRoots

end Workspace

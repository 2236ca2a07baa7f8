import Mathlib.Data.List.TakeWhile
import Mathlib.Logic.Function.Iterate

/-!
# Go's functions on strings

A string of Go is a list of bytes, which need not be the encoding of a text.
`strings.TrimSpace` and `strings.Fields` know the white space of Unicode by its
encodings.  The first byte of an encoding never stands inside another one, so white space
is found byte by byte, from the front and from the end.

`strconv.Atoi` returns a value beside its error: zero for a text that is no number, and
the nearest integer of 64 bits for a number that is out of range.
-/

namespace GoStrings

/-- The encodings of the characters with the property `White_Space`. -/
def spaces : List (List UInt8) :=
  [[0x09], [0x0a], [0x0b], [0x0c], [0x0d], [0x20], [0xc2, 0x85], [0xc2, 0xa0], [0xe1, 0x9a, 0x80],
    [0xe2, 0x80, 0x80], [0xe2, 0x80, 0x81], [0xe2, 0x80, 0x82], [0xe2, 0x80, 0x83],
    [0xe2, 0x80, 0x84], [0xe2, 0x80, 0x85], [0xe2, 0x80, 0x86], [0xe2, 0x80, 0x87],
    [0xe2, 0x80, 0x88], [0xe2, 0x80, 0x89], [0xe2, 0x80, 0x8a], [0xe2, 0x80, 0xa8],
    [0xe2, 0x80, 0xa9], [0xe2, 0x80, 0xaf], [0xe2, 0x81, 0x9f], [0xe3, 0x80, 0x80]]

/-- The bytes of a literal in ASCII. -/
def text (s : String) : List UInt8 := s.toList.map fun c => UInt8.ofNat c.toNat

/-- One character of the table less in front. -/
def strip (table : List (List UInt8)) (s : List UInt8) : List UInt8 :=
  match table.find? (·.isPrefixOf s) with
  | some w => s.drop w.length
  | none => s

def trimFront (table : List (List UInt8)) (s : List UInt8) : List UInt8 := (strip table)^[s.length] s

def trimSpace (s : List UInt8) : List UInt8 :=
  (trimFront (spaces.map List.reverse) (trimFront spaces s).reverse).reverse

/-- The loop of `strings.Fields`: so many bytes of a white space are left, and these bytes
of a field were read, the last one first. -/
def fieldsFrom : Nat → List UInt8 → List UInt8 → List (List UInt8)
  | _, field, [] => if field = [] then [] else [field.reverse]
  | skip + 1, field, _ :: rest => fieldsFrom skip field rest
  | 0, field, b :: rest =>
    match spaces.find? (·.isPrefixOf (b :: rest)) with
    | some w =>
      if field = [] then fieldsFrom (w.length - 1) [] rest
      else field.reverse :: fieldsFrom (w.length - 1) [] rest
    | none => fieldsFrom 0 (b :: field) rest

def fields (s : List UInt8) : List (List UInt8) := fieldsFrom 0 [] s

/-- `strings.SplitN` with a separator of one byte. -/
def splitN (sep : UInt8) : Nat → List UInt8 → List (List UInt8)
  | 0, _ => []
  | 1, s => [s]
  | n + 2, s =>
    match s.dropWhile (· ≠ sep) with
    | [] => [s]
    | _ :: rest => s.takeWhile (· ≠ sep) :: splitN sep (n + 1) rest

/-- `strconv.ParseUint` in base ten: nothing for a text that is no number. -/
def parseUint : Nat → List UInt8 → Option Nat
  | n, [] => some n
  | n, c :: rest =>
    if 0x30 ≤ c ∧ c ≤ 0x39 then
      let n1 := n * 10 + (c.toNat - 0x30)
      if n1 < 18446744073709551616 then parseUint n1 rest else some 18446744073709551615
    else none

/-- What `strconv.Atoi` returns beside its error. -/
def atoi (s : List UInt8) : Int :=
  let digits := if s.head? = some 0x2b ∨ s.head? = some 0x2d then s.drop 1 else s
  if digits = [] then 0
  else
    match parseUint 0 digits with
    | none => 0
    | some un =>
      if s.head? = some 0x2d then -(min un 9223372036854775808 : Nat)
      else (min un 9223372036854775807 : Nat)

def decimal (n : Nat) : List UInt8 := (Nat.toDigits 10 n).map fun c => UInt8.ofNat c.toNat

def isVisible (b : UInt8) : Bool := 0x21 ≤ b ∧ b ≤ 0x7e

/-- A word: no part of it is white space. -/
def IsWord (s : List UInt8) : Prop := s ≠ [] ∧ ∀ b ∈ s, isVisible b = true

instance (s : List UInt8) : Decidable (IsWord s) :=
  @instDecidableAnd _ _ inferInstance (List.decidableBAll _ s)

example : fields [] = [] := by simp [fields, fieldsFrom]

/-! ## Trimming -/

/-- No character of the table stands in front. -/
def Bare (table : List (List UInt8)) (s : List UInt8) : Prop := ∀ w ∈ table, ¬ w <+: s

section Trimming

variable {table : List (List UInt8)} {s : List UInt8}

theorem strip_suffix : strip table s <:+ s := by
  unfold strip
  split
  · exact List.drop_suffix _ _
  · exact List.suffix_refl _

theorem strip_of_bare (h : Bare table s) : strip table s = s := by
  have hnone : table.find? (·.isPrefixOf s) = none :=
    List.find?_eq_none.mpr fun w hw => by simpa using h w hw
  rw [strip, hnone]

theorem bare_of_strip (hne : [] ∉ table) (h : strip table s = s) : Bare table s := by
  intro w hw hprefix
  cases hfind : table.find? (·.isPrefixOf s) with
  | none => exact List.find?_eq_none.mp hfind w hw (by simpa using hprefix)
  | some v =>
    have hv : v <+: s := by simpa using List.find?_some hfind
    have hpos : v ≠ [] := fun hnil => hne (hnil ▸ List.mem_of_find?_eq_some hfind)
    have hlength := congrArg List.length h
    have hle := hv.length_le
    have hvpos := List.length_pos_iff.mpr hpos
    simp only [strip, hfind, List.length_drop] at hlength
    omega

theorem trimFront_suffix : trimFront table s <:+ s := by
  have hall : ∀ n t, (strip table)^[n] t <:+ t := by
    intro n
    induction n with
    | zero => exact fun t => List.suffix_refl t
    | succ n ih => exact fun t => (ih _).trans strip_suffix
  exact hall _ s

theorem trimFront_of_bare (h : Bare table s) : trimFront table s = s :=
  Function.iterate_fixed (strip_of_bare h) _

theorem bare_trimFront (hne : [] ∉ table) : Bare table (trimFront table s) := by
  have hall : ∀ n t, t.length ≤ n → Bare table ((strip table)^[n] t) := by
    intro n
    induction n with
    | zero =>
      intro t ht w hw hprefix
      obtain rfl := List.length_eq_zero_iff.mp (Nat.le_zero.mp ht)
      exact hne (List.prefix_nil.mp hprefix ▸ hw)
    | succ n ih =>
      intro t ht
      by_cases hfix : strip table t = t
      · rw [Function.iterate_fixed hfix]
        exact bare_of_strip hne hfix
      · have hlt : (strip table t).length < t.length := by
          refine Nat.lt_of_le_of_ne strip_suffix.length_le fun heq => hfix ?_
          exact strip_suffix.eq_of_length heq
        exact ih _ (by omega)
  exact hall _ s (Nat.le_refl _)

theorem Bare.initial {t : List UInt8} (h : Bare table s) (ht : t <+: s) : Bare table t :=
  fun w hw hinit => h w hw (hinit.trans ht)

/-- **Trimming changes a string if and only if white space stands at one of its ends.** -/
theorem trimSpace_eq_iff :
    trimSpace s = s ↔ Bare spaces s ∧ Bare (spaces.map List.reverse) s.reverse := by
  constructor
  · intro h
    have htail := @trimFront_suffix (spaces.map List.reverse) (trimFront spaces s).reverse
    have hback : Bare (spaces.map List.reverse) (trimSpace s).reverse := by
      rw [trimSpace, List.reverse_reverse]
      exact bare_trimFront (by decide)
    have hfront : Bare spaces (trimSpace s) :=
      (bare_trimFront (by decide)).initial (List.reverse_suffix.mp (by simpa [trimSpace] using htail))
    rw [h] at hback hfront
    exact ⟨hfront, hback⟩
  · intro ⟨hfront, hback⟩
    rw [trimSpace, trimFront_of_bare hfront, trimFront_of_bare hback, List.reverse_reverse]

@[simp] theorem trimSpace_trimSpace (s : List UInt8) : trimSpace (trimSpace s) = trimSpace s := by
  have htail := @trimFront_suffix (spaces.map List.reverse) (trimFront spaces s).reverse
  refine trimSpace_eq_iff.mpr ⟨?_, ?_⟩
  · exact (bare_trimFront (by decide)).initial
      (List.reverse_suffix.mp (by simpa [trimSpace] using htail))
  · rw [trimSpace, List.reverse_reverse]
    exact bare_trimFront (by decide)

end Trimming

/-! ## Words -/

section Words

variable {s t : List UInt8}

theorem not_prefix_visible {w : List UInt8} {b : UInt8} (hb : isVisible b = true)
    (hw : w ∈ spaces ∨ w ∈ spaces.map List.reverse) : ¬ w <+: b :: s := by
  have htable : ∀ v ∈ spaces ++ spaces.map List.reverse,
      v ≠ [] ∧ v.head?.any isVisible = false := by decide
  obtain ⟨hne, hhead⟩ := htable w (List.mem_append.mpr hw)
  intro hprefix
  cases w with
  | nil => exact hne rfl
  | cons c rest =>
    obtain rfl := (List.cons_prefix_cons.mp hprefix).1
    simp [hb] at hhead

theorem eq_tab_of_mem {w : List UInt8} (hw : w ∈ spaces ∨ w ∈ spaces.map List.reverse)
    (htab : 0x09 ∈ w) : w = [0x09] := by
  have htable : ∀ v ∈ spaces ++ spaces.map List.reverse, 0x09 ∈ v → v = [0x09] := by decide
  exact htable w (List.mem_append.mpr hw) htab

theorem bare_cons {table : List (List UInt8)} {b : UInt8} (hb : isVisible b = true)
    (htable : table = spaces ∨ table = spaces.map List.reverse) : Bare table (b :: s) := by
  intro w hw
  rcases htable with rfl | rfl
  · exact not_prefix_visible hb (.inl hw)
  · exact not_prefix_visible hb (.inr hw)

theorem IsWord.reverse (h : IsWord s) : IsWord s.reverse :=
  ⟨by simpa using h.1, fun b hb => h.2 b (List.mem_reverse.mp hb)⟩

theorem IsWord.bare_append (h : IsWord s) {table : List (List UInt8)}
    (htable : table = spaces ∨ table = spaces.map List.reverse) : Bare table (s ++ t) := by
  obtain ⟨hne, hall⟩ := h
  cases s with
  | nil => exact absurd rfl hne
  | cons b rest => exact bare_cons (hall b List.mem_cons_self) htable

theorem trimSpace_between {u : List UInt8} (hs : IsWord s) (hu : IsWord u) :
    trimSpace (s ++ t ++ u) = s ++ t ++ u := by
  refine trimSpace_eq_iff.mpr ⟨?_, ?_⟩
  · rw [List.append_assoc]
    exact hs.bare_append (.inl rfl)
  · rw [List.reverse_append]
    exact hu.reverse.bare_append (.inr rfl)

theorem trimSpace_tab {u : List UInt8} (hs : IsWord s) (h : trimSpace t = t) (hne : t ≠ []) :
    trimSpace (s ++ (u ++ 0x09 :: t)) = s ++ (u ++ 0x09 :: t) := by
  refine trimSpace_eq_iff.mpr ⟨hs.bare_append (.inl rfl), ?_⟩
  intro w hw hprefix
  rw [← List.append_assoc, List.reverse_append, List.reverse_cons] at hprefix
  have hback := (trimSpace_eq_iff.mp h).2
  have hfront : t.reverse ++ [0x09] <+: t.reverse ++ [0x09] ++ (s ++ u).reverse :=
    List.prefix_append _ _
  rcases List.prefix_or_prefix_of_prefix hprefix hfront with hshort | hlong
  · rcases List.prefix_concat_iff.mp hshort with hwhole | hpart
    · have htab := eq_tab_of_mem (.inr hw) (by simp [hwhole])
      rw [htab] at hwhole
      exact hne (by simpa using hwhole.symm)
    · exact hback w hw hpart
  · have htab := eq_tab_of_mem (.inr hw) (hlong.subset (by simp))
    rw [htab] at hlong
    have hlength := hlong.length_le
    simp only [List.length_append, List.length_reverse, List.length_singleton] at hlength
    exact hne (List.length_eq_zero_iff.mp (by omega))

theorem trimSpace_concat_tab (hs : IsWord s) (ht : IsWord t) :
    trimSpace (s ++ 0x09 :: (t ++ [0x09])) = s ++ 0x09 :: t := by
  have hfront : trimFront spaces (s ++ 0x09 :: (t ++ [0x09])) = s ++ 0x09 :: (t ++ [0x09]) :=
    trimFront_of_bare (hs.bare_append (.inl rfl))
  have hreverse : (s ++ 0x09 :: (t ++ [0x09])).reverse = 0x09 :: (s ++ 0x09 :: t).reverse := by
    simp
  have hstrip : ∀ u : List UInt8, strip (spaces.map List.reverse) (0x09 :: u) = u := by
    intro u
    rfl
  have hbare : Bare (spaces.map List.reverse) (s ++ 0x09 :: t).reverse := by
    rw [List.reverse_append, List.reverse_cons, List.append_assoc]
    exact ht.reverse.bare_append (.inr rfl)
  rw [trimSpace, hfront, hreverse, trimFront, List.length_cons, Function.iterate_succ_apply,
    hstrip, Function.iterate_fixed (strip_of_bare hbare), List.reverse_reverse]

theorem fieldsFrom_word {field rest : List UInt8} (hall : ∀ b ∈ s, isVisible b = true) :
    fieldsFrom 0 field (s ++ rest) = fieldsFrom 0 (s.reverse ++ field) rest := by
  induction s generalizing field with
  | nil => rfl
  | cons b s ih =>
    have hnone : spaces.find? (·.isPrefixOf (b :: (s ++ rest))) = none := by
      refine List.find?_eq_none.mpr fun w hw => ?_
      simpa using not_prefix_visible (hall b List.mem_cons_self) (.inl hw)
    rw [List.cons_append, fieldsFrom, hnone]
    rw [ih fun c hc => hall c (List.mem_cons_of_mem _ hc)]
    simp

/-- **The fields of words with single blanks between them are the words.** -/
theorem fields_words {w : List UInt8} {ws : List (List UInt8)} (h : ∀ v ∈ w :: ws, IsWord v) :
    fields (w ++ ws.flatMap fun v => 0x20 :: v) = w :: ws := by
  induction ws generalizing w with
  | nil =>
    obtain ⟨hne, hall⟩ := h w List.mem_cons_self
    rw [List.flatMap_nil, fields, fieldsFrom_word hall]
    simp [fieldsFrom, hne]
  | cons v ws ih =>
    obtain ⟨hne, hall⟩ := h w List.mem_cons_self
    have htail := ih fun u hu => h u (List.mem_cons_of_mem _ hu)
    have hblank : ∀ rest : List UInt8,
        spaces.find? (·.isPrefixOf (0x20 :: rest)) = some [0x20] := fun _ => rfl
    rw [List.flatMap_cons, fields, fieldsFrom_word hall, List.append_nil, List.cons_append,
      fieldsFrom, hblank]
    simp only [List.reverse_eq_nil_iff, hne, if_false, List.reverse_reverse]
    exact congrArg _ htail

theorem splitN_cons {sep : UInt8} {n : Nat} (h : sep ∉ s) :
    splitN sep (n + 2) (s ++ sep :: t) = s :: splitN sep (n + 1) t := by
  have hall : ∀ b ∈ s, decide (b ≠ sep) = true := fun b hb => by
    simpa using fun heq : b = sep => h (heq ▸ hb)
  rw [splitN, List.dropWhile_append_of_pos hall, List.takeWhile_append_of_pos hall]
  simp

theorem splitN_word {sep : UInt8} {n : Nat} (h : sep ∉ s) : splitN sep (n + 1) s = [s] := by
  cases n with
  | zero => rfl
  | succ n =>
    have hall : ∀ b ∈ s, decide (b ≠ sep) = true := fun b hb => by
      simpa using fun heq : b = sep => h (heq ▸ hb)
    rw [splitN, List.dropWhile_eq_nil_iff.mpr hall]

end Words

/-! ## Numbers -/

theorem digit_byte {n : Nat} {c : Char} (hc : c ∈ Nat.toDigits 10 n) :
    (UInt8.ofNat c.toNat).toNat = c.toNat ∧ 48 ≤ c.toNat ∧ c.toNat ≤ 57 := by
  have hdigit := Nat.isDigit_of_mem_toDigits (by decide) (by decide) hc
  simp only [Char.isDigit, Bool.and_eq_true, decide_eq_true_eq, ge_iff_le,
    UInt32.le_iff_toNat_le] at hdigit
  have hlow : 48 ≤ c.toNat := hdigit.1
  have hhigh : c.toNat ≤ 57 := hdigit.2
  refine ⟨?_, hlow, hhigh⟩
  rw [UInt8.toNat_ofNat']
  omega

theorem isWord_decimal (n : Nat) : IsWord (decimal n) := by
  refine ⟨by simp [decimal, Nat.toDigits_ne_nil], fun b hb => ?_⟩
  obtain ⟨c, hc, rfl⟩ := List.mem_map.mp hb
  have hdigit := digit_byte hc
  simp only [isVisible, UInt8.le_iff_toNat_le, hdigit.1, Bool.decide_and, Bool.and_eq_true,
    decide_eq_true_eq]
  exact ⟨Nat.le_trans (by decide) hdigit.2.1, Nat.le_trans hdigit.2.2 (by decide)⟩

theorem ofDigitChars_ge (digits : List Char) (n : Nat) : n ≤ Nat.ofDigitChars 10 digits n := by
  induction digits generalizing n with
  | nil => simp
  | cons c rest ih =>
    rw [Nat.ofDigitChars_cons]
    exact Nat.le_trans (by omega) (ih _)

theorem parseUint_digits {digits : List Char} {n : Nat}
    (h : ∀ c ∈ digits, (UInt8.ofNat c.toNat).toNat = c.toNat ∧ 48 ≤ c.toNat ∧ c.toNat ≤ 57)
    (hn : n < 18446744073709551616) :
    parseUint n (digits.map fun c => UInt8.ofNat c.toNat) =
      some (min (Nat.ofDigitChars 10 digits n) 18446744073709551615) := by
  induction digits generalizing n with
  | nil =>
    rw [List.map_nil, parseUint, Nat.ofDigitChars_nil]
    exact congrArg some (by omega)
  | cons c rest ih =>
    obtain ⟨hbyte, hlow, hhigh⟩ := h c List.mem_cons_self
    have hdigit : 0x30 ≤ UInt8.ofNat c.toNat ∧ UInt8.ofNat c.toNat ≤ 0x39 := by
      rw [UInt8.le_iff_toNat_le, UInt8.le_iff_toNat_le, hbyte]
      exact ⟨hlow, hhigh⟩
    have hzero : '0'.toNat = 0x30 := rfl
    rw [List.map_cons, parseUint, if_pos hdigit, Nat.ofDigitChars_cons, hbyte, hzero,
      Nat.mul_comm n 10]
    by_cases hfits : 10 * n + (c.toNat - 0x30) < 18446744073709551616
    · rw [if_pos hfits]
      exact ih (fun d hd => h d (List.mem_cons_of_mem _ hd)) hfits
    · have hge := ofDigitChars_ge rest (10 * n + (c.toNat - 0x30))
      rw [if_neg hfits]
      exact congrArg some (by omega)

theorem notMem_decimal {n : Nat} {b : UInt8} (hb : b.toNat < 48) : b ∉ decimal n := by
  intro hmem
  obtain ⟨c, hc, rfl⟩ := List.mem_map.mp hmem
  have hdigit := digit_byte hc
  omega

/-- **A number in decimal is read back, cut at the largest integer of 64 bits.** -/
theorem atoi_decimal (n : Nat) : atoi (decimal n) = (min n 9223372036854775807 : Nat) := by
  have hsign : ∀ b : UInt8, b.toNat < 48 → (decimal n).head? ≠ some b :=
    fun b hb hhead => notMem_decimal hb (List.mem_of_head? hhead)
  have hread : parseUint 0 (decimal n) = some (min n 18446744073709551615) := by
    rw [decimal, parseUint_digits (fun c hc => digit_byte hc) (by decide),
      Nat.ofDigitChars_ten_toDigits]
  simp only [atoi, hsign 0x2b (by decide), hsign 0x2d (by decide), or_self, if_false,
    (isWord_decimal n).1, hread]
  exact congrArg _ (by omega)

end GoStrings

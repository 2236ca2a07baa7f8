import Mathlib.Data.List.Infix

/-!
# Text as code units

A text is a list of characters; a program sees it as a list of code units, bytes or UTF-16
units or the characters themselves.  An encoding writes an ASCII character as one unit of the
same code, and any other character as units outside ASCII.  A program that looks only for
ASCII characters therefore does the same to the units of a text, whatever the encoding: it
splits, replaces and compares as it would on the characters.

A list of texts is coded as one text by writing the length of each in front of it.  The code
determines the list.
-/

/-- An alphabet of code units with a unit for each ASCII character. -/
class CodeUnit (α : Type) where
  code : α → Nat
  ascii : Nat → α
  code_ascii : ∀ {n : Nat}, n < 128 → code (ascii n) = n
  code_inj : Function.Injective code

namespace CodeUnit

instance : CodeUnit UInt8 where
  code u := u.toNat
  ascii n := UInt8.ofNat n
  code_ascii := by
    intro n hn
    rw [UInt8.toNat_ofNat']
    omega
  code_inj u v h := UInt8.toNat_inj.mp h

instance : CodeUnit UInt16 where
  code u := u.toNat
  ascii n := UInt16.ofNat n
  code_ascii := by
    intro n hn
    rw [UInt16.toNat_ofNat']
    omega
  code_inj u v h := UInt16.toNat_inj.mp h

instance : CodeUnit Char where
  code c := c.toNat
  ascii n := Char.ofNat n
  code_ascii := by
    intro n hn
    have hvalid : n.isValidChar := .inl (by omega)
    rw [Char.ofNat, dif_pos hvalid]
    rfl
  code_inj c d h := Char.toNat_inj.mp h

theorem code_char (c : Char) : code c = c.toNat := rfl

theorem toNat_ascii {n : Nat} (hn : n < 128) : (ascii n : Char).toNat = n :=
  code_ascii (α := Char) hn

theorem code_ne_of_not_ascii {c : Char} {n : Nat} (hn : n < 128) (hc : ¬ c.toNat < 128) :
    code c ≠ n := by
  rw [code_char]
  omega

variable {α : Type} [CodeUnit α]

/-- The text starts with these ASCII characters. -/
def startsWith : List Nat → List α → Bool
  | [], _ => true
  | _ :: _, [] => false
  | n :: ns, u :: us => code u == n && startsWith ns us

/-- The text consists of these ASCII characters. -/
def isWord (word : List Nat) (s : List α) : Bool := s.map code == word

/-- The text contains this ASCII character. -/
def contains (n : Nat) (s : List α) : Bool := s.any fun u => code u == n

/-- Every one of these characters replaced by another. -/
def replace (n m : Nat) (s : List α) : List α :=
  s.map fun u => if code u = n then ascii m else u

/-- The ASCII capitals as small letters. -/
def foldLower (s : List α) : List α :=
  s.map fun u => if 65 ≤ code u ∧ code u ≤ 90 then ascii (code u + 32) else u

/-- The parts between the occurrences of a character. -/
def split (n : Nat) (s : List α) : List (List α) := s.splitOnP fun u => code u == n

/-- The parts that are not empty. -/
def fields (n : Nat) (s : List α) : List (List α) := (split n s).filter fun part => !part.isEmpty

/-- The parts with the character between them. -/
def join (n : Nat) (parts : List (List α)) : List α := List.intercalate [ascii n] parts

def decimal (n : Nat) : List α := (Nat.toDigits 10 n).map fun c => ascii c.toNat

/-- Each text with its length in front. -/
def lengthPrefixed (parts : List (List α)) : List α :=
  parts.flatMap fun part => decimal part.length ++ ascii 58 :: part

section Decimal

theorem digit_lt {n : Nat} {c : Char} (hc : c ∈ Nat.toDigits 10 n) :
    48 ≤ c.toNat ∧ c.toNat ≤ 57 := by
  have hdigit := Nat.isDigit_of_mem_toDigits (by decide) (by decide) hc
  simp only [Char.isDigit, Bool.and_eq_true, decide_eq_true_eq, ge_iff_le,
    UInt32.le_iff_toNat_le] at hdigit
  exact hdigit

theorem decimal_inj {n m : Nat} (h : decimal (α := α) n = decimal m) : n = m := by
  have hcodes := congrArg (List.map code) h
  have hread : ∀ k : Nat, (decimal (α := α) k).map code = (Nat.toDigits 10 k).map Char.toNat := by
    intro k
    rw [decimal, List.map_map]
    refine List.map_congr_left ?_
    intro c hc
    have hdigit := digit_lt hc
    exact code_ascii (by omega)
  rw [hread, hread] at hcodes
  have hdigits : Nat.toDigits 10 n = Nat.toDigits 10 m :=
    List.map_injective_iff.mpr (fun c d hcd => Char.toNat_inj.mp hcd) hcodes
  have hvalue := congrArg (fun digits => Nat.ofDigitChars 10 digits 0) hdigits
  simpa using hvalue

theorem colon_notMem_decimal (n : Nat) : ∀ u ∈ decimal (α := α) n, code u ≠ 58 := by
  intro u hu
  obtain ⟨c, hc, rfl⟩ := List.mem_map.mp hu
  have hdigit := digit_lt hc
  rw [code_ascii (by omega)]
  omega

section LengthPrefixed

theorem append_colon_inj {front front' rest rest' : List α}
    (hfront : ∀ u ∈ front, code u ≠ 58) (hfront' : ∀ u ∈ front', code u ≠ 58)
    (h : front ++ ascii 58 :: rest = front' ++ ascii 58 :: rest') :
    front = front' ∧ rest = rest' := by
  have hcolon : code (ascii 58 : α) = 58 := code_ascii (by decide)
  induction front generalizing front' with
  | nil =>
    cases front' with
    | nil => exact ⟨rfl, (List.cons.inj h).2⟩
    | cons u us =>
      refine absurd ?_ (hfront' u List.mem_cons_self)
      rw [← (List.cons.inj h).1, hcolon]
  | cons u us ih =>
    cases front' with
    | nil =>
      refine absurd ?_ (hfront u List.mem_cons_self)
      rw [(List.cons.inj h).1, hcolon]
    | cons v vs =>
      obtain ⟨huv, hrest⟩ := List.cons.inj h
      obtain ⟨hus, hrest⟩ := ih (fun w hw => hfront w (List.mem_cons_of_mem _ hw))
        (fun w hw => hfront' w (List.mem_cons_of_mem _ hw)) hrest
      exact ⟨by rw [huv, hus], hrest⟩

/-- **The code of a list of texts determines the list.** -/
theorem lengthPrefixed_inj {parts parts' : List (List α)}
    (h : lengthPrefixed parts = lengthPrefixed parts') :
    parts = parts' := by
  have hne : ∀ (part : List α) (rest : List (List α)), lengthPrefixed (part :: rest) ≠ [] := by
    intro part rest hnil
    simp [lengthPrefixed] at hnil
  induction parts generalizing parts' with
  | nil =>
    cases parts' with
    | nil => rfl
    | cons part rest => exact absurd h.symm (hne part rest)
  | cons part rest ih =>
    cases parts' with
    | nil => exact absurd h (hne part rest)
    | cons part' rest' =>
      simp only [lengthPrefixed, List.flatMap_cons, List.append_assoc, List.cons_append] at h
      obtain ⟨hlength, htail⟩ :=
        append_colon_inj (colon_notMem_decimal _) (colon_notMem_decimal _) h
      obtain ⟨hpart, hrest⟩ := List.append_inj htail (decimal_inj hlength)
      rw [hpart, ih hrest]

end LengthPrefixed

end Decimal

end CodeUnit

section Encodings

open CodeUnit

/-- A way to write characters as code units. -/
structure Encoding (α : Type) [CodeUnit α] where
  encode : Char → List α
  encode_ascii : ∀ {c : Char}, c.toNat < 128 → encode c = [ascii c.toNat]
  encode_wide : ∀ {c : Char}, 128 ≤ c.toNat → encode c ≠ [] ∧ ∀ u ∈ encode c, 128 ≤ code u
  inj : ∀ {s t : List Char}, s.flatMap encode = t.flatMap encode → s = t

namespace Encoding

variable {α : Type} [CodeUnit α] (e : Encoding α)

/-- The units of a text. -/
def text (s : List Char) : List α := s.flatMap e.encode

@[simp] theorem text_nil : e.text [] = [] := rfl

@[simp] theorem text_append (s t : List Char) : e.text (s ++ t) = e.text s ++ e.text t :=
  List.flatMap_append

theorem text_cons_ascii {c : Char} (hc : c.toNat < 128) (s : List Char) :
    e.text (c :: s) = ascii c.toNat :: e.text s := by
  rw [text, List.flatMap_cons, e.encode_ascii hc]
  rfl

theorem text_cons (c : Char) (s : List Char) : e.text (c :: s) = e.encode c ++ e.text s := rfl

@[simp] theorem text_inj (s t : List Char) : e.text s = e.text t ↔ s = t :=
  ⟨e.inj, congrArg e.text⟩

@[simp] theorem text_eq_nil (s : List Char) : e.text s = [] ↔ s = [] :=
  e.text_inj s []

@[simp] theorem isEmpty_text (s : List Char) : (e.text s).isEmpty = s.isEmpty := by
  rw [Bool.eq_iff_iff, List.isEmpty_iff, List.isEmpty_iff, text_eq_nil]

theorem code_ne_of_wide {c : Char} {n : Nat} (hn : n < 128) (hc : ¬ c.toNat < 128) {u : α}
    (hu : u ∈ e.encode c) :
    code u ≠ n := by
  have hwide := (e.encode_wide (Nat.le_of_not_lt hc)).2 u hu
  omega

theorem text_cases (c : Char) (s : List Char) :
    (c.toNat < 128 ∧ e.text (c :: s) = ascii c.toNat :: e.text s) ∨
      128 ≤ c.toNat ∧ ∃ u us, e.text (c :: s) = u :: us ∧ 128 ≤ code u := by
  by_cases hc : c.toNat < 128
  · exact .inl ⟨hc, e.text_cons_ascii hc s⟩
  · have hwide := e.encode_wide (Nat.le_of_not_lt hc)
    obtain ⟨u, us, hunits⟩ := List.exists_cons_of_ne_nil hwide.1
    refine .inr ⟨Nat.le_of_not_lt hc, u, us ++ e.text s, ?_, ?_⟩
    · rw [text_cons, hunits, List.cons_append]
    · exact hwide.2 u (hunits ▸ List.mem_cons_self)

theorem code_ascii_toNat {c : Char} (hc : c.toNat < 128) :
    code (ascii c.toNat : α) = code c := code_ascii hc

theorem text_map {f : Char → Char} {g : α → α}
    (hascii : ∀ c, c.toNat < 128 → (f c).toNat < 128 ∧ g (ascii c.toNat) = ascii (f c).toNat)
    (hwide : ∀ c, ¬ c.toNat < 128 → f c = c) (hunits : ∀ u, 128 ≤ code u → g u = u)
    (s : List Char) :
    (e.text s).map g = e.text (s.map f) := by
  induction s with
  | nil => rfl
  | cons c s ih =>
    rw [List.map_cons, text_cons, text_cons, List.map_append, ih]
    congr 1
    by_cases hc : c.toNat < 128
    · obtain ⟨hf, hg⟩ := hascii c hc
      rw [e.encode_ascii hc, e.encode_ascii hf, List.map_singleton, hg]
    · rw [hwide c hc]
      refine (List.map_congr_left ?_).trans (List.map_id _)
      intro u hu
      exact hunits u ((e.encode_wide (Nat.le_of_not_lt hc)).2 u hu)

theorem replace_text {n m : Nat} (hn : n < 128) (hm : m < 128) (s : List Char) :
    replace n m (e.text s) = e.text (replace n m s) := by
  refine e.text_map ?_ ?_ ?_ s
  · intro c hc
    rw [code_ascii hc]
    rw [code_char]
    split_ifs
    · rw [toNat_ascii hm]
      exact ⟨hm, rfl⟩
    · exact ⟨hc, rfl⟩
  · intro c hc
    rw [code_char, if_neg (by omega)]
  · intro u hu
    rw [if_neg (by omega)]

theorem foldLower_text (s : List Char) : foldLower (e.text s) = e.text (foldLower s) := by
  refine e.text_map ?_ ?_ ?_ s
  · intro c hc
    rw [code_ascii hc]
    rw [code_char]
    split_ifs with hcapital
    · rw [toNat_ascii (by omega)]
      exact ⟨by omega, rfl⟩
    · exact ⟨hc, rfl⟩
  · intro c hc
    rw [code_char, if_neg (by omega)]
  · intro u hu
    rw [if_neg (by omega)]

theorem startsWith_text {word : List Nat} (hword : ∀ n ∈ word, n < 128) (s : List Char) :
    startsWith word (e.text s) = startsWith word s := by
  induction word generalizing s with
  | nil => cases s <;> cases e.text _ <;> rfl
  | cons n word ih =>
    have hn := hword n List.mem_cons_self
    cases s with
    | nil => rfl
    | cons c s =>
      by_cases hc : c.toNat < 128
      · rw [e.text_cons_ascii hc, startsWith, startsWith, code_ascii_toNat hc,
          ih (fun m hm => hword m (List.mem_cons_of_mem _ hm))]
      · obtain ⟨u, us, hunits⟩ :=
          List.exists_cons_of_ne_nil (e.encode_wide (Nat.le_of_not_lt hc)).1
        have hne := e.code_ne_of_wide hn hc (hunits ▸ List.mem_cons_self)
        have hcode := code_ne_of_not_ascii hn hc
        rw [text_cons, hunits, List.cons_append, startsWith, startsWith,
          beq_false_of_ne hne, beq_false_of_ne hcode, Bool.false_and, Bool.false_and]

theorem isWord_text {word : List Nat} (hword : ∀ n ∈ word, n < 128) (s : List Char) :
    isWord word (e.text s) = isWord word s := by
  unfold isWord
  induction s generalizing word with
  | nil => rfl
  | cons c s ih =>
    cases word with
    | nil =>
      have hne : e.text (c :: s) ≠ [] := by simp
      obtain ⟨u, us, hunits⟩ := List.exists_cons_of_ne_nil hne
      rw [hunits]
      rfl
    | cons n word =>
      have hn := hword n List.mem_cons_self
      by_cases hc : c.toNat < 128
      · rw [e.text_cons_ascii hc, List.map_cons, List.map_cons, code_ascii_toNat hc,
          List.cons_beq_cons, List.cons_beq_cons,
          ih (fun m hm => hword m (List.mem_cons_of_mem _ hm))]
      · obtain ⟨u, us, hunits⟩ :=
          List.exists_cons_of_ne_nil (e.encode_wide (Nat.le_of_not_lt hc)).1
        have hne := e.code_ne_of_wide hn hc (hunits ▸ List.mem_cons_self)
        have hcode := code_ne_of_not_ascii hn hc
        rw [text_cons, hunits, List.cons_append, List.map_cons, List.map_cons,
          List.cons_beq_cons, List.cons_beq_cons, beq_false_of_ne hne,
          beq_false_of_ne hcode, Bool.false_and, Bool.false_and]

theorem contains_text {n : Nat} (hn : n < 128) (s : List Char) :
    contains n (e.text s) = contains n s := by
  unfold contains
  induction s with
  | nil => rfl
  | cons c s ih =>
    rw [text_cons, List.any_append, List.any_cons, ih]
    congr 1
    by_cases hc : c.toNat < 128
    · rw [e.encode_ascii hc, List.any_cons, List.any_nil, Bool.or_false, code_ascii_toNat hc]
    · have hcode := code_ne_of_not_ascii hn hc
      rw [beq_false_of_ne hcode, List.any_eq_false]
      intro u hu
      simpa using e.code_ne_of_wide hn hc hu

omit [CodeUnit α] in
theorem splitOnP_append {p : α → Bool} {front rest : List α}
    (h : ∀ u ∈ front, p u = false) :
    (front ++ rest).splitOnP p = (rest.splitOnP p).modifyHead (front ++ ·) := by
  induction front with
  | nil => cases h : rest.splitOnP p <;> simp [h]
  | cons u us ih =>
    rw [List.cons_append, List.splitOnP_cons_eq_if_modifyHead, h u List.mem_cons_self,
      if_neg Bool.false_ne_true, ih (fun v hv => h v (List.mem_cons_of_mem _ hv)),
      List.modifyHead_modifyHead]
    rfl

theorem split_text {n : Nat} (hn : n < 128) (s : List Char) :
    split n (e.text s) = (split n s).map e.text := by
  unfold split
  induction s with
  | nil => rfl
  | cons c s ih =>
    have hhead : ∀ parts : List (List Char),
        (parts.map e.text).modifyHead (e.encode c ++ ·) =
          (parts.modifyHead (List.cons c)).map e.text := by
      intro parts
      cases parts <;> rfl
    by_cases hc : c.toNat < 128
    · rw [e.text_cons_ascii hc, List.splitOnP_cons_eq_if_modifyHead,
        List.splitOnP_cons_eq_if_modifyHead, code_ascii_toNat hc, ih]
      split_ifs
      · rfl
      · rw [← hhead, e.encode_ascii hc]
        rfl
    · have hcode := code_ne_of_not_ascii hn hc
      rw [text_cons, splitOnP_append, List.splitOnP_cons_eq_if_modifyHead,
        beq_false_of_ne hcode, if_neg Bool.false_ne_true, ih, hhead]
      intro u hu
      exact beq_false_of_ne (e.code_ne_of_wide hn hc hu)

theorem fields_text {n : Nat} (hn : n < 128) (s : List Char) :
    fields n (e.text s) = (fields n s).map e.text := by
  rw [fields, e.split_text hn, List.filter_map]
  congr 2
  funext part
  simp

theorem join_text {n : Nat} (hn : n < 128) (parts : List (List Char)) :
    join n (parts.map e.text) = e.text (join n parts) := by
  have hunit : e.text [ascii n] = [ascii n] := by
    rw [e.text_cons_ascii ((toNat_ascii hn).symm ▸ hn), toNat_ascii hn]
    rfl
  unfold join
  induction parts with
  | nil => rfl
  | cons part parts ih =>
    cases parts with
    | nil => simp
    | cons next parts =>
      rw [List.map_cons, List.map_cons, List.intercalate_cons_cons, ← List.map_cons, ih,
        List.intercalate_cons_cons, text_append, text_append, hunit]

end Encoding

end Encodings

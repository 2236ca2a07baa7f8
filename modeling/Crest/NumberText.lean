import Mathlib.Data.Nat.Digits.Lemmas
import Crest.Double
import Crest.Json

/-!
# Numbers as text

How a finite double is written, and how the text is read.  The shortest decimal of the number is
written out as long as its point is not too far away from its digits, and with an exponent
otherwise.  What was written is read as the same number, whatever follows it that is no part of a
number.
-/

namespace NumberText

open JsString Double

/-- A decimal digit. -/
def digitUnit (d : ℕ) : UInt16 := UInt16.ofNat (0x30 + d)

/-- The decimal digits of a positive number. -/
def decimal (n : ℕ) : JsString := (Nat.digits 10 n).reverse.map digitUnit

/-- So many zeros. -/
def zeros (n : ℕ) : JsString := List.replicate n 0x30

/-- The text of a decimal. -/
def decimalText (d : Decimal) : JsString :=
  let s := decimal d.digits
  let k : ℤ := d.length
  let n := d.point
  if k ≤ n ∧ n ≤ 21 then s ++ zeros (n - k).toNat
  else if 0 < n ∧ n ≤ 21 then s.take n.toNat ++ js "." ++ s.drop n.toNat
  else if -6 < n ∧ n ≤ 0 then js "0." ++ zeros (-n).toNat ++ s
  else
    let exponent := js "e" ++ (if 0 < n then js "+" else js "-") ++ decimal (n - 1).natAbs
    if d.length = 1 then s ++ exponent else s.take 1 ++ js "." ++ s.drop 1 ++ exponent

/-- The text of a positive double. -/
def positiveText (x : ℚ) : JsString :=
  match shortest x with
  | some d => decimalText d
  | none => []

/-- `String(x)` of a finite double. -/
def numberToString (x : ℚ) : JsString :=
  if x = 0 then js "0"
  else if x < 0 then js "-" ++ positiveText (-x)
  else positiveText x

/-- Whether a code unit is a decimal digit. -/
def isDigit (u : UInt16) : Bool := 0x30 ≤ u && u ≤ 0x39

/-- The digits after a point, if there is one. -/
def readFraction : JsString → Option (JsString × JsString)
  | [] => some ([], [])
  | u :: rest =>
    if u = 0x2E then
      if rest.takeWhile isDigit = [] then none
      else some (rest.takeWhile isDigit, rest.dropWhile isDigit)
    else some ([], u :: rest)

/-- The sign of an exponent, if there is one. -/
def readSign : JsString → Bool × JsString
  | [] => (false, [])
  | u :: rest =>
    if u = 0x2B then (false, rest) else if u = 0x2D then (true, rest) else (false, u :: rest)

/-- The exponent, if there is one. -/
def readExponent : JsString → Option (ℤ × JsString)
  | [] => some (0, [])
  | u :: rest =>
    if u = 0x65 ∨ u = 0x45 then
      let (negative, rest) := readSign rest
      let digits := rest.takeWhile isDigit
      if digits = [] then none
      else
        let value : ℤ := Json.digitsValue digits
        some (if negative then -value else value, rest.dropWhile isDigit)
    else some (0, u :: rest)

/-- The double that is nearest to a number of decimal digits. -/
def decimalValue (int fraction : JsString) (exponent : ℤ) : ℚ :=
  let digits := Json.digitsValue (int ++ fraction)
  if digits = 0 then 0 else nearest (digits * 10 ^ (exponent - fraction.length))

/-- A number without a sign, as JSON has it. -/
def readUnsigned (s : JsString) : Option (ℚ × JsString) :=
  let int := s.takeWhile isDigit
  if int = [] ∨ (int.head? = some 0x30 ∧ 1 < int.length) then none
  else
    match readFraction (s.dropWhile isDigit) with
    | none => none
    | some (fraction, rest) =>
      match readExponent rest with
      | none => none
      | some (exponent, rest) => some (decimalValue int fraction exponent, rest)

/-- A number, as JSON has it.  A number too large for a double is not distinguished, and the
negative zero is zero. -/
def readNumber : JsString → Option (ℚ × JsString)
  | [] => none
  | u :: rest =>
    if u = 0x2D then (readUnsigned rest).map fun read => (-read.1, read.2)
    else readUnsigned (u :: rest)

section Digits

theorem isDigit_digitUnit (d : ℕ) (h : d < 10) : isDigit (digitUnit d) = true := by
  interval_cases d <;> decide

theorem digitUnit_toNat (d : ℕ) (h : d < 10) : (digitUnit d).toNat = 0x30 + d := by
  interval_cases d <;> decide

theorem isDigit_of_mem_decimal {n : ℕ} {u : UInt16} (h : u ∈ decimal n) :
    isDigit u = true := by
  obtain ⟨d, hd, rfl⟩ := List.mem_map.mp h
  exact isDigit_digitUnit d (Nat.digits_lt_base (by norm_num) (List.mem_reverse.mp hd))

theorem isDigit_of_mem_zeros {n : ℕ} {u : UInt16} (h : u ∈ zeros n) :
    isDigit u = true := by
  rw [List.eq_of_mem_replicate h]
  decide

theorem digitsValue_append (a b : JsString) :
    Json.digitsValue (a ++ b) = Json.digitsValue a * 10 ^ b.length + Json.digitsValue b := by
  have hshift : ∀ (b : JsString) (start : ℕ),
      b.foldl (fun n u => 10 * n + (u.toNat - 0x30)) start =
        start * 10 ^ b.length + b.foldl (fun n u => 10 * n + (u.toNat - 0x30)) 0 := by
    intro b
    induction b with
    | nil => intro start; simp
    | cons u b ih =>
      intro start
      rw [List.foldl_cons, List.foldl_cons, ih, ih (10 * 0 + (u.toNat - 0x30)),
        List.length_cons, pow_succ]
      ring
  rw [Json.digitsValue, List.foldl_append]
  exact hshift b _

theorem digitsValue_zeros (n : ℕ) : Json.digitsValue (zeros n) = 0 := by
  induction n with
  | zero => rfl
  | succ n ih =>
    rw [zeros, List.replicate_succ', digitsValue_append]
    rw [zeros] at ih
    rw [ih]
    rfl

theorem digitsValue_decimal (n : ℕ) : Json.digitsValue (decimal n) = n := by
  have hlist : ∀ l : List ℕ, (∀ d ∈ l, d < 10) →
      Json.digitsValue (l.reverse.map digitUnit) = Nat.ofDigits 10 l := by
    intro l
    induction l with
    | nil => intro _; rfl
    | cons d l ih =>
      intro hl
      have hd : Json.digitsValue [digitUnit d] = d := by
        rw [Json.digitsValue, List.foldl_cons, List.foldl_nil,
          digitUnit_toNat d (hl d List.mem_cons_self)]
        omega
      rw [List.reverse_cons, List.map_append, digitsValue_append,
        ih fun other hother => hl other (List.mem_cons_of_mem _ hother), List.map_singleton, hd,
        Nat.ofDigits_cons, List.length_singleton]
      ring
  rw [decimal, hlist _ fun d hd => Nat.digits_lt_base (by norm_num) hd, Nat.ofDigits_digits]

theorem decimal_head {n : ℕ} (h : n ≠ 0) :
    ∃ u rest, decimal n = u :: rest ∧ u ≠ 0x30 := by
  have hne : Nat.digits 10 n ≠ [] := Nat.digits_ne_nil_iff_ne_zero.mpr h
  have hlast := Nat.getLast_digit_ne_zero 10 h
  have hlt : (Nat.digits 10 n).getLast hne < 10 :=
    Nat.digits_lt_base (by norm_num) (List.getLast_mem hne)
  refine ⟨digitUnit ((Nat.digits 10 n).getLast hne),
    (Nat.digits 10 n).dropLast.reverse.map digitUnit, ?_, ?_⟩
  · conv_lhs => rw [decimal, ← List.dropLast_append_getLast hne]
    rw [List.reverse_append, List.reverse_singleton, List.singleton_append, List.map_cons]
  · intro hzero
    have htoNat := congrArg UInt16.toNat hzero
    rw [digitUnit_toNat _ hlt] at htoNat
    have : (0x30 : UInt16).toNat = 0x30 := rfl
    omega

theorem decimal_length {n k : ℕ} (hk : 1 ≤ k) (hlow : 10 ^ (k - 1) ≤ n) (hhigh : n < 10 ^ k) :
    (decimal n).length = k := by
  rw [decimal, List.length_map, List.length_reverse]
  have hle := (Nat.digits_length_le_iff (b := 10) (k := k) (by norm_num) n).mpr hhigh
  have hge : ¬ (Nat.digits 10 n).length ≤ k - 1 := by
    rw [Nat.digits_length_le_iff (by norm_num)]
    omega
  omega

end Digits

section Reading

/-- What follows does not go on with digits. -/
def NoDigit (rest : JsString) : Prop := ∀ u, rest.head? = some u → isDigit u = false

/-- What follows a number is no part of it. -/
def Stops (rest : JsString) : Prop :=
  ∀ u, rest.head? = some u → isDigit u = false ∧ u ≠ 0x2E ∧ u ≠ 0x65 ∧ u ≠ 0x45

/-- A point and digits after it, if there are any. -/
def fractionText (fraction : JsString) : JsString :=
  if fraction = [] then [] else 0x2E :: fraction

theorem takeWhile_digits {digits rest : JsString} (hdigits : ∀ u ∈ digits, isDigit u = true)
    (hrest : NoDigit rest) :
    (digits ++ rest).takeWhile isDigit = digits ∧ (digits ++ rest).dropWhile isDigit = rest := by
  rw [List.takeWhile_append_of_pos hdigits, List.dropWhile_append_of_pos hdigits]
  cases rest with
  | nil => simp
  | cons u rest =>
    have hu : isDigit u = false := hrest u rfl
    simp [hu]

theorem readFraction_text {fraction rest : JsString}
    (hdigits : ∀ u ∈ fraction, isDigit u = true) (hrest : NoDigit rest)
    (hpoint : rest.head? ≠ some 0x2E) :
    readFraction (fractionText fraction ++ rest) = some (fraction, rest) := by
  by_cases hempty : fraction = []
  · rw [hempty, fractionText, if_pos rfl, List.nil_append]
    cases rest with
    | nil => rfl
    | cons u rest =>
      have hu : u ≠ 0x2E := by simpa using hpoint
      rw [readFraction, if_neg hu]
  · obtain ⟨htake, hdrop⟩ := takeWhile_digits hdigits hrest
    rw [fractionText, if_neg hempty, List.cons_append, readFraction, if_pos rfl, htake, hdrop,
      if_neg hempty]

theorem readExponent_none {rest : JsString} (h : Stops rest) :
    readExponent rest = some (0, rest) := by
  cases rest with
  | nil => rfl
  | cons u rest =>
    obtain ⟨-, -, hlower, hupper⟩ := h u rfl
    rw [readExponent, if_neg (by simp [hlower, hupper])]

theorem readExponent_text {digits rest : JsString} (negative : Bool)
    (hdigits : ∀ u ∈ digits, isDigit u = true) (hne : digits ≠ []) (hrest : NoDigit rest) :
    readExponent (0x65 :: (if negative then 0x2D else 0x2B) :: (digits ++ rest)) =
      some (if negative then -(Json.digitsValue digits : ℤ) else Json.digitsValue digits,
        rest) := by
  obtain ⟨htake, hdrop⟩ := takeWhile_digits hdigits hrest
  have hsign : readSign ((if negative then 0x2D else 0x2B) :: (digits ++ rest)) =
      (negative, digits ++ rest) := by
    cases negative with
    | true | false => rfl
  rw [readExponent, if_pos (Or.inl rfl), hsign]
  simp only [htake, hdrop, if_neg hne]

theorem readUnsigned_text {int fraction tail rest : JsString} {exponent : ℤ}
    (hint : ∀ u ∈ int, isDigit u = true) (hne : int ≠ [])
    (hzero : int.head? = some 0x30 → int.length = 1)
    (hfraction : ∀ u ∈ fraction, isDigit u = true) (htail : NoDigit tail)
    (hpoint : tail.head? ≠ some 0x2E) (hexponent : readExponent tail = some (exponent, rest)) :
    readUnsigned (int ++ (fractionText fraction ++ tail)) =
      some (decimalValue int fraction exponent, rest) := by
  have hnext : NoDigit (fractionText fraction ++ tail) := by
    intro u hu
    by_cases hempty : fraction = []
    · rw [hempty, fractionText, if_pos rfl, List.nil_append] at hu
      exact htail u hu
    · rw [fractionText, if_neg hempty, List.cons_append, List.head?_cons, Option.some.injEq] at hu
      rw [← hu]
      decide
  obtain ⟨htake, hdrop⟩ := takeWhile_digits hint hnext
  have hgood : ¬ (int = [] ∨ (int.head? = some 0x30 ∧ 1 < int.length)) := by
    intro h
    rcases h with h | ⟨hhead, hlong⟩
    · exact hne h
    · have := hzero hhead
      omega
  rw [readUnsigned, htake, hdrop]
  simp only [if_neg hgood, readFraction_text hfraction htail hpoint, hexponent]

theorem readUnsigned_parts {int fraction tail rest : JsString} {exponent : ℤ} {d : Decimal}
    (hint : ∀ u ∈ int, isDigit u = true) (hne : int ≠ [])
    (hzero : int.head? = some 0x30 → int.length = 1)
    (hfraction : ∀ u ∈ fraction, isDigit u = true) (htail : NoDigit tail)
    (hpoint : tail.head? ≠ some 0x2E) (hexponent : readExponent tail = some (exponent, rest))
    (hdigits : Json.digitsValue (int ++ fraction) ≠ 0)
    (hvalue : (Json.digitsValue (int ++ fraction) : ℚ) * 10 ^ (exponent - fraction.length) =
      d.value) :
    readUnsigned (int ++ (fractionText fraction ++ tail)) = some (nearest d.value, rest) := by
  rw [readUnsigned_text hint hne hzero hfraction htail hpoint hexponent, decimalValue]
  simp only [if_neg hdigits, hvalue]

/-- The digits of a decimal, as they are written. -/
structure DigitsOf (d : Decimal) (s : JsString) : Prop where
  digit : ∀ u ∈ s, isDigit u = true
  value : Json.digitsValue s = d.digits
  length : s.length = d.length
  pos : d.digits ≠ 0
  long : 1 ≤ d.length
  head : s.head? ≠ some 0x30

theorem digitsOf_decimal {d : Decimal} (hlength : 1 ≤ d.length)
    (hlow : 10 ^ (d.length - 1) ≤ d.digits) (hhigh : d.digits < 10 ^ d.length) :
    DigitsOf d (decimal d.digits) := by
  have hpos : d.digits ≠ 0 := by
    have : 0 < 10 ^ (d.length - 1) := by positivity
    omega
  obtain ⟨first, others, hcons, hfirst⟩ := decimal_head hpos
  refine ⟨fun u hu => isDigit_of_mem_decimal hu, digitsValue_decimal _,
    decimal_length hlength hlow hhigh, hpos, hlength, ?_⟩
  rw [hcons, List.head?_cons]
  intro h
  exact hfirst (Option.some.inj h)

variable {d : Decimal} {s rest : JsString}

section

variable (h : DigitsOf d s)
include h

theorem DigitsOf.ne_nil : s ≠ [] := by
  have hlen := h.length
  have hlong := h.long
  intro hnil
  rw [hnil, List.length_nil] at hlen
  omega

theorem DigitsOf.head_take {n : ℕ} (hn : n ≠ 0) :
    (s.take n).head? ≠ some 0x30 := by
  rw [List.head?_take, if_neg hn]
  exact h.head

variable (hrest : Stops rest)
include hrest

theorem DigitsOf.read_integer (hpoint : (d.length : ℤ) ≤ d.point) :
    readUnsigned (s ++ zeros (d.point - d.length).toNat ++ rest) =
      some (nearest d.value, rest) := by
  have hhead : (s ++ zeros (d.point - d.length).toNat).head? = s.head? :=
    List.head?_append_of_ne_nil _ h.ne_nil
  have hvalue : Json.digitsValue (s ++ zeros (d.point - d.length).toNat ++ []) =
      d.digits * 10 ^ (d.point - d.length).toNat := by
    rw [List.append_nil, digitsValue_append, digitsValue_zeros, h.value, zeros,
      List.length_replicate, Nat.add_zero]
  have hread := @readUnsigned_parts (s ++ zeros (d.point - d.length).toNat) [] rest rest 0 d
    (by
      intro u hu
      rcases List.mem_append.mp hu with hu | hu
      · exact h.digit u hu
      · exact isDigit_of_mem_zeros hu)
    (by simp [h.ne_nil])
    (by
      intro hzero
      exact absurd (hhead ▸ hzero) h.head)
    (by
      intro u hu
      cases hu)
    (fun u hu => (hrest u hu).1) (fun hu => (hrest _ hu).2.1 rfl) (readExponent_none hrest)
    (by
      rw [hvalue]
      exact Nat.mul_ne_zero h.pos (by positivity))
    (by
      have hexp : ((d.point - d.length).toNat : ℤ) = d.point - d.length := by omega
      rw [hvalue, Decimal.value, ← hexp, zpow_natCast]
      simp)
  rwa [fractionText, if_pos rfl, List.nil_append] at hread

theorem DigitsOf.read_point (hpos : 0 < d.point) (hpoint : d.point < d.length) :
    readUnsigned (s.take d.point.toNat ++ js "." ++ s.drop d.point.toNat ++ rest) =
      some (nearest d.value, rest) := by
  have hsplit : s.take d.point.toNat ++ s.drop d.point.toNat = s := List.take_append_drop _ _
  have hlen := h.length
  have hdrop : s.drop d.point.toNat ≠ [] := by
    intro hnil
    have := congrArg List.length hnil
    rw [List.length_drop, List.length_nil] at this
    omega
  have htake : s.take d.point.toNat ≠ [] := by
    intro hnil
    have := congrArg List.length hnil
    rw [List.length_take, List.length_nil] at this
    omega
  have hread := @readUnsigned_parts (s.take d.point.toNat) (s.drop d.point.toNat) rest rest 0 d
    (fun u hu => h.digit u (List.mem_of_mem_take hu)) htake
    (fun hzero => absurd hzero (h.head_take (by omega)))
    (fun u hu => h.digit u (List.mem_of_mem_drop hu))
    (fun u hu => (hrest u hu).1) (fun hu => (hrest _ hu).2.1 rfl) (readExponent_none hrest)
    (by
      rw [hsplit, h.value]
      exact h.pos)
    (by
      rw [hsplit, h.value, Decimal.value, List.length_drop, hlen]
      congr 2
      omega)
  rw [fractionText, if_neg hdrop] at hread
  have htext : s.take d.point.toNat ++ js "." ++ s.drop d.point.toNat ++ rest =
      s.take d.point.toNat ++ (0x2E :: s.drop d.point.toNat ++ rest) := by
    simp [js, utf16Units]
  rw [htext, hread]

theorem DigitsOf.read_below (hpoint : d.point ≤ 0) :
    readUnsigned (js "0." ++ zeros (-d.point).toNat ++ s ++ rest) =
      some (nearest d.value, rest) := by
  have hvalue : Json.digitsValue ([0x30] ++ (zeros (-d.point).toNat ++ s)) = d.digits := by
    have hzeros : [0x30] ++ (zeros (-d.point).toNat ++ s) =
        zeros ((-d.point).toNat + 1) ++ s := by
      rw [zeros, zeros, List.replicate_succ]
      rfl
    rw [hzeros, digitsValue_append, digitsValue_zeros, h.value]
    omega
  have hread := @readUnsigned_parts [0x30] (zeros (-d.point).toNat ++ s) rest rest 0 d
    (by
      intro u hu
      rw [List.mem_singleton.mp hu]
      decide)
    (by simp) (by simp)
    (by
      intro u hu
      rcases List.mem_append.mp hu with hu | hu
      · exact isDigit_of_mem_zeros hu
      · exact h.digit u hu)
    (fun u hu => (hrest u hu).1) (fun hu => (hrest _ hu).2.1 rfl) (readExponent_none hrest)
    (by
      rw [hvalue]
      exact h.pos)
    (by
      rw [hvalue, Decimal.value, List.length_append, zeros, List.length_replicate, h.length]
      congr 2
      push_cast
      omega)
  rw [fractionText, if_neg (by simp [h.ne_nil])] at hread
  have htext : js "0." ++ zeros (-d.point).toNat ++ s ++ rest =
      [0x30] ++ (0x2E :: (zeros (-d.point).toNat ++ s) ++ rest) := by
    simp [js, utf16Units]
  rw [htext, hread]

theorem DigitsOf.read_exponent (hpoint : d.point ≠ 1) :
    readUnsigned (s.take 1 ++ (fractionText (s.drop 1) ++
        (0x65 :: (if d.point ≤ 0 then 0x2D else 0x2B) :: (decimal (d.point - 1).natAbs ++ rest)))) =
      some (nearest d.value, rest) := by
  have hsplit : s.take 1 ++ s.drop 1 = s := List.take_append_drop _ _
  have hlen := h.length
  have hlong := h.long
  have hdecimal : decimal (d.point - 1).natAbs ≠ [] := by
    obtain ⟨u, others, hcons, -⟩ := decimal_head (n := (d.point - 1).natAbs) (by omega)
    rw [hcons]
    simp
  have hexponent := readExponent_text (decide (d.point ≤ 0))
    (fun u hu => isDigit_of_mem_decimal (n := (d.point - 1).natAbs) hu) hdecimal
    (fun u hu => (hrest u hu).1)
  rw [digitsValue_decimal] at hexponent
  simp only [decide_eq_true_eq] at hexponent
  have hvalue : (if d.point ≤ 0 then -((d.point - 1).natAbs : ℤ) else ((d.point - 1).natAbs : ℤ)) =
      d.point - 1 := by
    split <;> omega
  rw [hvalue] at hexponent
  refine readUnsigned_parts (fun u hu => h.digit u (List.mem_of_mem_take hu)) ?_
    (fun hzero => absurd hzero (h.head_take (by omega)))
    (fun u hu => h.digit u (List.mem_of_mem_drop hu)) ?_ (by simp) hexponent ?_ ?_
  · intro hnil
    have := congrArg List.length hnil
    rw [List.length_take, List.length_nil] at this
    omega
  · intro u hu
    rw [List.head?_cons, Option.some.injEq] at hu
    rw [← hu]
    decide
  · rw [hsplit, h.value]
    exact h.pos
  · rw [hsplit, h.value, Decimal.value, List.length_drop, hlen]
    congr 2
    omega

end

/-- **A decimal is read as the double that is nearest to it.** -/
theorem readUnsigned_decimalText (hlength : 1 ≤ d.length)
    (hlow : 10 ^ (d.length - 1) ≤ d.digits) (hhigh : d.digits < 10 ^ d.length)
    (hrest : Stops rest) :
    readUnsigned (decimalText d ++ rest) = some (nearest d.value, rest) := by
  have h := digitsOf_decimal hlength hlow hhigh
  simp only [decimalText]
  generalize decimal d.digits = s at h
  split
  · rename_i hinteger
    exact h.read_integer hrest hinteger.1
  · rename_i hinteger
    split
    · rename_i hbetween
      exact h.read_point hrest hbetween.1 (by omega)
    · rename_i hbetween
      split
      · rename_i hbelow
        exact h.read_below hrest hbelow.2
      · rename_i hbelow
        have hread := h.read_exponent hrest (by omega)
        have hsign : ((if 0 < d.point then js "+" else js "-") : JsString) =
            [if d.point ≤ 0 then 0x2D else 0x2B] := by
          by_cases hpos : 0 < d.point
          · rw [if_pos hpos, if_neg (by omega)]
            rfl
          · rw [if_neg hpos, if_pos (by omega)]
            rfl
        have he : js "e" = [0x65] := rfl
        rw [hsign, he]
        split
        · rename_i hone
          have hlen := h.length
          rw [List.take_of_length_le (by omega), List.drop_of_length_le (by omega), fractionText,
            if_pos rfl, List.nil_append] at hread
          simpa using hread
        · rename_i hone
          have hlen := h.length
          have hlong := h.long
          have hdrop : s.drop 1 ≠ [] := by
            intro hnil
            have := congrArg List.length hnil
            rw [List.length_drop, List.length_nil] at this
            omega
          have hdot : js "." = [0x2E] := rfl
          rw [fractionText, if_neg hdrop] at hread
          rw [hdot]
          simpa using hread

theorem readUnsigned_positiveText {x : ℚ} (h : IsDouble x) (hpos : 0 < x) (hrest : Stops rest) :
    readUnsigned (positiveText x ++ rest) = some (x, rest) := by
  obtain ⟨d, hd, hlength, hlow, hhigh, hread⟩ := shortest_denotes h hpos
  rw [positiveText, hd]
  show readUnsigned (decimalText d ++ rest) = some (x, rest)
  rw [readUnsigned_decimalText hlength hlow hhigh hrest, hread]

theorem isDouble_neg {x : ℚ} (h : IsDouble x) :
    IsDouble (-x) := by
  obtain ⟨m, e, hm, hlow, hhigh, rfl⟩ := h
  refine ⟨-m, e, by rwa [abs_neg], hlow, hhigh, ?_⟩
  push_cast
  ring

theorem readNumber_of_readUnsigned {text : JsString} {read : ℚ × JsString}
    (h : readUnsigned text = some read) :
    readNumber text = some read := by
  cases text with
  | nil => exact h
  | cons u rest =>
    by_cases hminus : u = 0x2D
    · rw [hminus, readUnsigned] at h
      have hnone : (0x2D :: rest).takeWhile isDigit = [] := by
        rw [List.takeWhile_cons_of_neg (by decide)]
      rw [hnone, if_pos (Or.inl rfl)] at h
      cases h
    · rw [readNumber, if_neg hminus]
      exact h

/-- **Every finite double is read back from its text.** -/
theorem readNumber_numberToString {x : ℚ} (h : IsDouble x) (hrest : Stops rest) :
    readNumber (numberToString x ++ rest) = some (x, rest) := by
  rw [numberToString]
  split
  · rename_i hzero
    have htake : ([0x30] ++ rest).takeWhile isDigit = [0x30] ∧
        ([0x30] ++ rest).dropWhile isDigit = rest :=
      takeWhile_digits (by
        intro u hu
        rw [List.mem_singleton.mp hu]
        decide) fun u hu => (hrest u hu).1
    have hfraction := @readFraction_text [] rest
      (by
        intro u hu
        cases hu)
      (fun u hu => (hrest u hu).1) (fun hu => (hrest _ hu).2.1 rfl)
    rw [fractionText, if_pos rfl, List.nil_append] at hfraction
    refine readNumber_of_readUnsigned ?_
    have hjs : js "0" = [0x30] := rfl
    rw [hjs, readUnsigned, htake.1, htake.2, if_neg (by simp), hfraction]
    simp only [readExponent_none hrest, hzero]
    rfl
  · rename_i hzero
    split
    · rename_i hneg
      have hminus : js "-" = [0x2D] := rfl
      rw [hminus, List.append_assoc, List.singleton_append, readNumber, if_pos rfl,
        readUnsigned_positiveText (isDouble_neg h) (by linarith) hrest, Option.map_some, neg_neg]
    · rename_i hneg
      exact readNumber_of_readUnsigned
        (readUnsigned_positiveText h (lt_of_le_of_ne (not_lt.mp hneg) (Ne.symm hzero)) hrest)

end Reading

end NumberText

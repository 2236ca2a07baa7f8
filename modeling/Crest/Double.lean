import Mathlib.Algebra.Order.Field.Power
import Mathlib.Data.Int.Log
import Mathlib.Data.Rat.Floor

/-!
# Doubles and their shortest decimals

A finite double is a rational number: an integer of at most 53 bits times a power of two within
the exponent range.  A rational number is read as the nearest double, where of two equally near
ones the even one is taken.  A double is written with the fewest decimal digits that are read as
it.
-/

namespace Double

/-- The finite doubles. -/
def IsDouble (q : ℚ) : Prop :=
  ∃ m e : ℤ, |m| < 2 ^ 53 ∧ -1074 ≤ e ∧ e ≤ 971 ∧ q = m * 2 ^ e

/-- The nearest integer, the even one of two. -/
def roundHalfEven (r : ℚ) : ℤ :=
  if r - ⌊r⌋ < 1 / 2 then ⌊r⌋
  else if 1 / 2 < r - ⌊r⌋ then ⌊r⌋ + 1
  else if ⌊r⌋ % 2 = 0 then ⌊r⌋
  else ⌊r⌋ + 1

/-- The exponent of the last bit of a double near a positive number. -/
def lastBit (q : ℚ) : ℤ := max (-1074) (Int.log 2 q - 52)

/-- The double that a positive number is read as, as long as it is not too large for any. -/
def nearest (q : ℚ) : ℚ := roundHalfEven (q / 2 ^ lastBit q) * 2 ^ lastBit q

/-- A positive decimal: `digits` has `length` digits, and the decimal point is after `point` of
them. -/
structure Decimal where
  digits : ℕ
  length : ℕ
  point : ℤ
deriving DecidableEq, Repr

/-- The number a decimal stands for. -/
def Decimal.value (d : Decimal) : ℚ := d.digits * 10 ^ (d.point - d.length)

/-- The decimal has as many digits as it says, and is read as the number. -/
def Decimal.Denotes (d : Decimal) (x : ℚ) : Prop :=
  10 ^ (d.length - 1) ≤ d.digits ∧ d.digits < 10 ^ d.length ∧ nearest d.value = x

instance (d : Decimal) (x : ℚ) : Decidable (d.Denotes x) :=
  inferInstanceAs (Decidable (_ ∧ _ ∧ _))

/-- The decimals of a length next to a number, the nearer one first. -/
def candidates (x : ℚ) (length : ℕ) : List Decimal :=
  let p := Int.log 10 x
  let exact := x * 10 ^ ((length : ℤ) - 1 - p)
  let below : Decimal := ⟨⌊exact⌋₊, length, p + 1⟩
  let above : Decimal :=
    if ⌊exact⌋₊ + 1 = 10 ^ length then ⟨10 ^ (length - 1), length, p + 2⟩
    else ⟨⌊exact⌋₊ + 1, length, p + 1⟩
  if exact - ⌊exact⌋₊ ≤ 1 / 2 then [below, above] else [above, below]

/-- The first decimal that is read as the number, from a length on. -/
def shortestFrom (x : ℚ) : ℕ → ℕ → Option Decimal
  | 0, _ => none
  | fuel + 1, length =>
    match (candidates x length).find? fun d => d.Denotes x with
    | some d => some d
    | none => shortestFrom x fuel (length + 1)

/-- The shortest decimal that is read as a positive double. -/
def shortest (x : ℚ) : Option Decimal := shortestFrom x 2200 1

theorem roundHalfEven_intCast (z : ℤ) : roundHalfEven (z : ℚ) = z := by
  rw [roundHalfEven, Int.floor_intCast, sub_self, if_pos (by norm_num)]

theorem IsDouble.mantissa_pos {m e : ℤ} (h : (0 : ℚ) < m * 2 ^ e) :
    0 < m := by
  have hpow : (0 : ℚ) < 2 ^ e := by positivity
  have hm : (0 : ℚ) < m := (mul_pos_iff_of_pos_right hpow).mp h
  exact_mod_cast hm

theorem lastBit_le {m e : ℤ} (hm : 0 < m) (hlt : m < 2 ^ 53) (he : -1074 ≤ e) :
    lastBit (m * 2 ^ e) ≤ e := by
  have hpos : (0 : ℚ) < m * 2 ^ e := by
    have : (0 : ℚ) < m := by exact_mod_cast hm
    positivity
  have hlt' : (m : ℚ) * 2 ^ e < 2 ^ (e + 53) := by
    rw [zpow_add₀ (by norm_num), mul_comm]
    have hq : (m : ℚ) < 2 ^ (53 : ℤ) := by exact_mod_cast hlt
    exact mul_lt_mul_of_pos_left hq (by positivity)
  have hlog : Int.log 2 ((m : ℚ) * 2 ^ e) < e + 53 := by
    refine (Int.lt_zpow_iff_log_lt (by norm_num) hpos).mp ?_
    exact_mod_cast hlt'
  rw [lastBit]
  omega

variable {x : ℚ}

/-- **A double is read as itself.** -/
theorem nearest_of_isDouble (h : IsDouble x) (hpos : 0 < x) :
    nearest x = x := by
  obtain ⟨m, e, hm, he, -, rfl⟩ := h
  have hmpos := IsDouble.mantissa_pos hpos
  have hle := lastBit_le hmpos (lt_of_le_of_lt (le_abs_self m) hm) he
  generalize hbit : lastBit (m * 2 ^ e) = b at hle
  obtain ⟨j, rfl⟩ := Int.le.dest hle
  have hpow : (2 : ℚ) ^ b ≠ 0 := by positivity
  have hquot : (m : ℚ) * 2 ^ (b + j) / 2 ^ b = ((m * 2 ^ j : ℤ) : ℚ) := by
    rw [zpow_add₀ (by norm_num)]
    push_cast
    field_simp
    rw [zpow_natCast]
  rw [nearest, hbit, hquot, roundHalfEven_intCast, zpow_add₀ (by norm_num)]
  push_cast
  rw [zpow_natCast]
  ring

theorem denotes_exact {length s : ℕ} (hdouble : IsDouble x) (hpos : 0 < x)
    (hlength : 1 ≤ length) (hexact : x * 10 ^ ((length : ℤ) - 1 - Int.log 10 x) = s) :
    Decimal.Denotes ⟨s, length, Int.log 10 x + 1⟩ x := by
  have hten : (10 : ℚ) ≠ 0 := by norm_num
  have hlow : (10 : ℚ) ^ Int.log 10 x ≤ x := by
    exact_mod_cast Int.zpow_log_le_self (b := 10) (by norm_num) hpos
  have hhigh : x < (10 : ℚ) ^ (Int.log 10 x + 1) := by
    exact_mod_cast Int.lt_zpow_succ_log_self (b := 10) (by norm_num) x
  have hscale : (0 : ℚ) < 10 ^ ((length : ℤ) - 1 - Int.log 10 x) := by positivity
  refine ⟨?_, ?_, ?_⟩
  · have hle := mul_le_mul_of_nonneg_right hlow hscale.le
    rw [← zpow_add₀ hten, hexact] at hle
    have hexp : Int.log 10 x + ((length : ℤ) - 1 - Int.log 10 x) = ((length - 1 : ℕ) : ℤ) := by
      omega
    rw [hexp, zpow_natCast] at hle
    exact_mod_cast hle
  · have hlt := mul_lt_mul_of_pos_right hhigh hscale
    rw [← zpow_add₀ hten, hexact] at hlt
    have hexp : Int.log 10 x + 1 + ((length : ℤ) - 1 - Int.log 10 x) = (length : ℤ) := by
      omega
    rw [hexp, zpow_natCast] at hlt
    exact_mod_cast hlt
  · have hvalue : Decimal.value ⟨s, length, Int.log 10 x + 1⟩ = x := by
      rw [Decimal.value]
      show (s : ℚ) * 10 ^ (Int.log 10 x + 1 - (length : ℤ)) = x
      rw [← hexact, mul_assoc, ← zpow_add₀ hten]
      have hexp : (length : ℤ) - 1 - Int.log 10 x + (Int.log 10 x + 1 - (length : ℤ)) = 0 := by
        omega
      rw [hexp, zpow_zero, mul_one]
    rw [hvalue]
    exact nearest_of_isDouble hdouble hpos

theorem exact_of_le {m e : ℤ} {places : ℕ} (hpos : (0 : ℚ) < m * 2 ^ e) (h : -e ≤ places) :
    ∃ s : ℕ, (m : ℚ) * 2 ^ e * 10 ^ (places : ℤ) = s := by
  obtain ⟨j, hj⟩ := Int.eq_ofNat_of_zero_le (show 0 ≤ (places : ℤ) + e by omega)
  have hm := IsDouble.mantissa_pos hpos
  refine ⟨(m * 2 ^ j * 5 ^ places).toNat, ?_⟩
  have hnonneg : 0 ≤ m * 2 ^ j * 5 ^ places := by positivity
  have hcast : (((m * 2 ^ j * 5 ^ places).toNat : ℤ) : ℚ) = ((m * 2 ^ j * 5 ^ places : ℤ) : ℚ) := by
    rw [Int.toNat_of_nonneg hnonneg]
  have hsplit : (10 : ℚ) ^ (places : ℤ) = 2 ^ (places : ℤ) * 5 ^ (places : ℤ) := by
    rw [← mul_zpow]
    norm_num
  have hpow : (2 : ℚ) ^ e * 2 ^ (places : ℤ) = 2 ^ j := by
    rw [← zpow_add₀ (by norm_num), add_comm, hj]
    exact zpow_natCast _ _
  calc (m : ℚ) * 2 ^ e * 10 ^ (places : ℤ)
      = m * (2 ^ e * 2 ^ (places : ℤ)) * 5 ^ (places : ℤ) := by
        rw [hsplit]
        ring
    _ = ((m * 2 ^ j * 5 ^ places : ℤ) : ℚ) := by
        rw [hpow, zpow_natCast]
        push_cast
        ring
    _ = _ := by
        rw [← hcast]
        norm_cast

theorem log_lt (h : IsDouble x) (hpos : 0 < x) :
    Int.log 10 x < 1024 := by
  obtain ⟨m, e, hm, -, he, rfl⟩ := h
  refine (Int.lt_zpow_iff_log_lt (by norm_num) hpos).mp ?_
  have hmpos := IsDouble.mantissa_pos hpos
  have hmlt : (m : ℚ) < 2 ^ (53 : ℤ) := by
    have := lt_of_le_of_lt (le_abs_self m) hm
    exact_mod_cast this
  have hfirst : (m : ℚ) * 2 ^ e < 2 ^ (53 : ℤ) * 2 ^ e :=
    mul_lt_mul_of_pos_right hmlt (by positivity)
  have hsecond : (2 : ℚ) ^ (53 : ℤ) * 2 ^ e ≤ 2 ^ (1024 : ℤ) := by
    rw [← zpow_add₀ (by norm_num)]
    exact zpow_le_zpow_right₀ (by norm_num) (by omega)
  have hthird : (2 : ℚ) ^ (1024 : ℤ) ≤ ((10 : ℕ) : ℚ) ^ (1024 : ℤ) :=
    zpow_le_zpow_left₀ (by norm_num) (by norm_num) (by norm_num)
  exact lt_of_lt_of_le (lt_of_lt_of_le hfirst hsecond) hthird

theorem shortestFrom_isSome {fuel length : ℕ} (goal : ℕ) (hle : length ≤ goal)
    (hlt : goal < length + fuel) (hgoal : ∃ d ∈ candidates x goal, d.Denotes x) :
    (shortestFrom x fuel length).isSome = true := by
  induction fuel generalizing length with
  | zero => omega
  | succ fuel ih =>
    rw [shortestFrom]
    cases hfind : (candidates x length).find? fun d => d.Denotes x with
    | some d => rfl
    | none =>
      refine ih ?_ (by omega)
      rcases Nat.lt_or_ge length goal with hlater | hnow
      · exact hlater
      · obtain rfl : length = goal := le_antisymm hle hnow
        obtain ⟨d, hmem, hdenotes⟩ := hgoal
        rw [List.find?_eq_none] at hfind
        exact absurd (by simpa using hdenotes) (hfind d hmem)

theorem shortestFrom_denotes {fuel length : ℕ} {d : Decimal}
    (h : shortestFrom x fuel length = some d) :
    length ≤ d.length ∧ d.Denotes x := by
  induction fuel generalizing length with
  | zero => cases h
  | succ fuel ih =>
    rw [shortestFrom] at h
    cases hfind : (candidates x length).find? fun d => d.Denotes x with
    | none =>
      rw [hfind] at h
      obtain ⟨hle, hdenotes⟩ := ih h
      exact ⟨Nat.le_of_succ_le hle, hdenotes⟩
    | some found =>
      rw [hfind] at h
      obtain rfl : found = d := Option.some.inj h
      have hmem := List.mem_of_find?_eq_some hfind
      have hdenotes : found.Denotes x := by
        simpa using List.find?_some hfind
      refine ⟨?_, hdenotes⟩
      have hlength : found.length = length := by
        simp only [candidates] at hmem
        split at hmem
        · rcases List.mem_cons.mp hmem with rfl | hmem
          · rfl
          · rw [List.mem_singleton.mp hmem]
            split <;> rfl
        · rcases List.mem_cons.mp hmem with rfl | hmem
          · split <;> rfl
          · rw [List.mem_singleton.mp hmem]
      exact le_of_eq hlength.symm

/-- **Every positive double has a shortest decimal, which is read as the double.** -/
theorem shortest_denotes (h : IsDouble x) (hpos : 0 < x) :
    ∃ d, shortest x = some d ∧ 1 ≤ d.length ∧ d.Denotes x := by
  have hlog := log_lt h hpos
  have hdouble := h
  obtain ⟨m, e, -, he, -, rfl⟩ := h
  -- so many places after the first digit leave nothing behind them
  let length := 1 + (Int.log 10 ((m : ℚ) * 2 ^ e) + 1074).toNat
  have hsome : (shortest ((m : ℚ) * 2 ^ e)).isSome = true := by
    refine shortestFrom_isSome length ?_ ?_ ?_
    · omega
    · omega
    · have hplaces : 0 ≤ (length : ℤ) - 1 - Int.log 10 ((m : ℚ) * 2 ^ e) := by omega
      obtain ⟨places, hplaces⟩ := Int.eq_ofNat_of_zero_le hplaces
      have hfits : -e ≤ (places : ℤ) := by omega
      obtain ⟨s, hs⟩ := exact_of_le hpos hfits
      have hexact : (m : ℚ) * 2 ^ e *
          10 ^ ((length : ℤ) - 1 - Int.log 10 ((m : ℚ) * 2 ^ e)) = s := by
        rw [hplaces]
        exact hs
      refine ⟨_, ?_, denotes_exact hdouble hpos (by omega) hexact⟩
      simp only [candidates, hexact, Nat.floor_natCast]
      split
      · exact List.mem_cons_self
      · exact List.mem_cons_of_mem _ List.mem_cons_self
  obtain ⟨d, hd⟩ := Option.isSome_iff_exists.mp hsome
  obtain ⟨hle, hdenotes⟩ := shortestFrom_denotes hd
  exact ⟨d, hd, hle, hdenotes⟩

end Double

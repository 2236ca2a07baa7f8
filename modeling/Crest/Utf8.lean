import Crest.Utf16

/-!
# Reading UTF-8

What was written as UTF-8 is read back.
-/

namespace Encoding

/-- The character that stands for bytes that are no UTF-8. -/
def replacement : Char := Char.ofNat 0xFFFD

/-- The characters that are written with these bytes. -/
def decodeUtf8 : List UInt8 → List Char
  | [] => []
  | a :: rest =>
    if a.toNat < 0x80 then Char.ofNat a.toNat :: decodeUtf8 rest
    else if a.toNat < 0xe0 then
      match rest with
      | b :: rest => Char.ofNat (a.toNat % 0x20 * 64 + b.toNat % 64) :: decodeUtf8 rest
      | [] => [replacement]
    else if a.toNat < 0xf0 then
      match rest with
      | b :: c :: rest =>
        Char.ofNat (a.toNat % 0x10 * 4096 + b.toNat % 64 * 64 + c.toNat % 64) ::
          decodeUtf8 rest
      | _ => [replacement]
    else
      match rest with
      | b :: c :: d :: rest =>
        Char.ofNat (a.toNat % 0x08 * 262144 + b.toNat % 64 * 4096 + c.toNat % 64 * 64 +
          d.toNat % 64) :: decodeUtf8 rest
      | _ => [replacement]

theorem decodeUtf8_encodeChar (c : Char) (rest : List UInt8) :
    decodeUtf8 (String.utf8EncodeChar c ++ rest) = c :: decodeUtf8 rest := by
  have hvalid := JsString.char_bounds c
  have hval : c.val.toNat = c.toNat := rfl
  have hread : ∀ n, n = c.toNat → Char.ofNat n = c := by
    rintro n rfl
    exact Char.ofNat_toNat c
  fun_cases String.utf8EncodeChar c with
  | case1 v hsmall =>
    rw [List.singleton_append, decodeUtf8.eq_def]
    simp only [UInt8.toNat_ofNat']
    rw [if_pos (by omega), hread _ (by omega)]
  | case2 v hsmall hmid =>
    simp only [List.cons_append, List.nil_append, decodeUtf8, UInt8.toNat_ofNat']
    rw [if_neg (by omega), if_pos (by omega), hread _ (by omega)]
  | case3 v hsmall hmid hlarge =>
    simp only [List.cons_append, List.nil_append, decodeUtf8, UInt8.toNat_ofNat']
    rw [if_neg (by omega), if_neg (by omega), if_pos (by omega), hread _ (by omega)]
  | case4 v hsmall hmid hlarge =>
    simp only [List.cons_append, List.nil_append, decodeUtf8, UInt8.toNat_ofNat']
    rw [if_neg (by omega), if_neg (by omega), if_neg (by omega), hread _ (by omega)]

end Encoding

/-- `Buffer.toString("utf8")`. -/
def JsString.fromUtf8 (bytes : List UInt8) : JsString :=
  (Encoding.decodeUtf8 bytes).flatMap utf16Units

namespace Encoding

theorem decodeUtf8_flatMap (s : List Char) :
    decodeUtf8 (s.flatMap String.utf8EncodeChar) = s := by
  induction s with
  | nil => rfl
  | cons c s ih => rw [List.flatMap_cons, decodeUtf8_encodeChar, ih]

end Encoding

namespace JsString

theorem fromUtf8_utf8 (s : JsString) :
    fromUtf8 (utf8 s) = (codePoints s).flatMap utf16Units := by
  rw [fromUtf8, utf8, Encoding.decodeUtf8_flatMap]

theorem utf16Units_cases (c : Char) :
    (∃ u, utf16Units c = [u] ∧ isHighSurrogate u = false ∧ isLowSurrogate u = false) ∨
      ∃ u v, utf16Units c = [u, v] ∧ isHighSurrogate u = true ∧ isLowSurrogate v = true := by
  have hc := char_bounds c
  unfold utf16Units
  split
  · have hunit : (UInt16.ofNat c.toNat).toNat = c.toNat := by
      simp
      omega
    refine Or.inl ⟨_, rfl, ?_, ?_⟩
    · simp [isHighSurrogate, UInt16.le_iff_toNat_le, hunit]
      omega
    · simp [isLowSurrogate, UInt16.le_iff_toNat_le, hunit]
      omega
  · have hu : (UInt16.ofNat (0xD800 + (c.toNat - 0x10000) / 0x400)).toNat =
        0xD800 + (c.toNat - 0x10000) / 0x400 := by
      simp
      omega
    have hv : (UInt16.ofNat (0xDC00 + (c.toNat - 0x10000) % 0x400)).toNat =
        0xDC00 + (c.toNat - 0x10000) % 0x400 := by
      simp
      omega
    refine Or.inr ⟨_, _, rfl, ?_, ?_⟩
    · simp only [isHighSurrogate, Bool.and_eq_true, decide_eq_true_eq, UInt16.le_iff_toNat_le, hu]
      refine ⟨?_, ?_⟩
      · simp
      · show _ ≤ 0xDBFF
        omega
    · simp only [isLowSurrogate, Bool.and_eq_true, decide_eq_true_eq, UInt16.le_iff_toNat_le, hv]
      refine ⟨?_, ?_⟩
      · simp
      · show _ ≤ 0xDFFF
        omega

theorem formed_flatMap (s : List Char) :
    hasUnpairedSurrogate (s.flatMap utf16Units) = false := by
  induction s with
  | nil => rfl
  | cons c s ih =>
    rw [List.flatMap_cons]
    rcases utf16Units_cases c with ⟨u, hunits, hhigh, hlow⟩ | ⟨u, v, hunits, hhigh, hlow⟩
    · rw [hunits]
      generalize s.flatMap utf16Units = rest at ih ⊢
      cases rest with
      | nil => simp [hasUnpairedSurrogate, hhigh, hlow]
      | cons v rest => simpa [hasUnpairedSurrogate, hhigh, hlow] using ih
    · rw [hunits]
      simpa [hasUnpairedSurrogate, hhigh, hlow] using ih

theorem formed_fromUtf8 (bytes : List UInt8) :
    hasUnpairedSurrogate (fromUtf8 bytes) = false :=
  formed_flatMap _

theorem utf16Units_unitChar (u : UInt16) (hhigh : isHighSurrogate u = false)
    (hlow : isLowSurrogate u = false) :
    utf16Units (unitChar u) = [u] := by
  have hu : u.toNat < 0xD800 ∨ 0xDFFF < u.toNat := by
    have hone : ¬ (0xD800 ≤ u.toNat ∧ u.toNat ≤ 0xDBFF) := by
      simpa [isHighSurrogate, UInt16.le_iff_toNat_le] using hhigh
    have htwo : ¬ (0xDC00 ≤ u.toNat ∧ u.toNat ≤ 0xDFFF) := by
      simpa [isLowSurrogate, UInt16.le_iff_toNat_le] using hlow
    omega
  have hlt := u.toNat_lt
  have hvalid : u.toNat.isValidChar := by
    rcases hu with h | h
    · exact Or.inl h
    · exact Or.inr ⟨h, by omega⟩
  have hnat : (Char.ofNat u.toNat).toNat = u.toNat := by
    rw [Char.ofNat, dif_pos hvalid]
    rfl
  rw [unitChar, hhigh, hlow]
  simp only [Bool.or_self, Bool.false_eq_true, if_false]
  rw [utf16Units, hnat, if_pos (by omega), UInt16.ofNat_toNat]

theorem utf16Units_pairChar (u v : UInt16) (hhigh : isHighSurrogate u = true)
    (hlow : isLowSurrogate v = true) :
    utf16Units (pairChar u v) = [u, v] := by
  have hu : 0xD800 ≤ u.toNat ∧ u.toNat ≤ 0xDBFF := by
    simpa [isHighSurrogate, UInt16.le_iff_toNat_le] using hhigh
  have hv : 0xDC00 ≤ v.toNat ∧ v.toNat ≤ 0xDFFF := by
    simpa [isLowSurrogate, UInt16.le_iff_toNat_le] using hlow
  have hvalid : Nat.isValidChar
      (0x10000 + (u.toNat - 0xD800) * 0x400 + (v.toNat - 0xDC00)) :=
    Or.inr ⟨by omega, by omega⟩
  have hnat : (pairChar u v).toNat =
      0x10000 + (u.toNat - 0xD800) * 0x400 + (v.toNat - 0xDC00) := by
    rw [pairChar, Char.ofNat, dif_pos hvalid]
    rfl
  rw [utf16Units, hnat, if_neg (by omega)]
  have hdiv : 0xD800 + (0x10000 + (u.toNat - 0xD800) * 0x400 + (v.toNat - 0xDC00) -
      0x10000) / 0x400 = u.toNat := by
    omega
  have hmod : 0xDC00 + (0x10000 + (u.toNat - 0xD800) * 0x400 + (v.toNat - 0xDC00) -
      0x10000) % 0x400 = v.toNat := by
    omega
  simp only [hdiv, hmod, UInt16.ofNat_toNat]

theorem flatMap_codePoints (s : JsString) (h : hasUnpairedSurrogate s = false) :
    (codePoints s).flatMap utf16Units = s := by
  fun_induction codePoints s with
  | case1 => rfl
  | case2 u =>
    simp only [hasUnpairedSurrogate, Bool.or_eq_false_iff] at h
    rw [List.flatMap_cons, utf16Units_unitChar u h.1 h.2]
    rfl
  | case3 u v rest hpair ih =>
    obtain ⟨hhigh, hlow⟩ := Bool.and_eq_true_iff.mp hpair
    rw [hasUnpairedSurrogate, if_pos hhigh, if_pos hlow] at h
    rw [List.flatMap_cons, utf16Units_pairChar u v hhigh hlow, ih h]
    rfl
  | case4 u v rest hpair ih =>
    rw [hasUnpairedSurrogate] at h
    split at h
    · rename_i hhigh
      split at h
      · rename_i hlow
        exact absurd (Bool.and_eq_true_iff.mpr ⟨hhigh, hlow⟩) hpair
      · cases h
    · rename_i hhigh
      split at h
      · cases h
      · rename_i hlow
        rw [List.flatMap_cons, utf16Units_unitChar u (Bool.eq_false_iff.mpr hhigh)
          (Bool.eq_false_iff.mpr hlow), ih h]
        rfl

/-- **A string without unpaired surrogates is read back from its bytes, and no other is.** -/
theorem fromUtf8_utf8_iff (s : JsString) :
    fromUtf8 (utf8 s) = s ↔ hasUnpairedSurrogate s = false := by
  constructor
  · intro h
    rw [← h]
    exact formed_fromUtf8 _
  · intro h
    rw [fromUtf8_utf8, flatMap_codePoints s h]

end JsString

import Crest.JsMap
import Crest.NumberText

/-!
# JSON text

`JSON.parse`: a text is read as a value, with an object for every list of fields, in which a key
that comes again has its last value and which enumerates array indices first.

What `JSON.stringify` has written is read as it was.
-/

namespace JsonText

open JsString NumberText

section Code

/-- Whether a code unit is white space between the parts of a text. -/
def isSpace (u : UInt16) : Bool := u == 0x20 || u == 0x09 || u == 0x0A || u == 0x0D

/-- The text after white space. -/
def skipSpace (text : JsString) : JsString := text.dropWhile isSpace

/-- The value of a hexadecimal digit. -/
def hexValue (u : UInt16) : Option ℕ :=
  if 0x30 ≤ u ∧ u ≤ 0x39 then some (u.toNat - 0x30)
  else if 0x61 ≤ u ∧ u ≤ 0x66 then some (u.toNat - 0x57)
  else if 0x41 ≤ u ∧ u ≤ 0x46 then some (u.toNat - 0x37)
  else none

/-- The code unit of four hexadecimal digits. -/
def hexUnit (a b c d : UInt16) : Option UInt16 :=
  match hexValue a, hexValue b, hexValue c, hexValue d with
  | some a, some b, some c, some d => some (UInt16.ofNat (((a * 16 + b) * 16 + c) * 16 + d))
  | _, _, _, _ => none

/-- The code unit that a letter after a backslash stands for. -/
def simpleEscape (u : UInt16) : Option UInt16 :=
  if u = 0x22 then some 0x22
  else if u = 0x5C then some 0x5C
  else if u = 0x2F then some 0x2F
  else if u = 0x62 then some 0x08
  else if u = 0x66 then some 0x0C
  else if u = 0x6E then some 0x0A
  else if u = 0x72 then some 0x0D
  else if u = 0x74 then some 0x09
  else none

/-- A string after its first quote, and what follows the second one. -/
def readString : JsString → Option (JsString × JsString)
  | [] => none
  | u :: rest =>
    if u = 0x22 then some ([], rest)
    else if u = 0x5C then
      match rest with
      | [] => none
      | v :: rest =>
        if v = 0x75 then
          match rest with
          | a :: b :: c :: d :: rest =>
            match hexUnit a b c d with
            | none => none
            | some w => (readString rest).map fun read => (w :: read.1, read.2)
          | _ => none
        else
          match simpleEscape v with
          | none => none
          | some w => (readString rest).map fun read => (w :: read.1, read.2)
    else if u < 0x20 then none
    else (readString rest).map fun read => (u :: read.1, read.2)

/-- The text after a word. -/
def readWord (word text : JsString) : Option JsString :=
  if word.isPrefixOf text then some (text.drop word.length) else none

mutual

/-- A value, and what follows it. -/
def readValue : ℕ → JsString → Option (Json × JsString)
  | 0, _ => none
  | fuel + 1, text =>
    match skipSpace text with
    | [] => none
    | u :: rest =>
      if u = 0x22 then (readString rest).map fun read => (.str read.1, read.2)
      else if u = 0x5B then
        match skipSpace rest with
        | [] => none
        | v :: more =>
          if v = 0x5D then some (.arr [], more)
          else (readItems fuel rest).map fun read => (.arr read.1, read.2)
      else if u = 0x7B then
        match skipSpace rest with
        | [] => none
        | v :: more =>
          if v = 0x7D then some (.obj [], more)
          else (readFields fuel rest).map fun read => (.obj read.1, read.2)
      else if u = 0x6E then (readWord (js "ull") rest).map fun rest => (.null, rest)
      else if u = 0x74 then (readWord (js "rue") rest).map fun rest => (.bool true, rest)
      else if u = 0x66 then (readWord (js "alse") rest).map fun rest => (.bool false, rest)
      else (readNumber (u :: rest)).map fun read => (.num read.1, read.2)

/-- The items of an array up to its end. -/
def readItems : ℕ → JsString → Option (List Json × JsString)
  | 0, _ => none
  | fuel + 1, text =>
    match readValue fuel text with
    | none => none
    | some (v, rest) =>
      match skipSpace rest with
      | [] => none
      | u :: more =>
        if u = 0x2C then (readItems fuel more).map fun read => (v :: read.1, read.2)
        else if u = 0x5D then some ([v], more)
        else none

/-- The fields of an object up to its end. -/
def readFields : ℕ → JsString → Option (List (JsString × Json) × JsString)
  | 0, _ => none
  | fuel + 1, text =>
    match skipSpace text with
    | [] => none
    | quote :: rest =>
      if quote ≠ 0x22 then none
      else
        match readString rest with
        | none => none
        | some (key, rest) =>
          match skipSpace rest with
          | [] => none
          | colon :: rest =>
            if colon ≠ 0x3A then none
            else
              match readValue fuel rest with
              | none => none
              | some (v, rest) =>
                match skipSpace rest with
                | [] => none
                | u :: more =>
                  if u = 0x2C then
                    (readFields fuel more).map fun read =>
                      ((key, v) :: read.1, read.2)
                  else if u = 0x7D then some ([(key, v)], more)
                  else none

end

/-- A whole text, as the value it spells out. -/
def read (text : JsString) : Option Json :=
  match readValue (text.length + 1) text with
  | none => none
  | some (v, rest) => if skipSpace rest = [] then some v else none

/-- The fields of an object whose properties are set one after the other, as it enumerates
them. -/
def objectFields (members : List (JsString × Json)) : List (JsString × Json) :=
  let fields := members.foldl (fun fields member => JsMap.setEntries member.1 member.2 fields) []
  (fields.filter fun field => Json.isArrayIndex field.1).insertionSort
      (fun a b => Json.digitsValue a.1 ≤ Json.digitsValue b.1) ++
    fields.filter fun field => !Json.isArrayIndex field.1

mutual

/-- The value that is made of what a text spells out. -/
def build : Json → Json
  | .null => .null
  | .bool b => .bool b
  | .num n => .num n
  | .str s => .str s
  | .arr items => .arr (buildItems items)
  | .obj fields => .obj (objectFields (buildFields fields))

/-- The items of an array. -/
def buildItems : List Json → List Json
  | [] => []
  | v :: rest => build v :: buildItems rest

/-- The fields of an object, one by one. -/
def buildFields : List (JsString × Json) → List (JsString × Json)
  | [] => []
  | (key, v) :: rest => (key, build v) :: buildFields rest

end

def parse (text : JsString) : Option Json := (read text).map build

example : readValue 0 [] = none := by rw [readValue]

end Code

section Strings

theorem hexValue_digit (d : ℕ) (h : d < 16) :
    hexValue (UInt16.ofNat (if d < 10 then 0x30 + d else 0x57 + d)) = some d := by
  interval_cases d <;> decide

theorem readString_quote (rest : JsString) : readString (0x22 :: rest) = some ([], rest) := by
  rw [readString.eq_def]
  rfl

theorem readString_plain (u : UInt16) (rest : JsString) (hquote : u ≠ 0x22)
    (hbackslash : u ≠ 0x5C) (hcontrol : ¬ u < 0x20) :
    readString (u :: rest) = (readString rest).map fun read => (u :: read.1, read.2) := by
  rw [readString.eq_def]
  simp only [if_neg hquote, if_neg hbackslash, if_neg hcontrol]

theorem readString_simpleEscape (v w : UInt16) (rest : JsString) (hv : v ≠ 0x75)
    (hescape : simpleEscape v = some w) :
    readString (0x5C :: v :: rest) =
      (readString rest).map fun read => (w :: read.1, read.2) := by
  rw [readString.eq_def]
  have hquote : (0x5C : UInt16) ≠ 0x22 := by decide
  simp only [if_neg hquote, if_true, if_neg hv, hescape]

theorem readString_hex4 (u : UInt16) (rest : JsString) :
    readString (js "\\u" ++ Json.hex4 u ++ rest) =
      (readString rest).map fun read => (u :: read.1, read.2) := by
  have hlt := u.toNat_lt
  have hunit : hexUnit (UInt16.ofNat (if u.toNat / 4096 < 10 then 0x30 + u.toNat / 4096
        else 0x57 + u.toNat / 4096))
      (UInt16.ofNat (if u.toNat / 256 % 16 < 10 then 0x30 + u.toNat / 256 % 16
        else 0x57 + u.toNat / 256 % 16))
      (UInt16.ofNat (if u.toNat / 16 % 16 < 10 then 0x30 + u.toNat / 16 % 16
        else 0x57 + u.toNat / 16 % 16))
      (UInt16.ofNat (if u.toNat % 16 < 10 then 0x30 + u.toNat % 16
        else 0x57 + u.toNat % 16)) = some u := by
    have hsum : ((u.toNat / 4096 * 16 + u.toNat / 256 % 16) * 16 + u.toNat / 16 % 16) * 16 +
        u.toNat % 16 = u.toNat := by
      omega
    rw [hexUnit, hexValue_digit _ (by omega), hexValue_digit _ (by omega),
      hexValue_digit _ (by omega), hexValue_digit _ (by omega)]
    simp only [hsum, UInt16.ofNat_toNat]
  have hu : js "\\u" = [0x5C, 0x75] := rfl
  rw [hu, Json.hex4]
  simp only [List.cons_append, List.nil_append]
  rw [readString]
  simp [hunit]

theorem readString_escapeUnit (u : UInt16) (rest : JsString) :
    readString (Json.escapeUnit u ++ rest) =
      (readString rest).map fun read => (u :: read.1, read.2) := by
  have hquote : js "\\\"" = [0x5C, 0x22] := rfl
  have hbackslash : js "\\\\" = [0x5C, 0x5C] := rfl
  have hb : js "\\b" = [0x5C, 0x62] := rfl
  have hf : js "\\f" = [0x5C, 0x66] := rfl
  have hn : js "\\n" = [0x5C, 0x6E] := rfl
  have hr : js "\\r" = [0x5C, 0x72] := rfl
  have ht : js "\\t" = [0x5C, 0x74] := rfl
  unfold Json.escapeUnit
  split_ifs with h1 h2 h3 h4 h5 h6 h7 h8
  · rw [h1, hquote]
    exact readString_simpleEscape _ _ rest (by decide) (by decide)
  · rw [h2, hbackslash]
    exact readString_simpleEscape _ _ rest (by decide) (by decide)
  · rw [h3, hb]
    exact readString_simpleEscape _ _ rest (by decide) (by decide)
  · rw [h4, hf]
    exact readString_simpleEscape _ _ rest (by decide) (by decide)
  · rw [h5, hn]
    exact readString_simpleEscape _ _ rest (by decide) (by decide)
  · rw [h6, hr]
    exact readString_simpleEscape _ _ rest (by decide) (by decide)
  · rw [h7, ht]
    exact readString_simpleEscape _ _ rest (by decide) (by decide)
  · exact readString_hex4 u rest
  · exact readString_plain u rest h1 h2 h8

theorem readString_surrogate (u : UInt16) (rest : JsString) (h : 0xD800 ≤ u) :
    readString (u :: rest) = (readString rest).map fun read => (u :: read.1, read.2) := by
  have hle : 0xD800 ≤ u.toNat := UInt16.le_iff_toNat_le.mp h
  have hquote : u ≠ 0x22 := by
    rintro rfl
    exact absurd hle (by decide)
  have hbackslash : u ≠ 0x5C := by
    rintro rfl
    exact absurd hle (by decide)
  have hlow : ¬ u < 0x20 := by
    intro hlt
    have hlt' : u.toNat < 0x20 := UInt16.lt_iff_toNat_lt.mp hlt
    omega
  exact readString_plain u rest hquote hbackslash hlow

/-- **A string is read back from its text.** -/
theorem readString_escapeString (s rest : JsString) :
    readString (Json.escapeString s ++ 0x22 :: rest) = some (s, rest) := by
  fun_induction Json.escapeString s with
  | case1 => exact readString_quote rest
  | case2 u hsurrogate =>
    rw [readString_hex4, readString_quote]
    rfl
  | case3 u hplain =>
    rw [readString_escapeUnit, readString_quote]
    rfl
  | case4 u v more hpair ih =>
    simp only [Bool.and_eq_true, decide_eq_true_eq] at hpair
    obtain ⟨⟨⟨hu, -⟩, hv⟩, -⟩ := hpair
    have hv' : 0xD800 ≤ v := by
      refine UInt16.le_iff_toNat_le.mpr ?_
      have hle : 0xDC00 ≤ v.toNat := UInt16.le_iff_toNat_le.mp hv
      have hnum : (0xD800 : UInt16).toNat = 0xD800 := rfl
      omega
    rw [List.cons_append, List.cons_append, readString_surrogate u _ hu,
      readString_surrogate v _ hv', ih]
    rfl
  | case5 u v more hpair hsurrogate ih =>
    rw [List.append_assoc, List.append_assoc, ← List.append_assoc, readString_hex4, ih]
    rfl
  | case6 u v more hpair hplain ih =>
    rw [List.append_assoc, readString_escapeUnit, ih]
    rfl

end Strings

section Shapes

variable {u : UInt16}

theorem skipSpace_cons (h : isSpace u = false) (rest : JsString) :
    skipSpace (u :: rest) = u :: rest :=
  List.dropWhile_cons_of_neg (by rw [h]; simp)

section

variable (fuel : ℕ) (rest : JsString)
include fuel rest

theorem readValue_string :
    readValue (fuel + 1) (0x22 :: rest) =
      (readString rest).map fun read => (.str read.1, read.2) := by
  rw [readValue, skipSpace_cons (by decide)]
  rfl

theorem readValue_emptyArray :
    readValue (fuel + 1) (0x5B :: 0x5D :: rest) = some (.arr [], rest) := by
  rw [readValue, skipSpace_cons (by decide)]
  simp only [skipSpace_cons (u := 0x5D) (by decide)]
  rfl

theorem readValue_array (hspace : isSpace u = false) (hclose : u ≠ 0x5D) :
    readValue (fuel + 1) (0x5B :: u :: rest) =
      (readItems fuel (u :: rest)).map fun read => (.arr read.1, read.2) := by
  rw [readValue, skipSpace_cons (by decide)]
  simp only [skipSpace_cons hspace, if_neg hclose]
  rfl

theorem readValue_emptyObject :
    readValue (fuel + 1) (0x7B :: 0x7D :: rest) = some (.obj [], rest) := by
  rw [readValue, skipSpace_cons (by decide)]
  simp only [skipSpace_cons (u := 0x7D) (by decide)]
  rfl

theorem readValue_object :
    readValue (fuel + 1) (0x7B :: 0x22 :: rest) =
      (readFields fuel (0x22 :: rest)).map fun read => (.obj read.1, read.2) := by
  rw [readValue, skipSpace_cons (by decide)]
  simp only [skipSpace_cons (u := 0x22) (by decide)]
  rfl

theorem readValue_word :
    readValue (fuel + 1) (js "null" ++ rest) = some (.null, rest) ∧
      readValue (fuel + 1) (js "true" ++ rest) = some (.bool true, rest) ∧
      readValue (fuel + 1) (js "false" ++ rest) = some (.bool false, rest) := by
  have hnull : js "null" = 0x6E :: js "ull" := rfl
  have htrue : js "true" = 0x74 :: js "rue" := rfl
  have hfalse : js "false" = 0x66 :: js "alse" := rfl
  have hword : ∀ word : JsString, readWord word (word ++ rest) = some rest := by
    intro word
    rw [readWord, if_pos (List.isPrefixOf_iff_prefix.mpr (List.prefix_append _ _)),
      List.drop_left]
  refine ⟨?_, ?_, ?_⟩
  · rw [hnull, List.cons_append, readValue, skipSpace_cons (by decide)]
    show (readWord (js "ull") (js "ull" ++ rest)).map _ = _
    rw [hword]
    rfl
  · rw [htrue, List.cons_append, readValue, skipSpace_cons (by decide)]
    show (readWord (js "rue") (js "rue" ++ rest)).map _ = _
    rw [hword]
    rfl
  · rw [hfalse, List.cons_append, readValue, skipSpace_cons (by decide)]
    show (readWord (js "alse") (js "alse" ++ rest)).map _ = _
    rw [hword]
    rfl

end

/-- A code unit that can start a number. -/
def StartsNumber (u : UInt16) : Prop := u = 0x2D ∨ isDigit u = true

theorem StartsNumber.ne {w : UInt16} (h : StartsNumber u) (hw : w ≠ 0x2D)
    (hdigit : isDigit w = false) :
    u ≠ w := by
  rintro rfl
  rcases h with rfl | h
  · exact hw rfl
  · rw [h] at hdigit
    cases hdigit

theorem StartsNumber.not_space (h : StartsNumber u) :
    isSpace u = false := by
  have h1 := h.ne (w := 0x20) (by decide) (by decide)
  have h2 := h.ne (w := 0x09) (by decide) (by decide)
  have h3 := h.ne (w := 0x0A) (by decide) (by decide)
  have h4 := h.ne (w := 0x0D) (by decide) (by decide)
  simp [isSpace, h1, h2, h3, h4]

theorem startsNumber_of_read {rest : JsString} {read : ℚ × JsString}
    (h : readNumber (u :: rest) = some read) :
    StartsNumber u := by
  by_cases hminus : u = 0x2D
  · exact Or.inl hminus
  · rw [readNumber, if_neg hminus, readUnsigned] at h
    cases hdigit : isDigit u with
    | true => exact Or.inr hdigit
    | false =>
      rw [List.takeWhile_cons_of_neg (by rw [hdigit]; simp), if_pos (Or.inl rfl)] at h
      cases h

theorem readValue_number (fuel : ℕ) (rest : JsString) (h : StartsNumber u) :
    readValue (fuel + 1) (u :: rest) =
      (readNumber (u :: rest)).map fun read => (.num read.1, read.2) := by
  rw [readValue, skipSpace_cons h.not_space]
  simp only [if_neg (h.ne (w := 0x22) (by decide) (by decide)),
    if_neg (h.ne (w := 0x5B) (by decide) (by decide)),
    if_neg (h.ne (w := 0x7B) (by decide) (by decide)),
    if_neg (h.ne (w := 0x6E) (by decide) (by decide)),
    if_neg (h.ne (w := 0x74) (by decide) (by decide)),
    if_neg (h.ne (w := 0x66) (by decide) (by decide))]

variable {more : JsString} {v : Json} {fuel : ℕ}

theorem readItems_comma {text : JsString} (h : readValue fuel text = some (v, 0x2C :: more)) :
    readItems (fuel + 1) text = (readItems fuel more).map fun read => (v :: read.1, read.2) := by
  rw [readItems, h]
  simp only [skipSpace_cons (u := 0x2C) (by decide)]
  rfl

theorem readItems_end {text : JsString} (h : readValue fuel text = some (v, 0x5D :: more)) :
    readItems (fuel + 1) text = some ([v], more) := by
  rw [readItems, h]
  simp only [skipSpace_cons (u := 0x5D) (by decide)]
  rfl

theorem readFields_comma {key text : JsString}
    (h : readValue fuel text = some (v, 0x2C :: more)) :
    readFields (fuel + 1) (Json.quote key ++ (0x3A :: text)) =
      (readFields fuel more).map fun read => ((key, v) :: read.1, read.2) := by
  have hquote : js "\"" = [0x22] := rfl
  rw [Json.quote, hquote, List.append_assoc, List.append_assoc, List.singleton_append,
    List.singleton_append, readFields, skipSpace_cons (by decide)]
  simp only [readString_escapeString, skipSpace_cons (u := 0x3A) (by decide), h,
    skipSpace_cons (u := 0x2C) (by decide)]
  rfl

theorem readFields_end {key text : JsString} (h : readValue fuel text = some (v, 0x7D :: more)) :
    readFields (fuel + 1) (Json.quote key ++ (0x3A :: text)) = some ([(key, v)], more) := by
  have hquote : js "\"" = [0x22] := rfl
  rw [Json.quote, hquote, List.append_assoc, List.append_assoc, List.singleton_append,
    List.singleton_append, readFields, skipSpace_cons (by decide)]
  simp only [readString_escapeString, skipSpace_cons (u := 0x3A) (by decide), h,
    skipSpace_cons (u := 0x7D) (by decide)]
  rfl

end Shapes

section RoundTrip

open Json (stringify stringifyItems stringifyFields)

mutual

/-- Every number of a value is a finite double. -/
def Doubles : Json → Prop
  | .num n => Double.IsDouble n
  | .arr items => DoublesItems items
  | .obj fields => DoublesFields fields
  | _ => True

/-- Every number of the items is a finite double. -/
def DoublesItems : List Json → Prop
  | [] => True
  | v :: rest => Doubles v ∧ DoublesItems rest

/-- Every number of the fields is a finite double. -/
def DoublesFields : List (JsString × Json) → Prop
  | [] => True
  | (_, v) :: rest => Doubles v ∧ DoublesFields rest

end

theorem stops_cons {u : UInt16} (rest : JsString) (h : u = 0x2C ∨ u = 0x5D ∨ u = 0x7D) :
    Stops (u :: rest) := by
  intro w hw
  obtain rfl : u = w := by simpa using hw
  rcases h with rfl | rfl | rfl <;> decide

theorem numberToString_head {n : ℚ} (h : Double.IsDouble n) :
    ∃ u rest, numberToString n = u :: rest ∧ StartsNumber u := by
  have hread := @readNumber_numberToString [] n h (by intro u hu; cases hu)
  rw [List.append_nil] at hread
  cases htext : numberToString n with
  | nil =>
    rw [htext] at hread
    cases hread
  | cons u rest =>
    rw [htext] at hread
    exact ⟨u, rest, rfl, startsNumber_of_read hread⟩

theorem stringify_head {v : Json} (h : Doubles v) :
    ∃ u rest, stringify numberToString v = u :: rest ∧ isSpace u = false ∧ u ≠ 0x5D := by
  cases v with
  | null => exact ⟨0x6E, js "ull", rfl, by decide, by decide⟩
  | bool b =>
    cases b with
    | true => exact ⟨0x74, js "rue", rfl, by decide, by decide⟩
    | false => exact ⟨0x66, js "alse", rfl, by decide, by decide⟩
  | num n =>
    obtain ⟨u, rest, htext, hstarts⟩ := numberToString_head h
    exact ⟨u, rest, htext, hstarts.not_space, hstarts.ne (by decide) (by decide)⟩
  | str s => exact ⟨0x22, _, rfl, by decide, by decide⟩
  | arr items => exact ⟨0x5B, _, rfl, by decide, by decide⟩
  | obj fields => exact ⟨0x7B, _, rfl, by decide, by decide⟩

theorem stringifyFields_head (f : JsString × Json) (rest : List (JsString × Json)) :
    ∃ text, stringifyFields numberToString (f :: rest) = 0x22 :: text := by
  obtain ⟨key, v⟩ := f
  cases rest with
  | nil | cons _ _ => exact ⟨_, rfl⟩

mutual

/-- **A value is read back from its text.** -/
theorem readValue_stringify :
    ∀ (v : Json) (fuel : ℕ) (rest : JsString), Doubles v →
      (stringify numberToString v).length < fuel → Stops rest →
      readValue fuel (stringify numberToString v ++ rest) = some (v, rest)
  | v, 0, rest, _, hfuel, _ => by omega
  | .null, fuel + 1, rest, _, _, _ => (readValue_word fuel rest).1
  | .bool true, fuel + 1, rest, _, _, _ => (readValue_word fuel rest).2.1
  | .bool false, fuel + 1, rest, _, _, _ => (readValue_word fuel rest).2.2
  | .num n, fuel + 1, rest, h, _, hrest => by
    obtain ⟨u, others, htext, hstarts⟩ := numberToString_head h
    have hread := readNumber_numberToString h hrest
    rw [stringify, htext, List.cons_append, readValue_number fuel _ hstarts, ← List.cons_append,
      ← htext, hread]
    rfl
  | .str s, fuel + 1, rest, _, _, _ => by
    have hquote : js "\"" = [0x22] := rfl
    rw [stringify, Json.quote, hquote, List.append_assoc, List.append_assoc,
      List.singleton_append, List.singleton_append, readValue_string, readString_escapeString]
    rfl
  | .arr [], fuel + 1, rest, _, _, _ => readValue_emptyArray fuel rest
  | .arr (v :: items), fuel + 1, rest, h, hfuel, _ => by
    have hopen : js "[" = [0x5B] := rfl
    have hclose : js "]" = [0x5D] := rfl
    rw [stringify, hopen, hclose, List.length_append, List.length_append, List.length_singleton,
      List.length_singleton] at hfuel
    have hitems := readItems_stringify v items fuel rest h (by omega)
    obtain ⟨u, more, htext, hspace, hu⟩ :
        ∃ u more, stringifyItems numberToString (v :: items) = u :: more ∧
          isSpace u = false ∧ u ≠ 0x5D := by
      obtain ⟨u, more, htext, hspace, hu⟩ := stringify_head h.1
      cases items with
      | nil => exact ⟨u, more, by rw [stringifyItems, htext], hspace, hu⟩
      | cons w items =>
        exact ⟨u, _, by rw [stringifyItems, htext, List.append_assoc, List.cons_append],
          hspace, hu⟩
    rw [stringify, hopen, hclose, List.append_assoc, List.append_assoc, List.singleton_append,
      List.singleton_append, htext, List.cons_append, readValue_array fuel _ hspace hu,
      ← List.cons_append, ← htext, hitems]
    rfl
  | .obj [], fuel + 1, rest, _, _, _ => readValue_emptyObject fuel rest
  | .obj ((key, v) :: fields), fuel + 1, rest, h, hfuel, _ => by
    have hopen : js "\x7b" = [0x7B] := rfl
    have hclose : js "\x7d" = [0x7D] := rfl
    rw [stringify, hopen, hclose, List.length_append, List.length_append, List.length_singleton,
      List.length_singleton] at hfuel
    have hfields := readFields_stringify key v fields fuel rest h (by omega)
    obtain ⟨more, htext⟩ := stringifyFields_head (key, v) fields
    rw [stringify, hopen, hclose, List.append_assoc, List.append_assoc, List.singleton_append,
      List.singleton_append, htext, List.cons_append, readValue_object, ← List.cons_append,
      ← htext, hfields]
    rfl

theorem readItems_stringify :
    ∀ (v : Json) (items : List Json) (fuel : ℕ) (rest : JsString), DoublesItems (v :: items) →
      (stringifyItems numberToString (v :: items)).length + 1 < fuel →
      readItems fuel (stringifyItems numberToString (v :: items) ++ 0x5D :: rest) =
        some (v :: items, rest)
  | v, items, 0, rest, _, hfuel => by omega
  | v, [], fuel + 1, rest, h, hfuel => by
    rw [stringifyItems] at hfuel ⊢
    exact readItems_end (readValue_stringify v fuel _ h.1 (by omega)
      (stops_cons rest (Or.inr (Or.inl rfl))))
  | v, w :: items, fuel + 1, rest, h, hfuel => by
    have hcomma : js "," = [0x2C] := rfl
    rw [stringifyItems, hcomma, List.length_append, List.length_append,
      List.length_singleton] at hfuel
    have hv := readValue_stringify v fuel
      (0x2C :: (stringifyItems numberToString (w :: items) ++ 0x5D :: rest)) h.1 (by omega)
      (stops_cons _ (Or.inl rfl))
    have hitems := readItems_stringify w items fuel rest h.2 (by omega)
    rw [stringifyItems, hcomma, List.append_assoc, List.append_assoc, List.singleton_append,
      readItems_comma hv, hitems]
    rfl

theorem readFields_stringify :
    ∀ (key : JsString) (v : Json) (fields : List (JsString × Json)) (fuel : ℕ) (rest : JsString),
      DoublesFields ((key, v) :: fields) →
      (stringifyFields numberToString ((key, v) :: fields)).length + 1 < fuel →
      readFields fuel (stringifyFields numberToString ((key, v) :: fields) ++ 0x7D :: rest) =
        some ((key, v) :: fields, rest)
  | key, v, fields, 0, rest, _, hfuel => by omega
  | key, v, [], fuel + 1, rest, h, hfuel => by
    have hcolon : js ":" = [0x3A] := rfl
    rw [stringifyFields, hcolon, List.length_append, List.length_append,
      List.length_singleton] at hfuel
    have hv := readValue_stringify v fuel (0x7D :: rest) h.1 (by omega)
      (stops_cons rest (Or.inr (Or.inr rfl)))
    rw [stringifyFields, hcolon, List.append_assoc, List.append_assoc, List.singleton_append,
      readFields_end hv]
  | key, v, (key', w) :: fields, fuel + 1, rest, h, hfuel => by
    have hcolon : js ":" = [0x3A] := rfl
    have hcomma : js "," = [0x2C] := rfl
    rw [stringifyFields, hcolon, hcomma, List.length_append, List.length_append,
      List.length_append, List.length_append, List.length_singleton,
      List.length_singleton] at hfuel
    have hv := readValue_stringify v fuel
      (0x2C :: (stringifyFields numberToString ((key', w) :: fields) ++ 0x7D :: rest)) h.1
      (by omega) (stops_cons _ (Or.inl rfl))
    have hfields := readFields_stringify key' w fields fuel rest h.2 (by omega)
    rw [stringifyFields, hcolon, hcomma, List.append_assoc, List.append_assoc,
      List.append_assoc, List.append_assoc, List.singleton_append, List.singleton_append,
      readFields_comma hv, hfields]
    rfl

end

/-- **What `JSON.stringify` writes spells out the value.** -/
theorem read_stringify (v : Json) (h : Doubles v) :
    read (stringify numberToString v) = some v := by
  have hread := readValue_stringify v ((stringify numberToString v).length + 1) [] h (by omega)
    (by intro u hu; cases hu)
  rw [List.append_nil] at hread
  rw [read, hread]
  rfl

end RoundTrip

end JsonText

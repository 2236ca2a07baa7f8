import Mathlib.Data.List.Basic

/-!
# The end of a command's output

What a command wrote is read from its end, as far as two limits allow, one on the lines and one on
the bytes.  The scan goes backwards and stops behind the newline that is one too many.  An end that
stops with a newline then keeps as many lines as it may; of an output whose last line is still open
that line is not counted, and the scan keeps one line more.
-/

namespace CmdBlock

/-- `'\n'`. -/
def newline : UInt8 := 10

/-- The loop of `tailLines`: `i` bytes are still to be looked at. -/
def scan (data : List UInt8) (maxLines : Nat) : (i count : Nat) → List UInt8
  | 0, _ => data
  | i + 1, count =>
    if data[i]? = some newline then
      if maxLines < count + 1 then data.drop (i + 1) else scan data maxLines i (count + 1)
    else scan data maxLines i count

/-- The byte bound of `tailLines`, applied from the end. -/
def lastBytes (data : List UInt8) (maxBytes : Nat) : List UInt8 :=
  if 0 < maxBytes ∧ maxBytes < data.length then data.drop (data.length - maxBytes) else data

def tailLines (data : List UInt8) (maxLines maxBytes : Nat) : List UInt8 :=
  let data := lastBytes data maxBytes
  if 0 < maxLines then scan data maxLines data.length 0 else data

/-- Whether the last line of some bytes has no newline yet. -/
def isOpen (data : List UInt8) : Bool := data.getLast?.any (· != newline)

/-- The lines of some bytes, an open last one included. -/
def lines (data : List UInt8) : Nat := data.count newline + if isOpen data then 1 else 0

/-- The ends of an output that are within both limits, where `0` is no limit. -/
structure Within (data : List UInt8) (maxLines maxBytes : Nat) (tail : List UInt8) : Prop where
  isSuffix : tail <:+ data
  bytes : maxBytes = 0 ∨ tail.length ≤ maxBytes
  lines : maxLines = 0 ∨ lines tail ≤ maxLines

/-- The longest end within both limits.  It begins with a line, or the limit on the bytes cut it. -/
structure IsTail (data : List UInt8) (maxLines maxBytes : Nat) (tail : List UInt8) : Prop
    extends Within data maxLines maxBytes tail where
  start : ∀ head, data = head ++ tail →
    head = [] ∨ head.getLast? = some newline ∨ 0 < maxBytes ∧ tail.length = maxBytes
  longest : ∀ other, Within data maxLines maxBytes other → other.length ≤ tail.length

section Scan

variable {data : List UInt8} {maxLines : Nat}

/-- Where the scan stops: at the front, or behind a newline that `maxLines` others follow. -/
def Stops (data : List UInt8) (maxLines cut : Nat) : Prop :=
  cut = 0 ∧ data.count newline ≤ maxLines ∨
    ∃ i, cut = i + 1 ∧ data[i]? = some newline ∧ (data.drop cut).count newline = maxLines

theorem scan_stops : ∀ i count, i ≤ data.length → count ≤ maxLines →
    (data.drop i).count newline = count →
    ∃ cut, scan data maxLines i count = data.drop cut ∧ Stops data maxLines cut := by
  intro i
  induction i with
  | zero =>
    intro count _ hle hcount
    exact ⟨0, rfl, Or.inl ⟨rfl, by simpa [← hcount] using hle⟩⟩
  | succ i ih =>
    intro count hi hle hcount
    have hdrop : data.drop i = data[i] :: data.drop (i + 1) := List.drop_eq_getElem_cons hi
    have hget : data[i]? = some data[i] := List.getElem?_eq_getElem hi
    simp only [scan, hget, Option.some.injEq]
    split
    next hnl =>
      split
      · exact ⟨i + 1, rfl, Or.inr ⟨i, rfl, by rw [hget, hnl], by omega⟩⟩
      · exact ih (count + 1) (by omega) (by omega) (by rw [hdrop, hnl]; simp [hcount])
    next hnl =>
      exact ih count (by omega) hle (by rw [hdrop, List.count_cons_of_ne (by simpa using hnl), hcount])

end Scan

section Tails

variable {data tail other : List UInt8} {maxLines maxBytes : Nat}

theorem isOpen_eq_of_suffix (h : tail <:+ data) (hne : tail ≠ []) : isOpen tail = isOpen data := by
  obtain ⟨head, rfl⟩ := h
  simp only [isOpen, List.getLast?_append_of_ne_nil _ hne]

theorem lastBytes_suffix : lastBytes data maxBytes <:+ data := by
  unfold lastBytes
  split
  · exact List.drop_suffix _ data
  · exact List.suffix_refl data

theorem lastBytes_cases (data : List UInt8) (maxBytes : Nat) :
    lastBytes data maxBytes = data ∧ (maxBytes = 0 ∨ data.length ≤ maxBytes) ∨
      0 < maxBytes ∧ (lastBytes data maxBytes).length = maxBytes := by
  unfold lastBytes
  split
  next hcut => exact Or.inr ⟨hcut.1, by simp only [List.length_drop]; omega⟩
  next => exact Or.inl ⟨rfl, by omega⟩

theorem suffix_lastBytes (h : other <:+ data) (hle : maxBytes = 0 ∨ other.length ≤ maxBytes) :
    other <:+ lastBytes data maxBytes := by
  unfold lastBytes
  split
  next hcut =>
    refine List.suffix_of_suffix_length_le h (List.drop_suffix _ data) ?_
    simp only [List.length_drop]
    omega
  next => exact h

theorem length_le_drop {cut : Nat} {window : List UInt8} (hother : other <:+ window)
    (hlines : lines other ≤ maxLines) (hstops : Stops window maxLines cut) :
    other.length ≤ (window.drop cut).length := by
  rcases hstops with ⟨rfl, -⟩ | ⟨i, rfl, hnl, hcount⟩
  · simpa using hother.length_le
  · by_contra hlong
    have hi : i < window.length := (List.getElem?_eq_some_iff.mp hnl).1
    have hdrop : window.drop i = newline :: window.drop (i + 1) := by
      rw [List.drop_eq_getElem_cons hi, (List.getElem?_eq_some_iff.mp hnl).2]
    have hsuffix : window.drop i <:+ other :=
      List.suffix_of_suffix_length_le (List.drop_suffix i window) hother
        (by simp only [List.length_drop] at hlong ⊢; omega)
    have hmore := hsuffix.sublist.count_le newline
    rw [hdrop, List.count_cons_self, hcount] at hmore
    unfold lines at hlines
    omega

theorem lines_drop_le_iff {cut : Nat} {window : List UInt8} (hpos : 0 < maxLines)
    (hstops : Stops window maxLines cut) :
    lines (window.drop cut) ≤ maxLines ↔
      isOpen window = false ∨ window.count newline < maxLines := by
  rcases hstops with ⟨rfl, hle⟩ | ⟨i, rfl, -, hcount⟩
  · rw [List.drop_zero, lines]
    cases isOpen window <;> simp <;> omega
  · have hne : window.drop (i + 1) ≠ [] := by
      intro hnil
      rw [hnil, List.count_nil] at hcount
      omega
    have hmore := (List.drop_sublist (i + 1) window).count_le newline
    rw [lines, isOpen_eq_of_suffix (List.drop_suffix _ _) hne, hcount]
    cases isOpen window <;> simp
    omega

theorem start_of_stops {cut : Nat} {head : List UInt8}
    (hcut : cut = 0 ∨ ∃ i, cut = i + 1 ∧ (lastBytes data maxBytes)[i]? = some newline)
    (hdata : data = head ++ (lastBytes data maxBytes).drop cut) :
    head = [] ∨ head.getLast? = some newline ∨
      0 < maxBytes ∧ ((lastBytes data maxBytes).drop cut).length = maxBytes := by
  rcases hcut with rfl | ⟨i, rfl, hnl⟩
  · rw [List.drop_zero] at hdata ⊢
    rcases lastBytes_cases data maxBytes with ⟨hall, -⟩ | hbytes
    · rw [hall] at hdata
      exact Or.inl (List.self_eq_append_left.mp hdata)
    · exact Or.inr (Or.inr hbytes)
  · obtain ⟨front, hfront⟩ : lastBytes data maxBytes <:+ data := lastBytes_suffix
    have htake : (lastBytes data maxBytes).take (i + 1) =
        (lastBytes data maxBytes).take i ++ [newline] := by
      rw [List.take_add_one, hnl, Option.toList_some]
    have hhead : head = front ++ ((lastBytes data maxBytes).take i ++ [newline]) := by
      refine (List.append_left_inj ((lastBytes data maxBytes).drop (i + 1))).mp ?_
      rw [← hdata, ← htake, List.append_assoc, List.take_append_drop, hfront]
    refine Or.inr (Or.inl ?_)
    rw [hhead, ← List.append_assoc, List.getLast?_concat]

/-- **The last lines.**  What `tailLines` returns is the longest end of the output within both
limits exactly if the lines are not limited, or the last line is not open, or what the limit on the
bytes leaves has fewer newlines than lines are allowed. -/
theorem tailLines_isTail_iff (data : List UInt8) (maxLines maxBytes : Nat) :
    IsTail data maxLines maxBytes (tailLines data maxLines maxBytes) ↔
      maxLines = 0 ∨ isOpen (lastBytes data maxBytes) = false ∨
        (lastBytes data maxBytes).count newline < maxLines := by
  obtain ⟨cut, htail, hstops⟩ : ∃ cut,
      tailLines data maxLines maxBytes = (lastBytes data maxBytes).drop cut ∧
        (maxLines = 0 ∧ cut = 0 ∨
          0 < maxLines ∧ Stops (lastBytes data maxBytes) maxLines cut) := by
    rcases Nat.eq_zero_or_pos maxLines with rfl | hpos
    · exact ⟨0, rfl, Or.inl ⟨rfl, rfl⟩⟩
    · obtain ⟨cut, hscan, hstops⟩ := @scan_stops (lastBytes data maxBytes) _
        (lastBytes data maxBytes).length 0 (Nat.le_refl _) (Nat.zero_le maxLines) (by simp)
      exact ⟨cut, by simpa only [tailLines, if_pos hpos] using hscan, Or.inr ⟨hpos, hstops⟩⟩
  rw [htail]
  have hwindow : (lastBytes data maxBytes).drop cut <:+ lastBytes data maxBytes :=
    List.drop_suffix _ _
  constructor
  · intro h
    rcases hstops with ⟨hzero, -⟩ | ⟨hpos, hstops⟩
    · exact Or.inl hzero
    · exact Or.inr ((lines_drop_le_iff hpos hstops).mp (h.lines.resolve_left (by omega)))
  · intro h
    refine ⟨⟨hwindow.trans lastBytes_suffix, ?_, ?_⟩, fun head hdata => ?_, fun other hother => ?_⟩
    · have hle := hwindow.length_le
      rcases lastBytes_cases data maxBytes with ⟨hall, hbytes⟩ | hbytes
      · rw [hall] at hle ⊢
        omega
      · omega
    · rcases hstops with ⟨hzero, -⟩ | ⟨hpos, hstops⟩
      · exact Or.inl hzero
      · exact Or.inr ((lines_drop_le_iff hpos hstops).mpr (h.resolve_left (by omega)))
    · refine start_of_stops ?_ hdata
      rcases hstops with ⟨-, hcut⟩ | ⟨-, ⟨hcut, -⟩ | ⟨i, hcut, hnl, -⟩⟩
      · exact Or.inl hcut
      · exact Or.inl hcut
      · exact Or.inr ⟨i, hcut, hnl⟩
    · have hsuffix := suffix_lastBytes hother.isSuffix hother.bytes
      rcases hstops with ⟨-, rfl⟩ | ⟨hpos, hstops⟩
      · simpa using hsuffix.length_le
      · exact length_le_drop hsuffix (hother.lines.resolve_left (by omega)) hstops

/-- Of three lines whose last has no newline, two are asked for and three are returned. -/
theorem open_line_not_counted :
    ¬ IsTail [97, 10, 98, 10, 99] 2 0 (tailLines [97, 10, 98, 10, 99] 2 0) := by
  intro h
  have hlines := h.lines
  revert hlines
  decide

end Tails

section Growth

variable {data other : List UInt8} {maxLines maxBytes : Nat}

/-- Within the limit on the bytes, and with no more newlines than lines are allowed. -/
def Fits (maxLines maxBytes : Nat) (tail : List UInt8) : Prop :=
  (maxBytes = 0 ∨ tail.length ≤ maxBytes) ∧ (maxLines = 0 ∨ tail.count newline ≤ maxLines)

theorem Fits.sublist (h : Fits maxLines maxBytes data) (hsub : other.Sublist data) :
    Fits maxLines maxBytes other :=
  ⟨h.1.imp_right (Nat.le_trans hsub.length_le),
    h.2.imp_right (Nat.le_trans (hsub.count_le newline))⟩

/-- The code keeps the longest end that fits. -/
theorem tailLines_longest (data : List UInt8) (maxLines maxBytes : Nat) :
    tailLines data maxLines maxBytes <:+ data ∧
      Fits maxLines maxBytes (tailLines data maxLines maxBytes) ∧
      ∀ other, other <:+ data → Fits maxLines maxBytes other →
        other <:+ tailLines data maxLines maxBytes := by
  have hlength : maxBytes = 0 ∨ (lastBytes data maxBytes).length ≤ maxBytes := by
    rcases lastBytes_cases data maxBytes with ⟨heq, hle⟩ | ⟨-, hle⟩
    · rwa [heq]
    · exact Or.inr (Nat.le_of_eq hle)
  have hsuffix := @lastBytes_suffix data maxBytes
  have hinto := fun other => @suffix_lastBytes data other maxBytes
  unfold tailLines
  generalize lastBytes data maxBytes = window at hlength hsuffix hinto
  dsimp only
  split
  next hpos =>
    obtain ⟨cut, hscan, hstops⟩ :=
      @scan_stops window maxLines window.length 0 (Nat.le_refl _) (Nat.zero_le _) (by simp)
    rw [hscan]
    have hcount : (window.drop cut).count newline ≤ maxLines := by
      rcases hstops with ⟨rfl, hle⟩ | ⟨-, -, -, heq⟩
      · exact hle
      · exact Nat.le_of_eq heq
    refine ⟨(List.drop_suffix cut window).trans hsuffix,
      ⟨hlength.imp_right (Nat.le_trans (List.drop_sublist cut window).length_le),
        Or.inr hcount⟩, ?_⟩
    intro other hother hfits
    have hin := hinto other hother hfits.1
    refine List.suffix_of_suffix_length_le hin (List.drop_suffix cut window) ?_
    rcases hstops with ⟨rfl, -⟩ | ⟨i, rfl, hget, heq⟩
    · exact hin.length_le
    · by_contra hlong
      obtain ⟨hi, hnewline⟩ := List.getElem?_eq_some_iff.mp hget
      have hmore : window.drop i <:+ other :=
        List.suffix_of_suffix_length_le (List.drop_suffix i window) hin
          (by simp only [List.length_drop] at hlong ⊢; omega)
      have hle := hmore.sublist.count_le newline
      rw [List.drop_eq_getElem_cons hi, hnewline, List.count_cons_self, heq] at hle
      have hfew := hfits.2
      omega
  next hnone =>
    exact ⟨hsuffix, ⟨hlength, Or.inl (by omega)⟩,
      fun other hother hfits => hinto other hother hfits.1⟩

/-- **Cutting while an output grows is cutting it at the end.** -/
theorem tailLines_append (head more : List UInt8) (maxLines maxBytes : Nat) :
    tailLines (tailLines head maxLines maxBytes ++ more) maxLines maxBytes =
      tailLines (head ++ more) maxLines maxBytes := by
  obtain ⟨⟨front, hfront⟩, -, hhead⟩ := tailLines_longest head maxLines maxBytes
  generalize tailLines head maxLines maxBytes = tail at hfront hhead
  obtain ⟨hkept, hfits, hall⟩ := tailLines_longest (tail ++ more) maxLines maxBytes
  obtain ⟨hkept', hfits', hall'⟩ := tailLines_longest (head ++ more) maxLines maxBytes
  have hwhole : tail ++ more <:+ head ++ more := ⟨front, by rw [← List.append_assoc, hfront]⟩
  have hinto := hall' _ (hkept.trans hwhole) hfits
  refine hinto.eq_of_length (Nat.le_antisymm hinto.length_le (hall _ ?_ hfits').length_le)
  rcases List.suffix_or_suffix_of_suffix hkept' (List.suffix_append head more) with
    hshort | ⟨reached, heq⟩
  · exact hshort.trans (List.suffix_append tail more)
  · -- it reaches no further back into the head than what was kept of the head
    rw [← heq] at hkept' hfits' ⊢
    refine List.suffix_append_self_iff.mpr (hhead reached ?_ ?_)
    · exact List.suffix_append_self_iff.mp hkept'
    · exact hfits'.sublist (List.sublist_append_left reached more)

end Growth

end CmdBlock

import Mathlib.Data.List.Basic

/-!
# The parser of shell-integration sequences

A shell marks its prompts and commands with sequences `ESC ] 16162 ; payload ST` in its
output, where `ST` is `BEL` or `ESC \`.  The parser is fed the output in chunks; it
returns the sequences that a chunk completes, with their offsets in the whole stream, and
keeps the bytes that may be the beginning of the next one.

The sequences come out one behind the other, each only once, and none before its last
byte was fed.
-/

namespace OscParser

def oscPrefix : List UInt8 := [0x1b, 0x5d, 0x31, 0x36, 0x31, 0x36, 0x32, 0x3b]

def maxBuffered : Nat := 8 * 1024

/-- One sequence.  Its offset is that of the leading `ESC` in the stream. -/
structure Event where
  command : List UInt8
  payload : List UInt8
  offset : Nat
  seqLen : Nat
deriving DecidableEq

/-- The offset behind a sequence. -/
def Event.stop (ev : Event) : Nat := ev.offset + ev.seqLen

structure Parser where
  buf : List UInt8
  bufBase : Nat
deriving DecidableEq

def MakeParser : Parser := ⟨[], 0⟩

def index (sub : List UInt8) : List UInt8 → Option Nat
  | [] => if sub.isPrefixOf [] then some 0 else none
  | b :: rest =>
    if sub.isPrefixOf (b :: rest) then some 0 else (index sub rest).map (· + 1)

/-- Where the terminator begins in what follows the leading bytes, and its length.  An
`ESC` at the end may be the first half of one. -/
def terminator : List UInt8 → Option (Nat × Nat)
  | [] => none
  | b :: rest =>
    if b = 0x07 then some (0, 1)
    else if b = 0x1b ∧ rest.head? = some 0x5c then some (0, 2)
    else (terminator rest).map fun e => (e.1 + 1, e.2)

/-- The event of a sequence, whose payload is cut at the first semicolon. -/
def makeEvent (offset seqLen : Nat) (body : List UInt8) : Event where
  command := body.takeWhile (· ≠ 0x3b)
  payload := (body.dropWhile (· ≠ 0x3b)).drop 1
  offset := offset
  seqLen := seqLen

/-- The loop of `Feed`: the events found from `scanFrom` on, and where it stops. -/
def scan (base : Nat) (buf : List UInt8) : Nat → Nat → List Event × Nat
  | 0, scanFrom => ([], scanFrom)
  | fuel + 1, scanFrom =>
    match index oscPrefix (buf.drop scanFrom) with
    | none =>
      let keep := oscPrefix.length - 1
      ([], if keep < buf.length - scanFrom then buf.length - keep else scanFrom)
    | some rel =>
      let absStart := scanFrom + rel
      let payloadStart := absStart + oscPrefix.length
      match terminator (buf.drop payloadStart) with
      | none => ([], absStart)
      | some (termAt, termLen) =>
        let stop := payloadStart + termAt + termLen
        let event := makeEvent (base + absStart) (stop - absStart)
          ((buf.drop payloadStart).take termAt)
        (event :: (scan base buf fuel stop).1, (scan base buf fuel stop).2)

def Parser.Feed (p : Parser) (chunk : List UInt8) : List Event × Parser :=
  if chunk = [] then ([], p)
  else
    let buf := p.buf ++ chunk
    let scanFrom := (scan p.bufBase buf (buf.length + 1) 0).2
    let kept := buf.drop scanFrom
    let drop := if maxBuffered < kept.length then kept.length - maxBuffered / 2 else 0
    ((scan p.bufBase buf (buf.length + 1) 0).1, ⟨kept.drop drop, p.bufBase + scanFrom + drop⟩)

/-- The number of bytes fed. -/
def Parser.Offset (p : Parser) : Nat := p.bufBase + p.buf.length

section Searching

theorem index_some {sub l : List UInt8} {n : Nat} (h : index sub l = some n) :
    sub <+: l.drop n := by
  induction l generalizing n with
  | nil =>
    rw [index] at h
    split at h
    next hsub =>
        cases h
        simpa using hsub
    next => simp at h
  | cons b rest ih =>
    rw [index] at h
    split at h
    next hsub =>
        cases h
        simpa using hsub
    next =>
        obtain ⟨m, hm, rfl⟩ := Option.map_eq_some_iff.mp h
        simpa using ih hm

theorem index_none {sub l : List UInt8} (h : index sub l = none) (n : Nat) :
    ¬ sub <+: l.drop n := by
  induction l generalizing n with
  | nil =>
    rw [index] at h
    split at h
    next => simp at h
    next hsub => simpa using hsub
  | cons b rest ih =>
    rw [index] at h
    split at h
    next => simp at h
    next hsub =>
        cases n with
        | zero => simpa using hsub
        | succ n =>
          rw [Option.map_eq_none_iff] at h
          simpa using ih h n

theorem terminator_le {l : List UInt8} {n len : Nat} (h : terminator l = some (n, len)) :
    n + len ≤ l.length := by
  induction l generalizing n with
  | nil => simp [terminator] at h
  | cons b rest ih =>
    rw [terminator] at h
    split at h
    next =>
        cases h
        simp
    split at h
    next hesc =>
        cases h
        cases rest with
        | nil => simp at hesc
        | cons c rest => simp
    next =>
        obtain ⟨⟨m, len'⟩, hm, heq⟩ := Option.map_eq_some_iff.mp h
        cases heq
        have := ih hm
        rw [List.length_cons]
        omega

theorem terminator_of_append {l l' : List UInt8} {n len : Nat}
    (h : terminator (l ++ l') = some (n, len)) (hle : n + len ≤ l.length) :
    terminator l = some (n, len) := by
  induction l generalizing n with
  | nil =>
    rw [List.nil_append] at h
    have hnl : n = 0 ∧ len = 0 := by
      simp only [List.length_nil] at hle
      omega
    obtain ⟨rfl, rfl⟩ := hnl
    cases l' with
    | nil => simp [terminator] at h
    | cons b rest =>
      rw [terminator] at h
      split at h
      · simp at h
      split at h
      · simp at h
      · obtain ⟨m, -, heq⟩ := Option.map_eq_some_iff.mp h
        simp at heq
  | cons b rest ih =>
    rw [List.cons_append, terminator] at h
    rw [terminator]
    split at h
    next hbel =>
        rw [if_pos hbel]
        exact h
    next hbel =>
        rw [if_neg hbel]
        split at h
        next hesc =>
            cases h
            cases rest with
            | nil => simp at hle
            | cons c rest =>
              rw [if_pos]
              simpa using hesc
        next hesc =>
            obtain ⟨⟨m, len'⟩, hm, heq⟩ := Option.map_eq_some_iff.mp h
            cases heq
            have hrest := ih hm (by rw [List.length_cons] at hle; omega)
            rw [hrest, if_neg]
            · rfl
            · intro hcond
              refine hesc ⟨hcond.1, ?_⟩
              cases rest with
              | nil => simp at hcond
              | cons c rest => simpa using hcond.2

theorem terminator_drop_none {l : List UInt8} (h : terminator l = none) (n : Nat) :
    terminator (l.drop n) = none := by
  induction l generalizing n with
  | nil => simp [terminator]
  | cons b rest ih =>
    cases n with
    | zero => exact h
    | succ n =>
      rw [List.drop_succ_cons]
      refine ih ?_ n
      rw [terminator] at h
      split at h
      · simp at h
      split at h
      · simp at h
      · simpa using h

end Searching

section Scanning

variable {base : Nat} {buf : List UInt8}

/-- The events lie one behind the other, from `lo` to `hi`. -/
def Spans (lo : Nat) : List Event → Nat → Prop
  | [], hi => lo ≤ hi
  | ev :: rest, hi => lo ≤ ev.offset ∧ Spans ev.stop rest hi

/-- No complete sequence is in the bytes. -/
def Unfinished (l : List UInt8) : Prop :=
  ∀ k, oscPrefix <+: l.drop k → terminator (l.drop (k + oscPrefix.length)) = none

theorem Unfinished.drop {l : List UInt8} (h : Unfinished l) (n : Nat) :
    Unfinished (l.drop n) := by
  intro k hk
  rw [List.drop_drop] at hk ⊢
  rw [← Nat.add_assoc]
  exact h (n + k) hk

theorem scan_spans (base : Nat) (fuel : Nat) {scanFrom : Nat}
    (hle : scanFrom ≤ buf.length) :
    Spans (base + scanFrom) (scan base buf fuel scanFrom).1
        (base + (scan base buf fuel scanFrom).2) ∧
      (scan base buf fuel scanFrom).2 ≤ buf.length := by
  induction fuel generalizing scanFrom with
  | zero => exact ⟨Nat.le_refl _, hle⟩
  | succ fuel ih =>
    rw [scan]
    cases hindex : index oscPrefix (buf.drop scanFrom) with
    | none =>
      dsimp only
      split
      next hkeep =>
          refine ⟨?_, by omega⟩
          rw [Spans]
          omega
      next => exact ⟨Nat.le_refl _, hle⟩
    | some rel =>
      have hfound := (index_some hindex).length_le
      rw [List.drop_drop, List.length_drop] at hfound
      have hlen : oscPrefix.length = 8 := rfl
      rw [hlen] at hfound
      dsimp only
      rw [hlen]
      cases hterm : terminator (buf.drop (scanFrom + rel + 8)) with
      | none =>
        dsimp only
        refine ⟨?_, by omega⟩
        rw [Spans]
        omega
      | some term =>
        obtain ⟨termAt, termLen⟩ := term
        have hend := terminator_le hterm
        rw [List.length_drop] at hend
        have hbound : scanFrom + rel + 8 + termAt + termLen ≤ buf.length := by omega
        obtain ⟨hspans, hstop⟩ := ih hbound
        refine ⟨⟨?_, ?_⟩, hstop⟩
        · dsimp only [makeEvent]
          omega
        · have hev : (makeEvent (base + (scanFrom + rel))
              (scanFrom + rel + 8 + termAt + termLen - (scanFrom + rel))
              ((buf.drop (scanFrom + rel + 8)).take termAt)).stop =
              base + (scanFrom + rel + 8 + termAt + termLen) := by
            simp only [Event.stop, makeEvent]
            omega
          rw [hev]
          exact hspans

theorem scan_unfinished {fuel scanFrom : Nat} (hfuel : buf.length - scanFrom < fuel) :
    Unfinished (buf.drop (scan base buf fuel scanFrom).2) := by
  induction fuel generalizing scanFrom with
  | zero => omega
  | succ fuel ih =>
    rw [scan]
    cases hindex : index oscPrefix (buf.drop scanFrom) with
    | none =>
      have hnone := index_none hindex
      dsimp only
      split
      next hkeep =>
          intro k hk
          refine absurd ?_ (hnone (buf.length - (oscPrefix.length - 1) - scanFrom + k))
          rw [List.drop_drop] at hk ⊢
          rw [show scanFrom + (buf.length - (oscPrefix.length - 1) - scanFrom + k) =
            buf.length - (oscPrefix.length - 1) + k by omega]
          exact hk
      next =>
          intro k hk
          exact absurd hk (hnone k)
    | some rel =>
      dsimp only
      cases hterm : terminator (buf.drop (scanFrom + rel + oscPrefix.length)) with
      | none =>
        intro k hk
        have hlater := terminator_drop_none hterm k
        rw [List.drop_drop] at hlater ⊢
        rwa [show scanFrom + rel + (k + oscPrefix.length) =
          scanFrom + rel + oscPrefix.length + k by omega]
      | some term =>
        obtain ⟨termAt, termLen⟩ := term
        refine ih ?_
        have hfound := (index_some hindex).length_le
        rw [List.drop_drop, List.length_drop] at hfound
        have hlen : oscPrefix.length = 8 := rfl
        omega

theorem scan_event {fuel scanFrom : Nat} {ev : Event}
    (hev : ev ∈ (scan base buf fuel scanFrom).1) :
    ∃ k termAt termLen, oscPrefix <+: buf.drop k ∧
      terminator (buf.drop (k + oscPrefix.length)) = some (termAt, termLen) ∧
      ev.stop = base + (k + oscPrefix.length + termAt + termLen) := by
  induction fuel generalizing scanFrom with
  | zero => simp [scan] at hev
  | succ fuel ih =>
    rw [scan] at hev
    cases hindex : index oscPrefix (buf.drop scanFrom) with
    | none =>
      rw [hindex] at hev
      simp at hev
    | some rel =>
      rw [hindex] at hev
      dsimp only at hev
      cases hterm : terminator (buf.drop (scanFrom + rel + oscPrefix.length)) with
      | none =>
        rw [hterm] at hev
        simp at hev
      | some term =>
        obtain ⟨termAt, termLen⟩ := term
        rw [hterm] at hev
        rcases List.mem_cons.mp hev with heq | hrest
        · refine ⟨scanFrom + rel, termAt, termLen, ?_, hterm, ?_⟩
          · simpa [List.drop_drop] using index_some hindex
          · rw [heq]
            simp only [Event.stop, makeEvent]
            omega
        · exact ih hrest

end Scanning

section Feeding

variable {p : Parser} {chunk : List UInt8}

theorem Offset_Feed : (p.Feed chunk).2.Offset = p.Offset + chunk.length := by
  unfold Parser.Feed
  split
  next hchunk => simp [hchunk]
  next =>
      have hstop := (scan_spans p.bufBase ((p.buf ++ chunk).length + 1)
        (Nat.zero_le (p.buf ++ chunk).length)).2
      simp only [Parser.Offset, List.length_drop, List.length_append] at hstop ⊢
      split <;> omega

theorem Spans.mono {lo hi hi' : Nat} {events : List Event} (h : Spans lo events hi)
    (hle : hi ≤ hi') : Spans lo events hi' := by
  induction events generalizing lo with
  | nil => exact Nat.le_trans h hle
  | cons ev rest ih => exact ⟨h.1, ih h.2⟩

/-- **The events of a chunk lie one behind the other,** behind all events before and
before all events to come. -/
theorem Feed_spans (p : Parser) (chunk : List UInt8) :
    Spans p.bufBase (p.Feed chunk).1 (p.Feed chunk).2.bufBase := by
  unfold Parser.Feed
  split
  next => exact Nat.le_refl _
  next =>
      have hspans := (scan_spans p.bufBase ((p.buf ++ chunk).length + 1)
        (Nat.zero_le (p.buf ++ chunk).length)).1
      exact hspans.mono (Nat.le_add_right _ _)

theorem Feed_unfinished (h : Unfinished p.buf) : Unfinished (p.Feed chunk).2.buf := by
  unfold Parser.Feed
  split
  next => exact h
  next => exact (scan_unfinished (by omega)).drop _

/-- **An event comes with the chunk that holds its last byte.** -/
theorem offset_lt_stop (h : Unfinished p.buf) {ev : Event} (hev : ev ∈ (p.Feed chunk).1) :
    p.Offset < ev.stop := by
  unfold Parser.Feed at hev
  split at hev
  next => simp at hev
  next =>
      obtain ⟨k, termAt, termLen, hfound, hterm, hstop⟩ := scan_event hev
      rw [hstop, Parser.Offset]
      by_contra hle
      have hinside : k + oscPrefix.length + termAt + termLen ≤ p.buf.length := by omega
      -- the whole sequence was in the buffer before
      have hcut : ∀ n, n ≤ p.buf.length →
          (p.buf ++ chunk).drop n = p.buf.drop n ++ chunk := by
        intro n hn
        exact List.drop_append_of_le_length hn
      rw [hcut k (by omega)] at hfound
      rw [hcut (k + oscPrefix.length) (by omega)] at hterm
      have hbefore : oscPrefix <+: p.buf.drop k := by
        refine List.prefix_of_prefix_length_le hfound (List.prefix_append _ _) ?_
        rw [List.length_drop]
        omega
      have hnone := h k hbefore
      rw [terminator_of_append hterm (by rw [List.length_drop]; omega)] at hnone
      simp at hnone

theorem Spans.mem {lo hi : Nat} {events : List Event} (h : Spans lo events hi) {ev : Event}
    (hev : ev ∈ events) :
    lo ≤ ev.offset ∧ ev.stop ≤ hi := by
  induction events generalizing lo with
  | nil => simp at hev
  | cons first rest ih =>
    obtain ⟨hlo, hrest⟩ := h
    have hfirst : ∀ {lo : Nat} {events : List Event}, Spans lo events hi → lo ≤ hi := by
      intro lo events hspans
      induction events generalizing lo with
      | nil => exact hspans
      | cons ev rest ih =>
        have := ih hspans.2
        have := hspans.1
        simp only [Event.stop] at *
        omega
    rcases List.mem_cons.mp hev with rfl | hmem
    · exact ⟨hlo, hfirst hrest⟩
    · have hbetween := ih hrest hmem
      simp only [Event.stop] at *
      omega

end Feeding

end OscParser

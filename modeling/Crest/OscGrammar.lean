import Mathlib.Data.List.TakeWhile
import Crest.OscParser

/-!
# The grammar of a stream with sequences

What the parser is compared with: the sequences of a whole stream, however it was cut into chunks.
A sequence is an introducer, a body and the first terminator behind the introducer; the next one is
looked for behind it.  As long as every sequence fits into the buffer of the parser, the events of
all chunks are those of the stream; and whatever the stream, each event that is reported is a
sequence of the stream, and none overlaps another.
-/

namespace OscParser

section Grammar

/-- `BEL` or `ESC \`. -/
def Terminates (st : List UInt8) : Prop := st = [0x07] ∨ st = [0x1b, 0x5c]

/-- A body is a command, or a command, a semicolon and a payload. -/
inductive Body : List UInt8 → List UInt8 → List UInt8 → Prop
  | command {command : List UInt8} (h : 0x3b ∉ command) : Body command command []
  | payload {command : List UInt8} (h : 0x3b ∉ command) (payload : List UInt8) :
      Body (command ++ 0x3b :: payload) command payload

/-- No terminator begins in the first `n` bytes. -/
def NoTerminator (n : Nat) (l : List UInt8) : Prop :=
  ∀ k < n, ∀ st, Terminates st → ¬ st <+: l.drop k

/-- One introducer, a body in which no terminator begins, and a terminator. -/
inductive IsSequence : List UInt8 → List UInt8 → List UInt8 → Prop
  | mk {body st command payload : List UInt8}
      (hst : Terminates st)
      (hbody : Body body command payload)
      (hfirst : NoTerminator body.length (body ++ st)) :
      IsSequence (oscPrefix ++ (body ++ st)) command payload

/-- The events of a stream whose first byte has an offset. -/
inductive Derives : Nat → List UInt8 → List Event → Prop
  | done {offset : Nat} {stream : List UInt8}
      (h : ∀ k, oscPrefix <+: stream.drop k →
        ∀ n, NoTerminator n (stream.drop (k + oscPrefix.length))) :
      Derives offset stream []
  | event {offset : Nat} {text sequence rest command payload : List UInt8} {events : List Event}
      (htext : ∀ k < text.length, ¬ oscPrefix <+: (text ++ (sequence ++ rest)).drop k)
      (hsequence : IsSequence sequence command payload)
      (hrest : Derives (offset + text.length + sequence.length) rest events) :
      Derives offset (text ++ (sequence ++ rest))
        (⟨command, payload, offset + text.length, sequence.length⟩ :: events)

/-- Every sequence ends within the limit of the buffer, or the stream does. -/
def EndsWithin (stream : List UInt8) : Prop :=
  ∀ k, oscPrefix <+: stream.drop k →
    (stream.drop k).length ≤ maxBuffered ∨
      ∃ n st, Terminates st ∧ st <+: stream.drop (k + oscPrefix.length + n) ∧
        oscPrefix.length + n + st.length ≤ maxBuffered

/-- The events of all chunks, and the parser behind the last. -/
def feeds (p : Parser) : List (List UInt8) → List Event × Parser
  | [] => ([], p)
  | chunk :: chunks =>
    ((p.Feed chunk).1 ++ (feeds (p.Feed chunk).2 chunks).1, (feeds (p.Feed chunk).2 chunks).2)

end Grammar

section Terminators

theorem Terminates.length {st : List UInt8} (h : Terminates st) :
    0 < st.length ∧ st.length ≤ 2 := by
  rcases h with rfl | rfl <;> decide

theorem terminates_cons_iff {b : UInt8} {rest : List UInt8} :
    (∃ st, Terminates st ∧ st <+: b :: rest) ↔
      b = 0x07 ∨ (b = 0x1b ∧ rest.head? = some 0x5c) := by
  constructor
  · intro h
    obtain ⟨st, rfl | rfl, hst⟩ := h
    · exact Or.inl (List.cons_prefix_cons.mp hst).1.symm
    · obtain ⟨hb, hrest⟩ := List.cons_prefix_cons.mp hst
      refine Or.inr ⟨hb.symm, ?_⟩
      obtain ⟨more, rfl⟩ := hrest
      rfl
  · intro h
    rcases h with rfl | ⟨rfl, hrest⟩
    · exact ⟨[0x07], Or.inl rfl, by simp⟩
    · refine ⟨[0x1b, 0x5c], Or.inr rfl, ?_⟩
      cases rest with
      | nil => cases hrest
      | cons c rest =>
        obtain rfl := Option.some.inj hrest
        simp

theorem terminator_some {l : List UInt8} {n len : Nat} (h : terminator l = some (n, len)) :
    (∃ st, Terminates st ∧ st.length = len ∧ st <+: l.drop n) ∧ NoTerminator n l := by
  induction l generalizing n with
  | nil => simp [terminator] at h
  | cons b rest ih =>
    rw [terminator] at h
    split at h
    next hbel =>
        cases h
        refine ⟨⟨[0x07], Or.inl rfl, rfl, ?_⟩, fun k hk => absurd hk (by omega)⟩
        simp [hbel]
    next hbel =>
        split at h
        next hesc =>
            cases h
            refine ⟨⟨[0x1b, 0x5c], Or.inr rfl, rfl, ?_⟩, fun k hk => absurd hk (by omega)⟩
            obtain ⟨rfl, hrest⟩ := hesc
            cases rest with
            | nil => cases hrest
            | cons c rest =>
              obtain rfl := Option.some.inj hrest
              simp
        next hesc =>
            obtain ⟨⟨m, len'⟩, hm, heq⟩ := Option.map_eq_some_iff.mp h
            cases heq
            obtain ⟨hst, hfirst⟩ := ih hm
            refine ⟨hst, ?_⟩
            intro k hk st hst' hstarts
            cases k with
            | zero =>
              rcases terminates_cons_iff.mp ⟨st, hst', hstarts⟩ with h | h
              · exact hbel h
              · exact hesc h
            | succ k => exact hfirst k (by omega) st hst' hstarts

theorem terminator_none {l : List UInt8} (h : terminator l = none) (n : Nat) :
    NoTerminator n l := by
  intro k _ st hst hstarts
  have hdrop := terminator_drop_none h k
  cases hl : l.drop k with
  | nil =>
    rw [hl] at hstarts
    have := hst.length.1
    have := hstarts.length_le
    rw [List.length_nil] at this
    omega
  | cons b rest =>
    rw [hl, terminator] at hdrop
    rw [hl] at hstarts
    rcases terminates_cons_iff.mp ⟨st, hst, hstarts⟩ with hb | hb
    · rw [if_pos hb] at hdrop
      cases hdrop
    · split at hdrop
      · cases hdrop
      · cases hdrop

theorem Terminates.same {st st' l : List UInt8} (h : Terminates st) (h' : Terminates st')
    (hstarts : st <+: l) (hstarts' : st' <+: l) :
    st = st' := by
  obtain ⟨more, rfl⟩ := hstarts
  rcases h with rfl | rfl <;> rcases h' with rfl | rfl
  · rfl
  · simp at hstarts'
  · simp at hstarts'
  · rfl

theorem terminator_isSome {l st : List UInt8} {n : Nat} (hst : Terminates st)
    (hstarts : st <+: l.drop n) :
    ∃ m len, terminator l = some (m, len) ∧ m + len ≤ n + st.length := by
  cases hterm : terminator l with
  | none => exact absurd hstarts (terminator_none hterm (n + 1) n (by omega) st hst)
  | some term =>
    obtain ⟨m, len⟩ := term
    obtain ⟨⟨st', hst', hlen, hstarts'⟩, hfirst⟩ := terminator_some hterm
    refine ⟨m, len, rfl, ?_⟩
    have hle : m ≤ n := by
      by_contra hlt
      exact hfirst n (by omega) st hst hstarts
    rcases Nat.lt_or_eq_of_le hle with hlt | rfl
    · have := hst'.length.2
      have := hst.length.1
      omega
    · rw [← hlen, hst'.same hst hstarts' hstarts]

theorem terminator_eq_some {l st : List UInt8} {n : Nat} (hst : Terminates st)
    (hstarts : st <+: l.drop n) (hfirst : NoTerminator n l) :
    terminator l = some (n, st.length) := by
  obtain ⟨m, len, hterm, hle⟩ := terminator_isSome hst hstarts
  obtain ⟨⟨st', hst', hlen, hstarts'⟩, hfirst'⟩ := terminator_some hterm
  have hmn : m = n := by
    refine Nat.le_antisymm ?_ ?_
    · by_contra hlt
      exact hfirst' n (by omega) st hst hstarts
    · by_contra hlt
      exact hfirst m (by omega) st' hst' hstarts'
  subst hmn
  rw [hterm, ← hlen, hst'.same hst hstarts' hstarts]

theorem index_first {sub l : List UInt8} {n : Nat} (h : index sub l = some n) :
    ∀ k < n, ¬ sub <+: l.drop k := by
  induction l generalizing n with
  | nil =>
    rw [index] at h
    split at h
    · cases h
      intro k hk
      omega
    · cases h
  | cons b rest ih =>
    rw [index] at h
    split at h
    next =>
        cases h
        intro k hk
        omega
    next hsub =>
        obtain ⟨m, hm, rfl⟩ := Option.map_eq_some_iff.mp h
        intro k hk
        cases k with
        | zero => simpa using hsub
        | succ k => exact ih hm k (by omega)

end Terminators

section Bodies

theorem body_makeEvent (offset seqLen : Nat) (body : List UInt8) :
    Body body (makeEvent offset seqLen body).command (makeEvent offset seqLen body).payload := by
  have hcommand : 0x3b ∉ body.takeWhile (· ≠ 0x3b) := by
    intro hmem
    have := List.mem_takeWhile_imp hmem
    simp at this
  dsimp only [makeEvent]
  cases hrest : body.dropWhile (· ≠ 0x3b) with
  | nil =>
    have hall := List.takeWhile_append_dropWhile (p := (· ≠ 0x3b)) (l := body)
    rw [hrest, List.append_nil] at hall
    rw [hall] at hcommand ⊢
    exact .command hcommand
  | cons u payload =>
    have hu : u = 0x3b := by
      have := List.head?_dropWhile_not (fun u : UInt8 => decide (u ≠ 0x3b)) body
      rw [hrest] at this
      simpa using this
    have hall := List.takeWhile_append_dropWhile (p := (· ≠ 0x3b)) (l := body)
    rw [hrest, hu] at hall
    have hbody := Body.payload hcommand payload
    rw [hall] at hbody
    simpa using hbody

theorem Body.unique {body command command' payload payload' : List UInt8}
    (h : Body body command payload) (h' : Body body command' payload') :
    command = command' ∧ payload = payload' := by
  have hcut : ∀ {body command payload : List UInt8}, Body body command payload →
      command = body.takeWhile (· ≠ 0x3b) ∧
        payload = (body.dropWhile (· ≠ 0x3b)).drop 1 := by
    intro body command payload hbody
    have hall : ∀ {command : List UInt8}, 0x3b ∉ command →
        ∀ u ∈ command, decide (u ≠ 0x3b) = true := by
      intro command hcommand u hu
      refine decide_eq_true ?_
      rintro rfl
      exact hcommand hu
    cases hbody with
    | command hcommand =>
      refine ⟨(List.takeWhile_eq_self_iff.mpr (hall hcommand)).symm, ?_⟩
      rw [List.dropWhile_eq_nil_iff.mpr (hall hcommand)]
      rfl
    | payload hcommand =>
      rw [List.takeWhile_append_of_pos (hall hcommand),
        List.dropWhile_append_of_pos (hall hcommand)]
      simp
  obtain ⟨rfl, rfl⟩ := hcut h
  obtain ⟨rfl, rfl⟩ := hcut h'
  exact ⟨rfl, rfl⟩

theorem isSequence_of_terminator {l : List UInt8} {termAt termLen offset seqLen : Nat}
    (h : terminator l = some (termAt, termLen)) :
    IsSequence (oscPrefix ++ l.take (termAt + termLen))
      (makeEvent offset seqLen (l.take termAt)).command
      (makeEvent offset seqLen (l.take termAt)).payload := by
  obtain ⟨⟨st, hst, rfl, hstarts⟩, hfirst⟩ := terminator_some h
  have hle := terminator_le h
  have hlen : (l.take termAt).length = termAt := by
    rw [List.length_take]
    omega
  have hsplit : l.take (termAt + st.length) = l.take termAt ++ st := by
    rw [List.take_add, ← List.prefix_iff_eq_take.mp hstarts]
  rw [hsplit]
  refine .mk hst (body_makeEvent _ _ _) ?_
  intro k hk st' hst' hstarts'
  rw [hlen] at hk
  refine hfirst k hk st' hst' ?_
  rw [← hsplit] at hstarts'
  refine hstarts'.trans ?_
  rw [List.drop_take]
  exact List.take_prefix _ _

theorem IsSequence.terminator {sequence command payload : List UInt8}
    (h : IsSequence sequence command payload) (rest : List UInt8) :
    ∃ body len, Body body command payload ∧
      sequence.length = oscPrefix.length + body.length + len ∧
      body = ((sequence ++ rest).drop oscPrefix.length).take body.length ∧
      oscPrefix <+: sequence ++ rest ∧
      OscParser.terminator ((sequence ++ rest).drop oscPrefix.length) =
        some (body.length, len) := by
  obtain @⟨body, st, _, _, hst, hbody, hfirst⟩ := h
  have hdrop : (oscPrefix ++ (body ++ st) ++ rest).drop oscPrefix.length = body ++ (st ++ rest) := by
    rw [List.append_assoc, List.drop_left, List.append_assoc]
  refine ⟨body, st.length, hbody, ?_, ?_, ?_, ?_⟩
  · rw [List.length_append, List.length_append]
    omega
  · rw [hdrop, List.take_left]
  · rw [List.append_assoc]
    exact List.prefix_append _ _
  · rw [hdrop]
    refine terminator_eq_some hst ?_ ?_
    · rw [List.drop_left]
      exact List.prefix_append _ _
    · intro k hk st' hst' hstarts
      refine hfirst k hk st' hst' ?_
      rw [← List.append_assoc, List.drop_append_of_le_length (by
        rw [List.length_append]
        omega)] at hstarts
      refine List.prefix_of_prefix_length_le hstarts (List.prefix_append _ _) ?_
      rw [List.length_drop, List.length_append]
      have := hst'.length.2
      have := hst.length.1
      omega

end Bodies

section Deriving

/-- In front of what is derived, bytes in which no introducer begins make no difference. -/
theorem Derives.skip {offset n : Nat} {stream : List UInt8} {events : List Event}
    (hn : n ≤ stream.length) (hnone : ∀ k < n, ¬ oscPrefix <+: stream.drop k)
    (h : Derives (offset + n) (stream.drop n) events) :
    Derives offset stream events := by
  generalize hstart : offset + n = start at h
  generalize hrest : stream.drop n = rest at h
  cases h with
  | done h =>
    refine .done ?_
    intro k hk
    by_cases hkn : k < n
    · exact absurd hk (hnone k hkn)
    · have hdrop : ∀ j, rest.drop (k - n + j) = stream.drop (k + j) := by
        intro j
        rw [← hrest, List.drop_drop]
        congr 1
        omega
      have hk' := h (k - n)
      rw [hdrop] at hk'
      have := hdrop 0
      rw [Nat.add_zero, Nat.add_zero] at this
      rw [this] at hk'
      exact hk' hk
  | @event _ text sequence more command payload events htext hsequence hmore =>
    have hstream : stream = (stream.take n ++ text) ++ (sequence ++ more) := by
      rw [List.append_assoc, ← hrest, List.take_append_drop]
    have hlen : (stream.take n ++ text).length = n + text.length := by
      rw [List.length_append, List.length_take]
      omega
    have hoffset : start + text.length = offset + (stream.take n ++ text).length := by
      omega
    rw [hoffset] at hmore ⊢
    generalize stream.take n ++ text = front at hstream hlen hmore ⊢
    rw [hstream]
    refine .event ?_ hsequence hmore
    rw [← hstream]
    intro k hk
    by_cases hkn : k < n
    · exact hnone k hkn
    · have := htext (k - n) (by omega)
      rw [← hrest, List.drop_drop] at this
      rwa [show n + (k - n) = k by omega] at this

theorem Derives.unique {offset : Nat} {stream : List UInt8} {events events' : List Event}
    (h : Derives offset stream events) (h' : Derives offset stream events') :
    events = events' := by
  induction h generalizing events' with
  | @done offset stream h =>
    cases h' with
    | done _ => rfl
    | @event _ text sequence rest command payload events htext hsequence hrest =>
      obtain ⟨body, len, -, -, -, hstarts, hterm⟩ := hsequence.terminator rest
      have hnone := h text.length (by rwa [List.drop_left])
      obtain ⟨⟨st, hst, -, hst'⟩, -⟩ := terminator_some hterm
      rw [← List.drop_drop, List.drop_left] at hnone
      exact absurd hst' (hnone (body.length + 1) body.length (by omega) st hst)
  | @event offset text sequence rest command payload events htext hsequence hrest ih =>
    obtain ⟨body, len, hbody, hlength, hcut, hstarts, hterm⟩ := hsequence.terminator rest
    generalize hstream : text ++ (sequence ++ rest) = stream at h'
    cases h' with
    | done h =>
      subst hstream
      have hnone := h text.length (by rwa [List.drop_left])
      obtain ⟨⟨st, hst, -, hst'⟩, -⟩ := terminator_some hterm
      rw [← List.drop_drop, List.drop_left] at hnone
      exact absurd hst' (hnone (body.length + 1) body.length (by omega) st hst)
    | @event _ text' sequence' rest' command' payload' events' htext' hsequence' hrest' =>
      obtain ⟨body', len', hbody', hlength', hcut', hstarts', hterm'⟩ :=
        hsequence'.terminator rest'
      have htextLength : text.length = text'.length := by
        refine Nat.le_antisymm ?_ ?_
        · by_contra hlt
          refine htext text'.length (by omega) ?_
          rw [hstream, List.drop_left]
          exact hstarts'
        · by_contra hlt
          refine htext' text.length (by omega) ?_
          rw [← hstream, List.drop_left]
          exact hstarts
      obtain ⟨rfl, hmore⟩ := List.append_inj hstream htextLength
      rw [hmore, hterm'] at hterm
      obtain ⟨hbodyLength, rfl⟩ := Prod.mk.inj (Option.some.inj hterm)
      obtain ⟨rfl, rfl⟩ := List.append_inj hmore (by omega)
      rw [← hbodyLength, ← hcut'] at hcut
      subst hcut
      obtain ⟨rfl, rfl⟩ := hbody.unique hbody'
      rw [ih hrest']

theorem drop_introducer {buf : List UInt8} {start : Nat} (h : oscPrefix <+: buf.drop start)
    (n : Nat) :
    buf.drop start =
      (oscPrefix ++ (buf.drop (start + oscPrefix.length)).take n) ++
        buf.drop (start + oscPrefix.length + n) := by
  obtain ⟨more, hmore⟩ := h
  have hdrop : buf.drop (start + oscPrefix.length) = more := by
    rw [← List.drop_drop, ← hmore, List.drop_left]
  rw [List.append_assoc, ← List.drop_drop (i := n), hdrop, List.take_append_drop, hmore]

/-- What is derived of the bytes behind the place where the loop stops is derived of all, after the
events that the loop has found. -/
theorem scan_derives {base fuel scanFrom : Nat} {buf rest : List UInt8}
    {events : List Event} (hle : scanFrom ≤ buf.length)
    (h : Derives (base + (scan base buf fuel scanFrom).2)
      (buf.drop (scan base buf fuel scanFrom).2 ++ rest) events) :
    Derives (base + scanFrom) (buf.drop scanFrom ++ rest)
      ((scan base buf fuel scanFrom).1 ++ events) := by
  have hlen : oscPrefix.length = 8 := rfl
  -- an introducer that begins early enough lies in the buffer
  have hinside : ∀ {from' k : Nat}, from' + k + 8 ≤ buf.length →
      oscPrefix <+: (buf.drop from' ++ rest).drop k → oscPrefix <+: (buf.drop from').drop k := by
    intro from' k hk hstarts
    rw [List.drop_append_of_le_length (by rw [List.length_drop]; omega)] at hstarts
    refine List.prefix_of_prefix_length_le hstarts (List.prefix_append _ _) ?_
    rw [List.length_drop, List.length_drop]
    omega
  induction fuel generalizing scanFrom with
  | zero => exact h
  | succ fuel ih =>
    rw [scan] at h ⊢
    cases hindex : index oscPrefix (buf.drop scanFrom) with
    | none =>
      rw [hindex] at h
      dsimp only at h ⊢
      have hnone := index_none hindex
      split at h
      next hkeep =>
          rw [List.nil_append]
          refine Derives.skip (n := buf.length - (oscPrefix.length - 1) - scanFrom) ?_ ?_ ?_
          · rw [List.length_append, List.length_drop]
            omega
          · intro k hk hstarts
            exact hnone k (hinside (by omega) hstarts)
          · rw [List.drop_append_of_le_length (by rw [List.length_drop]; omega),
              List.drop_drop]
            have hstop : scanFrom + (buf.length - (oscPrefix.length - 1) - scanFrom) =
                buf.length - (oscPrefix.length - 1) := by
              omega
            rw [hstop, Nat.add_assoc, hstop]
            exact h
      next => exact h
    | some rel =>
      rw [hindex] at h
      dsimp only at h ⊢
      have hfound := index_some hindex
      have hbound := hfound.length_le
      rw [List.length_drop, List.length_drop, hlen] at hbound
      have hfirst : ∀ k < rel, ¬ oscPrefix <+: (buf.drop scanFrom ++ rest).drop k := by
        intro k hk hstarts
        exact index_first hindex k hk (hinside (by omega) hstarts)
      cases hterm : OscParser.terminator (buf.drop (scanFrom + rel + oscPrefix.length)) with
      | none =>
        rw [hterm] at h
        dsimp only at h ⊢
        rw [List.nil_append]
        refine Derives.skip (n := rel) ?_ hfirst ?_
        · rw [List.length_append, List.length_drop]
          omega
        · rw [List.drop_append_of_le_length (by rw [List.length_drop]; omega),
            List.drop_drop, Nat.add_assoc]
          exact h
      | some term =>
        obtain ⟨termAt, termLen⟩ := term
        rw [hterm] at h
        dsimp only at h ⊢
        have hend := terminator_le hterm
        rw [List.length_drop] at hend
        have hmore := ih (by omega) h
        have hsequence := @isSequence_of_terminator _ _ _ (base + (scanFrom + rel))
          (scanFrom + rel + oscPrefix.length + termAt + termLen - (scanFrom + rel)) hterm
        generalize hstop : scanFrom + rel + oscPrefix.length + termAt + termLen = stop
          at hmore hsequence ⊢
        generalize hseq : oscPrefix ++
          (buf.drop (scanFrom + rel + oscPrefix.length)).take (termAt + termLen) = sequence
          at hsequence
        have hseqLength : sequence.length = stop - (scanFrom + rel) := by
          rw [← hseq, List.length_append, List.length_take, List.length_drop]
          omega
        have hsplit : buf.drop scanFrom ++ rest =
            (buf.drop scanFrom).take rel ++ (sequence ++ (buf.drop stop ++ rest)) := by
          have hrest : buf.drop (scanFrom + rel) = sequence ++ buf.drop stop := by
            rw [← hseq, ← hstop, Nat.add_assoc _ termAt]
            exact drop_introducer (by rwa [List.drop_drop] at hfound) _
          rw [← List.append_assoc sequence, ← hrest, ← List.drop_drop, ← List.append_assoc,
            List.take_append_drop]
        have htextLength : ((buf.drop scanFrom).take rel).length = rel := by
          rw [List.length_take, List.length_drop]
          omega
        rw [List.cons_append, hsplit]
        have hevent := @Derives.event (base + scanFrom) ((buf.drop scanFrom).take rel) sequence
          (buf.drop stop ++ rest) _ _ _
          (by rwa [htextLength, ← hsplit]) hsequence (by
            rw [htextLength, hseqLength,
              show base + scanFrom + rel + (stop - (scanFrom + rel)) = base + stop by omega]
            exact hmore)
        rw [htextLength, hseqLength, Nat.add_assoc base] at hevent
        exact hevent

theorem scan_kept {base fuel scanFrom : Nat} {buf : List UInt8}
    (hfuel : buf.length - scanFrom < fuel) (hle : scanFrom ≤ buf.length) :
    (buf.drop (scan base buf fuel scanFrom).2).length < oscPrefix.length ∨
      (oscPrefix <+: buf.drop (scan base buf fuel scanFrom).2 ∧
        OscParser.terminator
          (buf.drop ((scan base buf fuel scanFrom).2 + oscPrefix.length)) = none) := by
  have hlen : oscPrefix.length = 8 := rfl
  induction fuel generalizing scanFrom with
  | zero => omega
  | succ fuel ih =>
    rw [scan]
    cases hindex : index oscPrefix (buf.drop scanFrom) with
    | none =>
      dsimp only
      refine Or.inl ?_
      rw [List.length_drop]
      split <;> omega
    | some rel =>
      have hfound := index_some hindex
      have hbound := hfound.length_le
      rw [List.length_drop, List.length_drop, hlen] at hbound
      dsimp only
      cases hterm : OscParser.terminator (buf.drop (scanFrom + rel + oscPrefix.length)) with
      | none =>
        refine Or.inr ⟨?_, hterm⟩
        rwa [List.drop_drop] at hfound
      | some term =>
        obtain ⟨termAt, termLen⟩ := term
        have hend := terminator_le hterm
        rw [List.length_drop] at hend
        exact ih (by omega) (by omega)

theorem EndsWithin.kept_le {kept rest : List UInt8} (h : EndsWithin (kept ++ rest))
    (hstarts : oscPrefix <+: kept)
    (hterm : OscParser.terminator (kept.drop oscPrefix.length) = none) :
    kept.length ≤ maxBuffered := by
  rcases h 0 (hstarts.trans (List.prefix_append _ _)) with hshort | ⟨n, st, hst, hend, hlimit⟩
  · rw [List.drop_zero, List.length_append] at hshort
    omega
  · by_contra hlong
    rw [Nat.zero_add, ← List.drop_drop, List.drop_append_of_le_length hstarts.length_le] at hend
    obtain ⟨m, len, hfound, hle⟩ := terminator_isSome hst hend
    rw [terminator_of_append hfound (by
      rw [List.length_drop]
      omega)] at hterm
    cases hterm

theorem EndsWithin.drop {stream : List UInt8} (h : EndsWithin stream) (n : Nat) :
    EndsWithin (stream.drop n) := by
  intro k hk
  rw [List.drop_drop] at hk ⊢
  rcases h (n + k) hk with hshort | ⟨m, st, hst, hend, hlimit⟩
  · exact Or.inl hshort
  · refine Or.inr ⟨m, st, hst, ?_, hlimit⟩
    rw [List.drop_drop]
    rwa [show n + (k + oscPrefix.length + m) = n + k + oscPrefix.length + m by omega]

theorem Feed_derives {p : Parser} {chunk rest : List UInt8} {events : List Event}
    (hlimit : EndsWithin (p.buf ++ chunk ++ rest))
    (h : EndsWithin ((p.Feed chunk).2.buf ++ rest) →
      Derives (p.Feed chunk).2.bufBase ((p.Feed chunk).2.buf ++ rest) events) :
    Derives p.bufBase (p.buf ++ chunk ++ rest) ((p.Feed chunk).1 ++ events) := by
  unfold Parser.Feed at h ⊢
  split at h
  next hchunk =>
      subst hchunk
      rw [if_pos rfl]
      rw [List.append_nil] at hlimit ⊢
      exact h hlimit
  next hchunk =>
      rw [if_neg hchunk]
      dsimp only at h ⊢
      generalize p.buf ++ chunk = buf at hlimit h ⊢
      have hkept := @scan_kept p.bufBase (buf.length + 1) 0 buf (by omega) (Nat.zero_le _)
      have hstop := (scan_spans p.bufBase (buf.length + 1) (Nat.zero_le buf.length)).2
      have hmore := hlimit.drop (scan p.bufBase buf (buf.length + 1) 0).2
      rw [List.drop_append_of_le_length hstop] at hmore
      have hfits : (buf.drop (scan p.bufBase buf (buf.length + 1) 0).2).length ≤ maxBuffered := by
        rcases hkept with hshort | ⟨hstarts, hterm⟩
        · exact Nat.le_trans (Nat.le_of_lt hshort) (by decide)
        · rw [← List.drop_drop] at hterm
          exact hmore.kept_le hstarts hterm
      rw [if_neg (by omega), List.drop_zero, Nat.add_zero] at h
      have hall := @scan_derives p.bufBase (buf.length + 1) 0 buf rest events (Nat.zero_le _)
        (h hmore)
      rwa [Nat.add_zero, List.drop_zero] at hall

theorem feeds_derives {p : Parser} {chunks : List (List UInt8)}
    (hunfinished : Unfinished p.buf) (hlimit : EndsWithin (p.buf ++ chunks.flatten)) :
    Derives p.bufBase (p.buf ++ chunks.flatten) (feeds p chunks).1 := by
  induction chunks generalizing p with
  | nil =>
    refine .done ?_
    intro k hk n
    rw [List.flatten_nil, List.append_nil] at hk ⊢
    exact terminator_none (hunfinished k hk) n
  | cons chunk chunks ih =>
    rw [List.flatten_cons, ← List.append_assoc] at hlimit ⊢
    exact Feed_derives hlimit fun hmore => ih (Feed_unfinished hunfinished) hmore

end Deriving

section Reporting

theorem scan_sequence {base fuel scanFrom : Nat} {buf : List UInt8} {ev : Event}
    (hev : ev ∈ (scan base buf fuel scanFrom).1) :
    ∃ k, ev.offset = base + k ∧ k + ev.seqLen ≤ buf.length ∧
      IsSequence ((buf.drop k).take ev.seqLen) ev.command ev.payload := by
  induction fuel generalizing scanFrom with
  | zero => simp [scan] at hev
  | succ fuel ih =>
    rw [scan] at hev
    cases hindex : index oscPrefix (buf.drop scanFrom) with
    | none =>
      rw [hindex] at hev
      simp at hev
    | some rel =>
      rw [hindex] at hev
      dsimp only at hev
      cases hterm : OscParser.terminator (buf.drop (scanFrom + rel + oscPrefix.length)) with
      | none =>
        rw [hterm] at hev
        simp at hev
      | some term =>
        obtain ⟨termAt, termLen⟩ := term
        rw [hterm] at hev
        rcases List.mem_cons.mp hev with rfl | hrest
        · have hfound := index_some hindex
          have hend := terminator_le hterm
          have hbound := hfound.length_le
          rw [List.length_drop, List.length_drop] at hbound
          rw [List.length_drop] at hend
          have hlen : oscPrefix.length = 8 := rfl
          refine ⟨scanFrom + rel, rfl, ?_, ?_⟩
          · dsimp only [makeEvent]
            omega
          · have htake : (buf.drop (scanFrom + rel)).take
                (scanFrom + rel + oscPrefix.length + termAt + termLen - (scanFrom + rel)) =
                oscPrefix ++ (buf.drop (scanFrom + rel + oscPrefix.length)).take
                  (termAt + termLen) := by
              rw [drop_introducer (by rwa [List.drop_drop] at hfound) (termAt + termLen)]
              refine List.take_left' ?_
              rw [List.length_append, List.length_take, List.length_drop]
              omega
            dsimp only [makeEvent]
            rw [htake]
            exact @isSequence_of_terminator _ _ _ 0 0 hterm
        · exact ih hrest

/-- The buffer is the end of what was fed. -/
structure Tail (fed : List UInt8) (p : Parser) : Prop where
  le : p.bufBase ≤ fed.length
  buf : p.buf = fed.drop p.bufBase

theorem Tail.feed {fed : List UInt8} {p : Parser} (h : Tail fed p) (chunk : List UInt8) :
    Tail (fed ++ chunk) (p.Feed chunk).2 := by
  have hoffset := @Offset_Feed p chunk
  have hlength := congrArg List.length h.buf
  rw [List.length_drop] at hlength
  refine ⟨?_, ?_⟩
  · have hle := h.le
    simp only [Parser.Offset] at hoffset
    rw [List.length_append]
    omega
  · unfold Parser.Feed
    split
    next hchunk =>
        rw [hchunk, List.append_nil]
        exact h.buf
    next =>
        dsimp only
        rw [List.drop_drop, h.buf, ← List.drop_append_of_le_length h.le, List.drop_drop,
          Nat.add_assoc]

theorem Tail.sequence {fed chunk : List UInt8} {p : Parser} (h : Tail fed p) {ev : Event}
    (hev : ev ∈ (p.Feed chunk).1) :
    ev.stop ≤ (fed ++ chunk).length ∧
      IsSequence (((fed ++ chunk).drop ev.offset).take ev.seqLen) ev.command ev.payload := by
  unfold Parser.Feed at hev
  split at hev
  next => cases hev
  next =>
      obtain ⟨k, hoffset, hle, hsequence⟩ := scan_sequence hev
      have hbuf : p.buf ++ chunk = (fed ++ chunk).drop p.bufBase := by
        rw [h.buf, List.drop_append_of_le_length h.le]
      rw [hbuf, List.length_drop] at hle
      rw [hbuf, List.drop_drop, ← hoffset] at hsequence
      have hbase := h.le
      refine ⟨?_, hsequence⟩
      rw [Event.stop, hoffset]
      rw [List.length_append] at hle ⊢
      omega

theorem Feed_buf_le {p : Parser} (h : p.buf.length ≤ maxBuffered) (chunk : List UInt8) :
    (p.Feed chunk).2.buf.length ≤ maxBuffered := by
  unfold Parser.Feed
  split
  next => exact h
  next =>
      have hhalf : maxBuffered / 2 ≤ maxBuffered := Nat.div_le_self _ _
      dsimp only
      rw [List.length_drop]
      split <;> omega

/-- What is known of the chunks' events, and of the parser behind them. -/
structure Reported (stream : List UInt8) (lo : Nat) (events : List Event) (p : Parser) : Prop where
  offset : p.Offset = stream.length
  buffered : p.buf.length ≤ maxBuffered
  spans : Spans lo events p.bufBase
  sequence : ∀ ev ∈ events,
    IsSequence ((stream.drop ev.offset).take ev.seqLen) ev.command ev.payload

theorem Spans.append {lo mid hi : Nat} {events events' : List Event}
    (h : Spans lo events mid) (h' : Spans mid events' hi) :
    Spans lo (events ++ events') hi := by
  induction events generalizing lo with
  | nil =>
    have hle : lo ≤ mid := h
    cases events' with
    | nil => exact Nat.le_trans hle h'
    | cons ev rest => exact ⟨Nat.le_trans hle h'.1, h'.2⟩
  | cons ev rest ih => exact ⟨h.1, ih h.2⟩

theorem feeds_reported {fed : List UInt8} {p : Parser} (htail : Tail fed p)
    (hbuffered : p.buf.length ≤ maxBuffered) (chunks : List (List UInt8)) :
    Reported (fed ++ chunks.flatten) p.bufBase (feeds p chunks).1 (feeds p chunks).2 := by
  induction chunks generalizing fed p with
  | nil =>
    refine ⟨?_, hbuffered, Nat.le_refl _, by simp [feeds]⟩
    have hlength := congrArg List.length htail.buf
    have hle := htail.le
    rw [List.length_drop] at hlength
    simp only [feeds, Parser.Offset, List.flatten_nil, List.append_nil]
    omega
  | cons chunk chunks ih =>
    have hrest := ih (htail.feed chunk) (Feed_buf_le hbuffered chunk)
    rw [List.append_assoc, ← List.flatten_cons] at hrest
    refine ⟨hrest.offset, hrest.buffered, (Feed_spans p chunk).append hrest.spans, ?_⟩
    intro ev hev
    rcases List.mem_append.mp hev with hev | hev
    · obtain ⟨hstop, hsequence⟩ := htail.sequence hev
      rw [Event.stop] at hstop
      rw [List.flatten_cons, ← List.append_assoc, List.drop_append_of_le_length (by omega),
        List.take_append_of_le_length (by
          rw [List.length_drop]
          omega)]
      exact hsequence
    · exact hrest.sequence ev hev

/-- **Within the limit, the events of the chunks are those of the stream, however it is cut; and of
every stream, each event that is reported is a sequence with its exact place.** -/
theorem feeds_correct (chunks : List (List UInt8)) :
    (EndsWithin chunks.flatten → ∀ events,
      Derives 0 chunks.flatten events ↔ (feeds MakeParser chunks).1 = events) ∧
    Reported chunks.flatten 0 (feeds MakeParser chunks).1 (feeds MakeParser chunks).2 := by
  have htail : Tail [] MakeParser := ⟨Nat.le_refl _, rfl⟩
  refine ⟨?_, ?_⟩
  · intro hlimit events
    have hderives := @feeds_derives MakeParser chunks (by
      intro k _
      rw [MakeParser, List.drop_nil]
      rfl) hlimit
    constructor
    · intro h
      exact hderives.unique h
    · intro h
      rw [← h]
      exact hderives
  · exact feeds_reported htail (Nat.zero_le _) chunks

/-- A command whose introducer and terminator are both cut. -/
theorem feeds_correct_cut :
    Derives 0
      [0x41, 0x1b, 0x5d, 0x31, 0x36, 0x31, 0x36, 0x32, 0x3b, 0x44, 0x3b, 0x30, 0x1b, 0x5c, 0x42]
      [⟨[0x44], [0x30], 1, 13⟩] :=
  ((feeds_correct [[0x41, 0x1b, 0x5d, 0x31], [0x36, 0x31, 0x36, 0x32, 0x3b, 0x44, 0x3b],
      [0x30, 0x1b], [], [0x5c, 0x42]]).1
    (by
      intro k _
      refine Or.inl ?_
      rw [List.length_drop]
      exact Nat.le_trans (Nat.sub_le _ _) (by decide))
    _).mpr (by decide)

end Reporting

end OscParser

import Crest.ContextSummary

/-!
# What the chunks of a conversation are

The chunks give back the conversation, and each fits.  Input is refused as too large only where a
block does not fit that cannot be cut, where the pieces of the one length that a text is cut into
are too many or do not fit, or where first-fit packing needs too many chunks.
-/

namespace ContextSummary

variable {runtime : SummaryRuntime}
variable {message : ContextSnapshotMessage}
variable {text : JsString}

section Failures

variable {α β : Type}

variable {x : Except ContextSummaryError α} {f : α → Except ContextSummaryError β}

theorem bind_eq_ok {b : β} :
    (x >>= f) = .ok b ↔ ∃ a, x = .ok a ∧ f a = .ok b := by
  cases x with
  | ok _ | error _ => simp [bind, Except.bind]

variable {e : ContextSummaryError}

theorem bind_eq_error :
    (x >>= f) = .error e ↔ x = .error e ∨ ∃ a, x = .ok a ∧ f a = .error e := by
  cases x with
  | ok _ | error _ => simp [bind, Except.bind]

theorem safeCountTokens_error (h : safeCountTokens runtime text = .error e) :
    e.code = .counter_unavailable := by
  rw [safeCountTokens] at h
  split at h
  · cases h
    rfl
  · cases h
    rfl
  · cases h

variable {messages : List ContextSnapshotMessage}

theorem mapFits_error (h : mapFits runtime messages = .error e) :
    e.code = .counter_unavailable := by
  rw [mapFits, promptFits] at h
  split at h
  · rcases bind_eq_error.mp h with h | ⟨system, -, h⟩
    · exact safeCountTokens_error h
    rcases bind_eq_error.mp h with h | ⟨tokens, -, h⟩
    · exact safeCountTokens_error h
    split at h
    · rcases bind_eq_error.mp h with h | ⟨content, -, h⟩
      · exact safeCountTokens_error h
      · cases h
    · cases h
  · cases h

theorem mapFits_not_too_large (h : mapFits runtime messages = .error e) :
    e.code ≠ .input_too_large := by
  rw [mapFits_error h]
  simp

end Failures

section Texts

theorem characters_flatten (text : JsString) : (characters text).flatten = text := by
  induction text using characters.induct with
  | case1 | case2 _ => rfl
  | case3 _ _ _ hpair ih | case4 _ _ _ hpair ih => simp [characters, hpair, ih]

theorem flatMap_slices {α : Type} (l : List α) (length count : Nat) :
    (List.range count).flatMap (fun i => (l.drop (i * length)).take length) =
      l.take (count * length) := by
  induction count with
  | zero => simp
  | succ count ih =>
    rw [List.range_succ, List.flatMap_append, ih, List.flatMap_singleton, Nat.succ_mul,
      List.take_add]

theorem piecesOf_flatten {length : Nat} (h : 0 < length) (text : JsString) :
    (piecesOf text length).flatten = text := by
  have hall : (characters text).length ≤ pieceCount text length * length := by
    rw [pieceCount]
    have hdiv := Nat.div_add_mod ((characters text).length + length - 1) length
    have hmod := Nat.mod_lt ((characters text).length + length - 1) h
    rw [Nat.mul_comm] at hdiv
    omega
  have hslices := flatMap_slices (characters text) length (pieceCount text length)
  rw [List.take_of_length_le hall] at hslices
  have hflatten := congrArg List.flatten hslices
  rw [characters_flatten] at hflatten
  refine Eq.trans ?_ hflatten
  rw [piecesOf, List.flatMap_def, List.flatten_flatten, List.map_map]
  rfl

/-- The length at which the search for the pieces ends: a beginning of that length fits behind the
longest marker, and one that is a character longer does not. -/
structure Boundary (runtime : SummaryRuntime) (message : ContextSnapshotMessage) (text : JsString)
    (length : Nat) : Prop where
  le : length ≤ (characters text).length
  fits : 0 < length → mapFits runtime [placeholderMessage message text length] = .ok true
  tight : length < (characters text).length →
    mapFits runtime [placeholderMessage message text (length + 1)] = .ok false

theorem pieceLength_spec {fits : Nat → Except ContextSummaryError Bool}
    {fuel low high length : Nat} (h : pieceLength fits fuel low high = .ok length)
    (hfuel : high - low ≤ fuel) (hle : low ≤ high) :
    low ≤ length ∧ length ≤ high ∧ (low < length → fits length = .ok true) ∧
      (length < high → fits (length + 1) = .ok false) := by
  induction fuel generalizing low high with
  | zero =>
    cases h
    refine ⟨Nat.le_refl _, hle, fun hlt => absurd hlt (Nat.lt_irrefl _), fun hlt => ?_⟩
    omega
  | succ fuel ih =>
    rw [pieceLength] at h
    split at h
    · rename_i hlt
      obtain ⟨fitting, hfits, h⟩ := bind_eq_ok.mp h
      split at h
      · rename_i htrue
        rw [htrue] at hfits
        obtain ⟨hlow, hhigh, hlength, htight⟩ := ih h (by omega) (by omega)
        refine ⟨by omega, hhigh, fun _ => ?_, htight⟩
        rcases Nat.lt_or_eq_of_le hlow with hmore | heq
        · exact hlength hmore
        · rw [← heq]
          exact hfits
      · rename_i hfalse
        rw [Bool.not_eq_true] at hfalse
        rw [hfalse] at hfits
        obtain ⟨hlow, hhigh, hlength, htight⟩ := ih h (by omega) (by omega)
        refine ⟨hlow, by omega, hlength, fun _ => ?_⟩
        rcases Nat.lt_or_eq_of_le hhigh with hless | heq
        · exact htight hless
        · rw [heq, show (low + high + 1) / 2 - 1 + 1 = (low + high + 1) / 2 by omega]
          exact hfits
    · cases h
      refine ⟨Nat.le_refl _, hle, fun hlt => absurd hlt (Nat.lt_irrefl _), fun hlt => ?_⟩
      contradiction

variable {e : ContextSummaryError}

theorem pieceLength_error {fuel low high : Nat}
    (h : pieceLength (fun length => mapFits runtime [placeholderMessage message text length]) fuel
      low high = .error e) :
    e.code ≠ .input_too_large := by
  induction fuel generalizing low high with
  | zero => cases h
  | succ fuel ih =>
    rw [pieceLength] at h
    split at h
    · rcases bind_eq_error.mp h with h | ⟨fitting, -, h⟩
      · exact mapFits_not_too_large h
      · split at h
        · exact ih h
        · exact ih h
    · cases h

variable {fragments : List ContextSnapshotMessage}

theorem allFit_true (h : allFit runtime fragments = .ok true) :
    ∀ fragment ∈ fragments, mapFits runtime [fragment] = .ok true := by
  induction fragments with
  | nil => simp
  | cons fragment fragments ih =>
    obtain ⟨fitting, hfits, h⟩ := bind_eq_ok.mp h
    split at h
    · rename_i htrue
      rw [htrue] at hfits
      intro other hother
      rcases List.mem_cons.mp hother with rfl | hother
      · exact hfits
      · exact ih h other hother
    · cases h

theorem allFit_false (h : allFit runtime fragments = .ok false) :
    ∃ fragment ∈ fragments, mapFits runtime [fragment] = .ok false := by
  induction fragments with
  | nil => cases h
  | cons fragment fragments ih =>
    obtain ⟨fitting, hfits, h⟩ := bind_eq_ok.mp h
    split at h
    · obtain ⟨other, hother, hnot⟩ := ih h
      exact ⟨other, List.mem_cons_of_mem _ hother, hnot⟩
    · rename_i hfalse
      rw [Bool.not_eq_true] at hfalse
      rw [hfalse] at hfits
      exact ⟨fragment, List.mem_cons_self, hfits⟩

theorem allFit_error (h : allFit runtime fragments = .error e) :
    e.code ≠ .input_too_large := by
  induction fragments with
  | nil => cases h
  | cons fragment fragments ih =>
    rcases bind_eq_error.mp h with h | ⟨fitting, -, h⟩
    · exact mapFits_not_too_large h
    · split at h
      · exact ih h
      · cases h

/-- A text cannot be cut at the length at which the search ends. -/
def Uncut (runtime : SummaryRuntime) (message : ContextSnapshotMessage) (text : JsString) : Prop :=
  ∃ length, Boundary runtime message text length ∧
    (length = 0 ∨ MaxMapChunks < pieceCount text length ∨
      ∃ fragment ∈ continuations message (piecesOf text length),
        mapFits runtime [fragment] = .ok false)

theorem splitTextBlock_ok (h : splitTextBlock runtime message text = .ok fragments) :
    ∃ pieces : List JsString, pieces.length ≤ MaxMapChunks ∧ pieces.flatten = text ∧
      fragments = continuations message pieces ∧
        ∀ fragment ∈ fragments, mapFits runtime [fragment] = .ok true := by
  obtain ⟨low, -, h⟩ := bind_eq_ok.mp h
  split at h
  · cases h
  · rename_i hlow
    split at h
    · cases h
    · rename_i hcount
      obtain ⟨all, hall, h⟩ := bind_eq_ok.mp h
      split at h
      · rename_i htrue
        rw [htrue] at hall
        cases h
        refine ⟨piecesOf text low, ?_, piecesOf_flatten (Nat.pos_of_ne_zero hlow) text, rfl,
          allFit_true hall⟩
        rw [piecesOf, List.length_map, List.length_range]
        omega
      · cases h

theorem splitTextBlock_error (h : splitTextBlock runtime message text = .error e)
    (hcode : e.code = .input_too_large) :
    Uncut runtime message text := by
  rcases bind_eq_error.mp h with h | ⟨low, hlow, h⟩
  · exact absurd hcode (pieceLength_error h)
  · obtain ⟨-, hle, hfits, htight⟩ := pieceLength_spec hlow (by omega) (Nat.zero_le _)
    have hboundary : Boundary runtime message text low := ⟨hle, hfits, htight⟩
    refine ⟨low, hboundary, ?_⟩
    split at h
    · exact .inl ‹_›
    · split at h
      · exact .inr (.inl ‹_›)
      · rcases bind_eq_error.mp h with h | ⟨all, hall, h⟩
        · exact absurd hcode (allFit_error h)
        · split at h
          · cases h
          · rename_i hfalse
            rw [Bool.not_eq_true] at hfalse
            rw [hfalse] at hall
            exact .inr (.inr (allFit_false hall))

end Texts

/-- The blocks of messages, each with the role and the tool fields of its message. -/
def blocksOf (messages : List ContextSnapshotMessage) : List ContextSnapshotMessage :=
  messages.flatMap fun message => message.content.map (cloneMessageWithBlock message)

/-- Messages give back blocks: each stands for its own blocks, or it and its continuations stand
for one text, whose pieces they have behind their markers. -/
inductive Reads : List ContextSnapshotMessage → List ContextSnapshotMessage → Prop
  | nil : Reads [] []
  | whole (message : ContextSnapshotMessage) {fragments blocks : List ContextSnapshotMessage} :
      Reads fragments blocks →
        Reads (message :: fragments) (message.content.map (cloneMessageWithBlock message) ++ blocks)
  | text (message : ContextSnapshotMessage) (pieces : List JsString)
      {fragments blocks : List ContextSnapshotMessage} :
      Reads fragments blocks →
        Reads (continuations message pieces ++ fragments)
          (cloneMessageWithBlock message (.text pieces.flatten) :: blocks)

theorem Reads.append {fragments fragments' blocks blocks' : List ContextSnapshotMessage}
    (h : Reads fragments blocks) (h' : Reads fragments' blocks') :
    Reads (fragments ++ fragments') (blocks ++ blocks') := by
  induction h with
  | nil => exact h'
  | whole message _ ih =>
    rw [List.cons_append, List.append_assoc]
    exact .whole message ih
  | text message pieces _ ih =>
    rw [List.append_assoc, List.cons_append]
    exact .text message pieces ih

theorem Reads.single (message : ContextSnapshotMessage) :
    Reads [message] (message.content.map (cloneMessageWithBlock message)) := by
  have h := Reads.whole message .nil
  rwa [List.append_nil] at h

section Expansion

variable {fragments : List ContextSnapshotMessage}

theorem expandBlocks_ok {blocks : List ContextSnapshotBlock}
    (h : expandBlocks runtime message blocks = .ok fragments) :
    Reads fragments (blocks.map (cloneMessageWithBlock message)) ∧
      ∀ fragment ∈ fragments, mapFits runtime [fragment] = .ok true := by
  induction blocks generalizing fragments with
  | nil =>
    cases h
    exact ⟨.nil, by simp⟩
  | cons block blocks ih =>
    obtain ⟨fitting, hfits, h⟩ := bind_eq_ok.mp h
    split at h
    · rename_i htrue
      rw [htrue] at hfits
      obtain ⟨rest, hrest, h⟩ := bind_eq_ok.mp h
      cases h
      obtain ⟨hreads, hall⟩ := ih hrest
      refine ⟨.whole (cloneMessageWithBlock message block) hreads, ?_⟩
      intro fragment hfragment
      rcases List.mem_cons.mp hfragment with rfl | hfragment
      · exact hfits
      · exact hall fragment hfragment
    · split at h
      · rename_i text _
        obtain ⟨split, hsplit, h⟩ := bind_eq_ok.mp h
        obtain ⟨rest, hrest, h⟩ := bind_eq_ok.mp h
        cases h
        obtain ⟨hreads, hall⟩ := ih hrest
        obtain ⟨pieces, -, hpieces, rfl, hpieces_fit⟩ := splitTextBlock_ok hsplit
        refine ⟨?_, ?_⟩
        · rw [List.map_cons, ← hpieces]
          exact .text message pieces hreads
        · intro fragment hfragment
          rcases List.mem_append.mp hfragment with hfragment | hfragment
          · exact hpieces_fit fragment hfragment
          · exact hall fragment hfragment
      · cases h

/-- A message does not fit, because of a block that does not and cannot be cut. -/
def Refused (runtime : SummaryRuntime) (message : ContextSnapshotMessage) : Prop :=
  mapFits runtime [message] = .ok false ∧
    ∃ block ∈ message.content,
      mapFits runtime [cloneMessageWithBlock message block] = .ok false ∧
        ∀ text, block = .text text → Uncut runtime message text

variable {e : ContextSummaryError}

theorem expandBlocks_error {blocks : List ContextSnapshotBlock}
    (h : expandBlocks runtime message blocks = .error e) (hcode : e.code = .input_too_large) :
    ∃ block ∈ blocks, mapFits runtime [cloneMessageWithBlock message block] = .ok false ∧
      ∀ text, block = .text text → Uncut runtime message text := by
  induction blocks with
  | nil => cases h
  | cons block blocks ih =>
    rcases bind_eq_error.mp h with h | ⟨fitting, hfits, h⟩
    · exact absurd hcode (mapFits_not_too_large h)
    · split at h
      · rcases bind_eq_error.mp h with h | ⟨rest, -, h⟩
        · obtain ⟨other, hother, hrefused⟩ := ih h
          exact ⟨other, List.mem_cons_of_mem _ hother, hrefused⟩
        · cases h
      · rename_i hfalse
        rw [Bool.not_eq_true] at hfalse
        rw [hfalse] at hfits
        split at h
        · rename_i text _
          rcases bind_eq_error.mp h with h | ⟨split, -, h⟩
          · refine ⟨_, List.mem_cons_self, hfits, ?_⟩
            intro other hother
            cases hother
            exact splitTextBlock_error h hcode
          · rcases bind_eq_error.mp h with h | ⟨rest, -, h⟩
            · obtain ⟨other, hother, hrefused⟩ := ih h
              exact ⟨other, List.mem_cons_of_mem _ hother, hrefused⟩
            · cases h
        · rename_i hnotText
          refine ⟨block, List.mem_cons_self, hfits, ?_⟩
          intro text htext
          exact absurd htext (hnotText text)

theorem expandMessage_ok (h : expandMessage runtime message = .ok fragments) :
    Reads fragments (message.content.map (cloneMessageWithBlock message)) ∧
      (∀ fragment ∈ fragments, mapFits runtime [fragment] = .ok true) ∧
        (mapFits runtime [message] = .ok true → fragments = [message]) := by
  obtain ⟨fitting, hfits, h⟩ := bind_eq_ok.mp h
  split at h
  · rename_i htrue
    rw [htrue] at hfits
    cases h
    refine ⟨.single message, ?_, fun _ => rfl⟩
    intro fragment hfragment
    rw [List.mem_singleton.mp hfragment]
    exact hfits
  · rename_i hfalse
    rw [Bool.not_eq_true] at hfalse
    obtain ⟨hreads, hall⟩ := expandBlocks_ok h
    refine ⟨hreads, hall, fun htrue => ?_⟩
    rw [hfits, hfalse] at htrue
    cases htrue

theorem expandMessage_error (h : expandMessage runtime message = .error e)
    (hcode : e.code = .input_too_large) :
    Refused runtime message := by
  rcases bind_eq_error.mp h with h | ⟨fitting, hfits, h⟩
  · exact absurd hcode (mapFits_not_too_large h)
  · split at h
    · cases h
    · rename_i hfalse
      rw [Bool.not_eq_true] at hfalse
      rw [hfalse] at hfits
      exact ⟨hfits, expandBlocks_error h hcode⟩

variable {messages : List ContextSnapshotMessage}

theorem expandMessages_ok (h : expandMessages runtime messages = .ok fragments) :
    Reads fragments (blocksOf messages) ∧
      ∀ fragment ∈ fragments, mapFits runtime [fragment] = .ok true := by
  induction messages generalizing fragments with
  | nil =>
    cases h
    exact ⟨.nil, by simp⟩
  | cons message messages ih =>
    obtain ⟨first, hfirst, h⟩ := bind_eq_ok.mp h
    obtain ⟨rest, hrest, h⟩ := bind_eq_ok.mp h
    cases h
    obtain ⟨hreads, hall⟩ := ih hrest
    obtain ⟨hreads', hall', -⟩ := expandMessage_ok hfirst
    refine ⟨hreads'.append hreads, ?_⟩
    intro fragment hfragment
    rcases List.mem_append.mp hfragment with hfragment | hfragment
    · exact hall' fragment hfragment
    · exact hall fragment hfragment

theorem expandMessages_error (h : expandMessages runtime messages = .error e)
    (hcode : e.code = .input_too_large) :
    ∃ message ∈ messages, Refused runtime message := by
  induction messages with
  | nil => cases h
  | cons message messages ih =>
    rcases bind_eq_error.mp h with h | ⟨first, -, h⟩
    · exact ⟨message, List.mem_cons_self, expandMessage_error h hcode⟩
    · rcases bind_eq_error.mp h with h | ⟨rest, -, h⟩
      · obtain ⟨other, hother, hrefused⟩ := ih h
        exact ⟨other, List.mem_cons_of_mem _ hother, hrefused⟩
      · cases h

theorem expandMessages_append {messages' : List ContextSnapshotMessage}
    (h : expandMessages runtime (messages ++ messages') = .ok fragments) :
    ∃ before after, expandMessages runtime messages = .ok before ∧
      expandMessages runtime messages' = .ok after ∧ fragments = before ++ after := by
  induction messages generalizing fragments with
  | nil => exact ⟨[], fragments, rfl, h, rfl⟩
  | cons message messages ih =>
    obtain ⟨first, hfirst, h⟩ := bind_eq_ok.mp h
    obtain ⟨rest, hrest, h⟩ := bind_eq_ok.mp h
    cases h
    obtain ⟨before, after, hbefore, hafter, rfl⟩ := ih hrest
    refine ⟨first ++ before, after, ?_, hafter, (List.append_assoc _ _ _).symm⟩
    exact bind_eq_ok.mpr ⟨first, hfirst, bind_eq_ok.mpr ⟨before, hbefore, rfl⟩⟩

theorem expandMessages_cons_fits
    (h : expandMessages runtime (message :: messages) = .ok fragments)
    (hfits : mapFits runtime [message] = .ok true) :
    ∃ rest, expandMessages runtime messages = .ok rest ∧ fragments = message :: rest := by
  obtain ⟨first, hfirst, h⟩ := bind_eq_ok.mp h
  obtain ⟨rest, hrest, h⟩ := bind_eq_ok.mp h
  cases h
  rw [(expandMessage_ok hfirst).2.2 hfits]
  exact ⟨rest, hrest, rfl⟩

end Expansion

section Groups

theorem matchingToolResult_second {first second third : ContextSnapshotMessage}
    (h : matchingToolResult first second = true) :
    matchingToolResult second third = false := by
  have hrole : second.role = .tool_result := by
    by_contra hnot
    simp [matchingToolResult, hnot] at h
  simp [matchingToolResult, hrole]

variable {groups : List (List ContextSnapshotMessage)} {messages : List ContextSnapshotMessage}

theorem groupMessages_ok (h : groupMessages runtime messages = .ok groups)
    (hmessages : ∀ message ∈ messages, mapFits runtime [message] = .ok true) :
    groups.flatten = messages ∧
      ∀ group ∈ groups, group ≠ [] ∧ mapFits runtime group = .ok true := by
  induction messages using groupMessages.induct generalizing groups with
  | case1 =>
    cases h
    exact ⟨rfl, by simp⟩
  | case2 message =>
    cases h
    refine ⟨rfl, ?_⟩
    intro group hgroup
    rw [List.mem_singleton.mp hgroup]
    exact ⟨by simp, hmessages message List.mem_cons_self⟩
  | case3 message next rest ih ih' =>
    obtain ⟨fitting, hfits, h⟩ := bind_eq_ok.mp h
    split at h
    · rename_i htrue
      rw [htrue] at hfits
      obtain ⟨groups', hgroups, h⟩ := bind_eq_ok.mp h
      cases h
      obtain ⟨hflatten, hall⟩ := ih hgroups fun other hother =>
        hmessages other (List.mem_cons_of_mem _ (List.mem_cons_of_mem _ hother))
      refine ⟨by rw [List.flatten_cons, hflatten]; rfl, ?_⟩
      intro group hgroup
      rcases List.mem_cons.mp hgroup with rfl | hgroup
      · refine ⟨by simp, ?_⟩
        rw [pairFits] at hfits
        split at hfits
        · exact hfits
        · cases hfits
      · exact hall group hgroup
    · obtain ⟨groups', hgroups, h⟩ := bind_eq_ok.mp h
      cases h
      obtain ⟨hflatten, hall⟩ := ih' hgroups fun other hother =>
        hmessages other (List.mem_cons_of_mem _ hother)
      refine ⟨by rw [List.flatten_cons, hflatten]; rfl, ?_⟩
      intro group hgroup
      rcases List.mem_cons.mp hgroup with rfl | hgroup
      · exact ⟨by simp, hmessages message List.mem_cons_self⟩
      · exact hall group hgroup

theorem groupMessages_error {e : ContextSummaryError}
    (h : groupMessages runtime messages = .error e) :
    e.code ≠ .input_too_large := by
  induction messages using groupMessages.induct with
  | case1 | case2 _ => cases h
  | case3 message next rest ih ih' =>
    rcases bind_eq_error.mp h with h | ⟨fitting, -, h⟩
    · rw [pairFits] at h
      split at h
      · exact mapFits_not_too_large h
      · cases h
    · split at h
      · rcases bind_eq_error.mp h with h | ⟨groups, -, h⟩
        · exact ih h
        · cases h
      · rcases bind_eq_error.mp h with h | ⟨groups, -, h⟩
        · exact ih' h
        · cases h

theorem groupMessages_pair {before after : List ContextSnapshotMessage}
    {call result : ContextSnapshotMessage}
    (h : groupMessages runtime (before ++ call :: result :: after) = .ok groups)
    (hmatching : matchingToolResult call result = true)
    (hfits : mapFits runtime [call, result] = .ok true) :
    ∃ front back, groups = front ++ [call, result] :: back ∧ front.flatten = before := by
  induction before using List.twoStepInduction generalizing groups with
  | nil =>
    obtain ⟨fitting, hpair, h⟩ := bind_eq_ok.mp h
    have htrue : fitting = true := by
      rw [pairFits, hmatching, if_pos rfl, hfits] at hpair
      cases hpair
      rfl
    rw [if_pos htrue] at h
    obtain ⟨back, -, h⟩ := bind_eq_ok.mp h
    cases h
    exact ⟨[], back, rfl, rfl⟩
  | singleton first =>
    obtain ⟨fitting, hpair, h⟩ := bind_eq_ok.mp h
    have hfalse : fitting = false := by
      by_contra htrue
      have hfirst : matchingToolResult first call = true := by
        by_contra hnot
        rw [pairFits, if_neg hnot] at hpair
        cases hpair
        exact htrue rfl
      rw [matchingToolResult_second hfirst] at hmatching
      exact absurd hmatching (by simp)
    rw [if_neg (by simp [hfalse])] at h
    obtain ⟨groups', hgroups, h⟩ := bind_eq_ok.mp h
    cases h
    obtain ⟨fitting', hpair', hgroups⟩ := bind_eq_ok.mp hgroups
    have htrue : fitting' = true := by
      rw [pairFits, hmatching, if_pos rfl, hfits] at hpair'
      cases hpair'
      rfl
    rw [if_pos htrue] at hgroups
    obtain ⟨back, -, hgroups⟩ := bind_eq_ok.mp hgroups
    cases hgroups
    exact ⟨[[first]], back, rfl, rfl⟩
  | cons_cons first second before ih ih' =>
    obtain ⟨fitting, -, h⟩ := bind_eq_ok.mp h
    split at h
    · obtain ⟨groups', hgroups, h⟩ := bind_eq_ok.mp h
      cases h
      obtain ⟨front, back, rfl, hfront⟩ := ih hgroups
      exact ⟨[first, second] :: front, back, rfl, by rw [List.flatten_cons, hfront]; rfl⟩
    · obtain ⟨groups', hgroups, h⟩ := bind_eq_ok.mp h
      cases h
      obtain ⟨front, back, rfl, hfront⟩ := ih' second hgroups
      exact ⟨[first] :: front, back, rfl, by rw [List.flatten_cons, hfront]; rfl⟩

end Groups

section Packing

/-- Messages are known to fit. -/
def Fits (runtime : SummaryRuntime) (messages : List ContextSnapshotMessage) : Bool :=
  match mapFits runtime messages with
  | .ok fits => fits
  | .error _ => false

theorem Fits.of_ok {messages : List ContextSnapshotMessage} {fitting : Bool}
    (h : mapFits runtime messages = .ok fitting) :
    Fits runtime messages = fitting := by
  rw [Fits, h]

variable {chunks groups : List (List ContextSnapshotMessage)}

theorem packGroups_ok {result : List (List ContextSnapshotMessage)}
    {current : List ContextSnapshotMessage}
    (h : packGroups runtime groups chunks current = .ok result) :
    result = chunks ++ FirstFit.pack (Fits runtime) groups current ∧
      result.length ≤ MaxMapChunks := by
  induction groups generalizing chunks current with
  | nil =>
    rw [packGroups] at h
    generalize hchunks : (if 0 < current.length then chunks ++ [current] else chunks) = all at h
    split at h
    · cases h
    · rename_i hfew
      cases h
      refine ⟨?_, by omega⟩
      rw [FirstFit.pack, ← hchunks]
      cases current <;> simp
  | cons group groups ih =>
    obtain ⟨fitting, hfits, h⟩ := bind_eq_ok.mp h
    rw [FirstFit.pack, Fits.of_ok hfits]
    split at h
    · rename_i htrue
      rw [if_pos htrue]
      exact ih h
    · rename_i hfalse
      rw [if_neg hfalse]
      generalize hchunks : (if 0 < current.length then chunks ++ [current] else chunks) = all
        at h
      dsimp only at h
      split at h
      · cases h
      · obtain ⟨hresult, hfew⟩ := ih h
        refine ⟨?_, hfew⟩
        rw [hresult, ← hchunks]
        cases current <;> simp

theorem packGroups_error {current : List ContextSnapshotMessage} {e : ContextSummaryError}
    (h : packGroups runtime groups chunks current = .error e)
    (hcode : e.code = .input_too_large) (hgroups : ∀ group ∈ groups, group ≠ []) :
    MaxMapChunks < (chunks ++ FirstFit.pack (Fits runtime) groups current).length := by
  induction groups generalizing chunks current with
  | nil =>
    rw [packGroups] at h
    generalize hchunks : (if 0 < current.length then chunks ++ [current] else chunks) = all at h
    split at h
    · rename_i hmany
      rw [← hchunks] at hmany
      rw [FirstFit.pack]
      cases current <;> simpa using hmany
    · cases h
  | cons group groups ih =>
    have hrest : ∀ group ∈ groups, group ≠ [] :=
      fun other hother => hgroups other (List.mem_cons_of_mem _ hother)
    rcases bind_eq_error.mp h with h | ⟨fitting, hfits, h⟩
    · exact absurd hcode (mapFits_not_too_large h)
    · rw [FirstFit.pack, Fits.of_ok hfits]
      split at h
      · rename_i htrue
        rw [if_pos htrue]
        exact ih h hrest
      · rename_i hfalse
        rw [if_neg hfalse]
        have hchunks : chunks ++ ((if current = [] then [] else [current]) ++
            FirstFit.pack (Fits runtime) groups group) =
              (if 0 < current.length then chunks ++ [current] else chunks) ++
                FirstFit.pack (Fits runtime) groups group := by
          cases current <;> simp
        rw [hchunks]
        generalize (if 0 < current.length then chunks ++ [current] else chunks) = all at h ⊢
        dsimp only at h
        split at h
        · rename_i hmany
          have hmore := @FirstFit.pack_length_pos _ (Fits runtime) group groups
            (hgroups group List.mem_cons_self)
          rw [List.length_append]
          omega
        · exact ih h hrest

end Packing

/-- A call and its result are side by side in one chunk, behind the messages before them. -/
def Together (chunks : List (List ContextSnapshotMessage)) (before : List ContextSnapshotMessage)
    (call result : ContextSnapshotMessage) : Prop :=
  ∃ front chunk back u v, chunks = front ++ chunk :: back ∧ chunk = u ++ [call, result] ++ v ∧
    front.flatten ++ u = before

/-- What the chunks of messages are. -/
structure Chunked (runtime : SummaryRuntime) (messages : List ContextSnapshotMessage)
    (chunks : List (List ContextSnapshotMessage)) : Prop where
  /-- There are not too many. -/
  few : chunks.length ≤ MaxMapChunks
  /-- Each fits. -/
  fits : ∀ chunk ∈ chunks, mapFits runtime chunk = .ok true
  /-- They give back the blocks of the messages. -/
  reads : Reads chunks.flatten (blocksOf messages)
  /-- A result of a call right behind it is in the same chunk where the two fit together, -/
  together : ∀ before call result after, chunks.flatten = before ++ call :: result :: after →
    matchingToolResult call result = true → mapFits runtime [call, result] = .ok true →
      Together chunks before call result
  /-- also where the two were such messages and each fits alone. -/
  whole : ∀ before call result after, messages = before ++ call :: result :: after →
    matchingToolResult call result = true → mapFits runtime [call] = .ok true →
      mapFits runtime [result] = .ok true → mapFits runtime [call, result] = .ok true →
        ∃ fragments, Reads fragments (blocksOf before) ∧ Together chunks fragments call result

/-- First-fit packing of the groups of the messages needs too many chunks. -/
def TooMany (runtime : SummaryRuntime) (messages : List ContextSnapshotMessage) : Prop :=
  ∃ fragments groups, expandMessages runtime messages = .ok fragments ∧
    groupMessages runtime fragments = .ok groups ∧
      MaxMapChunks < (FirstFit.pack (Fits runtime) groups []).length

variable {messages : List ContextSnapshotMessage}

theorem buildMapChunks_ok {chunks : List (List ContextSnapshotMessage)}
    (h : buildMapChunks runtime messages = .ok chunks) :
    Chunked runtime messages chunks := by
  obtain ⟨fragments, hfragments, h⟩ := bind_eq_ok.mp h
  split at h
  · cases h
  obtain ⟨groups, hgroups, h⟩ := bind_eq_ok.mp h
  obtain ⟨hreads, hall⟩ := expandMessages_ok hfragments
  obtain ⟨hflatten, hgroups_fit⟩ := groupMessages_ok hgroups hall
  obtain ⟨hchunks, hfew⟩ := packGroups_ok h
  rw [List.nil_append] at hchunks
  have hsame : chunks.flatten = fragments := by
    rw [hchunks, FirstFit.pack_flatten, List.nil_append, hflatten]
  have htogether : ∀ before call result after, fragments = before ++ call :: result :: after →
      matchingToolResult call result = true → mapFits runtime [call, result] = .ok true →
        Together chunks before call result := by
    intro before call result after heq hmatching hfits
    rw [heq] at hgroups
    obtain ⟨front, back, rfl, hfront⟩ := groupMessages_pair hgroups hmatching hfits
    have hwhole : ([call, result] : List ContextSnapshotMessage) ≠ [] := by simp
    obtain ⟨earlier, chunk, later, u, v, hpack, hchunk, hbefore⟩ :=
      FirstFit.pack_whole hwhole front back []
    rw [List.nil_append, hfront] at hbefore
    exact ⟨earlier, chunk, later, u, v, hchunks.trans hpack, hchunk, hbefore⟩
  refine ⟨hfew, ?_, hsame ▸ hreads, ?_, ?_⟩
  · intro chunk hchunk
    have hgroups_fit' : ∀ group ∈ groups, Fits runtime group = true :=
      fun group hgroup => Fits.of_ok (hgroups_fit group hgroup).2
    have hnone : ([] : List ContextSnapshotMessage) ≠ [] → Fits runtime [] = true :=
      fun hne => absurd rfl hne
    rw [hchunks] at hchunk
    have hfits := FirstFit.pack_fits hgroups_fit' hnone chunk hchunk
    rw [Fits] at hfits
    split at hfits
    · rename_i fitting hok
      rw [hok, hfits]
    · exact absurd hfits (by simp)
  · intro before call result after heq
    exact htogether before call result after (hsame ▸ heq)
  · intro before call result after heq hmatching hcall hresult hfits
    rw [heq] at hfragments
    obtain ⟨earlier, later, hearlier, hlater, rfl⟩ := expandMessages_append hfragments
    obtain ⟨rest, hrest, rfl⟩ := expandMessages_cons_fits hlater hcall
    obtain ⟨rest', -, rfl⟩ := expandMessages_cons_fits hrest hresult
    exact ⟨earlier, (expandMessages_ok hearlier).1,
      htogether earlier call result rest' rfl hmatching hfits⟩

theorem buildMapChunks_error {e : ContextSummaryError}
    (h : buildMapChunks runtime messages = .error e) (hcode : e.code = .input_too_large) :
    (∃ message ∈ messages, Refused runtime message) ∨ TooMany runtime messages := by
  rcases bind_eq_error.mp h with h | ⟨fragments, hfragments, h⟩
  · exact .inl (expandMessages_error h hcode)
  · split at h
    · cases h
      exact absurd hcode (by simp)
    · rcases bind_eq_error.mp h with h | ⟨groups, hgroups, h⟩
      · exact absurd hcode (groupMessages_error h)
      · have hgroups_ok := (groupMessages_ok hgroups (expandMessages_ok hfragments).2).2
        have hmany := packGroups_error h hcode fun group hgroup => (hgroups_ok group hgroup).1
        rw [List.nil_append] at hmany
        exact .inr ⟨fragments, groups, hfragments, hgroups, hmany⟩

/-- **Input is split without loss, and refused for a reason.** -/
theorem buildMapChunks_spec (runtime : SummaryRuntime) (messages : List ContextSnapshotMessage) :
    (∀ chunks, buildMapChunks runtime messages = .ok chunks → Chunked runtime messages chunks) ∧
      ∀ e, buildMapChunks runtime messages = .error e → e.code = .input_too_large →
        (∃ message ∈ messages, Refused runtime message) ∨ TooMany runtime messages :=
  ⟨fun _ h => buildMapChunks_ok h, fun _ h hcode => buildMapChunks_error h hcode⟩

section Snowmen

variable {message : ContextSnapshotMessage} {runtime : SummaryRuntime}

private theorem splitTextBlock_stuck {text : JsString} {low : Nat}
    (hlow : pieceLength
      (fun length => mapFits runtime [placeholderMessage message text length])
      (characters text).length 0 (characters text).length = .ok low)
    (hpos : low ≠ 0) (hcount : pieceCount text low ≤ MaxMapChunks)
    (hfit : allFit runtime (continuations message (piecesOf text low)) = .ok false) :
    splitTextBlock runtime message text = .error
      ⟨.input_too_large, "Summary text could not be split within model limits"⟩ := by
  rw [splitTextBlock, hlow]
  simp only [bind, Except.bind, if_neg hpos, if_neg (Nat.not_lt.mpr hcount), hfit]
  rfl

private theorem buildMapChunks_stuck {text : JsString} {e : ContextSummaryError}
    (hcontent : message.content = [.text text])
    (hclone : cloneMessageWithBlock message (.text text) = message)
    (hfits : mapFits runtime [message] = .ok false)
    (hsplit : splitTextBlock runtime message text = .error e) :
    buildMapChunks runtime [message] = .error e := by
  simp [buildMapChunks, expandMessages, expandMessage, expandBlocks, hcontent, hclone, hfits,
    hsplit, bind, Except.bind]

private theorem pieceLength_six {fits : Nat → Except ContextSummaryError Bool}
    (h3 : fits 3 = .ok true) (h4 : fits 4 = .ok true) (h5 : fits 5 = .ok false) :
    pieceLength fits 6 0 6 = .ok 4 := by
  simp [pieceLength, bind, Except.bind, h3, h4, h5]

private theorem allFit_second {first second : ContextSnapshotMessage}
    (hfirst : mapFits runtime [first] = .ok true)
    (hsecond : mapFits runtime [second] = .ok false) :
    allFit runtime [first, second] = .ok false := by
  simp [allFit, bind, Except.bind, hfirst, hsecond]

/-- A counter that counts snowmen. -/
def counter (text : JsString) : TokenCount := .count (text.count 0x2603)

/-- A message of the user. -/
def typed (text : JsString) : ContextSnapshotMessage :=
  ⟨.user, [.text text], none, none, none⟩

/-- A model with room for one token. -/
def small : SummaryRuntime := ⟨2049, counter⟩

/-- Three letters and three snowmen. -/
def snowy : JsString := [0x61, 0x61, 0x61, 0x2603, 0x2603, 0x2603]

private theorem count_ofList {l : List Char} (h : (l.flatMap utf16Units).count 0x2603 = 0) :
    (js (String.ofList l)).count 0x2603 = 0 := by
  rw [js, String.toList_ofList, h]

private theorem count_system : SummarySystemPrompt.count 0x2603 = 0 := by
  rw [SummarySystemPrompt]
  simp only [List.count_append, Nat.add_eq_zero_iff]
  refine ⟨⟨⟨⟨⟨?_, ?_⟩, ?_⟩, ?_⟩, ?_⟩, ?_⟩
  all_goals exact count_ofList (by decide +kernel)

private theorem count_mapPrompt (json : JsString) :
    (mapPrompt json).count 0x2603 = json.count 0x2603 := by
  have hbefore : MapPromptPrefix.count 0x2603 = 0 := by
    rw [MapPromptPrefix]
    simp only [List.count_append, Nat.add_eq_zero_iff]
    refine ⟨⟨⟨⟨?_, ?_⟩, ?_⟩, ?_⟩, ?_⟩
    all_goals exact count_ofList (by decide +kernel)
  have hline : (js "\n").count 0x2603 = 0 := by decide +kernel
  have hafter : MapPromptSuffix.count 0x2603 = 0 := by decide +kernel
  simp only [mapPrompt, List.count_append, hbefore, hline, hafter]
  omega

private theorem mapFits_small (messages : List ContextSnapshotMessage) :
    mapFits small messages = .ok (decide ((canonicalJson messages).count 0x2603 ≤ 1)) := by
  rw [mapFits]
  generalize canonicalJson messages = json
  have hlimit : small.contextWindow - (SummaryMaxOutputTokens : ℚ) = 1 := by
    rw [small, SummaryMaxOutputTokens]
    norm_num
  have hcount : ∀ text, safeCountTokens small text = .ok (text.count 0x2603) := fun _ => rfl
  have hsystem := hcount SummarySystemPrompt
  rw [count_system] at hsystem
  have htokens := hcount (mapPrompt json)
  rw [count_mapPrompt] at htokens
  have hcontent := hcount json
  rw [promptFits, hlimit]
  generalize json.count 0x2603 = n at *
  generalize SummarySystemPrompt = system at *
  rw [if_pos zero_lt_one, hsystem, htokens, hcontent]
  simp only [bind, Except.bind, pure, Except.pure, zero_add, Nat.cast_le_one]
  split
  · rename_i hle
    have hroom : n ≤ MaxChunkTokens := hle.trans (by decide)
    rw [decide_eq_true hle, decide_eq_true hroom]
  · rename_i hgt
    rw [decide_eq_false hgt]

example : snowy.length = 6 := by decide +kernel

private theorem mapFits_typed (text : JsString) :
    mapFits small [typed text] = .ok (decide ((Json.escapeString text).count 0x2603 ≤ 1)) := by
  have hcopy : Json.copyJsonValue (.arr [(typed text).json]) =
      .arr [.obj [(js "content", .arr [.obj [(js "text", .str text),
        (js "type", .str (js "text"))]]), (js "role", .str (js "user"))]] := rfl
  have hcount : ∀ s : JsString, s ∈ [js "[", js "]", js "\x7b", js "\x7d", js ",", js ":",
      js "\"", Json.quote (js "content"), Json.quote (js "text"), Json.quote (js "type"),
      Json.quote (js "role"), Json.quote (js "user")] → s.count 0x2603 = 0 := by
    decide +kernel
  simp only [List.mem_cons, List.not_mem_nil, or_false, forall_eq_or_imp, forall_eq] at hcount
  have hjson : (canonicalJson [typed text]).count 0x2603 =
      (Json.escapeString text).count 0x2603 := by
    rw [canonicalJson, List.map_cons, List.map_nil, Json.canonicalJson, hcopy]
    simp only [Json.stringify, Json.stringifyItems, Json.stringifyFields, List.count_append,
      hcount, Json.quote.eq_1 text]
    omega
  rw [mapFits_small, hjson]

private theorem pieceLength_snowy :
    pieceLength (fun length => mapFits small [placeholderMessage (typed snowy) snowy length])
      (characters snowy).length 0 (characters snowy).length = .ok 4 := by
  have hcount : ∀ n < 7, (Json.escapeString (ContinuationMarkerPlaceholder ++
      ((characters snowy).take n).flatten)).count 0x2603 = n - 3 := by
    decide +kernel
  have hfits : ∀ n < 7, mapFits small [placeholderMessage (typed snowy) snowy n] =
      .ok (decide (n - 3 ≤ 1)) := by
    intro n hn
    have hplaceholder : placeholderMessage (typed snowy) snowy n =
        typed (ContinuationMarkerPlaceholder ++ ((characters snowy).take n).flatten) := rfl
    rw [hplaceholder, mapFits_typed, hcount n hn]
  have hlength : (characters snowy).length = 6 := by decide +kernel
  rw [hlength]
  exact pieceLength_six (hfits 3 (by decide)) (hfits 4 (by decide)) (hfits 5 (by decide))

example : pieceCount snowy 4 = 2 := by decide +kernel

private theorem allFit_snowy :
    allFit small (continuations (typed snowy) (piecesOf snowy 4)) = .ok false := by
  have hpieces : piecesOf snowy 4 = [[0x61, 0x61, 0x61, 0x2603], [0x2603, 0x2603]] := by
    decide +kernel
  have hcontinuations : continuations (typed snowy) (piecesOf snowy 4) =
      [typed (js "[context text continuation 1/2]\n" ++ [0x61, 0x61, 0x61, 0x2603]),
        typed (js "[context text continuation 2/2]\n" ++ [0x2603, 0x2603])] := by
    rw [hpieces]
    decide +kernel
  have hfirst : (Json.escapeString (js "[context text continuation 1/2]\n" ++
      [0x61, 0x61, 0x61, 0x2603])).count 0x2603 = 1 := by
    decide +kernel
  have hsecond : (Json.escapeString (js "[context text continuation 2/2]\n" ++
      [0x2603, 0x2603])).count 0x2603 = 2 := by
    decide +kernel
  rw [hcontinuations]
  refine allFit_second ?_ ?_
  · rw [mapFits_typed, hfirst]
    rfl
  · rw [mapFits_typed, hsecond]
    rfl

private theorem snowmen_fit :
    ∀ fragment ∈ continuations (typed snowy) [[0x61, 0x61, 0x61, 0x2603], [0x2603], [0x2603]],
      mapFits small [fragment] = .ok true := by
  have hcontinuations :
      continuations (typed snowy) [[0x61, 0x61, 0x61, 0x2603], [0x2603], [0x2603]] =
        [typed (js "[context text continuation 1/3]\n" ++ [0x61, 0x61, 0x61, 0x2603]),
          typed (js "[context text continuation 2/3]\n" ++ [0x2603]),
          typed (js "[context text continuation 3/3]\n" ++ [0x2603])] := by
    decide +kernel
  have hfirst : (Json.escapeString (js "[context text continuation 1/3]\n" ++
      [0x61, 0x61, 0x61, 0x2603])).count 0x2603 ≤ 1 := by
    decide +kernel
  have hsecond : (Json.escapeString (js "[context text continuation 2/3]\n" ++
      [0x2603])).count 0x2603 ≤ 1 := by
    decide +kernel
  have hthird : (Json.escapeString (js "[context text continuation 3/3]\n" ++
      [0x2603])).count 0x2603 ≤ 1 := by
    decide +kernel
  intro fragment hfragment
  rw [hcontinuations] at hfragment
  simp only [List.mem_cons, List.not_mem_nil, or_false] at hfragment
  rcases hfragment with rfl | rfl | rfl
  · rw [mapFits_typed, decide_eq_true hfirst]
  · rw [mapFits_typed, decide_eq_true hsecond]
  · rw [mapFits_typed, decide_eq_true hthird]

/-- **Three snowmen are refused, although three pieces would carry them.**  The one length of the
pieces is that of the letters before them. -/
theorem refuses_needlessly :
    (∀ text more : JsString, text.count 0x2603 ≤ (text ++ more).count 0x2603) ∧
      buildMapChunks small [typed snowy] = .error
        ⟨.input_too_large, "Summary text could not be split within model limits"⟩ ∧
      ∃ pieces, pieces.length ≤ MaxMapChunks ∧ pieces.flatten = snowy ∧
        ∀ fragment ∈ continuations (typed snowy) pieces, mapFits small [fragment] = .ok true := by
  have hwhole : (Json.escapeString snowy).count 0x2603 = 3 := by decide +kernel
  refine ⟨?_, ?_, [[0x61, 0x61, 0x61, 0x2603], [0x2603], [0x2603]], by decide, by decide,
    snowmen_fit⟩
  · intro text more
    rw [List.count_append]
    omega
  · have hfits := mapFits_typed snowy
    rw [hwhole] at hfits
    have hcount : pieceCount snowy 4 ≤ MaxMapChunks := by decide +kernel
    exact buildMapChunks_stuck rfl rfl hfits
      (splitTextBlock_stuck pieceLength_snowy (by decide) hcount allFit_snowy)

end Snowmen

end ContextSummary

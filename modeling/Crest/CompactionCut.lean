import Crest.Compaction
import Mathlib.Tactic.Linarith

/-!
# Where a branch is cut

What `findCutPoint` finds, in terms of the entries alone.  The budget is reached at the
last message from which on the messages need as many tokens as are to be kept.  The branch
is cut at the first cut point there or after, and at the very first one when there is no
such point or no such message.  From there the kept entries are extended backwards over
everything that is no message.
-/

namespace Compaction

open Session

/-- An index at which a predicate of entries holds. -/
def At (p : SessionTreeEntry → Bool) (entries : List SessionTreeEntry) (i : Nat) : Prop :=
  entries[i]?.any p = true

theorem At.lt_length {p : SessionTreeEntry → Bool} {entries : List SessionTreeEntry} {i : Nat}
    (h : At p entries i) : i < entries.length := by
  by_contra hlt
  rw [At, List.getElem?_eq_none (by omega)] at h
  simp at h

theorem at_iff {p : SessionTreeEntry → Bool} {entries : List SessionTreeEntry} {i : Nat} :
    At p entries i ↔ ∃ e, entries[i]? = some e ∧ p e = true := by
  unfold At
  cases entries[i]? <;> simp

/-- The entry has type `message`. -/
def isStored (entry : SessionTreeEntry) : Bool := (storedMessage entry).isSome

section Budget

variable (numberText : ℚ → JsString) (entries : List SessionTreeEntry) (start : Nat) (keep : ℚ)

/-- The tokens that the message of an entry needs. -/
def entryTokens (entry : SessionTreeEntry) : Nat :=
  match storedMessage entry with
  | some message => estimateStored numberText message
  | none => 0

/-- The tokens that the messages from an index on need. -/
def tokensFrom (i : Nat) : Nat := ((entries.drop i).map (entryTokens numberText)).sum

/-- The last message from which on the messages reach the budget. -/
structure ReachesBudget (i : Nat) : Prop where
  start_le : start ≤ i
  message : At isStored entries i
  reached : keep ≤ (tokensFrom numberText entries i : ℚ)
  last : ∀ j, i < j → At isStored entries j → (tokensFrom numberText entries j : ℚ) < keep

/-- The cut point that is chosen. -/
structure Chosen (c : Nat) : Prop where
  start_le : start ≤ c
  valid : At isCutPoint entries c
  first :
    (∃ i, ReachesBudget numberText entries start keep i ∧ i ≤ c ∧
      ∀ d, i ≤ d → d < c → ¬ At isCutPoint entries d) ∨
    (∀ i, ReachesBudget numberText entries start keep i →
      ∀ d, i ≤ d → ¬ At isCutPoint entries d) ∧
      ∀ d, start ≤ d → d < c → ¬ At isCutPoint entries d

/-- The kept entries begin at an index: it is the chosen cut point, moved back over entries
that are neither messages nor compactions. -/
structure MovedBack (c cut : Nat) : Prop where
  start_le : start ≤ cut
  le : cut ≤ c
  skipped : ∀ d, cut ≤ d → d < c → ¬ At stopsWalk entries d
  stop : cut = start ∨ At stopsWalk entries (cut - 1)

/-- Where the kept entries begin. -/
def CutAt (cut : Nat) : Prop :=
  (∃ c, Chosen numberText entries start keep c ∧ MovedBack entries start c cut) ∨
    (∀ d, start ≤ d → ¬ At isCutPoint entries d) ∧ cut = start

variable {numberText entries start keep}

theorem tokensFrom_succ {i : Nat} {e : SessionTreeEntry} (h : entries[i]? = some e) :
    tokensFrom numberText entries i =
      entryTokens numberText e + tokensFrom numberText entries (i + 1) := by
  obtain ⟨hlt, rfl⟩ := List.getElem?_eq_some_iff.mp h
  rw [tokensFrom, tokensFrom, List.drop_eq_getElem_cons hlt, List.map_cons, List.sum_cons]

theorem reachBudget_spec (k : Nat) (hk : k ≤ entries.length)
    (hafter : ∀ j, k ≤ j → At isStored entries j →
      (tokensFrom numberText entries j : ℚ) < keep) :
    match reachBudget numberText entries start keep k (tokensFrom numberText entries k) with
    | some i => ReachesBudget numberText entries start keep i
    | none => ∀ i, ¬ ReachesBudget numberText entries start keep i := by
  have hbelow : ∀ i, k ≤ i → ¬ ReachesBudget numberText entries start keep i := by
    intro i hi hreach
    exact absurd (hafter i hi hreach.message) (not_lt.mpr hreach.reached)
  induction k with
  | zero => exact fun i => hbelow i (Nat.zero_le i)
  | succ i ih =>
    rw [reachBudget]
    split_ifs with hstart
    · intro j hreach
      rcases Nat.lt_or_ge j (i + 1) with hlt | hge
      · exact absurd hreach.start_le (by omega)
      · exact hbelow j hge hreach
    obtain ⟨e, he⟩ : ∃ e, entries[i]? = some e :=
      ⟨entries[i], List.getElem?_eq_getElem (by omega)⟩
    have htokens := @tokensFrom_succ numberText entries i e he
    have hskip : ¬ At isStored entries i ∨ (tokensFrom numberText entries i : ℚ) < keep →
        ∀ j, i ≤ j → At isStored entries j →
          (tokensFrom numberText entries j : ℚ) < keep := by
      intro hi j hj hstored
      rcases Nat.eq_or_lt_of_le hj with rfl | hlt
      · exact hi.resolve_left (not_not.mpr hstored)
      · exact hafter j hlt hstored
    have hstep : (∀ j, i ≤ j → At isStored entries j →
          (tokensFrom numberText entries j : ℚ) < keep) →
        match reachBudget numberText entries start keep i
          (tokensFrom numberText entries i) with
        | some i => ReachesBudget numberText entries start keep i
        | none => ∀ i, ¬ ReachesBudget numberText entries start keep i := by
      intro hall
      refine ih (by omega) hall ?_
      intro j hj hreach
      exact absurd (hall j hj hreach.message) (not_lt.mpr hreach.reached)
    rw [he, Option.bind_some]
    cases hmessage : storedMessage e with
    | none =>
      have hzero : tokensFrom numberText entries i =
          tokensFrom numberText entries (i + 1) := by
        rw [htokens, entryTokens, hmessage, Nat.zero_add]
      dsimp only
      rw [← hzero]
      refine hstep (hskip (Or.inl ?_))
      rw [at_iff]
      rintro ⟨e', he', hstored⟩
      rw [he, Option.some.injEq] at he'
      rw [← he', isStored, hmessage] at hstored
      simp at hstored
    | some message =>
      have hsum : tokensFrom numberText entries (i + 1) + estimateStored numberText message =
          tokensFrom numberText entries i := by
        rw [htokens, entryTokens, hmessage, Nat.add_comm]
      dsimp only
      rw [hsum]
      split_ifs with hreached
      · exact ⟨by omega, at_iff.mpr ⟨e, he, by rw [isStored, hmessage]; rfl⟩, hreached,
          fun j hj => hafter j hj⟩
      · exact hstep (hskip (Or.inr (not_le.mp hreached)))

theorem ReachesBudget.unique {i j : Nat}
    (hi : ReachesBudget numberText entries start keep i)
    (hj : ReachesBudget numberText entries start keep j) :
    i = j := by
  rcases Nat.lt_trichotomy i j with hlt | heq | hlt
  · exact absurd (hi.last j hlt hj.message) (not_lt.mpr hj.reached)
  · exact heq
  · exact absurd (hj.last i hlt hi.message) (not_lt.mpr hi.reached)

theorem Chosen.unique {c d : Nat} (hc : Chosen numberText entries start keep c)
    (hd : Chosen numberText entries start keep d) :
    c = d := by
  -- neither can be before the other
  suffices hnot : ∀ {c d : Nat}, Chosen numberText entries start keep c →
      Chosen numberText entries start keep d → ¬ c < d by
    have h1 := hnot hc hd
    have h2 := hnot hd hc
    omega
  intro c d hc hd hlt
  rcases hd.first with ⟨i, hi, hid, hfirst⟩ | ⟨hnone, hfirst⟩
  · rcases hc.first with ⟨j, hj, hjc, -⟩ | ⟨hnone, -⟩
    · have hij := hi.unique hj
      exact hfirst c (by omega) hlt hc.valid
    · exact hnone i hi d hid hd.valid
  · exact hfirst c hc.start_le hlt hc.valid

theorem MovedBack.unique {c cut cut' : Nat} (h : MovedBack entries start c cut)
    (h' : MovedBack entries start c cut') :
    cut = cut' := by
  suffices hnot : ∀ {cut cut' : Nat}, MovedBack entries start c cut →
      MovedBack entries start c cut' → ¬ cut < cut' by
    have h1 := hnot h h'
    have h2 := hnot h' h
    omega
  intro cut cut' h h' hlt
  have hstart := h.start_le
  rcases h'.stop with heq | hstop
  · omega
  · exact h.skipped (cut' - 1) (by omega) (by have := h'.le; omega) hstop

/-- **The kept entries begin at one index.** -/
theorem CutAt.unique {cut cut' : Nat} (h : CutAt numberText entries start keep cut)
    (h' : CutAt numberText entries start keep cut') :
    cut = cut' := by
  rcases h with ⟨c, hc, hmoved⟩ | ⟨hnone, rfl⟩
  · rcases h' with ⟨c', hc', hmoved'⟩ | ⟨hnone, -⟩
    · rw [← hc.unique hc'] at hmoved'
      exact hmoved.unique hmoved'
    · exact absurd hc.valid (hnone c hc.start_le)
  · rcases h' with ⟨c', hc', -⟩ | ⟨-, rfl⟩
    · exact absurd hc'.valid (hnone c' hc'.start_le)
    · rfl

theorem walkBack_spec {c : Nat} (hc : start ≤ c) :
    MovedBack entries start c (walkBack entries start c) := by
  induction c with
  | zero => exact ⟨hc, le_refl _, by omega, Or.inl (by rw [walkBack]; omega)⟩
  | succ c ih =>
    rw [walkBack]
    split_ifs with hstop
    · refine ⟨hc, le_refl _, by omega, ?_⟩
      rcases hstop with hle | hstop
      · exact Or.inl (by omega)
      · exact Or.inr hstop
    · rw [not_or] at hstop
      obtain ⟨hstart, hover⟩ := hstop
      have hmoved := ih (by omega)
      refine ⟨hmoved.start_le, by have := hmoved.le; omega, ?_, hmoved.stop⟩
      intro d hd hdc
      rcases Nat.lt_or_ge d c with hlt | hge
      · exact hmoved.skipped d hd hlt
      · have hdc : d = c := by omega
        rw [hdc]
        exact hover

theorem findValidCutPoints_eq_nil :
    findValidCutPoints entries start entries.length = [] ↔
      ∀ d, start ≤ d → ¬ At isCutPoint entries d := by
  rw [findValidCutPoints, List.filter_eq_nil_iff]
  constructor
  · intro h d hd hvalid
    refine h d ?_ hvalid
    have hlt := hvalid.lt_length
    rw [List.mem_range'_1]
    omega
  · intro h d hd hvalid
    rw [List.mem_range'_1] at hd
    exact h d hd.1 hvalid

theorem find?_findValidCutPoints {p : Nat → Bool} {c : Nat} :
    (findValidCutPoints entries start entries.length).find? p = some c ↔
      start ≤ c ∧ At isCutPoint entries c ∧ p c = true ∧
        ∀ d, start ≤ d → d < c → At isCutPoint entries d → p d = false := by
  rw [findValidCutPoints, List.find?_filter, List.find?_range'_eq_some]
  simp only [decide_eq_true_eq, List.mem_range'_1, Bool.not_eq_true', decide_eq_false_iff_not,
    not_and, Bool.not_eq_true]
  constructor
  · rintro ⟨⟨hvalid, hp⟩, hrange, hfirst⟩
    exact ⟨hrange.1, hvalid, hp, fun d hd hdc hat => hfirst d hd hdc hat⟩
  · rintro ⟨hstart, hvalid, hp, hfirst⟩
    have hlt := hvalid.lt_length
    exact ⟨⟨hvalid, hp⟩, by omega, fun d hd hdc hat => hfirst d hd hdc hat⟩

theorem find?_findValidCutPoints_eq_none {p : Nat → Bool} :
    (findValidCutPoints entries start entries.length).find? p = none ↔
      ∀ d, start ≤ d → At isCutPoint entries d → p d = false := by
  rw [List.find?_eq_none]
  constructor
  · intro h d hd hvalid
    have hlt := hvalid.lt_length
    have hmem : d ∈ findValidCutPoints entries start entries.length := by
      rw [findValidCutPoints, List.mem_filter, List.mem_range'_1]
      exact ⟨by omega, hvalid⟩
    simpa using h d hmem
  · intro h d hmem
    rw [findValidCutPoints, List.mem_filter, List.mem_range'_1] at hmem
    simpa using h d hmem.1.1 hmem.2

theorem chosen_chosenCutPoint {first : Nat} {others : List Nat}
    (hpoints : findValidCutPoints entries start entries.length = first :: others) :
    Chosen numberText entries start keep
      (chosenCutPoint (first :: others) first
        (reachBudget numberText entries start keep entries.length 0)) := by
  -- the first cut point of all
  have hfirst : start ≤ first ∧ At isCutPoint entries first ∧
      ∀ d, start ≤ d → d < first → ¬ At isCutPoint entries d := by
    have hfind : (findValidCutPoints entries start entries.length).find?
        (fun _ => true) = some first := by
      rw [hpoints]
      rfl
    obtain ⟨hstart, hvalid, -, hbefore⟩ := find?_findValidCutPoints.mp hfind
    exact ⟨hstart, hvalid, fun d hd hlt hat => by simpa using hbefore d hd hlt hat⟩
  have hbudget := @reachBudget_spec numberText entries start keep entries.length (le_refl _)
    (fun j hj hstored => absurd hstored.lt_length (by omega))
  have hzero : tokensFrom numberText entries entries.length = 0 := by simp [tokensFrom]
  rw [hzero] at hbudget
  cases hreach : reachBudget numberText entries start keep entries.length 0 with
  | none =>
    rw [hreach] at hbudget
    exact ⟨hfirst.1, hfirst.2.1, Or.inr ⟨fun i hi => absurd hi (hbudget i), hfirst.2.2⟩⟩
  | some i =>
    rw [hreach] at hbudget
    have hi : ReachesBudget numberText entries start keep i := hbudget
    rw [chosenCutPoint, ← hpoints]
    cases hfind : (findValidCutPoints entries start entries.length).find?
        (fun c => decide (i ≤ c)) with
    | none =>
      rw [find?_findValidCutPoints_eq_none] at hfind
      refine ⟨hfirst.1, hfirst.2.1, Or.inr ⟨?_, hfirst.2.2⟩⟩
      intro j hj d hd hvalid
      have hij := hj.unique hi
      have hafter := hfind d (by have := hj.start_le; omega) hvalid
      rw [decide_eq_false_iff_not] at hafter
      omega
    | some c =>
      obtain ⟨hstart, hvalid, hic, hbefore⟩ := find?_findValidCutPoints.mp hfind
      rw [decide_eq_true_eq] at hic
      refine ⟨hstart, hvalid, Or.inl ⟨i, hi, hic, ?_⟩⟩
      intro d hd hdc hat
      have hafter := hbefore d (by have := hi.start_le; omega) hdc hat
      rw [decide_eq_false_iff_not] at hafter
      exact hafter hd

/-- **`findCutPoint` keeps the entries from the cut on.** -/
theorem cutAt_findCutPoint :
    CutAt numberText entries start keep
      (findCutPoint numberText entries start entries.length keep).firstKeptEntryIndex := by
  unfold findCutPoint
  cases hpoints : findValidCutPoints entries start entries.length with
  | nil => exact Or.inr ⟨findValidCutPoints_eq_nil.mp hpoints, rfl⟩
  | cons first others =>
    have hchosen := @chosen_chosenCutPoint numberText entries start keep first others hpoints
    exact Or.inl ⟨_, hchosen, walkBack_spec hchosen.start_le⟩

theorem findTurnStartIndex_eq_some {i t : Nat} (h : findTurnStartIndex entries start i = some t) :
    start ≤ t ∧ t ≤ i ∧ At startsTurn entries t ∧
      ∀ d, t < d → d ≤ i → ¬ At startsTurn entries d := by
  induction i with
  | zero =>
    rw [findTurnStartIndex] at h
    split_ifs at h with hcond
    rw [Option.some.injEq] at h
    subst h
    exact ⟨by omega, le_refl _, hcond.2, by omega⟩
  | succ i ih =>
    rw [findTurnStartIndex] at h
    split_ifs at h with hstart hhere
    · rw [Option.some.injEq] at h
      subst h
      exact ⟨by omega, le_refl _, hhere, by omega⟩
    · obtain ⟨h1, h2, h3, h4⟩ := ih h
      refine ⟨h1, by omega, h3, ?_⟩
      intro d hd hdi
      rcases Nat.lt_or_ge d (i + 1) with hlt | hge
      · exact h4 d hd (by omega)
      · have hd : d = i + 1 := by omega
        rw [hd]
        exact hhere

theorem findTurnStartIndex_eq_none {i : Nat} (h : findTurnStartIndex entries start i = none) :
    ∀ d, start ≤ d → d ≤ i → ¬ At startsTurn entries d := by
  induction i with
  | zero =>
    rw [findTurnStartIndex] at h
    split_ifs at h with hcond
    intro d hd hdi hat
    have hzero : d = 0 := by omega
    subst hzero
    exact hcond ⟨by omega, hat⟩
  | succ i ih =>
    rw [findTurnStartIndex] at h
    split_ifs at h with hstart hhere
    · intro d hd hdi
      omega
    · intro d hd hdi
      rcases Nat.lt_or_ge d (i + 1) with hlt | hge
      · exact ih h d hd (by omega)
      · have hd : d = i + 1 := by omega
        rw [hd]
        exact hhere

end Budget

end Compaction

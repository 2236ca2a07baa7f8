import Crest.QuickReorderQueueSequence
import Mathlib.Algebra.Group.Nat.Defs

/-!
# A session that arrives in one stretch

Fix a session.  While it is the current one, its sent numbers are `1 .. m`, the expected
number is `m + 1`, and what is buffered is later.  When its accepted numbers are exactly
`1 .. k`, nothing can be left in the buffer, so what was sent is `1 .. k`.
-/

namespace QuickReorderQueue

open scoped List

variable {α : Type*} (s : String)

/-- The sequence numbers of a session's items in a list. -/
def seqs (l : List (QueuedItem α)) : List Int :=
  (l.filter fun x => x.sessionId = s).map fun x => x.seqNum.toInt

/-- The numbers from one to `k`. -/
def upTo (k : Nat) : List Int := (List.range' 1 k).map Int.ofNat

variable {s}

theorem mem_upTo {k : Nat} {n : Int} : n ∈ upTo k ↔ 1 ≤ n ∧ n ≤ k := by
  rw [upTo, List.mem_map]
  constructor
  · intro h
    obtain ⟨i, hi, rfl⟩ := h
    rw [List.mem_range'_1] at hi
    simp only [Int.ofNat_eq_natCast]
    omega
  · intro h
    exact ⟨n.toNat, by rw [List.mem_range'_1]; omega, by simp only [Int.ofNat_eq_natCast]; omega⟩

theorem upTo_succ (m : Nat) : upTo (m + 1) = upTo m ++ [((m : Int) + 1)] := by
  simp [upTo, List.range'_concat, Int.add_comm]

@[simp] theorem length_upTo (k : Nat) : (upTo k).length = k := by simp [upTo]

theorem nodup_upTo (k : Nat) : (upTo k).Nodup := by
  refine List.Nodup.map ?_ List.nodup_range'
  intro a b hab
  exact Int.ofNat.inj hab

@[simp] theorem seqs_append (l l' : List (QueuedItem α)) :
    seqs s (l ++ l') = seqs s l ++ seqs s l' := by simp [seqs]

theorem seqs_singleton (x : QueuedItem α) :
    seqs s [x] = if x.sessionId = s then [x.seqNum.toInt] else [] := by
  unfold seqs
  by_cases h : x.sessionId = s <;> simp [h]

theorem seqs_of_none {l : List (QueuedItem α)} (h : ∀ x ∈ l, x.sessionId ≠ s) :
    seqs s l = [] := by
  unfold seqs
  rw [List.map_eq_nil_iff, List.filter_eq_nil_iff]
  intro x hx
  simpa using h x hx

theorem seqs_of_all {l : List (QueuedItem α)} (h : ∀ x ∈ l, x.sessionId = s) :
    seqs s l = l.map fun x => x.seqNum.toInt := by
  unfold seqs
  rw [List.filter_eq_self.mpr (by simpa using h)]

theorem Perm.seqs {l l' : List (QueuedItem α)} (h : l.Perm l') :
    (seqs s l).Perm (seqs s l') := (h.filter _).map _

theorem mem_seqs {l : List (QueuedItem α)} {n : Int} :
    n ∈ seqs s l ↔ ∃ x ∈ l, x.sessionId = s ∧ x.seqNum.toInt = n := by
  simp [seqs, and_assoc]

variable {q : QuickReorderQueue α}

theorem Moves.seqs_sent {q' : QuickReorderQueue α} {extra : List (QueuedItem α)}
    (h : Moves q extra q') (hother : ∀ x ∈ q.buffer ++ extra, x.sessionId ≠ s) :
    seqs s q'.sent = seqs s q.sent := by
  obtain ⟨items, hs, hp⟩ := h
  have hnone : seqs s items = [] := by
    refine seqs_of_none ?_
    intro x hx
    exact hother x (hp.mem_iff.mp (List.mem_append_left _ hx))
  rw [hs.sent, seqs_append, hnone, List.append_nil]

variable (s)

/-- The session's sent numbers are the first ones, and the next one is expected. -/
def Counted (q : QuickReorderQueue α) : Prop :=
  ∃ m : Nat, seqs s q.sent = upTo m ∧ q.nextSeqNum = Int64.ofNat (m + 1)

/-- The session's accepted numbers are positive and occur once. -/
def Numbered (q : QuickReorderQueue α) : Prop :=
  (seqs s q.accepted).Nodup ∧ ∀ n ∈ seqs s q.accepted, 1 ≤ n

variable {s}

theorem lt_of_seqs_eq {l : List (QueuedItem α)} {m : Nat} (h : seqs s l = upTo m) :
    m < 2 ^ 63 := by
  rcases Nat.eq_zero_or_pos m with rfl | hpos
  · decide
  · have hm : (m : Int) ∈ seqs s l := by
      rw [h, mem_upTo]
      omega
    obtain ⟨x, -, -, hx⟩ := mem_seqs.mp hm
    have hlt := x.seqNum.toInt_lt
    omega

theorem toInt_next {m : Nat} (hm : m < 2 ^ 63) (hpos : 1 ≤ (Int64.ofNat (m + 1)).toInt) :
    (Int64.ofNat (m + 1)).toInt = m + 1 := by
  rcases Nat.lt_or_ge (m + 1) (2 ^ 63) with hlt | hge
  · rw [Int64.toInt_ofNat_of_lt hlt]
    omega
  · have hmax : m + 1 = 2 ^ 63 := by omega
    rw [hmax] at hpos
    exact absurd hpos (by decide)

theorem Counted.send (h : Counted s q) {item : QueuedItem α} (hs : item.sessionId = s)
    (hnext : item.seqNum = q.nextSeqNum) (hpos : 1 ≤ item.seqNum.toInt) :
    Counted s { q.send item with nextSeqNum := q.nextSeqNum + 1 } := by
  obtain ⟨m, hsent, hm⟩ := h
  have hseq : item.seqNum.toInt = m + 1 := by
    rw [hnext, hm] at hpos ⊢
    exact toInt_next (lt_of_seqs_eq hsent) hpos
  refine ⟨m + 1, ?_, ?_⟩
  · rw [show ({ q.send item with nextSeqNum := q.nextSeqNum + 1 } : QuickReorderQueue α).sent =
      q.sent ++ [item] from rfl, seqs_append, hsent, seqs_singleton, if_pos hs, hseq,
      upTo_succ]
  · rw [hm, Int64.ofNat_add (m + 1) 1]
    rfl

theorem drain_counted {l : List (QueuedItem α)} (h : Counted s q)
    (hs : ∀ x ∈ l, x.sessionId = s) (hpos : ∀ x ∈ l, 1 ≤ x.seqNum.toInt) :
    Counted s (q.drain l) := by
  induction l generalizing q with
  | nil => exact h
  | cons item rest ih =>
    by_cases hnext : item.sessionId = q.currentSessionId ∧ item.seqNum = q.nextSeqNum
    · rw [drain, if_pos hnext]
      exact ih (h.send (hs item List.mem_cons_self) hnext.2 (hpos item List.mem_cons_self))
        (fun x hx => hs x (List.mem_cons_of_mem _ hx))
        (fun x hx => hpos x (List.mem_cons_of_mem _ hx))
    · rw [drain, if_neg hnext]
      exact h

theorem Accounted.seqs_perm {q : QuickReorderQueue α} (h : Accounted q) (s : String) :
    (seqs s q.sent ++ seqs s q.buffer).Perm (seqs s q.accepted) := by
  rw [← seqs_append]
  exact Perm.seqs h.placed

/-- **A complete session has nothing left in the buffer.** -/
theorem Counted.complete (hacc : Accounted q) (h : Counted s q) (hahead : Ahead q)
    (hown : ∀ x ∈ q.buffer, x.sessionId = s) {k : Nat} (hk : (seqs s q.accepted).Perm (upTo k)) :
    q.buffer = [] ∧ seqs s q.sent = upTo k := by
  obtain ⟨m, hsent, hm⟩ := h
  have hperm := (hacc.seqs_perm s).trans hk
  rw [hsent, seqs_of_all hown] at hperm
  have hlen : m + q.buffer.length = k := by simpa using hperm.length_eq
  rcases Nat.eq_zero_or_pos q.buffer.length with hzero | hpos
  · have hmk : m = k := by omega
    exact ⟨List.eq_nil_of_length_eq_zero hzero, by rw [hsent, hmk]⟩
  · have hmem : ((m : Int) + 1) ∈ upTo m ++ q.buffer.map fun x => x.seqNum.toInt := by
      rw [hperm.mem_iff, mem_upTo]
      omega
    rcases List.mem_append.mp hmem with hin | hin
    · rw [mem_upTo] at hin
      omega
    · obtain ⟨x, hx, hxm⟩ := List.mem_map.mp hin
      have hlt := x.seqNum.toInt_lt
      have hnext : q.nextSeqNum.toInt = m + 1 := by
        rw [hm, Int64.toInt_ofNat_of_lt (by omega)]
        omega
      have hgt := Int64.lt_iff_toInt_lt.mp (hahead x hx)
      omega

variable (s)

/-- Items of the session are accepted only while it is the newest one. -/
def ArrivesWhileNewest (q : QuickReorderQueue α) : Event α → Prop
  | .queueItem sessionId _ _ _ _ =>
    q.Accepts → sessionId = s → q.sessionOrder.has s = true → q.currentSessionId = s
  | _ => True

instance (q : QuickReorderQueue α) : (e : Event α) → Decidable (q.ArrivesWhileNewest s e)
  | .queueItem sessionId _ _ _ _ =>
    inferInstanceAs (Decidable (q.Accepts → sessionId = s →
      q.sessionOrder.has s = true → q.currentSessionId = s))
  | .onTimeout _ | .close | .receive => inferInstanceAs (Decidable True)

/-- A timeout finds no item of the session that has waited too long. -/
def TimeoutSpares (q : QuickReorderQueue α) : Event α → Prop
  | .onTimeout now =>
    q.closed = false → ∀ x ∈ q.buffer, x.sessionId = s → ¬ q.timedOut now x
  | _ => True

instance (q : QuickReorderQueue α) : (e : Event α) → Decidable (q.TimeoutSpares s e)
  | .onTimeout now =>
    inferInstanceAs (Decidable (q.closed = false →
      ∀ x ∈ q.buffer, x.sessionId = s → ¬ q.timedOut now x))
  | .queueItem _ _ _ _ _ | .close | .receive => inferInstanceAs (Decidable True)

/-- What is known of the session at every moment. -/
structure InSession (q : QuickReorderQueue α) : Prop where
  /-- While it is the current one. -/
  current : q.currentSessionId = s → Numbered s q → Counted s q ∧ Ahead q
  /-- After a later one has begun. -/
  past : q.sessionOrder.has s = true → q.currentSessionId ≠ s →
    ∀ k, (seqs s q.accepted).Perm (upTo k) → seqs s q.sent = upTo k

variable {s}

theorem Numbered.of_perm {k : Nat} (h : (seqs s q.accepted).Perm (upTo k)) :
    Numbered s q := by
  refine ⟨h.nodup_iff.mpr (nodup_upTo k), ?_⟩
  intro n hn
  exact (mem_upTo.mp (h.mem_iff.mp hn)).1

theorem Numbered.of_append {q' : QuickReorderQueue α} {items : List (QueuedItem α)}
    (h : Numbered s q') (heq : q'.accepted = q.accepted ++ items) :
    Numbered s q := by
  obtain ⟨hnodup, hpos⟩ := h
  rw [heq, seqs_append] at hnodup hpos
  exact ⟨(List.nodup_append.mp hnodup).1, fun n hn => hpos n (List.mem_append_left _ hn)⟩

theorem Numbered.buffer (hacc : Accounted q) (h : Numbered s q)
    (hown : ∀ x ∈ q.buffer, x.sessionId = s) :
    (q.buffer.map QueuedItem.seqNum).Nodup ∧ ∀ x ∈ q.buffer, 1 ≤ x.seqNum.toInt := by
  obtain ⟨hnodup, hpos⟩ := h
  have hperm := hacc.seqs_perm s
  have hboth := (List.nodup_append.mp (hperm.nodup_iff.mpr hnodup)).2.1
  rw [seqs_of_all hown] at hboth
  refine ⟨?_, ?_⟩
  · refine List.Nodup.of_map Int64.toInt ?_
    rwa [List.map_map]
  · intro x hx
    refine hpos _ (hperm.mem_iff.mp (List.mem_append_right _ ?_))
    exact mem_seqs.mpr ⟨x, hx, hown x hx, rfl⟩

section Steps

variable (sorter : SliceSort (QueuedItem α))

variable {q : QuickReorderQueue α}

theorem ensureSessionTs_accounted (h : Accounted q) (sessionId : String) (ts : Int) :
    Accounted (q.ensureSessionTs sorter sessionId ts) ∧
    (q.ensureSessionTs sorter sessionId ts).accepted = q.accepted := by
  have hm := ensureSessionTs_moves sorter q sessionId ts
  obtain ⟨hflow, hplace, hcap, hblocked⟩ := h.moves (by simpa using h.room) hm
  obtain ⟨items, hs, -⟩ := hm
  rw [List.append_nil, ← hs.accepted] at hplace
  exact ⟨⟨hflow, hplace, hcap, hblocked, ensureSessionTs_armed sorter h.armed _ _⟩, hs.accepted⟩

theorem InSession.ensureSessionTs (hs : s ≠ "") (hacc : Accounted q) (hseen : Seen q)
    (hnewest : Newest q) (h : InSession s q) (sessionId : String) (ts : Int) :
    InSession s (q.ensureSessionTs sorter sessionId ts) := by
  obtain ⟨hacc', haccepted⟩ := ensureSessionTs_accounted sorter hacc sessionId ts
  rcases ensureSessionTs_cases sorter q sessionId ts with ⟨hsame, -⟩ |
    ⟨-, hnew, hso, hcur, hnext, hempty⟩
  · rw [hsame]
    exact h
  have hm := ensureSessionTs_moves sorter q sessionId ts
  by_cases hss : sessionId = s
  · subst hss
    refine ⟨?_, fun _ hne => absurd hcur hne⟩
    intro _ _
    have hnone : seqs sessionId (q.ensureSessionTs sorter sessionId ts).sent = [] := by
      refine seqs_of_none ?_
      intro x hx
      refine hseen.not_accepted hs hnew x ?_
      rw [← haccepted]
      exact hacc'.placed.mem_iff.mp (List.mem_append_left _ hx)
    exact ⟨⟨0, hnone, hnext⟩, by rw [Ahead, hempty]; simp⟩
  · refine ⟨fun heq => absurd (hcur.symm.trans heq) hss, ?_⟩
    intro hhas _ k hk
    rw [haccepted] at hk
    have hhas' : q.sessionOrder.has s = true := by
      rw [hso] at hhas
      simpa [JsMap.has, Ne.symm hss] using hhas
    by_cases hqs : q.currentSessionId = s
    · obtain ⟨hcounted, hahead⟩ := h.current hqs (Numbered.of_perm hk)
      obtain ⟨hb, hsent⟩ := hcounted.complete hacc hahead
        (fun x hx => (hnewest.own x hx).1.trans hqs) hk
      rw [hm.seqs_sent (by rw [hb]; simp), hsent]
    · rw [hm.seqs_sent ?_, h.past hhas' hqs k hk]
      intro x hx
      rw [List.append_nil] at hx
      rw [(hnewest.own x hx).1]
      exact hqs

theorem not_late (hacc : Accounted q) (hcounted : Counted s q) {item : QueuedItem α}
    (hitem : item.sessionId = s)
    (hnumbered : Numbered s { q with accepted := q.accepted ++ [item] }) :
    ¬ item.seqNum < q.nextSeqNum := by
  intro hlt
  obtain ⟨hnodup, hpos⟩ := hnumbered
  obtain ⟨m, hsent, hm⟩ := hcounted
  rw [show ({ q with accepted := q.accepted ++ [item] } : QuickReorderQueue α).accepted =
    q.accepted ++ [item] from rfl, seqs_append, seqs_singleton, if_pos hitem] at hnodup hpos
  have hone := hpos item.seqNum.toInt (by simp)
  have hnot : item.seqNum.toInt ∉ seqs s q.accepted := by
    intro hin
    exact (List.nodup_append.mp hnodup).2.2 _ hin _ (by simp) rfl
  have hgt : ¬ item.seqNum.toInt ≤ m := by
    intro hle
    refine hnot ((hacc.seqs_perm s).mem_iff.mp (List.mem_append_left _ ?_))
    rw [hsent, mem_upTo]
    exact ⟨hone, hle⟩
  have hmax := item.seqNum.toInt_lt
  rw [Int64.lt_iff_toInt_lt, hm, Int64.toInt_ofNat_of_lt (by omega)] at hlt
  omega

theorem InSession.placeItem (hs : s ≠ "") (hacc : Accounted q) (hnewest : Newest q)
    (h : InSession s q) (item : QueuedItem α)
    (hseen : item.sessionId = "" ∨ q.sessionOrder.has item.sessionId = true)
    (harrives : item.sessionId = s → q.currentSessionId = s) :
    InSession s { QuickReorderQueue.placeItem sorter q item with
      accepted := q.accepted ++ [item] } := by
  obtain ⟨hso, hcur⟩ := placeItem_frame sorter q item
  refine ⟨?_, ?_⟩
  · intro hqs hnumbered'
    have hqs : q.currentSessionId = s := hcur.symm.trans hqs
    have hnumbered : Numbered s q := hnumbered'.of_append rfl
    obtain ⟨hcounted, hahead⟩ := h.current hqs hnumbered
    have hown : ∀ x ∈ q.buffer, x.sessionId = s :=
      fun x hx => (hnewest.own x hx).1.trans hqs
    obtain ⟨hnodup, hpos⟩ := hnumbered.buffer hacc hown
    refine ⟨?_, placeItem_ahead sorter hnewest hahead hnodup item hseen⟩
    have hone : item.sessionId = s → 1 ≤ item.seqNum.toInt := by
      intro hitem
      exact hnumbered'.2 _ (mem_seqs.mpr ⟨item, by simp, hitem, rfl⟩)
    suffices hplaced : Counted s (QuickReorderQueue.placeItem sorter q item) from hplaced
    rcases placeItem_cases sorter hnewest item hseen with ⟨heq, hlate⟩ |
      ⟨hitem, -, -, hnext, heq⟩ | ⟨-, -, -, -, heq⟩
    · have hother : item.sessionId ≠ s := by
        intro hitem
        have hzero : item.seqNum ≠ 0 := by
          intro hzero
          have hbad := hone hitem
          rw [hzero] at hbad
          exact absurd hbad (by decide)
        exact not_late hacc hcounted hitem hnumbered'
          (hlate (hitem.trans hqs.symm) (hitem ▸ hs) hzero)
      obtain ⟨m, hsent, hm⟩ := hcounted
      rw [heq]
      exact ⟨m, by rw [show (q.send item).sent = q.sent ++ [item] from rfl, seqs_append,
        seqs_singleton, if_neg hother, List.append_nil, hsent], hm⟩
    · have hcount := hcounted.send (hitem.trans hqs) hnext (hone (hitem.trans hqs))
      have hperm :=
        sortedBuffer_perm sorter { q.send item with nextSeqNum := q.nextSeqNum + 1 }
      rw [heq]
      unfold processBuffer
      split
      · exact hcount
      · exact drain_counted hcount (fun x hx => hown x (hperm.mem_iff.mp hx))
          (fun x hx => hpos x (hperm.mem_iff.mp hx))
    · rw [heq]
      unfold ensureTimer
      split <;> exact hcounted
  · intro hhas hqs k hk
    have hqs : q.currentSessionId ≠ s := fun heq => hqs (hcur.trans heq)
    have hother : item.sessionId ≠ s := fun hitem => hqs (harrives hitem)
    rw [show ({ QuickReorderQueue.placeItem sorter q item with
      accepted := q.accepted ++ [item] } : QuickReorderQueue α).accepted =
      q.accepted ++ [item] from rfl, seqs_append, seqs_singleton, if_neg hother,
      List.append_nil] at hk
    have hsame := (placeItem_moves sorter q item).seqs_sent (s := s) (by
      intro x hx
      rcases List.mem_append.mp hx with hx | hx
      · rw [(hnewest.own x hx).1]
        exact hqs
      · rw [List.mem_singleton.mp hx]
        exact hother)
    exact hsame.trans (h.past (hso ▸ hhas) hqs k hk)

theorem highestTimedOutIdx_eq_none {now : Int} {l : List (QueuedItem α)}
    (h : ∀ x ∈ l, ¬ q.timedOut now x) :
    q.highestTimedOutIdx now l = none := by
  induction l with
  | nil => rfl
  | cons x rest ih =>
    rw [highestTimedOutIdx, ih fun y hy => h y (List.mem_cons_of_mem _ hy)]
    simp [h x List.mem_cons_self]

theorem onTimeout_spares {now : Int}
    (h : q.closed = false → ∀ x ∈ q.buffer, ¬ q.timedOut now x) :
    (q.onTimeout sorter now).sent = q.sent ∧
    (q.onTimeout sorter now).nextSeqNum = q.nextSeqNum ∧
    (q.onTimeout sorter now).buffer.Perm q.buffer := by
  unfold onTimeout
  split
  · exact ⟨rfl, rfl, List.Perm.refl _⟩
  next hopen =>
      split
      · exact ⟨rfl, rfl, List.Perm.refl _⟩
      · have hperm := sortedBuffer_perm sorter { q with timer := none }
        have hnone : highestTimedOutIdx { q with timer := none } now
            (sortedBuffer sorter { q with timer := none }) = none := by
          refine highestTimedOutIdx_eq_none ?_
          intro x hx
          exact h (by simpa using hopen) x (hperm.mem_iff.mp hx)
        have hsend : sendTimedOutItems sorter { q with timer := none } now =
            { q with
              timer := none
              buffer := sortedBuffer sorter { q with timer := none } } := by
          unfold sendTimedOutItems
          dsimp only
          rw [hnone]
        rw [rearm_buffer, hsend]
        unfold rearm
        split <;> exact ⟨rfl, rfl, hperm⟩

theorem InSession.step (hs : s ≠ "") (hacc : Accounted q) (hseen : Seen q)
    (hnewest : Newest q) (h : InSession s q) {e : Event α} (hclock : q.ClockAdvances e)
    (harrives : q.ArrivesWhileNewest s e) (hspares : q.TimeoutSpares s e) :
    InSession s (q.step sorter e) := by
  cases e with
  | queueItem sessionId seqNum data ts now =>
    rcases queueItem_cases sorter q sessionId seqNum data ts now with hsame |
      ⟨hopen, hroom, hplaced⟩
    · rw [QuickReorderQueue.step, hsame]
      exact h
    · obtain ⟨hacc', haccepted⟩ := ensureSessionTs_accounted sorter hacc sessionId ts
      have hplace := InSession.placeItem sorter hs hacc'
        (ensureSessionTs_newest sorter hnewest (hclock ⟨hopen, hroom⟩))
        (h.ensureSessionTs sorter hs hacc hseen hnewest sessionId ts)
        ⟨sessionId, seqNum, data, now⟩ (ensureSessionTs_seen sorter q sessionId ts).1
        (by intro hitem
            rcases ensureSessionTs_cases sorter q sessionId ts with ⟨hsame, hold⟩ |
              ⟨-, -, -, hcur, -, -⟩
            · rw [hsame]
              have hitem : sessionId = s := hitem
              rcases hold with hnil | hhas
              · exact absurd (hitem.symm.trans hnil) hs
              · exact harrives ⟨hopen, hroom⟩ hitem (hitem ▸ hhas)
            · exact hcur.trans hitem)
      rw [QuickReorderQueue.step, hplaced, ← haccepted]
      exact hplace
  | onTimeout now =>
    obtain ⟨hso, hcur⟩ := onTimeout_frame sorter q now
    have hm := onTimeout_moves sorter q now
    obtain ⟨items, hsends, -⟩ := id hm
    rw [QuickReorderQueue.step]
    refine ⟨?_, ?_⟩
    · intro hqs hnumbered
      rw [hcur] at hqs
      rw [Numbered, hsends.accepted] at hnumbered
      obtain ⟨⟨m, hsent, hm⟩, hahead⟩ := h.current hqs hnumbered
      have hidle : q.closed = false → ∀ x ∈ q.buffer, ¬ q.timedOut now x := by
        intro hopen x hx
        exact hspares hopen x hx ((hnewest.own x hx).1.trans hqs)
      obtain ⟨hsent', hnext, hperm⟩ := onTimeout_spares sorter hidle
      refine ⟨⟨m, by rw [hsent', hsent], by rw [hnext, hm]⟩, ?_⟩
      intro x hx
      rw [hnext]
      exact hahead x (hperm.mem_iff.mp hx)
    · intro hhas hqs k hk
      rw [hso] at hhas
      rw [hcur] at hqs
      rw [hsends.accepted] at hk
      rw [hm.seqs_sent ?_, h.past hhas hqs k hk]
      intro x hx
      rw [List.append_nil] at hx
      rw [(hnewest.own x hx).1]
      exact hqs
  | close =>
    obtain ⟨hso, hcur, hnext, hb, hsent, haccepted⟩ := close_frame q
    rw [QuickReorderQueue.step]
    refine ⟨?_, ?_⟩
    · rw [hcur, Numbered, haccepted, Counted, hsent, hnext, Ahead, hb, hnext]
      exact h.current
    · rw [hso, hcur, haccepted, hsent]
      exact h.past
  | receive =>
    obtain ⟨hso, hcur, hnext, hb, hsent, haccepted⟩ := receive_frame q
    rw [QuickReorderQueue.step]
    refine ⟨?_, ?_⟩
    · rw [hcur, Numbered, haccepted, Counted, hsent, hnext, Ahead, hb, hnext]
      exact h.current
    · rw [hso, hcur, haccepted, hsent]
      exact h.past

/-- **A session that arrives in one stretch comes out in order.**  The clock advances from
session to session, the session's items are accepted while it is the newest one, and no
timeout finds one of them that has waited too long: then numbers `1 .. k` accepted in any
order are sent as `1 .. k`. -/
theorem sent_in_sequence (cap : Nat) (timeout : Int) (events : List (Event α)) (hs : s ≠ "")
    (hok : Runs.Guarded (step sorter)
      (fun q e => q.ClockAdvances e ∧ q.ArrivesWhileNewest s e ∧ q.TimeoutSpares s e)
      (make cap timeout) events)
    {k : Nat}
    (hk : (seqs s (Runs.run (step sorter) (make cap timeout) events).accepted).Perm (upTo k)) :
    seqs s (Runs.run (step sorter) (make cap timeout) events).sent = upTo k := by
  obtain ⟨hacc, hseen, hnewest, h⟩ := Runs.guarded_invariant (step sorter)
    (fun q => Accounted q ∧ Seen q ∧ Newest q ∧ InSession s q) _
    (by intro q e h hok
        obtain ⟨hacc, hseen, hnewest, h⟩ := h
        exact ⟨hacc.step sorter e, hseen.step sorter e, hnewest.step sorter hok.1,
          h.step sorter hs hacc hseen hnewest hok.1 hok.2.1 hok.2.2⟩)
    ⟨make_accounted cap timeout, by simp [Seen, make], make_newest cap timeout,
      fun hcur => absurd hcur.symm hs, by simp [make, JsMap.has]⟩
    events hok
  by_cases hcur : (Runs.run (step sorter) (make cap timeout) events).currentSessionId = s
  · obtain ⟨hcounted, hahead⟩ := h.current hcur (Numbered.of_perm hk)
    exact (hcounted.complete hacc hahead
      (fun x hx => (hnewest.own x hx).1.trans hcur) hk).2
  cases hhas : (Runs.run (step sorter) (make cap timeout) events).sessionOrder.has s with
  | true => exact h.past hhas hcur k hk
  | false =>
    have hnone := hseen.not_accepted hs hhas
    rw [seqs_of_none hnone] at hk
    have hzero : k = 0 := by simpa using hk.length_eq.symm
    subst hzero
    refine seqs_of_none ?_
    intro x hx
    exact hnone x (hacc.placed.mem_iff.mp (List.mem_append_left _ hx))

end Steps

end QuickReorderQueue

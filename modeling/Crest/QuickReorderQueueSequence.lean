import Crest.QuickReorderQueueOrder

/-!
# Sequence numbers within a session

The wall clock gives each session its place.  As long as it advances from one new session
to the next, the buffer holds items of the current session only, sorting it sorts by the
sequence number, and the scan that follows an expected item finds everything that has
become expected.
-/

namespace QuickReorderQueue

open scoped List

variable {α : Type*}

theorem toInt_succ {a b : Int64} (h : a < b) : (a + 1).toInt = a.toInt + 1 := by
  have hlt := Int64.lt_iff_toInt_lt.mp h
  have hb := b.toInt_lt
  have ha := a.le_toInt
  rw [Int64.toInt_add, Int64.toInt_one]
  exact Int.bmod_eq_of_le (by omega) (by omega)

theorem succ_le_of_lt {a b : Int64} (h : a < b) : a + 1 ≤ b := by
  have hlt := Int64.lt_iff_toInt_lt.mp h
  rw [Int64.le_iff_toInt_le, toInt_succ h]
  omega

theorem cmpSessionSeq_same (q : QuickReorderQueue α) (s : String) (a b : Int64) :
    q.cmpSessionSeq s a s b = if a < b then -1 else if a > b then 1 else 0 := by
  simp [cmpSessionSeq]

theorem cmpSessionSeq_older {q : QuickReorderQueue α} {s s' : String}
    (h : q.order s < q.order s') (a b : Int64) :
    q.cmpSessionSeq s a s' b = -1 := by
  simp [cmpSessionSeq, h]

theorem cmpSessionSeq_lt_iff (q : QuickReorderQueue α) (s s' : String) (a b : Int64) :
    q.cmpSessionSeq s a s' b < 0 ↔
      toLex (q.order s, a.toInt) < toLex (q.order s', b.toInt) := by
  rw [Prod.Lex.toLex_lt_toLex]
  unfold cmpSessionSeq
  dsimp only
  simp only [gt_iff_lt, Int64.lt_iff_toInt_lt]
  split_ifs <;> omega

/-- The current session is the newest one, and the buffer holds items of it only. -/
structure Newest (q : QuickReorderQueue α) : Prop where
  own : ∀ x ∈ q.buffer, x.sessionId = q.currentSessionId ∧ x.sessionId ≠ ""
  older : ∀ t v, q.sessionOrder.get t = some v → t ≠ q.currentSessionId →
    v < q.order q.currentSessionId

theorem Newest.order_lt {q : QuickReorderQueue α} (h : Newest q) {t : String}
    (hseen : q.sessionOrder.has t = true) (hne : t ≠ q.currentSessionId) :
    q.order t < q.order q.currentSessionId := by
  obtain ⟨v, hv⟩ := Option.isSome_iff_exists.mp hseen
  have hlt := h.older t v hv hne
  rwa [order, hv, Option.getD_some]

/-- The queue takes the item of a `QueueItem`. -/
def Accepts (q : QuickReorderQueue α) : Prop :=
  q.closed = false ∧ q.buffer.length + q.outCh.length < q.cap

instance (q : QuickReorderQueue α) : Decidable q.Accepts :=
  inferInstanceAs (Decidable (_ ∧ _))

/-- A session that begins gets a later time than all sessions before it. -/
def ClockAdvances (q : QuickReorderQueue α) : Event α → Prop
  | .queueItem sessionId _ _ ts _ =>
    q.Accepts → sessionId ≠ "" → q.sessionOrder.has sessionId = false →
      ∀ v ∈ q.sessionOrder.values, v < ts
  | _ => True

instance (q : QuickReorderQueue α) : (e : Event α) → Decidable (q.ClockAdvances e)
  | .queueItem sessionId _ _ ts _ =>
    inferInstanceAs (Decidable (q.Accepts → sessionId ≠ "" →
      q.sessionOrder.has sessionId = false → ∀ v ∈ q.sessionOrder.values, v < ts))
  | .onTimeout _ | .close | .receive => inferInstanceAs (Decidable True)

theorem mem_values_of_get {κ ν : Type*} [DecidableEq κ] {m : JsMap κ ν} {k : κ} {v : ν}
    (h : m.get k = some v) : v ∈ m.values :=
  List.mem_map_of_mem (JsMap.mem_entries_of_get h)

section Placing

variable (sorter : SliceSort (QueuedItem α))

variable {q : QuickReorderQueue α}

theorem placeItem_cases (hnewest : Newest q) (item : QueuedItem α)
    (hseen : item.sessionId = "" ∨ q.sessionOrder.has item.sessionId = true) :
    (placeItem sorter q item = q.send item ∧
      (item.sessionId = q.currentSessionId → item.sessionId ≠ "" → item.seqNum ≠ 0 →
        item.seqNum < q.nextSeqNum)) ∨
    (item.sessionId = q.currentSessionId ∧ item.sessionId ≠ "" ∧ item.seqNum ≠ 0 ∧
      item.seqNum = q.nextSeqNum ∧
      placeItem sorter q item =
        processBuffer sorter { q.send item with nextSeqNum := q.nextSeqNum + 1 }) ∨
    (item.sessionId = q.currentSessionId ∧ item.sessionId ≠ "" ∧ item.seqNum ≠ 0 ∧
      q.nextSeqNum < item.seqNum ∧
      placeItem sorter q item =
        ensureTimer { q with buffer := q.buffer ++ [item] } item.timestamp) := by
  by_cases hnil : item.sessionId = ""
  · refine Or.inl ⟨?_, fun _ h => absurd hnil h⟩
    simp [placeItem, hnil]
  by_cases hzero : item.seqNum = 0
  · refine Or.inl ⟨?_, fun _ _ h => absurd hzero h⟩
    simp [placeItem, hzero]
  by_cases hcur : item.sessionId = q.currentSessionId
  · have hcmp : q.cmpSessionSeq item.sessionId item.seqNum q.currentSessionId q.nextSeqNum =
        if item.seqNum < q.nextSeqNum then -1 else if item.seqNum > q.nextSeqNum then 1 else 0 := by
      rw [hcur, cmpSessionSeq_same]
    by_cases hlt : item.seqNum < q.nextSeqNum
    · refine Or.inl ⟨?_, fun _ _ _ => hlt⟩
      simp [placeItem, hcmp, hlt]
    by_cases hgt : item.seqNum > q.nextSeqNum
    · refine Or.inr (Or.inr ⟨hcur, hnil, hzero, hgt, ?_⟩)
      simp [placeItem, hcmp, hlt, hgt, hnil, hzero]
    · have heq : item.seqNum = q.nextSeqNum := by
        rw [gt_iff_lt, Int64.lt_iff_toInt_lt] at hgt
        rw [Int64.lt_iff_toInt_lt] at hlt
        exact Int64.toInt_inj.mp (by omega)
      refine Or.inr (Or.inl ⟨hcur, hnil, hzero, heq, ?_⟩)
      simp [placeItem, hcmp, hlt, hgt, hnil, hzero]
  · have hlt := hnewest.order_lt (hseen.resolve_left hnil) hcur
    refine Or.inl ⟨?_, fun h => absurd h hcur⟩
    simp [placeItem, cmpSessionSeq_older hlt]

theorem ensureSessionTs_newest (h : Newest q) {sessionId : String} {ts : Int}
    (hclock : sessionId ≠ "" → q.sessionOrder.has sessionId = false →
      ∀ v ∈ q.sessionOrder.values, v < ts) :
    Newest (q.ensureSessionTs sorter sessionId ts) := by
  rcases ensureSessionTs_cases sorter q sessionId ts with ⟨hsame, -⟩ |
    ⟨hs, hnew, hso, hcur, -, hempty⟩
  · rw [hsame]
    exact h
  · refine ⟨by rw [hempty]; simp, ?_⟩
    intro t v hget hne
    rw [hcur] at hne
    rw [hso, JsMap.get_set, if_neg hne] at hget
    rw [hcur, order, hso, JsMap.get_set, if_pos rfl, Option.getD_some]
    exact hclock hs hnew v (mem_values_of_get hget)

theorem Newest.moves {q' : QuickReorderQueue α} {extra : List (QueuedItem α)} (h : Newest q)
    (hm : Moves q extra q') (hso : q'.sessionOrder = q.sessionOrder)
    (hcur : q'.currentSessionId = q.currentSessionId)
    (hextra : ∀ x ∈ extra, x ∈ q'.buffer →
      x.sessionId = q.currentSessionId ∧ x.sessionId ≠ "") :
    Newest q' := by
  obtain ⟨items, -, hp⟩ := hm
  refine ⟨?_, ?_⟩
  · intro x hx
    rw [hcur]
    rcases List.mem_append.mp (hp.mem_iff.mp (List.mem_append_right items hx)) with hq | he
    · exact h.own x hq
    · exact hextra x he hx
  · rw [hso, hcur, order, hso]
    exact h.older

theorem placeItem_newest (h : Newest q) (item : QueuedItem α)
    (hseen : item.sessionId = "" ∨ q.sessionOrder.has item.sessionId = true) :
    Newest (placeItem sorter q item) := by
  obtain ⟨hso, hcur⟩ := placeItem_frame sorter q item
  rcases placeItem_cases sorter h item hseen with ⟨heq, -⟩ | ⟨hs, hnil, -⟩ | ⟨hs, hnil, -⟩
  · rw [heq]
    exact ⟨h.own, h.older⟩
  all_goals
    refine h.moves (placeItem_moves sorter q item) hso hcur ?_
    intro x hx _
    rw [List.mem_singleton.mp hx]
    exact ⟨hs, hnil⟩

theorem Newest.step (h : Newest q) {e : Event α} (hclock : q.ClockAdvances e) :
    Newest (q.step sorter e) := by
  cases e with
  | queueItem sessionId seqNum data ts now =>
    rcases queueItem_cases sorter q sessionId seqNum data ts now with hsame |
      ⟨hopen, hroom, hplaced⟩
    · rw [QuickReorderQueue.step, hsame]
      exact h
    · have hnew := ensureSessionTs_newest sorter h (hclock ⟨hopen, hroom⟩)
      have hplace := placeItem_newest sorter hnew ⟨sessionId, seqNum, data, now⟩
        (ensureSessionTs_seen sorter q sessionId ts).1
      rw [QuickReorderQueue.step, hplaced]
      exact ⟨hplace.own, hplace.older⟩
  | onTimeout now =>
    obtain ⟨hso, hcur⟩ := onTimeout_frame sorter q now
    exact h.moves (onTimeout_moves sorter q now) hso hcur (by simp)
  | close =>
    obtain ⟨hso, hcur, -, hb, -, -⟩ := close_frame q
    exact ⟨by rw [QuickReorderQueue.step, hb, hcur]; exact h.own,
      by rw [QuickReorderQueue.step, order, hso, hcur]; exact h.older⟩
  | receive =>
    obtain ⟨hso, hcur, -, hb, -, -⟩ := receive_frame q
    exact ⟨by rw [QuickReorderQueue.step, hb, hcur]; exact h.own,
      by rw [QuickReorderQueue.step, order, hso, hcur]; exact h.older⟩

theorem make_newest (cap : Nat) (timeout : Int) :
    Newest (make cap timeout : QuickReorderQueue α) :=
  ⟨by simp [make], by simp [make]⟩

end Placing

section Ahead

variable (sorter : SliceSort (QueuedItem α))

/-- A list of items in strictly ascending order of their numbers. -/
def Ascending (l : List (QueuedItem α)) : Prop :=
  l.Pairwise fun a b => a.seqNum < b.seqNum

/-- Every buffered item is later than the next expected one. -/
def Ahead (q : QuickReorderQueue α) : Prop :=
  ∀ x ∈ q.buffer, q.nextSeqNum < x.seqNum

variable {q : QuickReorderQueue α}

theorem Newest.sorted_ascending (h : Newest q)
    (hnodup : (q.buffer.map QueuedItem.seqNum).Nodup) :
    Ascending (q.sortedBuffer sorter) := by
  have hperm := q.sortedBuffer_perm sorter
  have hless : ∀ a b : QueuedItem α,
      (decide (q.cmpSessionSeq a.sessionId a.seqNum b.sessionId b.seqNum < 0) : Bool) =
        decide (toLex (q.order a.sessionId, a.seqNum.toInt) <
          toLex (q.order b.sessionId, b.seqNum.toInt)) := by
    intro a b
    exact decide_eq_decide.mpr (q.cmpSessionSeq_lt_iff _ _ _ _)
  have hsorted := sorter.sorted_key
    (fun x : QueuedItem α => toLex (q.order x.sessionId, x.seqNum.toInt)) hless q.buffer
  have hne : (q.sortedBuffer sorter).Pairwise fun a b => a.seqNum ≠ b.seqNum :=
    List.pairwise_map.mp ((hperm.map QueuedItem.seqNum).nodup_iff.mpr hnodup)
  refine (hsorted.and hne).imp_of_mem ?_
  intro a b ha hb hab
  obtain ⟨hle, hne⟩ := hab
  have hsame : a.sessionId = b.sessionId :=
    (h.own a (hperm.mem_iff.mp ha)).1.trans (h.own b (hperm.mem_iff.mp hb)).1.symm
  have hint : a.seqNum.toInt ≠ b.seqNum.toInt := fun heq => hne (Int64.toInt_inj.mp heq)
  rw [hsame, Prod.Lex.toLex_le_toLex] at hle
  rw [Int64.lt_iff_toInt_lt]
  omega

theorem drain_ahead {l : List (QueuedItem α)}
    (hcur : ∀ x ∈ l, x.sessionId = q.currentSessionId) (hasc : Ascending l)
    (hle : ∀ x ∈ l, q.nextSeqNum ≤ x.seqNum) :
    Ahead (q.drain l) := by
  induction l generalizing q with
  | nil => simp [drain, Ahead]
  | cons item rest ih =>
    rw [Ascending, List.pairwise_cons] at hasc
    obtain ⟨hfirst, hrest⟩ := hasc
    by_cases hnext : item.sessionId = q.currentSessionId ∧ item.seqNum = q.nextSeqNum
    · rw [drain, if_pos hnext]
      refine ih (fun x hx => hcur x (List.mem_cons_of_mem _ hx)) hrest ?_
      intro x hx
      exact succ_le_of_lt (hnext.2 ▸ hfirst x hx)
    · have hitem : q.nextSeqNum < item.seqNum := by
        have hne : item.seqNum.toInt ≠ q.nextSeqNum.toInt := fun h =>
          hnext ⟨hcur item List.mem_cons_self, Int64.toInt_inj.mp h⟩
        have hitem := Int64.le_iff_toInt_le.mp (hle item List.mem_cons_self)
        rw [Int64.lt_iff_toInt_lt]
        omega
      rw [drain, if_neg hnext]
      intro x hx
      rcases List.mem_cons.mp hx with rfl | hx
      · exact hitem
      · have hx := Int64.lt_iff_toInt_lt.mp (hfirst x hx)
        have hitem := Int64.lt_iff_toInt_lt.mp hitem
        rw [Int64.lt_iff_toInt_lt]
        exact lt_trans hitem hx

theorem placeItem_ahead (hnewest : Newest q) (hahead : Ahead q)
    (hnodup : (q.buffer.map QueuedItem.seqNum).Nodup) (item : QueuedItem α)
    (hseen : item.sessionId = "" ∨ q.sessionOrder.has item.sessionId = true) :
    Ahead (placeItem sorter q item) := by
  rcases placeItem_cases sorter hnewest item hseen with ⟨heq, -⟩ | ⟨hs, -, -, hnext, heq⟩ |
    ⟨-, -, -, hlt, heq⟩
  · rw [heq]
    exact hahead
  · rw [heq]
    unfold processBuffer
    split
    next hb =>
        intro x hx
        rw [hb] at hx
        exact absurd hx List.not_mem_nil
    next =>
        have hsend : Newest { q.send item with nextSeqNum := q.nextSeqNum + 1 } :=
          ⟨hnewest.own, hnewest.older⟩
        have hperm :=
          sortedBuffer_perm sorter { q.send item with nextSeqNum := q.nextSeqNum + 1 }
        refine drain_ahead ?_ (hsend.sorted_ascending sorter hnodup) ?_
        · intro x hx
          exact (hnewest.own x (hperm.mem_iff.mp hx)).1
        · intro x hx
          exact succ_le_of_lt (hahead x (hperm.mem_iff.mp hx))
  · rw [heq]
    intro x hx
    rw [(show (ensureTimer { q with buffer := q.buffer ++ [item] } item.timestamp).buffer =
        q.buffer ++ [item] by unfold ensureTimer; split <;> rfl)] at hx
    rw [(show (ensureTimer { q with buffer := q.buffer ++ [item] } item.timestamp).nextSeqNum =
        q.nextSeqNum by unfold ensureTimer; split <;> rfl)]
    rcases List.mem_append.mp hx with hx | hx
    · exact hahead x hx
    · rw [List.mem_singleton.mp hx]
      exact hlt

theorem ensureSessionTs_ahead (hahead : Ahead q)
    (hnodup : (q.buffer.map QueuedItem.seqNum).Nodup) (sessionId : String) (ts : Int) :
    Ahead (q.ensureSessionTs sorter sessionId ts) ∧
    ((q.ensureSessionTs sorter sessionId ts).buffer.map QueuedItem.seqNum).Nodup := by
  rcases ensureSessionTs_cases sorter q sessionId ts with ⟨hsame, -⟩ |
    ⟨-, -, -, -, -, hempty⟩
  · rw [hsame]
    exact ⟨hahead, hnodup⟩
  · rw [Ahead, hempty]
    exact ⟨by simp, by simp⟩

theorem foldl_sendTimedOut_next {items : List (QueuedItem α)} {last : QueuedItem α}
    (hcur : ∀ x ∈ items ++ [last], x.sessionId = q.currentSessionId)
    (hasc : Ascending (items ++ [last])) (hle : ∀ x ∈ items ++ [last], q.nextSeqNum ≤ x.seqNum) :
    ((items ++ [last]).foldl sendTimedOut q).nextSeqNum = last.seqNum + 1 := by
  have hone : ∀ (q : QuickReorderQueue α) (x : QueuedItem α),
      x.sessionId = q.currentSessionId → q.nextSeqNum ≤ x.seqNum →
        (q.sendTimedOut x).nextSeqNum = x.seqNum + 1 := by
    intro q x hs hx
    have hcond : x.sessionId = (q.send x).currentSessionId ∧
        (q.send x).nextSeqNum ≤ x.seqNum := ⟨hs, hx⟩
    unfold sendTimedOut
    dsimp only
    rw [if_pos hcond]
  induction items generalizing q with
  | nil => exact hone q last (hcur last (by simp)) (hle last (by simp))
  | cons x items ih =>
    rw [List.cons_append, Ascending, List.pairwise_cons] at hasc
    obtain ⟨hfirst, hrest⟩ := hasc
    have hnext := hone q x (hcur x (by simp)) (hle x (by simp))
    refine ih (q := q.sendTimedOut x) ?_ hrest ?_
    · intro y hy
      rw [(sendTimedOut_frame q x).2]
      exact hcur y (List.mem_cons_of_mem _ hy)
    · intro y hy
      rw [hnext]
      exact succ_le_of_lt (hfirst y hy)

/-- At `now`, the number after the last timed-out one is not buffered right behind it. -/
def GapAt (q : QuickReorderQueue α) (now : Int) : Prop :=
  ∀ i ∈ q.highestTimedOutIdx now (q.sortedBuffer sorter),
    ∀ x ∈ (q.sortedBuffer sorter)[i]?, ∀ y ∈ (q.sortedBuffer sorter)[i + 1]?,
      y.seqNum ≠ x.seqNum + 1

instance (q : QuickReorderQueue α) (now : Int) : Decidable (q.GapAt sorter now) :=
  inferInstanceAs (Decidable (∀ i ∈ q.highestTimedOutIdx now (q.sortedBuffer sorter),
    ∀ x ∈ (q.sortedBuffer sorter)[i]?, ∀ y ∈ (q.sortedBuffer sorter)[i + 1]?,
      y.seqNum ≠ x.seqNum + 1))

/-- A timeout that sends part of the buffer does not stop right before the number that
becomes the expected one. -/
def StopsAtGap (q : QuickReorderQueue α) : Event α → Prop
  | .onTimeout now => q.closed = false → q.GapAt sorter now
  | _ => True

instance (q : QuickReorderQueue α) : (e : Event α) → Decidable (q.StopsAtGap sorter e)
  | .onTimeout now => inferInstanceAs (Decidable (q.closed = false → q.GapAt sorter now))
  | .queueItem _ _ _ _ _ | .close | .receive => inferInstanceAs (Decidable True)

theorem highestTimedOutIdx_timer (q : QuickReorderQueue α) (now : Int)
    (l : List (QueuedItem α)) :
    highestTimedOutIdx { q with timer := none } now l = q.highestTimedOutIdx now l := by
  induction l with
  | nil => rfl
  | cons item rest ih =>
    rw [highestTimedOutIdx, highestTimedOutIdx, ih]
    rfl

theorem highestTimedOutIdx_lt {now : Int} {l : List (QueuedItem α)} {i : Nat}
    (h : q.highestTimedOutIdx now l = some i) :
    i < l.length := by
  induction l generalizing i with
  | nil => simp [highestTimedOutIdx] at h
  | cons item rest ih =>
    rw [highestTimedOutIdx] at h
    split at h
    next j hj =>
        have hlt := ih hj
        rw [List.length_cons]
        rw [Option.some.injEq] at h
        omega
    next =>
        split at h
        · rw [Option.some.injEq] at h
          rw [List.length_cons]
          omega
        · simp at h

theorem sendTimedOutItems_ahead (hnewest : Newest q) (hahead : Ahead q)
    (hnodup : (q.buffer.map QueuedItem.seqNum).Nodup) {now : Int} (hgap : q.GapAt sorter now) :
    Ahead (q.sendTimedOutItems sorter now) := by
  have hperm := q.sortedBuffer_perm sorter
  have hasc := hnewest.sorted_ascending sorter hnodup
  have hcur : ∀ x ∈ q.sortedBuffer sorter, x.sessionId = q.currentSessionId :=
    fun x hx => (hnewest.own x (hperm.mem_iff.mp hx)).1
  have hle : ∀ x ∈ q.sortedBuffer sorter, q.nextSeqNum ≤ x.seqNum := by
    intro x hx
    exact Int64.le_iff_toInt_le.mpr
      (le_of_lt (Int64.lt_iff_toInt_lt.mp (hahead x (hperm.mem_iff.mp hx))))
  unfold sendTimedOutItems
  dsimp only
  split
  · intro x hx
    exact hahead x (hperm.mem_iff.mp hx)
  next i hi =>
      have hlt := highestTimedOutIdx_lt hi
      have hsplit : (q.sortedBuffer sorter).take (i + 1) =
          (q.sortedBuffer sorter).take i ++ [(q.sortedBuffer sorter)[i]] := by
        rw [List.take_add_one, List.getElem?_eq_getElem hlt, Option.toList_some]
      have htake := List.take_subset (i + 1) (q.sortedBuffer sorter)
      have hnext := foldl_sendTimedOut_next (q := q)
        (fun x hx => hcur x (htake (hsplit ▸ hx)))
        (hsplit ▸ hasc.sublist (List.take_sublist _ _))
        (fun x hx => hle x (htake (hsplit ▸ hx)))
      intro x hx
      dsimp only at hx ⊢
      rw [hsplit, hnext]
      -- the first item left is not the next one, and the others come after it
      obtain ⟨j, hj, rfl⟩ := List.mem_iff_getElem.mp hx
      rw [List.length_drop] at hj
      rw [List.getElem_drop]
      have hlast : (q.sortedBuffer sorter)[i].seqNum <
          (q.sortedBuffer sorter)[i + 1].seqNum :=
        List.pairwise_iff_getElem.mp hasc i (i + 1) hlt (by omega) (by omega)
      have hne := hgap i hi _ (List.getElem?_eq_getElem hlt) _
        (List.getElem?_eq_getElem (show i + 1 < _ by omega))
      have hhead : (q.sortedBuffer sorter)[i].seqNum + 1 <
          (q.sortedBuffer sorter)[i + 1].seqNum := by
        have hsucc := Int64.le_iff_toInt_le.mp (succ_le_of_lt hlast)
        have hneq : (q.sortedBuffer sorter)[i + 1].seqNum.toInt ≠
            ((q.sortedBuffer sorter)[i].seqNum + 1).toInt :=
          fun h => hne (Int64.toInt_inj.mp h)
        rw [Int64.lt_iff_toInt_lt]
        omega
      rcases Nat.eq_zero_or_pos j with rfl | hpos
      · exact hhead
      · have hlater := List.pairwise_iff_getElem.mp hasc (i + 1) (i + 1 + j) (by omega)
          (by omega) (by omega)
        rw [Int64.lt_iff_toInt_lt] at hhead hlater ⊢
        omega

/-- No number is accepted twice in a session. -/
def Unrepeated (q : QuickReorderQueue α) : Event α → Prop
  | .queueItem sessionId seqNum _ _ _ =>
    q.Accepts → sessionId ≠ "" → seqNum ≠ 0 →
      ∀ x ∈ q.accepted, ¬(x.sessionId = sessionId ∧ x.seqNum = seqNum)
  | _ => True

instance (q : QuickReorderQueue α) : (e : Event α) → Decidable (q.Unrepeated e)
  | .queueItem sessionId seqNum _ _ _ =>
    inferInstanceAs (Decidable (q.Accepts → sessionId ≠ "" → seqNum ≠ 0 →
      ∀ x ∈ q.accepted, ¬(x.sessionId = sessionId ∧ x.seqNum = seqNum)))
  | .onTimeout _ | .close | .receive => inferInstanceAs (Decidable True)

/-- The buffer holds later items of the newest session, each number once. -/
structure Orderly (q : QuickReorderQueue α) : Prop where
  newest : Newest q
  ahead : Ahead q
  nodup : (q.buffer.map QueuedItem.seqNum).Nodup

theorem Moves.nodup {q' : QuickReorderQueue α} {extra : List (QueuedItem α)}
    (h : Moves q extra q') (hnodup : ((q.buffer ++ extra).map QueuedItem.seqNum).Nodup) :
    (q'.buffer.map QueuedItem.seqNum).Nodup := by
  obtain ⟨items, -, hp⟩ := h
  have hall := (hp.map QueuedItem.seqNum).nodup_iff.mpr hnodup
  rw [List.map_append] at hall
  exact (List.nodup_append.mp hall).2.1

theorem Orderly.placeItem (h : Orderly q) (item : QueuedItem α)
    (hseen : item.sessionId = "" ∨ q.sessionOrder.has item.sessionId = true)
    (hfresh : item.sessionId = q.currentSessionId → item.sessionId ≠ "" → item.seqNum ≠ 0 →
      item.seqNum ∉ q.buffer.map QueuedItem.seqNum) :
    Orderly (placeItem sorter q item) where
  newest := placeItem_newest sorter h.newest item hseen
  ahead := placeItem_ahead sorter h.newest h.ahead h.nodup item hseen
  nodup := by
    have hfull : item.sessionId = q.currentSessionId → item.sessionId ≠ "" →
        item.seqNum ≠ 0 → ((q.buffer ++ [item]).map QueuedItem.seqNum).Nodup := by
      intro hs hnil hzero
      rw [List.map_append, List.map_singleton, List.nodup_append]
      refine ⟨h.nodup, by simp, ?_⟩
      intro a ha b hb hab
      rw [List.mem_singleton] at hb
      exact hfresh hs hnil hzero (hb ▸ hab ▸ ha)
    have hm := placeItem_moves sorter q item
    rcases placeItem_cases sorter h.newest item hseen with ⟨heq, -⟩ | ⟨hs, hnil, hzero, -⟩ |
      ⟨hs, hnil, hzero, -⟩
    · rw [heq]
      exact h.nodup
    all_goals exact hm.nodup (hfull hs hnil hzero)

theorem Orderly.step (hacc : Accounted q) (h : Orderly q) {e : Event α}
    (hclock : q.ClockAdvances e) (hrepeat : q.Unrepeated e) (hgap : q.StopsAtGap sorter e) :
    Orderly (q.step sorter e) := by
  cases e with
  | queueItem sessionId seqNum data ts now =>
    rcases queueItem_cases sorter q sessionId seqNum data ts now with hsame |
      ⟨hopen, hroom, hplaced⟩
    · rw [QuickReorderQueue.step, hsame]
      exact h
    · obtain ⟨hahead, hnodup⟩ :=
        ensureSessionTs_ahead sorter h.ahead h.nodup sessionId ts
      have hnewest := ensureSessionTs_newest sorter h.newest (hclock ⟨hopen, hroom⟩)
      have hplace := Orderly.placeItem sorter ⟨hnewest, hahead, hnodup⟩
        ⟨sessionId, seqNum, data, now⟩ (ensureSessionTs_seen sorter q sessionId ts).1
        (by intro hs hnil hzero hmem
            rcases ensureSessionTs_cases sorter q sessionId ts with ⟨hsame, -⟩ |
              ⟨-, -, -, -, -, hempty⟩
            · rw [hsame] at hs hmem
              obtain ⟨x, hx, hxs⟩ := List.mem_map.mp hmem
              have haccepted : x ∈ q.accepted :=
                hacc.placed.mem_iff.mp (List.mem_append_right _ hx)
              exact hrepeat ⟨hopen, hroom⟩ hnil hzero x haccepted
                ⟨(h.newest.own x hx).1.trans hs.symm, hxs⟩
            · rw [hempty] at hmem
              exact absurd hmem List.not_mem_nil)
      rw [QuickReorderQueue.step, hplaced]
      exact ⟨⟨hplace.newest.own, hplace.newest.older⟩, hplace.ahead, hplace.nodup⟩
  | onTimeout now =>
    refine ⟨h.newest.step sorter trivial, ?_,
      (onTimeout_moves sorter q now).nodup (by simpa using h.nodup)⟩
    rw [QuickReorderQueue.step]
    unfold onTimeout
    split
    · exact h.ahead
    next hopen =>
        split
        · exact h.ahead
        · have hgap' : GapAt sorter { q with timer := none } now := by
            rw [GapAt, highestTimedOutIdx_timer]
            exact hgap (by simpa using hopen)
          have hsend := sendTimedOutItems_ahead sorter
            (q := { q with timer := none }) ⟨h.newest.own, h.newest.older⟩ h.ahead h.nodup
            hgap'
          unfold rearm
          split
          · exact hsend
          · exact hsend
  | close =>
    obtain ⟨-, -, hnext, hb, -, -⟩ := close_frame q
    exact ⟨h.newest.step sorter trivial,
      by rw [QuickReorderQueue.step, Ahead, hb, hnext]; exact h.ahead,
      by rw [QuickReorderQueue.step, hb]; exact h.nodup⟩
  | receive =>
    obtain ⟨-, -, hnext, hb, -, -⟩ := receive_frame q
    exact ⟨h.newest.step sorter trivial,
      by rw [QuickReorderQueue.step, Ahead, hb, hnext]; exact h.ahead,
      by rw [QuickReorderQueue.step, hb]; exact h.nodup⟩

/-- **Nothing buffered is due.**  While the clock advances from session to session, no
number is accepted twice and no timeout stops right before the number it makes the
expected one, no buffered item carries the expected number. -/
theorem run_ahead (cap : Nat) (timeout : Int) (events : List (Event α))
    (hok : Runs.Guarded (step sorter)
      (fun q e => q.ClockAdvances e ∧ q.Unrepeated e ∧ q.StopsAtGap sorter e)
      (make cap timeout) events) :
    Ahead (Runs.run (step sorter) (make cap timeout) events) := by
  have hend := Runs.guarded_invariant (step sorter)
    (fun q => Accounted q ∧ Orderly q) _
    (by intro q e h hok
        exact ⟨h.1.step sorter e, h.2.step sorter h.1 hok.1 hok.2.1 hok.2.2⟩)
    ⟨make_accounted cap timeout, make_newest cap timeout, by simp [Ahead, make],
      by simp [make]⟩
    events hok
  exact hend.2.ahead

end Ahead

end QuickReorderQueue

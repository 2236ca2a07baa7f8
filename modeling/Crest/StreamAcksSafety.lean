import Crest.StreamAcks

/-!
# Acknowledgements and what was sent

While the window does not shrink, no more bytes are on the way than the window and the buffer
have, and the buffer's head is where the greatest accepted acknowledgement puts it.  An
acknowledgement that is not accepted leaves no trace, unless it is ahead of all that was sent.
-/

namespace JobManager

open StreamClient

namespace Job

section Bounds

variable {s : Job}

/-- What holds of the bytes on the way where the holder of the lock is. -/
def HolderBounded (s : Job) : Option Holder → Prop
  | none => True
  | some (.connectSize _ _) | some (.connectConsume _ _) | some (.connectHead _)
  | some (.connectFinish _ _) => s.sm.connected = false
  | some (.ackConsume ackPk ackedBytes) =>
    s.sm.connected = true ∧ (ackedBytes : Int) ≤ s.sm.sentNotAcked ∧
      ackPk.seq = s.sm.buf.headPos + ackedBytes
  | some (.ackFinish _ _) | some (.peek _) => s.sm.connected = true
  | some (.packet data) =>
    s.sm.connected = true ∧ s.sm.sentNotAcked + data.length ≤ s.sm.buf.count

/-- The bytes on the way are in the buffer. -/
structure Bounded (s : Job) : Prop where
  nonneg : 0 ≤ s.sm.sentNotAcked
  le_count : s.sm.sentNotAcked ≤ s.sm.buf.count
  idle : s.sm.connected = false → s.sm.sentNotAcked = 0
  sync : s.sm.connected = true → s.sm.buf.syncMode = true
  holder : s.HolderBounded s.holder

theorem Bounded.of {s' : Job} (h : s.Bounded)
    (hconnected : s'.sm.connected = s.sm.connected)
    (hsent : s'.sm.sentNotAcked = s.sm.sentNotAcked) (hbuf : s'.sm.buf = s.sm.buf)
    (hholder : s'.HolderBounded s'.holder) :
    s'.Bounded := by
  refine ⟨?_, ?_, ?_, ?_, hholder⟩
  · rw [hsent]
    exact h.nonneg
  · rw [hsent, hbuf]
    exact h.le_count
  · rw [hsent, hconnected]
    exact h.idle
  · rw [hbuf, hconnected]
    exact h.sync

theorem HolderBounded.of {s' : Job} {holder : Option Holder} (h : s.HolderBounded holder)
    (hconnected : s'.sm.connected = s.sm.connected)
    (hsent : s'.sm.sentNotAcked = s.sm.sentNotAcked)
    (hhead : s.sm.connected = true → s'.sm.buf.headPos = s.sm.buf.headPos)
    (hcount : s.sm.buf.count ≤ s'.sm.buf.count) :
    s'.HolderBounded holder := by
  cases holder with
  | none => trivial
  | some holder =>
    cases holder with
    | connectSize _ _ | connectConsume _ _ | connectHead _ | connectFinish _ _ | ackFinish _ _
    | peek _ => exact hconnected.trans h
    | ackConsume ackPk ackedBytes =>
      obtain ⟨hon, hle, hseq⟩ := h
      refine ⟨hconnected.trans hon, ?_, ?_⟩
      · rw [hsent]
        exact hle
      · rw [hhead hon]
        exact hseq
    | packet data =>
      obtain ⟨hon, hle⟩ := h
      refine ⟨hconnected.trans hon, ?_⟩
      rw [hsent]
      omega

theorem Bounded.buffer {s' : Job} (h : s.Bounded)
    (hconnected : s'.sm.connected = s.sm.connected)
    (hsent : s'.sm.sentNotAcked = s.sm.sentNotAcked)
    (hhead : s.sm.connected = true → s'.sm.buf.headPos = s.sm.buf.headPos)
    (hcount : s.sm.buf.count ≤ s'.sm.buf.count)
    (hsync : s.sm.connected = true → s'.sm.buf.syncMode = true)
    (hholder : s'.holder = s.holder ∨ s'.holder = none) :
    s'.Bounded := by
  have hle := h.le_count
  refine ⟨?_, by omega, ?_, ?_, ?_⟩
  · rw [hsent]
    exact h.nonneg
  · rw [hsent, hconnected]
    exact h.idle
  · rw [hconnected]
    exact hsync
  · rcases hholder with hholder | hholder
    · rw [hholder]
      exact h.holder.of hconnected hsent hhead hcount
    · rw [hholder]
      trivial

theorem bounded_of_left (hoff : s.sm.connected = false) (hsent : s.sm.sentNotAcked = 0)
    (hfree : s.holder = none) :
    s.Bounded := by
  refine ⟨by omega, by omega, fun _ => hsent, ?_, ?_⟩
  · intro hon
    exact absurd (hoff.symm.trans hon) Bool.false_ne_true
  · rw [hfree]
    trivial

theorem Bounded.clientDisconnected (h : s.Bounded) (hfree : s.holder = none) :
    s.clientDisconnected.Bounded := by
  unfold Job.clientDisconnected
  split_ifs with hoff
  · exact h
  · refine bounded_of_left ?_ ?_ ?_
    · rw [sm_signal]
    · rw [sm_signal]
    · rw [holder_signal]
      exact hfree

theorem bounded_initial (cwndSize : Int) (cirbufSize : Nat) :
    (initial cwndSize cirbufSize).Bounded where
  nonneg := le_refl _
  le_count := le_refl _
  idle := fun _ => rfl
  sync := fun _ => rfl
  holder := trivial

theorem Bounded.proceed (h : s.Bounded) {holder : Holder}
    (hholder : s.holder = some holder) :
    (s.proceed holder).Bounded := by
  have hheld := h.holder
  rw [hholder] at hheld
  have hnonneg := h.nonneg
  have hle := h.le_count
  cases holder with
  | connectSize req headPos =>
    simp only [Job.proceed]
    split_ifs
    · exact h.of rfl rfl rfl trivial
    · exact h.of rfl rfl rfl hheld
  | connectConsume req bytesToConsume =>
    simp only [Job.proceed]
    cases hconsume : s.sm.buf.consume bytesToConsume with
    | none => exact h.of rfl rfl rfl trivial
    | some buf =>
      have hidle := h.idle hheld
      refine ⟨hnonneg, ?_, h.idle, ?_, hheld⟩
      · show s.sm.sentNotAcked ≤ buf.count
        omega
      · intro hon
        exact absurd (hheld.symm.trans hon) Bool.false_ne_true
  | connectHead req => exact h.of rfl rfl rfl hheld
  | connectFinish req headPos =>
    refine ⟨le_refl _, ?_, fun _ => rfl, fun _ => rfl, trivial⟩
    show (0 : Int) ≤ s.sm.buf.count
    omega
  | ackConsume ackPk ackedBytes =>
    obtain ⟨hon, hsent, hseq⟩ := hheld
    simp only [Job.proceed]
    cases hconsume : s.sm.buf.consume ackedBytes with
    | none => exact h.of rfl rfl rfl trivial
    | some buf =>
      obtain ⟨-, hcount, hfits, hmode⟩ := CirBuf.consume_keeps hconsume
      refine ⟨?_, ?_, ?_, ?_, hon⟩
      · show 0 ≤ s.sm.sentNotAcked - ackedBytes
        omega
      · show s.sm.sentNotAcked - ackedBytes ≤ buf.count
        omega
      · intro hoff
        exact absurd (hon.symm.trans hoff) (by decide)
      · intro _
        exact hmode.trans (h.sync hon)
  | ackFinish ackPk ackedBytes =>
    simp only [Job.proceed]
    split_ifs
    all_goals exact h.buffer rfl rfl (fun _ => rfl) (le_refl _) (fun _ => rfl) (.inr rfl)
  | peek peekSize =>
    simp only [Job.proceed]
    split_ifs with hempty
    · exact h.of rfl rfl rfl trivial
    · refine h.of rfl rfl rfl ⟨hheld, ?_⟩
      have hbound := (CirBuf.length_peekDataAt s.sm.buf s.sm.sentNotAcked.toNat peekSize).2 hempty
      show s.sm.sentNotAcked + _ ≤ (s.sm.buf.count : Int)
      omega
  | packet data =>
    obtain ⟨hon, hfits⟩ := hheld
    refine ⟨?_, ?_, ?_, h.sync, trivial⟩
    · show 0 ≤ s.sm.sentNotAcked + data.length
      omega
    · exact hfits
    · intro hoff
      exact absurd (hon.symm.trans hoff) (by decide)

/-- **The bytes on the way stay in the buffer.** -/
theorem Bounded.step (h : s.Bounded) (e : Event) : (s.step e).Bounded := by
  cases e with
  | ptyRead _ | signal | ptyEnd _ | close | sent =>
    simp only [Job.step]
    split_ifs
    · exact h.of rfl rfl rfl h.holder
    · exact h
  | write =>
    simp only [Job.step]
    split_ifs
    · exact h
    · obtain ⟨hmode, hcount, hhead⟩ := CirBuf.writeAvailable_keeps s.sm.buf s.unwritten
      exact h.buffer rfl rfl (fun hon => hhead (h.sync hon)) hcount
        (fun hon => hmode.trans (h.sync hon)) (.inl rfl)
  | connect req =>
    simp only [Job.step, Job.connect]
    split_ifs with hfree hdone hon hsender hlater
    iterate 3 · exact h
    iterate 2 · exact h.of rfl rfl rfl (Bool.eq_false_of_not_eq_true hon)
    · exact h
  | recvAck ackPk =>
    simp only [Job.step]
    split_ifs with hfree
    · by_cases hconcerns : s.Concerns ackPk
      · rw [recvAck_eq hconcerns]
        split_ifs with hstale
        · exact h.of rfl rfl rfl h.holder
        · refine h.of rfl rfl rfl ?_
          show HolderBounded _ (s.answered ackPk)
          simp only [answered]
          split_ifs with hrejects hmore
          · exact h.holder
          · obtain ⟨hbehind, hahead⟩ := not_or.mp hrejects
            refine ⟨hconcerns.1, ?_, ?_⟩
            · show ((ackPk.seq - s.sm.buf.headPos).toNat : Int) ≤ s.sm.sentNotAcked
              omega
            · show ackPk.seq = s.sm.buf.headPos + (ackPk.seq - s.sm.buf.headPos).toNat
              omega
          · exact hconcerns.1
      · rw [recvAck_other hconcerns]
        split_ifs
        · exact h.of rfl rfl rfl h.holder
        · exact h
    · exact h
  | setRwndSize rwndSize =>
    simp only [Job.step, Job.setRwndSize]
    split_ifs
    · exact h
    · exact h
    · exact h.buffer rfl rfl (fun _ => rfl) (le_refl _) (fun _ => rfl) (.inl rfl)
    · exact h
  | disconnect =>
    simp only [Job.step]
    split_ifs with hfree
    · exact h.clientDisconnected hfree
    · exact h
  | prepare =>
    simp only [Job.step]
    split_ifs with hready
    · obtain heq | heq | ⟨event, heq⟩ | ⟨peekSize, heq, hon, -⟩ := prepareNextPacket_cases s
        <;> rw [heq]
      · exact h.of rfl rfl rfl h.holder
      iterate 2 · exact h.of rfl rfl rfl trivial
      · exact h.of rfl rfl rfl hon
    · exact h
  | proceed =>
    simp only [Job.step]
    cases hholder : s.holder with
    | none => exact h
    | some holder => exact h.proceed hholder

end Bounds

section Window

variable {s : Job}

/-- Nobody is preparing a packet. -/
def Quiet (holder : Option Holder) : Prop :=
  (∀ peekSize, holder ≠ some (.peek peekSize)) ∧ ∀ data, holder ≠ some (.packet data)

/-- The window has room for the bytes on the way, and for the packet that is prepared. -/
structure Windowed (s : Job) : Prop where
  sent : s.sm.sentNotAcked ≤ s.window
  peek : ∀ peekSize, s.holder = some (.peek peekSize) →
    s.sm.sentNotAcked + peekSize ≤ s.window
  packet : ∀ data, s.holder = some (.packet data) →
    s.sm.sentNotAcked + data.length ≤ s.window

/-- While a client is connected the window does not shrink. -/
def Steady (s : Job) (e : Event) : Prop :=
  s.window ≤ (s.step e).window ∨ (s.sm.connected = false ∧ 0 ≤ (s.step e).window)

instance (s : Job) (e : Event) : Decidable (s.Steady e) := inferInstanceAs (Decidable (_ ∨ _))

/-- What a step does to the bytes on the way. -/
inductive Moves (s t : Job) : Prop
  | same (hsent : t.sm.sentNotAcked = s.sm.sentNotAcked) (hholder : t.holder = s.holder)
  | quiet (hsent : t.sm.sentNotAcked ≤ s.sm.sentNotAcked) (hholder : Quiet t.holder)
  | prepares (peekSize : Nat) (hsent : t.sm.sentNotAcked = s.sm.sentNotAcked)
      (hholder : t.holder = some (.peek peekSize)) (hon : s.sm.connected = true)
      (hfits : (peekSize : Int) ≤ s.window - s.sm.sentNotAcked)
  | reads (peekSize : Nat) (data : List UInt8) (hsent : t.sm.sentNotAcked = s.sm.sentNotAcked)
      (hbefore : s.holder = some (.peek peekSize)) (hholder : t.holder = some (.packet data))
      (hfits : data.length ≤ peekSize)
  | sends (data : List UInt8) (hsent : t.sm.sentNotAcked = s.sm.sentNotAcked + data.length)
      (hbefore : s.holder = some (.packet data)) (hholder : Quiet t.holder)

theorem quiet_none : Quiet none := ⟨by rintro _ ⟨⟩, by rintro _ ⟨⟩⟩

theorem moves_proceed (h : s.Bounded) {holder : Holder} (hholder : s.holder = some holder) :
    s.Moves (s.proceed holder) := by
  have hnonneg := h.nonneg
  cases holder with
  | connectSize req headPos =>
    simp only [proceed]
    split_ifs
    · exact .quiet (le_refl _) quiet_none
    · exact .quiet (le_refl _) ⟨by rintro _ ⟨⟩, by rintro _ ⟨⟩⟩
  | connectConsume req bytesToConsume =>
    simp only [proceed]
    cases s.sm.buf.consume bytesToConsume with
    | none => exact .quiet (le_refl _) quiet_none
    | some buf => exact .quiet (le_refl _) ⟨by rintro _ ⟨⟩, by rintro _ ⟨⟩⟩
  | connectHead req => exact .quiet (le_refl _) ⟨by rintro _ ⟨⟩, by rintro _ ⟨⟩⟩
  | connectFinish req headPos => exact .quiet hnonneg quiet_none
  | ackConsume ackPk ackedBytes =>
    simp only [proceed]
    cases s.sm.buf.consume ackedBytes with
    | none => exact .quiet (le_refl _) quiet_none
    | some buf =>
      refine .quiet ?_ ⟨by rintro _ ⟨⟩, by rintro _ ⟨⟩⟩
      show s.sm.sentNotAcked - ackedBytes ≤ s.sm.sentNotAcked
      omega
  | ackFinish ackPk ackedBytes =>
    simp only [proceed]
    split_ifs <;> exact .quiet (le_refl _) quiet_none
  | peek peekSize =>
    simp only [proceed]
    split_ifs
    · exact .quiet (le_refl _) quiet_none
    · exact .reads peekSize _ rfl hholder rfl (CirBuf.length_peekDataAt _ _ _).1
  | packet data => exact .sends data rfl hholder quiet_none

theorem moves_step (h : s.Bounded) (e : Event) : s.Moves (s.step e) := by
  cases e with
  | ptyRead _ | write | signal | ptyEnd _ | close | sent =>
    simp only [step]
    split_ifs <;> exact .same rfl rfl
  | connect req =>
    simp only [step, connect]
    split_ifs
    iterate 3 · exact .same rfl rfl
    iterate 2 · exact .quiet (le_refl _) ⟨by rintro _ ⟨⟩, by rintro _ ⟨⟩⟩
    · exact .same rfl rfl
  | recvAck ackPk =>
    simp only [step]
    split_ifs with hfree
    · by_cases hconcerns : s.Concerns ackPk
      · rw [recvAck_eq hconcerns]
        split_ifs
        · exact .same rfl rfl
        · refine .quiet (le_refl _) ?_
          show Quiet (s.answered ackPk)
          simp only [answered]
          split_ifs
          · rw [hfree]
            exact quiet_none
          iterate 2 · exact ⟨by rintro _ ⟨⟩, by rintro _ ⟨⟩⟩
      · rw [recvAck_other hconcerns]
        split_ifs <;> exact .same rfl rfl
    · exact .same rfl rfl
  | setRwndSize rwndSize =>
    simp only [step, setRwndSize]
    split_ifs <;> exact .same rfl rfl
  | disconnect =>
    simp only [step]
    split_ifs with hfree
    · refine .quiet ?_ ?_
      · unfold clientDisconnected
        split_ifs
        · exact le_refl _
        · rw [sm_signal]
          exact h.nonneg
      · have hsame : s.clientDisconnected.holder = s.holder := by
          unfold clientDisconnected
          split_ifs
          · rfl
          · rw [holder_signal]
        rw [hsame, hfree]
        exact quiet_none
    · exact .same rfl rfl
  | prepare =>
    simp only [step]
    split_ifs
    · obtain heq | heq | ⟨event, heq⟩ | ⟨peekSize, heq, hon, hfits⟩ := prepareNextPacket_cases s
        <;> rw [heq]
      · exact .same rfl rfl
      iterate 2 · exact .quiet (le_refl _) quiet_none
      · exact .prepares peekSize rfl rfl hon hfits
    · exact .same rfl rfl
  | proceed =>
    simp only [step]
    cases hholder : s.holder with
    | none => exact .same rfl rfl
    | some holder => exact moves_proceed h hholder

/-- **The window keeps room for the bytes on the way**, while it does not shrink. -/
theorem Windowed.step (h : s.Windowed) (hbounded : s.Bounded) {e : Event}
    (hsteady : s.Steady e) :
    (s.step e).Windowed := by
  have hnonneg := hbounded.nonneg
  have hsent := h.sent
  have hroom : s.sm.sentNotAcked ≤ (s.step e).window := by
    rcases hsteady with hgrows | ⟨hoff, hwindow⟩
    · omega
    · have hidle := hbounded.idle hoff
      omega
  have hgrows : s.sm.connected = true → s.window ≤ (s.step e).window := by
    intro hon
    rcases hsteady with hgrows | ⟨hoff, -⟩
    · exact hgrows
    · exact absurd (hoff.symm.trans hon) Bool.false_ne_true
  have hheld := hbounded.holder
  cases moves_step hbounded e with
  | same hsame hholder =>
    refine ⟨by omega, ?_, ?_⟩
    · intro peekSize hpeek
      rw [hholder] at hpeek
      rw [hpeek] at hheld
      have hfits := h.peek peekSize hpeek
      have hwindow := hgrows hheld
      omega
    · intro data hpacket
      rw [hholder] at hpacket
      rw [hpacket] at hheld
      have hfits := h.packet data hpacket
      have hwindow := hgrows hheld.1
      omega
  | quiet hless hholder =>
    exact ⟨by omega, fun _ hpeek => absurd hpeek (hholder.1 _),
      fun _ hpacket => absurd hpacket (hholder.2 _)⟩
  | prepares peekSize hsame hholder hon hfits =>
    have hwindow := hgrows hon
    refine ⟨by omega, ?_, ?_⟩
    · intro other hpeek
      rw [hholder] at hpeek
      cases hpeek
      omega
    · intro data hpacket
      rw [hholder] at hpacket
      cases hpacket
  | reads peekSize data hsame hbefore hholder hfits =>
    rw [hbefore] at hheld
    have hread := h.peek peekSize hbefore
    have hwindow := hgrows hheld
    refine ⟨by omega, ?_, ?_⟩
    · intro other hpeek
      rw [hholder] at hpeek
      cases hpeek
    · intro other hpacket
      rw [hholder] at hpacket
      cases hpacket
      omega
  | sends data hmore hbefore hholder =>
    rw [hbefore] at hheld
    have hfits := h.packet data hbefore
    have hwindow := hgrows hheld.1
    exact ⟨by omega, fun _ hpeek => absurd hpeek (hholder.1 _),
      fun _ hpacket => absurd hpacket (hholder.2 _)⟩

end Window

section Head

variable {s : Job}

theorem le_foldl_max (l : List Int) (a : Int) :
    a ≤ l.foldl max a ∧ ∀ b ∈ l, b ≤ l.foldl max a := by
  induction l generalizing a with
  | nil => exact ⟨le_refl _, fun _ h => absurd h List.not_mem_nil⟩
  | cons c l ih =>
    obtain ⟨hstart, hrest⟩ := ih (max a c)
    refine ⟨le_trans (le_max_left a c) hstart, ?_⟩
    intro b hb
    rcases List.mem_cons.mp hb with rfl | hb
    · exact le_trans (le_max_right a b) hstart
    · exact hrest b hb

theorem foldl_max_mem (l : List Int) (a : Int) : l.foldl max a = a ∨ l.foldl max a ∈ l := by
  induction l generalizing a with
  | nil => exact .inl rfl
  | cons c l ih =>
    rcases ih (max a c) with hstart | hlater
    · rw [List.foldl_cons, hstart]
      rcases max_choice a c with hleft | hright
      · exact .inl hleft
      · exact .inr (by rw [hright]; exact List.mem_cons_self)
    · exact .inr (List.mem_cons_of_mem _ hlater)

/-- Where the head is once `RecvAck` has consumed. -/
def aim (s : Job) : Int :=
  match s.holder with
  | some (.ackConsume ackPk _) => ackPk.seq
  | _ => s.sm.buf.headPos

theorem aim_of_free (hfree : s.holder = none) : s.aim = s.sm.buf.headPos := by
  rw [aim, hfree]

theorem aim_congr {t : Job} (hholder : t.holder = s.holder)
    (hhead : t.sm.buf.headPos = s.sm.buf.headPos) :
    t.aim = s.aim := by
  rw [aim, aim, hholder, hhead]

theorem aim_proceed (h : s.Bounded) (hon : s.sm.connected = true) {holder : Holder}
    (hholder : s.holder = some holder) :
    (s.proceed holder).sm.connected = true ∧ (s.proceed holder).aim = s.aim := by
  have hheld := h.holder
  rw [hholder] at hheld
  have hle := h.le_count
  have haim : s.aim = match some holder with
      | some (.ackConsume ackPk _) => ackPk.seq
      | _ => s.sm.buf.headPos := by
    rw [aim, hholder]
  rw [haim]
  cases holder with
  | connectSize _ _ | connectConsume _ _ | connectHead _ | connectFinish _ _ =>
    exact absurd (hheld.symm.trans hon) Bool.false_ne_true
  | ackConsume ackPk ackedBytes =>
    obtain ⟨-, hsent, hseq⟩ := hheld
    simp only [proceed]
    cases hconsume : s.sm.buf.consume ackedBytes with
    | none =>
      -- there are as many bytes as are on the way
      unfold CirBuf.consume at hconsume
      rw [if_neg (by omega)] at hconsume
      cases hconsume
    | some buf =>
      have hhead := (CirBuf.consume_keeps hconsume).1
      refine ⟨hon, ?_⟩
      show buf.headPos = ackPk.seq
      omega
  | ackFinish _ _ | peek _ =>
    simp only [proceed]
    split_ifs <;> exact ⟨hon, rfl⟩
  | packet data => exact ⟨hon, rfl⟩

/-- **A step puts the head where the greatest accepted acknowledgement is.** -/
theorem aim_step (h : s.Bounded) (hon : s.sm.connected = true) {e : Event}
    (hstays : e ≠ .disconnect) :
    (s.step e).sm.connected = true ∧ (s.step e).aim = (s.acceptedSeqs [e]).foldl max s.aim := by
  cases e with
  | ptyRead _ | signal | ptyEnd _ | close | sent =>
    simp only [step]
    split_ifs <;> exact ⟨hon, rfl⟩
  | write =>
    simp only [step]
    split_ifs
    · exact ⟨hon, rfl⟩
    · exact ⟨hon, aim_congr rfl
        ((CirBuf.writeAvailable_keeps s.sm.buf s.unwritten).2.2 (h.sync hon))⟩
  | connect req =>
    have hsame : s.step (.connect req) = s := by
      simp only [step, connect, hon, if_true]
      split_ifs <;> rfl
    rw [hsame]
    exact ⟨hon, rfl⟩
  | recvAck ackPk =>
    have hsingle : s.acceptedSeqs [.recvAck ackPk] =
        if s.Accepts ackPk then [ackPk.seq] else [] := List.append_nil _
    rw [hsingle]
    simp only [step]
    by_cases hfree : s.holder = none
    · rw [if_pos hfree]
      by_cases hconcerns : s.Concerns ackPk
      · rw [recvAck_eq hconcerns]
        by_cases hstale : s.Stale ackPk
        · have hno : ¬ s.Accepts ackPk := fun haccepts => haccepts.2.2.1 hstale
          rw [if_pos hstale, if_neg hno]
          exact ⟨hon, rfl⟩
        · rw [if_neg hstale]
          refine ⟨hon, ?_⟩
          by_cases hrejects : s.Rejects ackPk
          · have hno : ¬ s.Accepts ackPk := fun haccepts => haccepts.2.2.2 hrejects
            rw [if_neg hno, answered, if_pos hrejects]
            rfl
          · have hyes : s.Accepts ackPk := ⟨hfree, hconcerns, hstale, hrejects⟩
            obtain ⟨hbehind, hahead⟩ := not_or.mp hrejects
            rw [if_pos hyes, answered, if_neg hrejects, aim_of_free hfree]
            show aim _ = max s.sm.buf.headPos ackPk.seq
            split_ifs with hmore
            · show ackPk.seq = max s.sm.buf.headPos ackPk.seq
              omega
            · show s.sm.buf.headPos = max s.sm.buf.headPos ackPk.seq
              omega
      · have hno : ¬ s.Accepts ackPk := fun haccepts => hconcerns haccepts.2.1
        rw [recvAck_other hconcerns, if_neg hno]
        split_ifs <;> exact ⟨hon, rfl⟩
    · have hno : ¬ s.Accepts ackPk := fun haccepts => hfree haccepts.1
      rw [if_neg hfree, if_neg hno]
      exact ⟨hon, rfl⟩
  | setRwndSize rwndSize =>
    simp only [step, setRwndSize]
    split_ifs <;> exact ⟨hon, rfl⟩
  | disconnect => exact absurd rfl hstays
  | prepare =>
    simp only [step]
    split_ifs with hready
    · have hidle : s.aim = s.sm.buf.headPos := aim_of_free hready.1
      obtain heq | heq | ⟨event, heq⟩ | ⟨peekSize, heq, -, -⟩ := prepareNextPacket_cases s
        <;> rw [heq]
      · exact ⟨hon, rfl⟩
      iterate 3 · exact ⟨hon, hidle.symm⟩
    · exact ⟨hon, rfl⟩
  | proceed =>
    simp only [step]
    cases hholder : s.holder with
    | none => exact ⟨hon, rfl⟩
    | some holder => exact aim_proceed h hon hholder

theorem acceptedSeqs_cons (s : Job) (e : Event) (es : List Event) :
    s.acceptedSeqs (e :: es) = s.acceptedSeqs [e] ++ (s.step e).acceptedSeqs es := by
  simp only [acceptedSeqs, List.append_nil]

theorem aim_run (h : s.Bounded) (hon : s.sm.connected = true) {es : List Event}
    (hstays : .disconnect ∉ es) :
    (Runs.run step s es).aim = (s.acceptedSeqs es).foldl max s.aim := by
  induction es generalizing s with
  | nil => rfl
  | cons e es ih =>
    obtain ⟨hfirst, hrest⟩ := not_or.mp (mt List.mem_cons.mpr hstays)
    obtain ⟨hon', haim⟩ := aim_step h hon (Ne.symm hfirst)
    rw [acceptedSeqs_cons, List.foldl_append, ← haim]
    exact ih (h.step e) hon' hrest

theorem aim_le_of_accepted (h : s.Bounded) (hon : s.sm.connected = true) {es : List Event}
    (hstays : .disconnect ∉ es) {seq : Int} (haccepted : seq ∈ s.acceptedSeqs es) :
    s.aim ≤ seq := by
  induction es generalizing s with
  | nil => cases haccepted
  | cons e es ih =>
    obtain ⟨hfirst, hrest⟩ := not_or.mp (mt List.mem_cons.mpr hstays)
    obtain ⟨hon', haim⟩ := aim_step h hon (Ne.symm hfirst)
    have hgrows : s.aim ≤ (s.step e).aim := by
      rw [haim]
      exact (le_foldl_max _ _).1
    rw [acceptedSeqs_cons, List.mem_append] at haccepted
    rcases haccepted with hnow | hlater
    · cases e with
      | recvAck ackPk =>
        simp only [acceptedSeqs, List.append_nil] at hnow
        split_ifs at hnow with haccepts
        · rw [List.mem_singleton.mp hnow, aim_of_free haccepts.1]
          have hin := (not_or.mp haccepts.2.2.2).1
          omega
        · cases hnow
      | _ => cases hnow
    · exact le_trans hgrows (ih (h.step e) hon' hrest hlater)

/-- What clients may rely on when they acknowledge. -/
structure AcksHarmless (s : Job) : Prop where
  /-- An acknowledgement that is rejected, and does not mislead, leaves no trace. -/
  ignored : ∀ ackPk, s.holder = none → ackPk.fin = false → s.Rejects ackPk → ¬ s.Misleads ackPk →
    ∀ continuation,
      (Runs.run step (s.step (.recvAck ackPk)) continuation).visible =
        (Runs.run step s continuation).visible
  /-- While the client stays the head is at the greatest accepted acknowledgement. -/
  head : s.sm.connected = true → s.holder = none → ∀ continuation, .disconnect ∉ continuation →
    (Runs.run step s continuation).holder = none →
      (s.acceptedSeqs continuation = [] →
        (Runs.run step s continuation).sm.buf.headPos = s.sm.buf.headPos) ∧
      (s.acceptedSeqs continuation ≠ [] →
        (Runs.run step s continuation).sm.buf.headPos ∈ s.acceptedSeqs continuation ∧
          ∀ seq ∈ s.acceptedSeqs continuation,
            seq ≤ (Runs.run step s continuation).sm.buf.headPos)
  sent_nonneg : 0 ≤ s.sm.sentNotAcked
  sent_le : s.sm.sentNotAcked ≤ s.sm.buf.count

theorem alike_of_rejected {ackPk : CommandStreamAckData} (hfree : s.holder = none)
    (hfin : ackPk.fin = false) (hrejects : s.Rejects ackPk) (hmisleads : ¬ s.Misleads ackPk) :
    s.Alike (s.step (.recvAck ackPk)) := by
  have hstep : s.step (.recvAck ackPk) = s.recvAck ackPk := if_pos hfree
  rw [hstep]
  by_cases hconcerns : s.Concerns ackPk
  · rw [recvAck_eq hconcerns]
    by_cases hstale : s.Stale ackPk
    · rw [if_pos hstale]
      exact ⟨s.same_heard ackPk s.maxAcked, .inl rfl⟩
    · have hbehind : ackPk.seq < s.sm.buf.headPos := by
        refine hrejects.resolve_right ?_
        intro hahead
        exact hmisleads ⟨hconcerns, hstale, hahead⟩
      have hheld : s.answered ackPk = s.holder := if_pos hrejects
      rw [if_neg hstale, hheld]
      refine ⟨s.same_heard ackPk (ackPk.seq, ackPk.rwnd), .inr ⟨?_, hbehind⟩⟩
      have hnotLess := (not_or.mp hstale).1
      omega
  · have hother : ¬ (s.sm.connected = true ∧ ackPk.id = s.sm.streamId) :=
      fun hours => hconcerns ⟨hours.1, hours.2, hfin⟩
    rw [recvAck_other hconcerns, if_neg hother]
    exact ⟨⟨_, _, s.current, s.past, s.acked, rfl, rfl, rfl⟩, .inl rfl⟩

theorem Bounded.acksHarmless (h : s.Bounded) : s.AcksHarmless where
  ignored := by
    intro ackPk hfree hfin hrejects hmisleads continuation
    exact ((alike_of_rejected hfree hfin hrejects hmisleads).run continuation).same.visible
  head := by
    intro hon hfree continuation hstays hdone
    have haim := aim_run h hon hstays
    rw [aim_of_free hfree, aim_of_free hdone] at haim
    refine ⟨?_, ?_⟩
    · intro hnone
      rw [haim, hnone]
      rfl
    · intro hsome
      have hmost := (le_foldl_max (s.acceptedSeqs continuation) s.sm.buf.headPos).2
      rw [haim]
      refine ⟨?_, hmost⟩
      rcases foldl_max_mem (s.acceptedSeqs continuation) s.sm.buf.headPos with hsame | hmem
      · -- what is accepted is not behind the head, so it is at the head
        obtain ⟨seq, rest, hlist⟩ := List.exists_cons_of_ne_nil hsome
        have hmem : seq ∈ s.acceptedSeqs continuation := by
          rw [hlist]
          exact List.mem_cons_self
        have hle := aim_le_of_accepted h hon hstays hmem
        have hge := hmost seq hmem
        rw [aim_of_free hfree] at hle
        rw [hsame] at hge ⊢
        rw [le_antisymm hle hge]
        exact hmem
      · exact hmem
  sent_nonneg := h.nonneg
  sent_le := h.le_count

/-- **What the code does with acknowledgements in every state it reaches**: only one that is
ahead of all that was sent can do harm, and while the window does not shrink it has room for
what is on the way. -/
theorem acks_harmless
    {cwndSize : Int} (hcwnd : 0 ≤ cwndSize) (cirbufSize : Nat) (es : List Event) :
    (Runs.run step (initial cwndSize cirbufSize) es).AcksHarmless ∧
      (Runs.Guarded step Steady (initial cwndSize cirbufSize) es →
        (Runs.run step (initial cwndSize cirbufSize) es).sm.sentNotAcked ≤
          (Runs.run step (initial cwndSize cirbufSize) es).window) := by
  refine ⟨?_, ?_⟩
  · exact (Runs.run_invariant step Bounded (fun _ e h => h.step e)
      (bounded_initial cwndSize cirbufSize) es).acksHarmless
  · intro hsteady
    have hstart : (initial cwndSize cirbufSize).Windowed := by
      refine ⟨?_, fun _ hpeek => (by cases hpeek), fun _ hpacket => (by cases hpacket)⟩
      show (0 : Int) ≤ StreamManager.effectiveWindow cwndSize cwndSize
      simp only [StreamManager.effectiveWindow, lt_self_iff_false, if_false]
      exact hcwnd
    exact (Runs.guarded_invariant step (fun s => s.Bounded ∧ s.Windowed) Steady
      (fun s e h hok => ⟨h.1.step e, h.2.step h.1 hok⟩)
      ⟨bounded_initial cwndSize cirbufSize, hstart⟩ es hsteady).2.sent

/-- A client gets three bytes. -/
def threeSent : List Event :=
  [.connect { streamId := "s1", rwndSize := 4, clientSeq := 0 }, .proceed, .ptyRead [1, 2, 3],
    .write, .signal, .prepare, .proceed, .proceed, .sent]

theorem acks_harmless_threeSent :
    (Runs.run step (initial 4 4) threeSent).AcksHarmless ∧
      (Runs.Guarded step Steady (initial 4 4) threeSent →
        (Runs.run step (initial 4 4) threeSent).sm.sentNotAcked ≤
          (Runs.run step (initial 4 4) threeSent).window) :=
  acks_harmless (by decide) 4 threeSent

/-- The client acknowledges what it has got. -/
def thenAcked : List Event :=
  [.recvAck { id := "s1", seq := 3, rwnd := 4 }, .proceed, .proceed]

/-- **An acknowledgement that is ahead of all that was sent is not accepted, and makes the
manager ignore the next one.** -/
theorem ack_ahead_harms :
    (Runs.run step (initial 4 4) threeSent).holder = none ∧
      (Runs.run step (initial 4 4) threeSent).Rejects { id := "s1", seq := 100, rwnd := 4 } ∧
      (Runs.run step (Runs.run step (initial 4 4) threeSent) thenAcked).sm.buf.headPos = 3 ∧
      (Runs.run step ((Runs.run step (initial 4 4) threeSent).step
        (.recvAck { id := "s1", seq := 100, rwnd := 4 })) thenAcked).sm.buf.headPos = 0 := by
  decide +kernel

end Head

end Job

end JobManager

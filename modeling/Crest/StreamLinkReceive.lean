import Crest.StreamLinkPackets

/-!
# What the reader does with a packet

A reader that waits for the rest of a row gets one of its packets, or the packet that
ends the stream.  It ignores it, breaks off, keeps it for later, or moves on: then it
takes packets from the front of the rest, as many as it has, and acknowledges once.
-/

namespace StreamClient

open Base64

namespace Reader

variable {id : String} {last : Int} {pending : List CommandStreamData}

variable {pk : CommandStreamData}

theorem recvDataOrderedLocked_data (r : Reader) (hpk : DataPacket id pk) :
    r.recvDataOrderedLocked pk =
      ({ r with
          buffer := r.buffer ++ payload pk
          nextSeq := r.nextSeq + (payload pk).length }, []) := by
  obtain ⟨hne, hdecode⟩ := hpk.decode
  simp [recvDataOrderedLocked, hne, hdecode, hpk.eof_eq]

theorem recvDataOrderedLocked_closing (r : Reader) (hpk : ClosingPacket id last pk) :
    r.recvDataOrderedLocked pk = ({ r with eof := r.eof || pk.eof }, []) := by
  simp [recvDataOrderedLocked, hpk.data_eq]

/-- What the reader has after it took packets: the bytes, the position, and what it
says about the end and about packets that are still early. -/
def took (r : Reader) (taken ooo : List CommandStreamData) (eof : Bool) : Reader :=
  { r with
    buffer := r.buffer ++ payloads taken
    nextSeq := r.nextSeq + (payloads taken).length
    eof := eof
    oooPackets := ooo }

/-- How a reader moves on through what it waits for: `taken` is taken, `rest` is still
to come, and `waiting` were the early packets. -/
structure MovesOn
    (id : String) (last : Int) (r : Reader)
    (waiting taken rest ooo : List CommandStreamData) (eof : Bool) : Prop where
  early : ∀ pk ∈ ooo, pk ∈ waiting ∧ r.nextSeq + (payloads taken).length < pk.seq
  distinct : ooo.Pairwise fun left right => left.seq ≠ right.seq
  ended : eof = true → rest = [] ∧ ∃ pk ∈ waiting, ClosingPacket id last pk ∧ pk.eof = true
  kept : eof = false → ∀ pk ∈ waiting, pk ∈ rest → pk ∈ ooo

theorem processSortedPackets_movesOn (r : Reader) (l : List CommandStreamData)
    (halive : r.done = false) (hrow : Row id r.nextSeq pending last)
    (hl : ∀ pk ∈ l, pk ∈ pending ∨ ClosingPacket id last pk)
    (hsorted : l.Pairwise fun left right => left.seq < right.seq) :
    ∃ taken rest ooo eof,
      pending = taken ++ rest ∧
      r.processSortedPackets l = (r.took taken ooo eof, []) ∧
      MovesOn id last r l taken rest ooo eof := by
  have heof : r.eof = false := by
    simp only [done, Bool.or_eq_false_iff] at halive
    exact halive.1
  induction l generalizing r pending with
  | nil =>
    refine ⟨[], pending, [], false, rfl, ?_, ?_⟩
    · simp [processSortedPackets, took, payloads, heof]
    · constructor <;> simp
  | cons pk rest ih =>
    obtain ⟨hlater, hrestSorted⟩ := List.pairwise_cons.mp hsorted
    have hbound : r.nextSeq ≤ pk.seq := by
      rcases hl pk (.head _) with hmem | hclosing
      · exact (hrow.mem_bounds hmem).2.1
      · rw [hclosing.seq_eq]
        exact hrow.start_le
    by_cases hseq : pk.seq = r.nextSeq
    · simp only [processSortedPackets, halive, hseq, ne_eq, not_true_eq_false, ite_false,
        Bool.false_eq_true]
      rcases hl pk (.head _) with hmem | hclosing
      · -- the packet is the first of those waited for
        obtain ⟨pending', rfl⟩ := hrow.head_of_seq hmem hseq
        obtain ⟨hdata, -, hrow'⟩ := hrow
        rw [recvDataOrderedLocked_data r hdata]
        have hpos := hdata.payload_pos
        obtain ⟨taken, rest', ooo, eof, hpending, hresult, hmoves⟩ :=
          ih { r with
                buffer := r.buffer ++ payload pk
                nextSeq := r.nextSeq + (payload pk).length }
            (by simpa [done] using halive) hrow' (by
            intro q hq
            rcases hl q (.tail _ hq) with hmem' | hclosing
            · cases hmem' with
              | head =>
                have := hlater pk hq
                omega
              | tail _ hmem'' => exact .inl hmem''
            · exact .inr hclosing) hrestSorted heof
        refine ⟨pk :: taken, rest', ooo, eof, by rw [hpending]; rfl, ?_, ?_⟩
        · simp only [hresult, took, payloads, List.flatMap_cons, List.append_assoc,
            List.length_append, List.nil_append, Nat.cast_add, add_assoc]
        · constructor
          · intro q hq
            obtain ⟨hmem', hlt⟩ := hmoves.early q hq
            refine ⟨.tail _ hmem', ?_⟩
            simp only [payloads, List.flatMap_cons, List.length_append] at hlt ⊢
            omega
          · exact hmoves.distinct
          · intro hend
            obtain ⟨hnil, q, hq, hclosing⟩ := hmoves.ended hend
            exact ⟨hnil, q, .tail _ hq, hclosing⟩
          · intro hend q hq hrest
            cases hq with
            | head =>
              have hlt := (hrow'.length)
              obtain ⟨mid, hleft, hright⟩ := (hpending ▸ hrow').split
              have hge := (hright.mem_bounds hrest).2.1
              have hmid := hleft.start_le
              omega
            | tail _ hq => exact hmoves.kept hend q hq hrest
      · -- the packet ends the stream, and nothing comes later
        have hlast : r.nextSeq = last := hseq.symm.trans hclosing.seq_eq
        have hpending : pending = [] := (hlast ▸ hrow).eq_nil
        have hrest : rest = [] := by
          cases rest with
          | nil => rfl
          | cons q others =>
            have hlt := hlater q (.head _)
            rcases hl q (.tail _ (.head _)) with hmem | hq
            · rw [hpending] at hmem
              cases hmem
            · have hqlast := hq.seq_eq
              omega
        subst hpending hrest
        rw [recvDataOrderedLocked_closing r hclosing]
        refine ⟨[], [], [], pk.eof, rfl, ?_, ?_⟩
        · simp [processSortedPackets, took, payloads, heof]
        · constructor
          · simp
          · simp
          · intro hend
            exact ⟨rfl, pk, .head _, hclosing, hend⟩
          · simp
    · simp only [processSortedPackets, halive, hseq, ne_eq, not_false_eq_true, ite_true,
        Bool.false_eq_true, ite_false]
      refine ⟨[], pending, pk :: rest, false, rfl, ?_, ?_⟩
      · simp [took, payloads, heof]
      · constructor
        · intro q hq
          refine ⟨hq, ?_⟩
          cases hq with
          | head => simp only [payloads, List.flatMap_nil, List.length_nil]; omega
          | tail _ hq =>
            have hlt := hlater q hq
            simp only [payloads, List.flatMap_nil, List.length_nil]
            omega
        · apply hsorted.imp
          intro left right hlt
          omega
        · simp
        · intro _ q hq _
          exact hq

theorem processOOOPacketsLocked_movesOn (r : Reader) (halive : r.done = false)
    (hrow : Row id r.nextSeq pending last)
    (hooo : ∀ pk ∈ r.oooPackets, pk ∈ pending ∨ ClosingPacket id last pk)
    (hdistinct : r.oooPackets.Pairwise fun left right => left.seq ≠ right.seq) :
    ∃ taken rest ooo eof,
      pending = taken ++ rest ∧
      r.processOOOPacketsLocked = (r.took taken ooo eof, []) ∧
      MovesOn id last r r.oooPackets taken rest ooo eof := by
  have hperm := List.mergeSort_perm r.oooPackets fun left right => left.seq ≤ right.seq
  have hle : (r.oooPackets.mergeSort fun left right => left.seq ≤ right.seq).Pairwise
      fun left right => decide (left.seq ≤ right.seq) = true := by
    apply List.pairwise_mergeSort
    · intro a b c hab hbc
      simp only [decide_eq_true_eq] at hab hbc ⊢
      omega
    · intro a b
      simp only [Bool.or_eq_true, decide_eq_true_eq]
      omega
  have hne := hperm.symm.pairwise hdistinct fun h => h.symm
  have hsorted := (hle.and hne).imp (fun {left right} h => by
    have hle := of_decide_eq_true h.1
    have hne := h.2
    show left.seq < right.seq
    omega)
  obtain ⟨taken, rest, ooo, eof, hpending, hresult, hmoves⟩ :=
    r.processSortedPackets_movesOn _ halive hrow
      (fun pk hpk => hooo pk (hperm.mem_iff.mp hpk)) hsorted
  refine ⟨taken, rest, ooo, eof, hpending, hresult, ?_, hmoves.distinct, ?_, ?_⟩
  · intro pk hpk
    obtain ⟨hmem, hlt⟩ := hmoves.early pk hpk
    exact ⟨hperm.mem_iff.mp hmem, hlt⟩
  · intro hend
    obtain ⟨hnil, pk, hpk, hclosing⟩ := hmoves.ended hend
    exact ⟨hnil, pk, hperm.mem_iff.mp hpk, hclosing⟩
  · intro hend pk hpk hrest
    exact hmoves.kept hend pk (hperm.mem_iff.mpr hpk) hrest

/-- What a packet does to the reader. -/
inductive Received (id : String) (last : Int) (r : Reader)
    (pending : List CommandStreamData) (pk : CommandStreamData) :
    Reader × List CommandStreamAckData → Prop
  | ignored (h : r.closed = true ∨ r.done = true ∨ pk.seq < r.nextSeq) :
      Received id last r pending pk (r, [])
  | broken (hclosing : ClosingPacket id last pk) :
      Received id last r pending pk
        (sendAckLocked { r with err := some (.stream pk.error) } true false "")
  | early (hlt : r.nextSeq < pk.seq) :
      Received id last r pending pk (r.addOOOPacketLocked pk, [])
  | moved
      (halive : r.closed = false ∧ r.done = false)
      (taken rest ooo : List CommandStreamData)
      (eof : Bool)
      (hpending : pending = taken ++ rest)
      (hmoves : MovesOn id last r (pk :: r.oooPackets) taken rest ooo eof)
      (hpk : pk ∉ rest)
      (hgain : taken ≠ [] ∨ ClosingPacket id last pk) :
      Received id last r pending pk (sendAckLocked (r.took taken ooo eof) eof false "")

theorem recvData_received (r : Reader) (hid : r.id = id)
    (hrow : Row id r.nextSeq pending last)
    (hpk : pk ∈ pending ∨ ClosingPacket id last pk ∨ DataPacket id pk ∧ pk.seq < r.nextSeq)
    (hooo : ∀ q ∈ r.oooPackets, q ∈ pending ∨ ClosingPacket id last q)
    (hearly : ∀ q ∈ r.oooPackets, r.nextSeq < q.seq)
    (hdistinct : r.oooPackets.Pairwise fun left right => left.seq ≠ right.seq) :
    Received id last r pending pk (r.recvData pk) := by
  unfold recvData
  split
  case isTrue h =>
    simp only [Bool.or_eq_true] at h
    rcases h with h | h
    · exact .ignored (.inl h)
    · exact .ignored (.inr (.inl h))
  case isFalse h =>
    simp only [Bool.or_eq_true, not_or, Bool.not_eq_true] at h
    obtain ⟨hopen, halive⟩ := h
    have hpkId : pk.id = id := by
      rcases hpk with hmem | hclosing | ⟨hdata, -⟩
      · exact (hrow.mem_bounds hmem).1.id_eq
      · exact hclosing.id_eq
      · exact hdata.id_eq
    rw [if_neg (by simp [hpkId, hid])]
    split
    case isTrue herror =>
      rcases hpk with hmem | hclosing | ⟨hdata, -⟩
      · exact absurd (hrow.mem_bounds hmem).1.error_eq herror
      · exact .broken hclosing
      · exact absurd hdata.error_eq herror
    case isFalse _ =>
      split
      case isTrue hlt => exact .ignored (.inr (.inr hlt))
      case isFalse hge =>
        split
        case isTrue hlt => exact .early hlt
        case isFalse hle =>
          have hseq : pk.seq = r.nextSeq := by omega
          have heof : r.eof = false := by
            simp only [done, Bool.or_eq_false_iff] at halive
            exact halive.1
          rcases hpk with hmem | hclosing | ⟨-, hlt⟩
          · -- a packet with bytes: it is the first of the row, and early ones may follow
            obtain ⟨pending', rfl⟩ := hrow.head_of_seq hmem hseq
            obtain ⟨hdata, -, hrow'⟩ := hrow
            have hpos := hdata.payload_pos
            rw [recvDataOrderedLocked_data r hdata]
            obtain ⟨taken, rest, ooo, eof, hpending, hresult, hmoves⟩ :=
              processOOOPacketsLocked_movesOn
                { r with
                  buffer := r.buffer ++ payload pk
                  nextSeq := r.nextSeq + (payload pk).length }
                (by simpa [done] using halive) hrow' (by
                  intro q hq
                  rcases hooo q hq with hmem' | hclosing
                  · cases hmem' with
                    | head =>
                      have hlt := hearly pk hq
                      omega
                    | tail _ hmem'' => exact .inl hmem''
                  · exact .inr hclosing) hdistinct
            have hnotMem : pk ∉ rest := by
              intro hrest
              obtain ⟨mid, hleft, hright⟩ := (hpending ▸ hrow').split
              have hge := (hright.mem_bounds hrest).2.1
              have hmid := hleft.start_le
              omega
            have htook : (r.took (pk :: taken) ooo eof) =
                ({ r with
                    buffer := r.buffer ++ payload pk
                    nextSeq := r.nextSeq + (payload pk).length } : Reader).took taken ooo eof := by
              simp only [took, payloads, List.flatMap_cons, List.append_assoc,
                List.length_append, Nat.cast_add, add_assoc]
            simp only [hresult, List.append_nil, List.nil_append]
            rw [← htook]
            refine .moved ⟨hopen, halive⟩ (pk :: taken) rest ooo eof (by rw [hpending]; rfl)
              ?_ hnotMem (.inl (by simp))
            constructor
            · intro q hq
              obtain ⟨hmem', hlt⟩ := hmoves.early q hq
              refine ⟨.tail _ hmem', ?_⟩
              simp only [payloads, List.flatMap_cons, List.length_append] at hlt ⊢
              omega
            · exact hmoves.distinct
            · intro hend
              obtain ⟨hnil, q, hq, hclosing⟩ := hmoves.ended hend
              exact ⟨hnil, q, .tail _ hq, hclosing⟩
            · intro hend q hq hrest
              cases hq with
              | head => exact absurd hrest hnotMem
              | tail _ hq => exact hmoves.kept hend q hq hrest
          · -- the packet that ends the stream: no row and no early packet is left
            have hlast : r.nextSeq = last := hseq.symm.trans hclosing.seq_eq
            have hpending : pending = [] := (hlast ▸ hrow).eq_nil
            have hnoEarly : r.oooPackets = [] := by
              apply List.eq_nil_iff_forall_not_mem.mpr
              intro q hq
              have hlt := hearly q hq
              rcases hooo q hq with hmem | hq'
              · rw [hpending] at hmem
                cases hmem
              · have hqlast := hq'.seq_eq
                omega
            rw [recvDataOrderedLocked_closing r hclosing]
            subst hpending
            have htook : r.took [] [] pk.eof = { r with eof := r.eof || pk.eof } := by
              simp [took, payloads, heof, hnoEarly]
            have hprocess : ({ r with eof := r.eof || pk.eof } : Reader).processOOOPacketsLocked =
                (r.took [] [] pk.eof, []) := by
              rw [htook]
              simp [processOOOPacketsLocked, hnoEarly, processSortedPackets]
            simp only [hprocess, List.append_nil, List.nil_append]
            refine .moved ⟨hopen, halive⟩ [] [] [] pk.eof rfl ?_ (by simp) (.inr hclosing)
            constructor
            · simp
            · simp
            · intro hend
              exact ⟨rfl, pk, .head _, hclosing, hend⟩
            · simp
          · omega

end Reader

end StreamClient

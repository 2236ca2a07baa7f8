import Mathlib.Tactic.Linarith
import Crest.StreamLink

/-!
# Packets in a row

The packets with bytes that a writer sends follow one another without a gap.  A
reader takes them in this order, whatever the order in which they arrive: it has a
first part of the row and waits for the rest.
-/

namespace StreamClient

open Base64

theorem toBase64_eq_nil {bytes : List UInt8} (h : toBase64 bytes = []) : bytes = [] := by
  have hround := fromBase64_toBase64 bytes
  rw [h] at hround
  exact hround.symm

/-- A packet with bytes, as the writer makes it. -/
structure DataPacket (id : String) (pk : CommandStreamData) : Prop where
  id_eq : pk.id = id
  error_eq : pk.error = ""
  eof_eq : pk.eof = false
  bytes : ∃ bytes, bytes ≠ [] ∧ pk.data64 = toBase64 bytes

/-- The packet that ends a stream at position `last`. -/
structure ClosingPacket (id : String) (last : Int) (pk : CommandStreamData) : Prop where
  id_eq : pk.id = id
  seq_eq : pk.seq = last
  data_eq : pk.data64 = []

namespace DataPacket

variable {id : String} {pk : CommandStreamData}

theorem decode (h : DataPacket id pk) :
    pk.data64 ≠ [] ∧ decodeString pk.data64 = some (payload pk) := by
  obtain ⟨bytes, hne, heq⟩ := h.bytes
  have hdecode : decodeString pk.data64 = some bytes := by rw [heq, decodeString_toBase64]
  refine ⟨?_, by rw [payload, hdecode]; rfl⟩
  intro hnil
  exact hne (toBase64_eq_nil (heq ▸ hnil))

theorem payload_pos (h : DataPacket id pk) : 0 < (payload pk).length := by
  obtain ⟨bytes, hne, heq⟩ := h.bytes
  have hpayload : payload pk = bytes := by rw [payload, heq, decodeString_toBase64]; rfl
  rw [hpayload]
  exact List.length_pos_of_ne_nil hne

end DataPacket

/-- The packets of `l` follow one another from `start` to `stop`. -/
def Row (id : String) : Int → List CommandStreamData → Int → Prop
  | start, [], stop => start = stop
  | start, pk :: rest, stop =>
    DataPacket id pk ∧ pk.seq = start ∧ Row id (start + (payload pk).length) rest stop

namespace Row

variable {id : String} {start mid stop : Int} {l l' : List CommandStreamData}

theorem append (h : Row id start l mid) (h' : Row id mid l' stop) :
    Row id start (l ++ l') stop := by
  induction l generalizing start with
  | nil =>
    have heq : start = mid := h
    rw [heq]
    exact h'
  | cons pk rest ih =>
    obtain ⟨hpk, hseq, hrest⟩ := h
    exact ⟨hpk, hseq, ih hrest⟩

theorem length (h : Row id start l stop) : stop = start + (payloads l).length := by
  induction l generalizing start with
  | nil =>
    have heq : start = stop := h
    simp [payloads, heq]
  | cons pk rest ih =>
    obtain ⟨-, -, hrest⟩ := h
    have hlen := ih hrest
    simp only [payloads, List.flatMap_cons, List.length_append] at hlen ⊢
    omega

theorem split (h : Row id start (l ++ l') stop) :
    ∃ mid, Row id start l mid ∧ Row id mid l' stop := by
  induction l generalizing start with
  | nil => exact ⟨start, rfl, h⟩
  | cons pk rest ih =>
    obtain ⟨hpk, hseq, hrest⟩ := h
    obtain ⟨mid, hleft, hright⟩ := ih hrest
    exact ⟨mid, ⟨hpk, hseq, hleft⟩, hright⟩

theorem start_le (h : Row id start l stop) : start ≤ stop := by
  have hlen := h.length
  omega

theorem eq_nil (h : Row id start l start) : l = [] := by
  cases l with
  | nil => rfl
  | cons first rest =>
    obtain ⟨hfirst, -, hrest⟩ := h
    have hpos := hfirst.payload_pos
    have hle := hrest.start_le
    omega

theorem mem_bounds (h : Row id start l stop) {pk : CommandStreamData} (hpk : pk ∈ l) :
    DataPacket id pk ∧ start ≤ pk.seq ∧ pk.seq + (payload pk).length ≤ stop := by
  induction l generalizing start with
  | nil => cases hpk
  | cons first rest ih =>
    obtain ⟨hfirst, hseq, hrest⟩ := h
    cases hpk with
    | head =>
      have hle := hrest.start_le
      exact ⟨hfirst, by omega, by omega⟩
    | tail _ hmem =>
      obtain ⟨hdata, hstart, hstop⟩ := ih hrest hmem
      exact ⟨hdata, by omega, hstop⟩

theorem head_of_seq (h : Row id start l stop) {pk : CommandStreamData} (hpk : pk ∈ l)
    (hseq : pk.seq = start) :
    ∃ rest, l = pk :: rest := by
  cases l with
  | nil => cases hpk
  | cons first rest =>
    obtain ⟨hfirst, -, hrest⟩ := h
    cases hpk with
    | head => exact ⟨rest, rfl⟩
    | tail _ hmem =>
      have hpos := hfirst.payload_pos
      have hbound := (hrest.mem_bounds hmem).2.1
      omega

theorem eq_of_seq (h : Row id start l stop) {pk pk' : CommandStreamData} (hpk : pk ∈ l)
    (hpk' : pk' ∈ l) (hseq : pk.seq = pk'.seq) :
    pk = pk' := by
  induction l generalizing start with
  | nil => cases hpk
  | cons first rest ih =>
    obtain ⟨hfirst, hstart, hrest⟩ := h
    have hpos := hfirst.payload_pos
    cases hpk with
    | head =>
      cases hpk' with
      | head => rfl
      | tail _ hmem' =>
        have hbound := (hrest.mem_bounds hmem').2.1
        omega
    | tail _ hmem =>
      cases hpk' with
      | head =>
        have hbound := (hrest.mem_bounds hmem).2.1
        omega
      | tail _ hmem' => exact ih hrest hmem hmem'

end Row

end StreamClient

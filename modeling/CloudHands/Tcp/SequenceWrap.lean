import CloudHands.Lib.Run
import CloudHands.Tcp.Reassembly

/-!
# Where the sequence numbers wrap

Offsets are differences of 32-bit numbers that are compared as they are, so that they are stream
positions in the first `2 ^ 32 - 1` bytes only. A segment that starts before the initial sequence
number is told from new data by its end alone.
-/

namespace CloudHands.Tcp

open CloudHands.Word (add sub)
open CloudHands.Slice

variable {σ : Type*}

/-- A data segment at any position of the stream `s`, also before its start, where the bytes are
no bytes of the stream. -/
structure PlacedSegment (s : List UInt8) (initSeq : ℕ) where
  pkt : TcpPacket
  pos : ℤ
  len : ℕ
  data : List UInt8
  len_pos : 0 < len
  bound : pos + len ≤ s.length
  seq_eq : (pkt.sentSeq : ℤ) = (initSeq + pos) % 2 ^ 32
  len_eq : pkt.payloadLen = len
  pdata_eq : pkt.pdata = some data
  length_eq : data.length = len
  data_eq : ∀ i < len, 0 ≤ pos + i → data[i]? = s[(pos + i).toNat]?

namespace PlacedSegment

variable {s : List UInt8} {initSeq : ℕ}

def range (seg : PlacedSegment s initSeq) : Set ℕ := {i | seg.pos ≤ i ∧ (i : ℤ) < seg.pos + seg.len}

/-- Less than `2 ^ 31` bytes away from the position `L`. -/
def Near (seg : PlacedSegment s initSeq) (L : ℕ) : Prop :=
  (L : ℤ) - 2 ^ 31 < seg.pos ∧ seg.pos + seg.len < L + 2 ^ 31

/-- Within the first `2 ^ 32 - 1` bytes, or over the start of the stream and not beyond `L`. -/
def Told (seg : PlacedSegment s initSeq) (L : ℕ) : Prop :=
  (0 ≤ seg.pos ∧ seg.pos + seg.len < 2 ^ 32) ∨
    (seg.pos < 0 ∧ 0 ≤ seg.pos + seg.len ∧ seg.pos + seg.len ≤ L)

instance (seg : PlacedSegment s initSeq) (L : ℕ) : Decidable (seg.Near L) :=
  inferInstanceAs (Decidable ((L : ℤ) - 2 ^ 31 < seg.pos ∧ seg.pos + seg.len < L + 2 ^ 31))

instance (seg : PlacedSegment s initSeq) (L : ℕ) : Decidable (seg.Told L) :=
  inferInstanceAs (Decidable ((0 ≤ seg.pos ∧ seg.pos + seg.len < 2 ^ 32) ∨
    (seg.pos < 0 ∧ 0 ≤ seg.pos + seg.len ∧ seg.pos + seg.len ≤ L)))

def reach (s : List UInt8) : List UInt8 := s.take (2 ^ 32 - 1)

theorem length_reach (s : List UInt8) : (reach s).length = min (2 ^ 32 - 1) s.length :=
  List.length_take

theorem endOffset_eq (seg : PlacedSegment s initSeq) (h : 0 ≤ seg.pos + seg.len)
    (hlt : seg.pos + seg.len < 2 ^ 32) :
    (add 32 (sub 32 seg.pkt.sentSeq initSeq) seg.pkt.payloadLen : ℤ) = seg.pos + seg.len := by
  have hseq := seg.seq_eq
  rw [seg.len_eq, add, sub]
  push_cast
  omega

theorem data_eq_slice (seg : PlacedSegment s initSeq) {p : ℕ} (hp : seg.pos = p)
    (hend : p + seg.len ≤ 2 ^ 32 - 1) : seg.data = slice (reach s) p (p + seg.len) := by
  have hbound := seg.bound
  rw [hp] at hbound
  have hlen : (slice (reach s) p (p + seg.len)).length = seg.len := by
    rw [slice_length _ (by rw [length_reach]; omega)]
    omega
  apply List.ext_getElem?
  intro i
  rcases lt_or_ge i seg.len with hi | hi
  · have hbyte := seg.data_eq i hi (by omega)
    rw [hbyte, hp, slice, List.getElem?_take_of_lt (by omega), List.getElem?_drop, reach,
      List.getElem?_take_of_lt (by omega)]
    congr 1
  · rw [List.getElem?_eq_none (by rw [seg.length_eq]; exact hi),
      List.getElem?_eq_none (by rw [hlen]; exact hi)]

def toStream (seg : PlacedSegment s initSeq) (h : 0 ≤ seg.pos ∧ seg.pos + seg.len < 2 ^ 32) :
    StreamSegment (reach s) initSeq where
  pkt := seg.pkt
  offset := seg.pos.toNat
  len := seg.len
  len_pos := seg.len_pos
  bound := by
    have hbound := seg.bound
    rw [length_reach]
    omega
  seq_eq := by
    have hseq := seg.seq_eq
    omega
  len_eq := seg.len_eq
  data_eq := by
    rw [seg.pdata_eq, seg.data_eq_slice (Int.toNat_of_nonneg h.1).symm (by omega)]

theorem range_toStream (seg : PlacedSegment s initSeq)
    (h : 0 ≤ seg.pos ∧ seg.pos + seg.len < 2 ^ 32) : (seg.toStream h).range = seg.range := by
  ext i
  simp only [StreamSegment.range, toStream, range, Set.mem_Ico, Set.mem_ofPred_eq]
  omega

end PlacedSegment

variable {app : TcpApp σ} {s : List UInt8} {d : SessionDirect} {initSeq : ℕ} {R : Set ℕ}
  {h : Handling σ}

def receive (app : TcpApp σ) (d : SessionDirect) (h : Handling σ) (seg : PlacedSegment s initSeq) :
    Handling σ :=
  processDataPacket app true d seg.pkt h

def position (d : SessionDirect) (h : Handling σ) : ℕ := (delivered d h.log).length

theorem Receiving.position_eq (hh : Receiving s d initSeq R h) :
    position d h = (h.session.endpoint d).lastOffset := by
  rw [position, hh.out, List.length_take]
  exact min_eq_left hh.bound

theorem receive_old (hh : Receiving s d initSeq R h) {t : List UInt8}
    {seg : PlacedSegment t initSeq}
    (hend : 0 ≤ seg.pos + seg.len) (hold : seg.pos + seg.len ≤ position d h)
    (hlt : (h.session.endpoint d).lastOffset < 2 ^ 32) : receive app d h seg = h.emit .access := by
  rw [hh.position_eq] at hold
  have hoffset := seg.endOffset_eq hend (by omega)
  have hle : add 32 (endpointOffsetGet (h.session.endpoint d) seg.pkt.sentSeq) seg.pkt.payloadLen ≤
      (h.session.endpoint d).lastOffset := by
    rw [endpointOffsetGet, hh.seq]
    omega
  exact if_pos hle

theorem delivered_emit_access (d : SessionDirect) (h : Handling σ) :
    delivered d (h.emit .access).log = delivered d h.log := by
  rw [Handling.emit, delivered_append, delivered_access, List.append_nil]

theorem Receiving.emit_access (hh : Receiving s d initSeq R h) :
    Receiving s d initSeq R (h.emit .access) :=
  ⟨hh.live, hh.cur, hh.seq, hh.frags, hh.carries, hh.bound, hh.received,
    (delivered_emit_access d h).trans hh.out⟩

theorem receive_receiving (happ : AlwaysContinues app d) {seg : PlacedSegment s initSeq}
    (hR : R ⊆ Set.Iio (PlacedSegment.reach s).length)
    (hh : Receiving (PlacedSegment.reach s) d initSeq R h) (hole : Holed d h)
    (htold : seg.Told (position d h)) :
    Receiving (PlacedSegment.reach s) d initSeq (R ∪ seg.range) (receive app d h seg) ∧
      Holed d (receive app d h seg) ∧ R ∪ seg.range ⊆ Set.Iio (PlacedSegment.reach s).length := by
  have hreach := PlacedSegment.length_reach s
  rcases htold with hwithin | ⟨hneg, hend, hold⟩
  · obtain ⟨hh', hole'⟩ :=
      processDataPacket_receiving happ (by omega) (seg.toStream hwithin) hR hh hole
    rw [seg.range_toStream] at hh'
    refine ⟨hh', hole', Set.union_subset hR fun i hi => ?_⟩
    have hbound := (seg.toStream hwithin).bound
    rw [← seg.range_toStream hwithin] at hi
    exact Set.mem_Iio.2 (hi.2.trans_le hbound)
  · have hlast : (h.session.endpoint d).lastOffset < 2 ^ 32 := by
      have hbound := hh.bound
      omega
    have hsub : seg.range ⊆ R := by
      intro i hi
      rw [← hh.received]
      refine .inl (Set.mem_Iio.2 ?_)
      rw [← hh.position_eq]
      have hi' : (i : ℤ) < seg.pos + seg.len := hi.2
      omega
    rw [receive_old hh hend hold hlast, Set.union_eq_self_of_subset_right hsub]
    exact ⟨hh.emit_access, hole, hR⟩

def carriedBy (segs : List (PlacedSegment s initSeq)) : Set ℕ := {i | ∃ seg ∈ segs, i ∈ seg.range}

theorem carriedBy_cons (seg : PlacedSegment s initSeq) (segs : List (PlacedSegment s initSeq)) :
    carriedBy (seg :: segs) = seg.range ∪ carriedBy segs := by
  ext i
  simp [carriedBy]

/-- Every segment of the run meets the condition at the position at which it arrives. -/
def Arrive (app : TcpApp σ) (d : SessionDirect) (P : PlacedSegment s initSeq → ℕ → Prop)
    (h : Handling σ) (segs : List (PlacedSegment s initSeq)) : Prop :=
  ∀ v ∈ Lib.trace (receive app d) h segs, P v.2 (position d v.1)

instance {P : PlacedSegment s initSeq → ℕ → Prop} [∀ seg L, Decidable (P seg L)]
    {segs : List (PlacedSegment s initSeq)} : Decidable (Arrive app d P h segs) :=
  inferInstanceAs
    (Decidable (∀ v ∈ Lib.trace (receive app d) h segs, P v.2 (position d v.1)))

theorem receives_receiving (happ : AlwaysContinues app d) (segs : List (PlacedSegment s initSeq))
    (hR : R ⊆ Set.Iio (PlacedSegment.reach s).length)
    (hh : Receiving (PlacedSegment.reach s) d initSeq R h) (hole : Holed d h)
    (htold : Arrive app d PlacedSegment.Told h segs) :
    Receiving (PlacedSegment.reach s) d initSeq (R ∪ carriedBy segs)
      (segs.foldl (receive app d) h) ∧
      Holed d (segs.foldl (receive app d) h) := by
  induction segs generalizing R h with
  | nil =>
    have hempty : carriedBy ([] : List (PlacedSegment s initSeq)) = ∅ := by simp [carriedBy]
    rw [hempty, Set.union_empty]
    exact ⟨hh, hole⟩
  | cons seg segs ih =>
    obtain ⟨hseg, hsegs⟩ := List.forall_mem_cons.1 htold
    obtain ⟨hh', hole', hR'⟩ := receive_receiving happ hR hh hole hseg
    rw [carriedBy_cons, ← Set.union_assoc]
    exact ih hR' hh' hole' hsegs

/-- The application has the longest prefix of the stream that the segments cover, and a segment
from before the delivered position adds nothing. -/
structure Delivers (app : TcpApp σ) (s : List UInt8) (d : SessionDirect) (initSeq : ℕ)
    (R : Set ℕ) (P : PlacedSegment s initSeq → ℕ → Prop) (h : Handling σ) : Prop where
  out : delivered d h.log = s.take (position d h)
  longest : IsGreatest {k | k ≤ s.length ∧ Set.Iio k ⊆ R} (position d h)
  old : ∀ seg : PlacedSegment s initSeq, P seg (position d h) → seg.pos + seg.len ≤ position d h →
    delivered d (receive app d h seg).log = delivered d h.log

theorem Receiving.delivers (hh : Receiving (PlacedSegment.reach s) d initSeq R h)
    (hole : Holed d h) :
    Delivers app s d initSeq R PlacedSegment.Told h := by
  have hreach := PlacedSegment.length_reach s
  have hbound := hh.bound
  have hposition := hh.position_eq
  refine ⟨?_, isGreatest_prefix_covered (by omega) ?_ ?_, ?_⟩
  · rw [hposition, hh.out, PlacedSegment.reach, List.take_take, min_eq_left (by omega)]
  · intro i hi
    rw [← hh.received, ← hposition]
    exact .inl hi
  · rw [← hh.received, hposition]
    rintro (hlt | ⟨f, hf, hi⟩)
    · exact lt_irrefl _ (Set.mem_Iio.1 hlt)
    · exact absurd hi.1 (not_le.2 (hole f hf))
  · intro seg htold hold
    have hend : 0 ≤ seg.pos + seg.len := by
      rcases htold with ⟨hpos, -⟩ | ⟨-, hend, -⟩ <;> omega
    rw [receive_old hh hend hold (by omega), delivered_emit_access]

/-- Segments that are told from new data rightly are delivered, whatever the length of the stream
and the initial sequence number. -/
theorem receive_delivers (app : TcpApp σ) (sreq : TcpSessionRequest) (sentry : σ)
    (d : SessionDirect)
    (s : List UInt8) (happ : AlwaysContinues app d)
    (segs : List (PlacedSegment s (sreqInitSeq sreq d)))
    (htold : Arrive app d PlacedSegment.Told (receiveStart sreq sentry d) segs) :
    Delivers app s d (sreqInitSeq sreq d) (carriedBy segs) PlacedSegment.Told
      (segs.foldl (receive app d) (receiveStart sreq sentry d)) := by
  obtain ⟨hh, hole⟩ := receiveStart_receiving (PlacedSegment.reach s) sreq sentry d
  obtain ⟨hh', hole'⟩ := receives_receiving happ segs (Set.empty_subset _) hh hole htold
  rw [Set.empty_union] at hh'
  exact hh'.delivers hole'

def placed (pos : ℤ) (data : List UInt8) (hlen : 0 < data.length) (hbound : pos + data.length ≤ 3)
    (hdata : ∀ i < data.length, 0 ≤ pos + i → data[i]? = [10, 20, 30][(pos + i).toNat]?) :
    PlacedSegment [10, 20, 30] (sreqInitSeq wrapRequest .req) where
  pkt :=
    { isIpv6 := false, srcIp := 1, dstIp := 2, srcAddr := 0, dstAddr := 0, srcPort := 1024
      dstPort := 80, tcpFlags := 0x10, sentSeq := ((2 ^ 32 - 1 + pos) % 2 ^ 32).toNat, recvAck := 7
      payloadLen := data.length, pdata := some data }
  pos := pos
  len := data.length
  data := data
  len_pos := hlen
  bound := hbound
  seq_eq := Int.toNat_of_nonneg (Int.emod_nonneg _ (by decide))
  len_eq := rfl
  pdata_eq := rfl
  length_eq := rfl
  data_eq := hdata

def probedSegments : List (PlacedSegment [10, 20, 30] (sreqInitSeq wrapRequest .req)) :=
  [placed (-1) [0] (by decide) (by decide) (by decide),
    placed 0 [10, 20] (by decide) (by decide) (by decide),
    placed (-1) [0, 10, 20] (by decide) (by decide) (by decide),
    placed 2 [30] (by decide) (by decide) (by decide)]

theorem probedSegments_delivered :
    delivered .req (probedSegments.foldl (receive countingApp .req)
      (receiveStart wrapRequest 0 .req)).log = [10, 20, 30] := by
  have htold : Arrive countingApp .req PlacedSegment.Told (receiveStart wrapRequest 0 .req)
      probedSegments := by
    decide +kernel
  have hposition : position .req (probedSegments.foldl (receive countingApp .req)
      (receiveStart wrapRequest 0 .req)) = 3 := by
    decide +kernel
  have h := receive_delivers countingApp wrapRequest 0 .req [10, 20, 30]
    (countingApp_continues .req) probedSegments htold
  rw [h.out, hposition]
  rfl

/-- The first byte of the stream arrives with the byte before it, and is buffered far away. -/
theorem straddling_not_delivered :
    ¬ ∀ (app : TcpApp ℕ) (sreq : TcpSessionRequest) (d : SessionDirect) (s : List UInt8),
      AlwaysContinues app d → ∀ segs : List (PlacedSegment s (sreqInitSeq sreq d)),
        Arrive app d PlacedSegment.Near (receiveStart sreq 0 d) segs →
          Delivers app s d (sreqInitSeq sreq d) (carriedBy segs) PlacedSegment.Near
            (segs.foldl (receive app d) (receiveStart sreq 0 d)) := by
  intro h
  let seg := placed (-1) [0, 10] (by decide) (by decide) (by decide)
  have hnear :
      Arrive countingApp .req PlacedSegment.Near (receiveStart wrapRequest 0 .req) [seg] := by
    decide +kernel
  have hdelivers := h countingApp wrapRequest .req [10, 20, 30] (countingApp_continues .req) [seg]
    hnear
  have hposition : position .req ([seg].foldl (receive countingApp .req)
      (receiveStart wrapRequest 0 .req)) = 0 := by
    decide +kernel
  have hmem : 1 ∈ {k | k ≤ [10, 20, 30].length ∧ Set.Iio k ⊆ carriedBy [seg]} := by
    refine ⟨by decide, fun i hi => ⟨seg, List.mem_singleton_self _, ?_⟩⟩
    obtain rfl : i = 0 := Nat.lt_one_iff.1 hi
    exact ⟨by decide, by decide⟩
  have hle := hdelivers.longest.2 hmem
  rw [hposition] at hle
  exact absurd hle (by decide)

end CloudHands.Tcp

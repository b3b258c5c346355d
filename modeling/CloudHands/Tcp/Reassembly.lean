import CloudHands.Tcp.FragmentInvariant
import CloudHands.Tcp.SessionHandler

/-!
# Reassembly delivers the stream

One direction of a connection carries a byte stream of fewer than `2 ^ 32`
bytes. Whatever segments of it arrive, in whatever order, the application has
seen exactly the longest prefix of the stream that the segments cover.
-/

namespace CloudHands.Tcp

open CloudHands.Word (add sub)
open CloudHands.Slice

variable {σ : Type*}

/-- A data segment: `len` bytes of the stream `s` from `offset` on, numbered from
the initial sequence number of its endpoint. -/
structure StreamSegment (s : List UInt8) (initSeq : ℕ) where
  pkt : TcpPacket
  offset : ℕ
  len : ℕ
  len_pos : 0 < len
  bound : offset + len ≤ s.length
  seq_eq : pkt.sentSeq = (initSeq + offset) % 2 ^ 32
  len_eq : pkt.payloadLen = len
  data_eq : pkt.pdata = some (slice s offset (offset + len))

def StreamSegment.range {s : List UInt8} {initSeq : ℕ} (seg : StreamSegment s initSeq) : Set ℕ :=
  Set.Ico seg.offset (seg.offset + seg.len)

def receivedBy {s : List UInt8} {initSeq : ℕ} (segs : List (StreamSegment s initSeq)) : Set ℕ :=
  {i | ∃ seg ∈ segs, i ∈ seg.range}

/-- The bytes of direction `d` handed to the application, in order. -/
def delivered (d : SessionDirect) (log : List Event) : List UInt8 :=
  log.flatMap fun
    | .output d' data => if d' = d then data else []
    | _ => []

theorem delivered_append (d : SessionDirect) (l m : List Event) :
    delivered d (l ++ m) = delivered d l ++ delivered d m := by
  simp [delivered]

@[simp] theorem delivered_access (d : SessionDirect) : delivered d [.access] = [] := rfl

@[simp] theorem delivered_output (d : SessionDirect) (data : List UInt8) :
    delivered d [.output d data] = data := by
  simp [delivered]

/-- The parser of direction `d` exists and always asks for more data. -/
def AlwaysContinues (app : TcpApp σ) (d : SessionDirect) : Prop :=
  ∃ parse, app.contentParse d = some parse ∧ ∀ st data, (parse st data).1 = .parseContinue

structure Receiving (s : List UInt8) (d : SessionDirect) (initSeq : ℕ) (R : Set ℕ)
    (h : Handling σ) : Prop where
  live : h.session.sentry.isSome
  cur : h.session.curEp = some d
  seq : (h.session.endpoint d).initSeq = initSeq
  frags : FragmentsOk (h.session.endpoint d).asFrag
  carries : ∀ f ∈ (h.session.endpoint d).asFrag, f.Carries s
  bound : (h.session.endpoint d).lastOffset ≤ s.length
  received : Set.Iio (h.session.endpoint d).lastOffset ∪ covered (h.session.endpoint d).asFrag = R
  out : delivered d h.log = s.take (h.session.endpoint d).lastOffset

def Holed (d : SessionDirect) (h : Handling σ) : Prop :=
  ∀ f ∈ (h.session.endpoint d).asFrag, (h.session.endpoint d).lastOffset < f.offset

theorem contentDataOutput_continues {app : TcpApp σ} {d : SessionDirect} {h : Handling σ}
    (happ : AlwaysContinues app d) (hlive : h.session.sentry.isSome)
    (hcur : h.session.curEp = some d) (data : List UInt8) :
    ∃ st, contentDataOutput app h data = (.parseContinue,
      { session := { h.session with sentry := some st }
        log := h.log ++ [.access] ++ [.output d data] }) := by
  obtain ⟨parse, hparse, hcont⟩ := happ
  obtain ⟨st, hst⟩ := Option.isSome_iff_exists.mp hlive
  have hd : sessionDirect h.session = d := by
    unfold sessionDirect
    rw [hcur]
    cases d <;> rfl
  refine ⟨(parse st data).2, ?_⟩
  simp only [contentDataOutput, Handling.emit, hd, hparse, hst]
  rw [← hcont st data]

theorem processPoppedData_receiving {app : TcpApp σ} {s : List UInt8} {d : SessionDirect}
    {initSeq : ℕ} {R : Set ℕ} {h : Handling σ} (happ : AlwaysContinues app d)
    (hR : R ⊆ Set.Iio s.length) (hh : Receiving s d initSeq R h) :
    Receiving s d initSeq R (processPoppedData app d h) ∧
      Holed d (processPoppedData app d h) := by
  set ep := h.session.endpoint d with hep
  obtain ⟨hok, hcarry, hpop⟩ := assembleFragmentPop_spec hh.frags ep.lastOffset
  cases hdf : (assembleFragmentPop ep.asFrag ep.lastOffset).1 with
  | none =>
    rw [hdf] at hpop
    have hrun : processPoppedData app d h =
        (h.emit .access).setEndpoint d
          { ep with asFrag := (assembleFragmentPop ep.asFrag ep.lastOffset).2 } := by
      simp only [processPoppedData, Handling.emit, ← hep, hdf]
    rw [hrun]
    refine ⟨⟨?_, ?_, ?_, ?_, ?_, ?_, ?_, ?_⟩, ?_⟩ <;>
      simp only [Handling.setEndpoint, Handling.emit, endpoint_setEndpoint, setEndpoint_sentry,
        setEndpoint_curEp, Holed]
    · exact hh.live
    · exact hh.cur
    · exact hh.seq
    · exact hok
    · exact hcarry s hh.carries
    · exact hh.bound
    · exact hpop.2.trans hh.received
    · rw [delivered_append, delivered_access, List.append_nil]
      exact hh.out
    · exact hpop.1
  | some df =>
    rw [hdf] at hpop
    obtain ⟨hdfok, hoff, hdfcarry, hnext, hcov⟩ := hpop
    have hstop : df.stop = ep.lastOffset + df.len := by rw [hdfok.stop_eq, hoff]
    set h₁ := (h.emit .access).setEndpoint d
      { ep with asFrag := (assembleFragmentPop ep.asFrag ep.lastOffset).2 } with hh₁
    have hlive₁ : h₁.session.sentry.isSome := by
      simpa [hh₁, Handling.setEndpoint, Handling.emit] using hh.live
    have hcur₁ : h₁.session.curEp = some d := by
      simpa [hh₁, Handling.setEndpoint, Handling.emit] using hh.cur
    obtain ⟨st, hout⟩ := contentDataOutput_continues happ hlive₁ hcur₁ df.bytes
    have hend : ep.lastOffset + df.len ≤ s.length := by
      by_contra hlt
      have hmem : ep.lastOffset + df.len - 1 ∈ R := by
        rw [← hh.received, ← hep, ← hcov]
        have := hdfok.1
        exact Or.inl (Set.mem_Iio.mpr (by omega))
      have := Set.mem_Iio.mp (hR hmem)
      have := hdfok.1
      omega
    set h₂ : Handling σ :=
      { session := { h₁.session with sentry := some st }
        log := h₁.log ++ [.access] ++ [.output d df.bytes] } with hh₂
    have hep₂ : h₂.session.endpoint d =
        { ep with asFrag := (assembleFragmentPop ep.asFrag ep.lastOffset).2 } := by
      cases d <;> rfl
    have hrun : processPoppedData app d h =
        ((h₂.emit .access).setEndpoint d
          { h₂.session.endpoint d with lastOffset := df.stop }).emit .access := by
      simp only [processPoppedData, Handling.emit, ← hep, hdf]
      simp only [Handling.emit] at hh₁
      rw [← hh₁, hout]
      rfl
    rw [hrun, hep₂]
    refine ⟨⟨?_, ?_, ?_, ?_, ?_, ?_, ?_, ?_⟩, ?_⟩ <;>
      simp only [Handling.setEndpoint, Handling.emit, endpoint_setEndpoint, setEndpoint_sentry,
        setEndpoint_curEp, Holed, hstop]
    · rfl
    · exact hcur₁
    · exact hh.seq
    · exact hok
    · exact hcarry s hh.carries
    · exact hend
    · exact hcov.trans hh.received
    · have hbytes : df.bytes = slice s ep.lastOffset (ep.lastOffset + df.len) :=
        hoff ▸ hdfcarry s hh.carries
      simp only [hh₂, hh₁, Handling.setEndpoint, Handling.emit, delivered_append,
        delivered_access, delivered_output, List.append_nil]
      rw [hh.out, ← hep, hbytes, ← slice_zero, ← slice_zero]
      exact slice_append s (by omega) (by omega)
    · exact hnext

theorem processDataPacket_receiving {app : TcpApp σ} {s : List UInt8} {d : SessionDirect}
    {initSeq : ℕ} {R : Set ℕ} {h : Handling σ} (happ : AlwaysContinues app d)
    (hs : s.length < 2 ^ 32) (seg : StreamSegment s initSeq) (hR : R ⊆ Set.Iio s.length)
    (hh : Receiving s d initSeq R h) (hole : Holed d h) :
    Receiving s d initSeq (R ∪ seg.range) (processDataPacket app true d seg.pkt h) ∧
      Holed d (processDataPacket app true d seg.pkt h) := by
  have hpos := seg.len_pos
  have hbound := seg.bound
  set ep := h.session.endpoint d with hep
  have hoffset : endpointOffsetGet ep seg.pkt.sentSeq = seg.offset := by
    rw [endpointOffsetGet, hep, hh.seq, seg.seq_eq]
    exact Word.sub_add_cancel (by omega)
  have hend : add 32 seg.offset seg.pkt.payloadLen = seg.offset + seg.len := by
    rw [seg.len_eq]
    exact Word.add_of_lt (by omega)
  have hdata : seg.pkt.pdata.getD [] = slice s seg.offset (seg.offset + seg.len) := by
    rw [seg.data_eq]
    rfl
  have hlen : (slice s seg.offset (seg.offset + seg.len)).length = seg.len := by
    rw [slice_length s hbound]
    omega
  by_cases hold : seg.offset + seg.len ≤ ep.lastOffset
  · -- a retransmission: nothing changes
    have hrun : processDataPacket app true d seg.pkt h = h.emit .access := by
      simp only [processDataPacket, Handling.emit, ← hep, hoffset, hend, if_pos hold]
    have hsub : seg.range ⊆ R := by
      intro i hi
      have hi' : i < seg.offset + seg.len := hi.2
      rw [← hh.received, ← hep]
      exact Or.inl (Set.mem_Iio.mpr (by omega))
    rw [hrun, Set.union_eq_self_of_subset_right hsub]
    refine ⟨⟨hh.live, hh.cur, hh.seq, hh.frags, hh.carries, hh.bound, hh.received, ?_⟩, hole⟩
    simp only [Handling.emit, delivered_append, delivered_access, List.append_nil]
    exact hh.out
  by_cases hgap : ep.lastOffset < seg.offset
  · -- out of order: the segment goes to the fragment list
    obtain ⟨hret, hok, hcov, hcarry⟩ := assembleFragmentPush_spec hh.frags hpos
      (show seg.offset + seg.len < 2 ^ 32 by omega) hlen.ge
    set push := assembleFragmentPush true ep.asFrag
      (slice s seg.offset (seg.offset + seg.len)) seg.len seg.offset with hpush
    have hrun : processDataPacket app true d seg.pkt h =
        (h.emit .access).setEndpoint d { ep with asFrag := push.1 } := by
      simp only [processDataPacket, Handling.emit, ← hep, hoffset, hend, if_neg hold, if_pos hgap,
        tcpSessionEndpointDo, hdata]
      rw [seg.len_eq, ← hpush, hret]
      rfl
    rw [hrun]
    refine ⟨⟨?_, ?_, ?_, ?_, ?_, ?_, ?_, ?_⟩, ?_⟩ <;>
      simp only [Handling.setEndpoint, Handling.emit, endpoint_setEndpoint, setEndpoint_sentry,
        setEndpoint_curEp, Holed]
    · exact hh.live
    · exact hh.cur
    · exact hh.seq
    · exact hok
    · exact hcarry s hh.carries (by rw [List.take_of_length_le hlen.le])
    · exact hh.bound
    · rw [hcov, ← hh.received]
      exact (Set.union_assoc _ _ _).symm
    · rw [delivered_append, delivered_access, List.append_nil]
      exact hh.out
    · intro f hf
      -- the first position of a fragment is covered, and nothing covered lies at the hole
      have hmem : f.offset ∈ covered push.1 :=
        ⟨f, hf, by rw [DataFragment.mem_range]; have := (hok.1 f hf).1; omega⟩
      rw [hcov] at hmem
      rcases hmem with ⟨g, hg, hgi⟩ | hmem
      · exact lt_of_lt_of_le (hole g hg) hgi.1
      · exact lt_of_lt_of_le hgap hmem.1
  · -- the segment continues the delivered prefix
    have hdiff : sub 32 ep.lastOffset seg.offset = ep.lastOffset - seg.offset := by
      have := hh.bound
      exact Word.sub_of_le (by omega) (by omega)
    have hplen : sub 32 seg.pkt.payloadLen (ep.lastOffset - seg.offset) =
        seg.len - (ep.lastOffset - seg.offset) := by
      rw [seg.len_eq]
      exact Word.sub_of_le (by omega) (by omega)
    have hout : ((slice s seg.offset (seg.offset + seg.len)).drop (ep.lastOffset - seg.offset)).take
        (seg.len - (ep.lastOffset - seg.offset)) =
          slice s ep.lastOffset (seg.offset + seg.len) := by
      have hsum : seg.offset + (ep.lastOffset - seg.offset) = ep.lastOffset := by omega
      rw [drop_slice, hsum, List.take_of_length_le]
      rw [slice_length s hbound]
      omega
    set h₁ := (h.emit .access).setEndpoint d { ep with lastOffset := seg.offset + seg.len } with hh₁
    have hlive₁ : h₁.session.sentry.isSome := by
      simpa [hh₁, Handling.setEndpoint, Handling.emit] using hh.live
    have hcur₁ : h₁.session.curEp = some d := by
      simpa [hh₁, Handling.setEndpoint, Handling.emit] using hh.cur
    obtain ⟨st, hcall⟩ := contentDataOutput_continues happ hlive₁ hcur₁
      (slice s ep.lastOffset (seg.offset + seg.len))
    set h₂ : Handling σ :=
      { session := { h₁.session with sentry := some st }
        log := h₁.log ++ [.access] ++ [.output d (slice s ep.lastOffset (seg.offset + seg.len))] }
      with hh₂
    have hep₂ : h₂.session.endpoint d = { ep with lastOffset := seg.offset + seg.len } := by
      cases d <;> rfl
    have hrun : processDataPacket app true d seg.pkt h = processPoppedData app d h₂ := by
      simp only [processDataPacket, Handling.emit, ← hep, hoffset, hend, if_neg hold, if_neg hgap,
        hdata, hdiff, hplen, hout]
      simp only [Handling.emit] at hh₁
      rw [← hh₁, hcall]
      rfl
    have hunion : Set.Iio (seg.offset + seg.len) ∪ covered ep.asFrag = R ∪ seg.range := by
      rw [← hh.received, ← hep]
      ext i
      have hi : i < seg.offset + seg.len ↔ i < ep.lastOffset ∨ i ∈ seg.range := by
        simp only [StreamSegment.range, Set.mem_Ico]
        omega
      simp only [Set.mem_union, Set.mem_Iio]
      tauto
    rw [hrun]
    apply processPoppedData_receiving happ
    · rintro i (hi | hi)
      · exact hR hi
      · exact Set.mem_Iio.mpr (lt_of_lt_of_le hi.2 hbound)
    · refine ⟨rfl, hcur₁, ?_, ?_, ?_, ?_, ?_, ?_⟩
      · rw [hep₂]
        exact hh.seq
      · rw [hep₂]
        exact hh.frags
      · rw [hep₂]
        exact hh.carries
      · rw [hep₂]
        exact hbound
      · rw [hep₂]
        exact hunion
      · rw [hep₂]
        simp only [hh₂, hh₁, Handling.setEndpoint, Handling.emit, delivered_append,
          delivered_access, delivered_output, List.append_nil]
        rw [hh.out, ← hep, ← slice_zero, ← slice_zero]
        exact slice_append s (by omega) (by omega)

/-- The endpoint of direction `d` of a session that was just created, with its
packets about to be handled. -/
def receiveStart (sreq : TcpSessionRequest) (sentry : σ) (d : SessionDirect) : Handling σ :=
  { session := { tcpSessionInit sreq sentry with curEp := some d }, log := [] }

def sreqInitSeq (sreq : TcpSessionRequest) : SessionDirect → ℕ
  | .req => sreq.reqSnInit
  | .res => sreq.resSnInit

theorem receiveStart_receiving (s : List UInt8) (sreq : TcpSessionRequest) (sentry : σ)
    (d : SessionDirect) :
    Receiving s d (sreqInitSeq sreq d) ∅ (receiveStart sreq sentry d) ∧
      Holed d (receiveStart sreq sentry d) := by
  have hep : ∀ d, ((receiveStart sreq sentry d).session.endpoint d).asFrag = [] ∧
      ((receiveStart sreq sentry d).session.endpoint d).lastOffset = 0 ∧
      ((receiveStart sreq sentry d).session.endpoint d).initSeq = sreqInitSeq sreq d := by
    intro d
    cases d <;> cases hv : sreq.isIpv6 <;>
      simp [receiveStart, TcpSession.endpoint, tcpSessionInit, hv, tcpSessionEndpointInit,
        tcpSessionEndpointInitIpv6, sreqInitSeq]
  obtain ⟨hfrag, hlast, hseq⟩ := hep d
  refine ⟨⟨rfl, rfl, hseq, ?_, ?_, ?_, ?_, ?_⟩, ?_⟩
  · rw [hfrag]
    exact FragmentsOk.nil
  · simp [hfrag]
  · omega
  · simp [hfrag, hlast]
  · rw [hlast]
    rfl
  · simp [Holed, hfrag]

def receiveAll (app : TcpApp σ) (d : SessionDirect) (pkts : List TcpPacket) (h : Handling σ) :
    Handling σ :=
  pkts.foldl (fun h pkt => processDataPacket app true d pkt h) h

theorem receiveAll_receiving {app : TcpApp σ} {s : List UInt8} {d : SessionDirect}
    {initSeq : ℕ} (happ : AlwaysContinues app d) (hs : s.length < 2 ^ 32)
    (segs : List (StreamSegment s initSeq)) {R : Set ℕ} {h : Handling σ}
    (hR : R ⊆ Set.Iio s.length) (hh : Receiving s d initSeq R h) (hole : Holed d h) :
    Receiving s d initSeq (R ∪ receivedBy segs) (receiveAll app d (segs.map (·.pkt)) h) ∧
      Holed d (receiveAll app d (segs.map (·.pkt)) h) := by
  induction segs generalizing R h with
  | nil =>
    have hempty : receivedBy ([] : List (StreamSegment s initSeq)) = ∅ := by simp [receivedBy]
    rw [hempty, Set.union_empty]
    exact ⟨hh, hole⟩
  | cons seg segs ih =>
    obtain ⟨hh', hole'⟩ := processDataPacket_receiving happ hs seg hR hh hole
    have hR' : R ∪ seg.range ⊆ Set.Iio s.length := by
      rintro i (hi | hi)
      · exact hR hi
      · exact Set.mem_Iio.mpr (lt_of_lt_of_le hi.2 seg.bound)
    have hcons : R ∪ receivedBy (seg :: segs) = R ∪ seg.range ∪ receivedBy segs := by
      ext i
      simp [receivedBy, or_assoc]
    rw [hcons]
    exact ih hR' hh' hole'

/-- Reassembly delivers exactly the longest covered prefix of the stream. -/
theorem receiveAll_delivers (app : TcpApp σ) (sreq : TcpSessionRequest) (sentry : σ)
    (d : SessionDirect) (s : List UInt8) (hs : s.length < 2 ^ 32) (happ : AlwaysContinues app d)
    (segs : List (StreamSegment s (sreqInitSeq sreq d))) :
    let h := receiveAll app d (segs.map (·.pkt)) (receiveStart sreq sentry d)
    let L := (h.session.endpoint d).lastOffset
    delivered d h.log = s.take L ∧
      IsGreatest {k | k ≤ s.length ∧ Set.Iio k ⊆ receivedBy segs} L := by
  obtain ⟨hh, hole⟩ := receiveStart_receiving s sreq sentry d
  obtain ⟨hr, hhole⟩ := receiveAll_receiving happ hs segs (Set.empty_subset _) hh hole
  rw [Set.empty_union] at hr
  refine ⟨hr.out, isGreatest_prefix_covered hr.bound ?_ ?_⟩
  · exact fun i hi => hr.received ▸ Or.inl hi
  · rw [← hr.received]
    rintro (hlt | ⟨f, hf, hi⟩)
    · exact lt_irrefl _ (Set.mem_Iio.mp hlt)
    · exact absurd hi.1 (not_le.mpr (hhole f hf))

def countingApp : TcpApp ℕ :=
  { requestContentParse := some fun n _ => (.parseContinue, n + 1)
    responseContentParse := some fun n _ => (.parseContinue, n + 1) }

theorem countingApp_continues (d : SessionDirect) : AlwaysContinues countingApp d := by
  cases d <;> exact ⟨_, rfl, fun _ _ => rfl⟩

def wrapRequest : TcpSessionRequest :=
  { isIpv6 := false, reqIp := 1, resIp := 2, srcAddr := 0, dstAddr := 0, reqPort := 1024
    resPort := 80, reqSnInit := 2 ^ 32 - 1, resSnInit := 7 }

def wrapSegment (offset : ℕ) (h : offset < 3) :
    StreamSegment [10, 20, 30] (sreqInitSeq wrapRequest .req) where
  pkt :=
    { isIpv6 := false, srcIp := 1, dstIp := 2, srcAddr := 0, dstAddr := 0, srcPort := 1024
      dstPort := 80, tcpFlags := 0x10, sentSeq := (2 ^ 32 - 1 + offset) % 2 ^ 32, recvAck := 7
      payloadLen := 1, pdata := some (slice [10, 20, 30] offset (offset + 1)) }
  offset := offset
  len := 1
  len_pos := Nat.one_pos
  bound := by
    change offset + 1 ≤ 3
    omega
  seq_eq := rfl
  len_eq := rfl
  data_eq := rfl

theorem receiveAll_delivers_wrap :
    let h := receiveAll countingApp .req
      ([wrapSegment 1 (by decide), wrapSegment 2 (by decide), wrapSegment 1 (by decide),
        wrapSegment 0 (by decide)].map (·.pkt)) (receiveStart wrapRequest 0 .req)
    (h.session.endpoint .req).lastOffset = 3 ∧ delivered .req h.log = [10, 20, 30] := by
  have h := receiveAll_delivers countingApp wrapRequest 0 .req [10, 20, 30] (by decide)
    (countingApp_continues .req)
    [wrapSegment 1 (by decide), wrapSegment 2 (by decide), wrapSegment 1 (by decide),
      wrapSegment 0 (by decide)]
  have hL : ((receiveAll countingApp .req
      ([wrapSegment 1 (by decide), wrapSegment 2 (by decide), wrapSegment 1 (by decide),
        wrapSegment 0 (by decide)].map (·.pkt))
      (receiveStart wrapRequest 0 .req)).session.endpoint .req).lastOffset = 3 := by decide
  refine ⟨hL, ?_⟩
  rw [h.1, hL]
  rfl

end CloudHands.Tcp

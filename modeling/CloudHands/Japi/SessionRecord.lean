import CloudHands.Japi.DataInput
import CloudHands.Shm.SessionRecord

/-!
# Session records read by the Java side

The constructors `TCPSession(DataInput)` and `UDPSession(DataInput)` on the bytes that the
C writers put into the record. An IPv4 address is read with the signed `readInt`, so it
comes out unsigned only below 2^31.
-/

namespace CloudHands.Japi

open Lib Lib.TokenReader Word DataInput Shm

structure ByteData where
  dataSize : ℤ
  data : List UInt8

structure Longs where
  sessionID : ℤ
  reqPackets : ℤ
  resPackets : ℤ
  reqBytes : ℤ
  resBytes : ℤ
  reqStartTime : ℤ
  reqLastTime : ℤ
  resStartTime : ℤ
  resLastTime : ℤ

/-- The peers of a `SessionEntry`; an address array that is not set is null. -/
structure Peers where
  reqPort : ℕ
  resPort : ℕ
  isIPV6 : Bool
  reqIP : ℤ
  resIP : ℤ
  reqAddr : Option (List UInt8)
  resAddr : Option (List UInt8)

structure UDPSession extends Peers, Longs where
  timeout : Bool
  timeoutTV : ℕ
  reqContent : ByteData
  resContent : ByteData

structure TCPSession extends UDPSession where
  phaseState : ℕ

def readBytes : DataInput (List UInt8) := Prod.snd <$> readSized

def readByteData : DataInput ByteData := do
  let (dataSize, data) ← readSized
  pure ⟨dataSize, data⟩

def readAddrs (reqPort resPort : ℕ) (isIPV6 : Bool) : DataInput Peers :=
  if isIPV6 then do
    let reqAddr ← readBytes
    let resAddr ← readBytes
    pure ⟨reqPort, resPort, isIPV6, 0, 0, some reqAddr, some resAddr⟩
  else do
    let reqIP ← readInt
    let resIP ← readInt
    pure ⟨reqPort, resPort, isIPV6, reqIP, resIP, none, none⟩

def readPeers : DataInput Peers := do
  let reqPort ← readUnsignedShort
  let resPort ← readUnsignedShort
  let family ← readUnsignedByte
  readAddrs reqPort resPort (family == 1)

def readLongs : DataInput Longs := do
  let sessionID ← readLong
  let reqPackets ← readLong
  let resPackets ← readLong
  let reqBytes ← readLong
  let resBytes ← readLong
  let reqStartTime ← readLong
  let reqLastTime ← readLong
  let resStartTime ← readLong
  let resLastTime ← readLong
  pure ⟨sessionID, reqPackets, resPackets, reqBytes, resBytes, reqStartTime, reqLastTime,
    resStartTime, resLastTime⟩

def readBody (timeout : Bool) (timeoutTV : ℕ) : DataInput UDPSession := do
  let peers ← readPeers
  let longs ← readLongs
  let reqContent ← readByteData
  let resContent ← readByteData
  pure { toPeers := peers, toLongs := longs, timeout, timeoutTV, reqContent, resContent }

def udpSession : DataInput UDPSession := do
  let timeout ← readUnsignedByte
  let timeoutTV ← readUnsignedShort
  readBody (timeout != 0) timeoutTV

def tcpSession : DataInput TCPSession := do
  let timeout ← readUnsignedByte
  let timeoutTV ← readUnsignedShort
  let phaseState ← readUnsignedShort
  let body ← readBody (timeout != 0) timeoutTV
  pure { body with phaseState }

def Bits63 (s : SessionCounters) : Prop :=
  s.sessionId.toNat < 2 ^ 63 ∧ s.reqPackets.toNat < 2 ^ 63 ∧ s.resPackets.toNat < 2 ^ 63 ∧
    s.reqBytes.toNat < 2 ^ 63 ∧ s.resBytes.toNat < 2 ^ 63 ∧ s.reqStartTime.toNat < 2 ^ 63 ∧
    s.reqLastTime.toNat < 2 ^ 63 ∧ s.resStartTime.toNat < 2 ^ 63 ∧ s.resLastTime.toNat < 2 ^ 63

instance (s : SessionCounters) : Decidable (Bits63 s) := by
  unfold Bits63
  infer_instance

def longsOf (s : SessionCounters) : Longs :=
  ⟨s.sessionId.toNat, s.reqPackets.toNat, s.resPackets.toNat, s.reqBytes.toNat, s.resBytes.toNat,
    s.reqStartTime.toNat, s.reqLastTime.toNat, s.resStartTime.toNat, s.resLastTime.toNat⟩

/-- The addresses of the family in use are the same, an IPv4 address as its unsigned value. -/
structure Peers.Same (got : Peers) (s : SessionPeers Ipv6Addr) : Prop where
  reqPort : got.reqPort = s.srcPort.toNat
  resPort : got.resPort = s.dstPort.toNat
  isIPV6 : got.isIPV6 = (s.isIpv6 != 0)
  ipv6 : s.isIpv6 ≠ 0 → got.reqAddr = some s.srcAddr.1 ∧ got.resAddr = some s.dstAddr.1
  ipv4 : s.isIpv6 = 0 → got.reqIP = s.srcIp.toNat ∧ got.resIP = s.dstIp.toNat

structure UDPSession.Same (got : UDPSession) (s : PacketRecordSessionUdp Ipv6Addr (List UInt8)) :
    Prop where
  timeout : got.timeout = (s.isTimeout != 0)
  timeoutTV : got.timeoutTV = s.timeoutTv.toNat
  peers : got.toPeers.Same s.toSessionPeers
  longs : got.toLongs = longsOf s.toSessionCounters
  reqContent : got.reqContent = ⟨s.reqData.length, s.reqData⟩
  resContent : got.resContent = ⟨s.resData.length, s.resData⟩

/-- The Java constructor gets the session back and consumes all bytes. -/
def UdpAgrees (s : PacketRecordSessionUdp Ipv6Addr (List UInt8)) (written : List UInt8) : Prop :=
  ∃ v, udpSession.run written = some (v, []) ∧ v.Same s

def TcpAgrees (s : PacketRecordSessionTcp Ipv6Addr (List UInt8)) (written : List UInt8) : Prop :=
  ∃ v, tcpSession.run written = some (v, []) ∧ v.Same s.toPacketRecordSessionUdp ∧
    v.phaseState = s.phaseState.toNat

/-- The addresses that the Java side can represent: the family byte is one of the two that it
tells apart, and the IPv4 addresses have their top bit clear. -/
def Representable (s : SessionPeers Ipv6Addr) : Prop :=
  s.isIpv6 = 1 ∨ s.isIpv6 = 0 ∧ s.srcIp.toNat < 2 ^ 31 ∧ s.dstIp.toNat < 2 ^ 31

theorem yields_longs {s : SessionCounters} (h : Bits63 s) :
    Yields readLongs (countersBytes s) (longsOf s) := by
  obtain ⟨h₁, h₂, h₃, h₄, h₅, h₆, h₇, h₈, h₉⟩ := h
  exact (yields_long h₁).bind <| (yields_long h₂).bind <| (yields_long h₃).bind <|
    (yields_long h₄).bind <| (yields_long h₅).bind <| (yields_long h₆).bind <|
    (yields_long h₇).bind <| (yields_long h₈).bind <| (yields_long h₉).bind_pure (yields_pure _)

theorem yields_byteData {bs : List UInt8} (h : bs.length < 2 ^ 31) :
    Yields readByteData (bigEndian 8 bs.length ++ bs) ⟨bs.length, bs⟩ :=
  (yields_sized h).bind_pure (yields_pure _)

theorem guarantees_byteData : Guarantees readByteData fun b => b.data.length < 2 ^ 31 :=
  guarantees_sized.bind fun _ h => guarantees_pure h

theorem yields_ipv6 (a : Ipv6Addr) : Yields readBytes (bigEndian 8 a.1.length ++ a.1) a.1 :=
  (yields_sized (by simp [a.2])).map Prod.snd

def peersOf (s : SessionPeers Ipv6Addr) : Peers :=
  if s.isIpv6 = 1 then
    ⟨s.srcPort.toNat, s.dstPort.toNat, true, 0, 0, some s.srcAddr.1, some s.dstAddr.1⟩
  else
    ⟨s.srcPort.toNat, s.dstPort.toNat, false, signed 32 s.srcIp.toNat, signed 32 s.dstIp.toNat,
      none, none⟩

theorem yields_addrs {s : SessionPeers Ipv6Addr} (h : s.isIpv6 = 0 ∨ s.isIpv6 = 1) :
    Yields (readAddrs s.srcPort.toNat s.dstPort.toNat (s.isIpv6.toNat == 1)) (addrBytes s)
      (peersOf s) := by
  rcases h with hfamily | hfamily
  · simp only [addrBytes, peersOf, hfamily]
    exact (yields_int s.srcIp).bind ((yields_int s.dstIp).bind_pure (yields_pure _))
  · simp only [addrBytes, peersOf, hfamily]
    exact (yields_ipv6 s.srcAddr).bind ((yields_ipv6 s.dstAddr).bind_pure (yields_pure _))

theorem yields_peers {s : SessionPeers Ipv6Addr} (h : s.isIpv6 = 0 ∨ s.isIpv6 = 1) :
    Yields readPeers (peersBytes s) (peersOf s) :=
  (yields_uint16 s.srcPort).bind <| (yields_uint16 s.dstPort).bind <|
    (yields_uint8 s.isIpv6).bind (yields_addrs h)

theorem peersOf_same_iff {s : SessionPeers Ipv6Addr} (h : s.isIpv6 = 0 ∨ s.isIpv6 = 1) :
    (peersOf s).Same s ↔ Representable s := by
  rcases h with hfamily | hfamily
  · have hpeers : peersOf s = ⟨s.srcPort.toNat, s.dstPort.toNat, false, signed 32 s.srcIp.toNat,
        signed 32 s.dstIp.toNat, none, none⟩ := by simp [peersOf, hfamily]
    rw [hpeers]
    constructor
    · intro hsame
      obtain ⟨hsrc, hdst⟩ := hsame.ipv4 hfamily
      exact .inr ⟨hfamily, signed_eq_iff.1 hsrc, signed_eq_iff.1 hdst⟩
    · rintro (hone | ⟨-, hsrc, hdst⟩)
      · simp [hfamily] at hone
      exact ⟨rfl, rfl, by simp [hfamily], fun hne => absurd hfamily hne,
        fun _ => ⟨signed_of_lt hsrc, signed_of_lt hdst⟩⟩
  · have hpeers : peersOf s = ⟨s.srcPort.toNat, s.dstPort.toNat, true, 0, 0, some s.srcAddr.1,
        some s.dstAddr.1⟩ := by simp [peersOf, hfamily]
    rw [hpeers]
    exact ⟨fun _ => .inl hfamily, fun _ => ⟨rfl, rfl, by simp [hfamily], fun _ => ⟨rfl, rfl⟩,
      fun hzero => by simp [hfamily] at hzero⟩⟩

theorem readPeers_isIPV6 {s : SessionPeers Ipv6Addr} {rest rest' : List UInt8} {p : Peers}
    (h : readPeers.run (peersBytes s ++ rest) = some (p, rest')) :
    p.isIPV6 = (s.isIpv6.toNat == 1) := by
  have haddrs : ∀ isIPV6, Guarantees (readAddrs s.srcPort.toNat s.dstPort.toNat isIPV6)
      fun p => p.isIPV6 = isIPV6 := by
    intro isIPV6
    rw [readAddrs]
    split
    all_goals
      exact (guarantees_true _).bind fun _ _ => (guarantees_true _).bind fun _ _ =>
        guarantees_pure rfl
  simp only [peersBytes, List.append_assoc] at h
  rw [readPeers, (yields_uint16 _).bind_run, (yields_uint16 _).bind_run,
    (yields_uint8 _).bind_run] at h
  exact haddrs _ h

theorem isIpv6_toNat_eq_one {f : UInt8} : f.toNat = 1 ↔ f = 1 := by
  rw [← UInt8.toNat_inj]
  rfl

def bodyOf (s : PacketRecordSessionUdp Ipv6Addr (List UInt8)) : UDPSession where
  toPeers := peersOf s.toSessionPeers
  toLongs := longsOf s.toSessionCounters
  timeout := s.isTimeout.toNat != 0
  timeoutTV := s.timeoutTv.toNat
  reqContent := ⟨s.reqData.length, s.reqData⟩
  resContent := ⟨s.resData.length, s.resData⟩

theorem yields_body {s : PacketRecordSessionUdp Ipv6Addr (List UInt8)}
    (hfamily : s.isIpv6 = 0 ∨ s.isIpv6 = 1) (h63 : Bits63 s.toSessionCounters)
    (hreq : s.reqData.length < 2 ^ 31) (hres : s.resData.length < 2 ^ 31) :
    Yields (readBody (s.isTimeout.toNat != 0) s.timeoutTv.toNat) (bodyBytes s) (bodyOf s) :=
  (yields_peers hfamily).bind <| (yields_longs h63).bind <|
    (yields_byteData hreq).bind <| (yields_byteData hres).bind_pure (yields_pure _)

theorem readBody_agrees_iff {s : PacketRecordSessionUdp Ipv6Addr (List UInt8)}
    (h63 : Bits63 s.toSessionCounters) :
    (∃ v, (readBody (s.isTimeout.toNat != 0) s.timeoutTv.toNat).run (bodyBytes s) = some (v, []) ∧
        v.Same s) ↔
      Representable s.toSessionPeers ∧ s.reqData.length < 2 ^ 31 ∧ s.resData.length < 2 ^ 31 := by
  constructor
  · rintro ⟨v, hrun, hsame⟩
    obtain ⟨peers, afterPeers, hpeers, hrun⟩ := run_bind_eq_some.1 hrun
    obtain ⟨longs, afterLongs, -, hrun⟩ := run_bind_eq_some.1 hrun
    obtain ⟨req, afterReq, hreq, hrun⟩ := run_bind_eq_some.1 hrun
    obtain ⟨res, afterRes, hres, hrun⟩ := run_bind_eq_some.1 hrun
    obtain ⟨rfl, -⟩ := Prod.mk.inj (Option.some.inj hrun)
    have hreqLen : req.data.length < 2 ^ 31 := guarantees_byteData hreq
    have hresLen : res.data.length < 2 ^ 31 := guarantees_byteData hres
    have hreqSame : req = _ := hsame.reqContent
    have hresSame : res = _ := hsame.resContent
    have hfamily : s.isIpv6 = 0 ∨ s.isIpv6 = 1 := by
      have hread := readPeers_isIPV6 hpeers
      have hflag : peers.isIPV6 = (s.isIpv6 != 0) := hsame.peers.isIPV6
      rw [hflag, Bool.eq_iff_iff, bne_iff_ne, beq_iff_eq, isIpv6_toNat_eq_one] at hread
      exact or_iff_not_imp_left.2 hread.1
    have hyield := yields_peers hfamily
      (countersBytes s.toSessionCounters ++
        ((bigEndian 8 s.reqData.length ++ s.reqData) ++
          (bigEndian 8 s.resData.length ++ s.resData)))
    rw [bodyBytes, hyield] at hpeers
    obtain ⟨rfl, -⟩ := Prod.mk.inj (Option.some.inj hpeers)
    rw [hreqSame] at hreqLen
    rw [hresSame] at hresLen
    exact ⟨(peersOf_same_iff hfamily).1 hsame.peers, hreqLen, hresLen⟩
  · rintro ⟨hrep, hreq, hres⟩
    have hfamily : s.isIpv6 = 0 ∨ s.isIpv6 = 1 := by
      rcases hrep with h | ⟨h, -⟩
      exacts [.inr h, .inl h]
    refine ⟨bodyOf s, (yields_body hfamily h63 hreq hres).run, ?_, rfl,
      (peersOf_same_iff hfamily).2 hrep, rfl, rfl, rfl⟩
    change (s.isTimeout.toNat != 0) = (s.isTimeout != 0)
    rw [Bool.eq_iff_iff, bne_iff_ne, bne_iff_ne, ne_eq, ne_eq, ← UInt8.toNat_inj]
    rfl

theorem udpAgrees_iff {s : PacketRecordSessionUdp Ipv6Addr (List UInt8)}
    (h63 : Bits63 s.toSessionCounters) :
    UdpAgrees s (udpBytes s) ↔
      Representable s.toSessionPeers ∧ s.reqData.length < 2 ^ 31 ∧ s.resData.length < 2 ^ 31 := by
  rw [← readBody_agrees_iff h63, UdpAgrees]
  refine exists_congr fun v => and_congr_left fun _ => ?_
  rw [udpBytes, udpSession, (yields_uint8 _).bind_run, (yields_uint16 _).bind_run]

theorem tcpAgrees_iff {s : PacketRecordSessionTcp Ipv6Addr (List UInt8)}
    (h63 : Bits63 s.toSessionCounters) :
    TcpAgrees s (tcpBytes s) ↔
      Representable s.toSessionPeers ∧ s.reqData.length < 2 ^ 31 ∧ s.resData.length < 2 ^ 31 := by
  rw [← readBody_agrees_iff h63, TcpAgrees, tcpBytes, tcpSession, (yields_uint8 _).bind_run,
    (yields_uint16 _).bind_run, (yields_uint16 _).bind_run]
  constructor
  · rintro ⟨v, hrun, hsame, -⟩
    obtain ⟨body, rest, hbody, hrun⟩ := run_bind_eq_some.1 hrun
    obtain ⟨rfl, rfl⟩ := Prod.mk.inj (Option.some.inj hrun)
    exact ⟨body, hbody, hsame⟩
  · rintro ⟨body, hbody, hsame⟩
    exact ⟨{ body with phaseState := s.phaseState.toNat },
      run_bind_eq_some.2 ⟨body, [], hbody, rfl⟩, hsame, rfl⟩

/-- The Java constructors get a record back exactly when its addresses are ones they can
represent and its payloads are no longer than an array. -/
theorem session_records_agree_iff (buffer : List UInt8) :
    (∀ s : PacketRecordSessionTcp Ipv6Addr (List UInt8),
      Bits63 s.toSessionCounters → (tcpBytes s).length ≤ buffer.length →
      (TcpAgrees s (packetRecordSessionTcpWrite s buffer []).content ↔
        Representable s.toSessionPeers ∧ s.reqData.length < 2 ^ 31 ∧ s.resData.length < 2 ^ 31)) ∧
    (∀ s : PacketRecordSessionUdp Ipv6Addr (List UInt8),
      Bits63 s.toSessionCounters → (udpBytes s).length ≤ buffer.length →
      (UdpAgrees s (packetRecordSessionUdpWrite s buffer []).content ↔
        Representable s.toSessionPeers ∧ s.reqData.length < 2 ^ 31 ∧
          s.resData.length < 2 ^ 31)) := by
  constructor
  · intro s h63 hfits
    rw [packetRecordSessionTcpWrite_eq s hfits, BinFormat.content_doWrite_init]
    exact tcpAgrees_iff h63
  · intro s h63 hfits
    rw [packetRecordSessionUdpWrite_eq s hfits, BinFormat.content_doWrite_init]
    exact udpAgrees_iff h63

section Addresses

def sessionFrom (srcIp : UInt32) : PacketRecordSessionTcp Ipv6Addr (List UInt8) where
  srcPort := 40000
  dstPort := 80
  isIpv6 := 0
  srcIp := srcIp
  dstIp := 0x0A000001
  srcAddr := ⟨List.replicate 16 0, rfl⟩
  dstAddr := ⟨List.replicate 16 0, rfl⟩
  sessionId := 1
  reqPackets := 2
  resPackets := 2
  reqBytes := 3
  resBytes := 2
  reqStartTime := 100
  reqLastTime := 101
  resStartTime := 100
  resLastTime := 102
  isTimeout := 0
  timeoutTv := 0
  reqData := [71, 69, 84]
  resData := [79, 75]
  phaseState := 4

theorem sessionFrom_fits (srcIp : UInt32) :
    (tcpBytes (sessionFrom srcIp)).length ≤ (List.replicate 200 (0 : UInt8)).length := by
  simp only [tcpBytes, List.length_append, length_bigEndian, length_bodyBytes,
    List.length_replicate]
  have haddr : addrSize (sessionFrom srcIp).toSessionPeers = 8 := rfl
  have hreq : (sessionFrom srcIp).reqData.length = 3 := rfl
  have hres : (sessionFrom srcIp).resData.length = 2 := rfl
  omega

theorem session_records_agree_low :
    TcpAgrees (sessionFrom 0x7F000001)
      (packetRecordSessionTcpWrite (sessionFrom 0x7F000001) (List.replicate 200 0) []).content :=
  ((session_records_agree_iff (List.replicate 200 0)).1 _ (by decide) (sessionFrom_fits _)).2
    ⟨.inr (by decide), by decide, by decide⟩

/-- The address 128.0.0.0 is read as a negative number. -/
theorem session_record_high_differs :
    ¬ ∀ (s : PacketRecordSessionTcp Ipv6Addr (List UInt8)) (buffer : List UInt8),
      Bits63 s.toSessionCounters → (tcpBytes s).length ≤ buffer.length →
      TcpAgrees s (packetRecordSessionTcpWrite s buffer []).content := by
  intro h
  have hfits := sessionFrom_fits 0x80000000
  have h63 : Bits63 (sessionFrom 0x80000000).toSessionCounters := by decide
  have hagrees := h (sessionFrom 0x80000000) (List.replicate 200 0) h63 hfits
  rw [packetRecordSessionTcpWrite_eq _ hfits, BinFormat.content_doWrite_init,
    tcpAgrees_iff h63] at hagrees
  rcases hagrees.1 with hfamily | ⟨-, hsrc, -⟩
  · exact absurd hfamily (by decide)
  · exact absurd hsrc (by decide)

end Addresses

end CloudHands.Japi

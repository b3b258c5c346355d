import CloudHands.Shm.Layout
import CloudHands.Shm.RecordReading

/-!
# The session records

`lib/shm/ch_packet_record_session_tcp.c` and `lib/shm/ch_packet_record_session_udp.c`: the
data of a packet record is written field by field into a buffer, and read back through a
cursor whose range is the 16-bit `meta_data_size` of the record header.
-/

namespace CloudHands.Shm

open Lib BinFormat

abbrev Ipv6Addr : Type := { bs : List UInt8 // bs.length = 16 }

/-- The fields that name the two sides; `A` is what stands for an address pointer. -/
structure SessionPeers (A : Type) where
  srcPort : UInt16
  dstPort : UInt16
  isIpv6 : UInt8
  srcIp : UInt32
  dstIp : UInt32
  srcAddr : A
  dstAddr : A

structure SessionCounters where
  sessionId : UInt64
  reqPackets : UInt64
  resPackets : UInt64
  reqBytes : UInt64
  resBytes : UInt64
  reqStartTime : UInt64
  reqLastTime : UInt64
  resStartTime : UInt64
  resLastTime : UInt64
deriving DecidableEq

/-- `ch_packet_record_session_udp_t`; `D` is what stands for a data pointer with its size.
To the writer both are the bytes, from the reader both are pointers. -/
structure PacketRecordSessionUdp (A D : Type) extends SessionPeers A, SessionCounters where
  isTimeout : UInt8
  timeoutTv : UInt16
  reqData : D
  resData : D

structure PacketRecordSessionTcp (A D : Type) extends PacketRecordSessionUdp A D where
  phaseState : UInt16

def sessionUdpMetaSize (reqDsize resDsize : ℕ) : ℕ :=
  1 * 2 + 2 * 3 + 4 * 2 + 8 * 9 + 8 * 4 + reqDsize + resDsize + 32

def sessionTcpMetaSize (reqDsize resDsize : ℕ) : ℕ :=
  1 * 2 + 2 * 4 + 4 * 2 + 8 * 9 + 8 * 4 + reqDsize + resDsize + 32

def sessionAddrWrite (bf : BinFormat) (s : SessionPeers Ipv6Addr) : BinFormat :=
  if s.isIpv6 ≠ 0 then
    let bf := bf.bytesWrite s.srcAddr
    bf.bytesWrite s.dstAddr
  else
    let bf := bf.uint32Write s.srcIp
    bf.uint32Write s.dstIp

def sessionPeersWrite (bf : BinFormat) (s : SessionPeers Ipv6Addr) : BinFormat :=
  let bf := bf.uint16Write s.srcPort
  let bf := bf.uint16Write s.dstPort
  let bf := bf.uint8Write s.isIpv6
  sessionAddrWrite bf s

def sessionCountersWrite (bf : BinFormat) (s : SessionCounters) : BinFormat :=
  let bf := bf.uint64Write s.sessionId
  let bf := bf.uint64Write s.reqPackets
  let bf := bf.uint64Write s.resPackets
  let bf := bf.uint64Write s.reqBytes
  let bf := bf.uint64Write s.resBytes
  let bf := bf.uint64Write s.reqStartTime
  let bf := bf.uint64Write s.reqLastTime
  let bf := bf.uint64Write s.resStartTime
  bf.uint64Write s.resLastTime

def sessionBodyWrite (bf : BinFormat) (s : PacketRecordSessionUdp Ipv6Addr (List UInt8)) :
    BinFormat :=
  let bf := sessionPeersWrite bf s.toSessionPeers
  let bf := sessionCountersWrite bf s.toSessionCounters
  let bf := bf.bytesWrite s.reqData
  bf.bytesWrite s.resData

/-- `data` is the optional data of the caller, empty for null. -/
def packetRecordSessionUdpWrite (s : PacketRecordSessionUdp Ipv6Addr (List UInt8))
    (buffer data : List UInt8) : BinFormat :=
  let bf := BinFormat.init buffer
  let bf := bf.uint8Write s.isTimeout
  let bf := bf.uint16Write s.timeoutTv
  let bf := sessionBodyWrite bf s
  if data.isEmpty then bf else bf.bytesWrite data

def packetRecordSessionTcpWrite (s : PacketRecordSessionTcp Ipv6Addr (List UInt8))
    (buffer data : List UInt8) : BinFormat :=
  let bf := BinFormat.init buffer
  let bf := bf.uint8Write s.isTimeout
  let bf := bf.uint16Write s.timeoutTv
  let bf := bf.uint16Write s.phaseState
  let bf := sessionBodyWrite bf s.toPacketRecordSessionUdp
  if data.isEmpty then bf else bf.bytesWrite data

def sessionAddrRead (s : SessionPeers (Option ℕ)) : Reading (SessionPeers (Option ℕ)) :=
  if s.isIpv6 ≠ 0 then do
    let srcAddr ← Reading.bytesRead
    let dstAddr ← Reading.bytesRead
    pure { s with srcAddr := srcAddr.data, dstAddr := dstAddr.data }
  else do
    let srcIp ← Reading.uint32Read
    let dstIp ← Reading.uint32Read
    pure { s with srcIp, dstIp }

def sessionPeersRead (old : SessionPeers (Option ℕ)) : Reading (SessionPeers (Option ℕ)) := do
  let srcPort ← Reading.uint16Read
  let dstPort ← Reading.uint16Read
  let isIpv6 ← Reading.uint8Read
  sessionAddrRead { old with srcPort, dstPort, isIpv6 }

def sessionCountersRead : Reading SessionCounters := do
  let sessionId ← Reading.uint64Read
  let reqPackets ← Reading.uint64Read
  let resPackets ← Reading.uint64Read
  let reqBytes ← Reading.uint64Read
  let resBytes ← Reading.uint64Read
  let reqStartTime ← Reading.uint64Read
  let reqLastTime ← Reading.uint64Read
  let resStartTime ← Reading.uint64Read
  let resLastTime ← Reading.uint64Read
  pure ⟨sessionId, reqPackets, resPackets, reqBytes, resBytes, reqStartTime, reqLastTime,
    resStartTime, resLastTime⟩

def sessionBodyRead (old : SessionPeers (Option ℕ)) (isTimeout : UInt8) (timeoutTv : UInt16) :
    Reading (PacketRecordSessionUdp (Option ℕ) DataSlice) := do
  let peers ← sessionPeersRead old
  let counters ← sessionCountersRead
  let reqData ← Reading.bytesRead
  let resData ← Reading.bytesRead
  pure
    { toSessionPeers := peers
      toSessionCounters := counters
      isTimeout, timeoutTv, reqData, resData }

/-- `old` is what stood in the address fields before: those of the other family stay. -/
def packetRecordSessionUdpRead (old : SessionPeers (Option ℕ)) :
    Reading (PacketRecordSessionUdp (Option ℕ) DataSlice) := do
  let isTimeout ← Reading.uint8Read
  let timeoutTv ← Reading.uint16Read
  sessionBodyRead old isTimeout timeoutTv

def packetRecordSessionTcpRead (old : SessionPeers (Option ℕ)) :
    Reading (PacketRecordSessionTcp (Option ℕ) DataSlice) := do
  let isTimeout ← Reading.uint8Read
  let timeoutTv ← Reading.uint16Read
  let phaseState ← Reading.uint16Read
  let body ← sessionBodyRead old isTimeout timeoutTv
  pure { body with phaseState }

def addrBytes (s : SessionPeers Ipv6Addr) : List UInt8 :=
  if s.isIpv6 ≠ 0 then
    (bigEndian 8 s.srcAddr.1.length ++ s.srcAddr) ++ (bigEndian 8 s.dstAddr.1.length ++ s.dstAddr)
  else bigEndian 4 s.srcIp.toNat ++ bigEndian 4 s.dstIp.toNat

def peersBytes (s : SessionPeers Ipv6Addr) : List UInt8 :=
  bigEndian 2 s.srcPort.toNat ++ (bigEndian 2 s.dstPort.toNat ++
    (bigEndian 1 s.isIpv6.toNat ++ addrBytes s))

def countersBytes (s : SessionCounters) : List UInt8 :=
  bigEndian 8 s.sessionId.toNat ++ (bigEndian 8 s.reqPackets.toNat ++
    (bigEndian 8 s.resPackets.toNat ++ (bigEndian 8 s.reqBytes.toNat ++
      (bigEndian 8 s.resBytes.toNat ++ (bigEndian 8 s.reqStartTime.toNat ++
        (bigEndian 8 s.reqLastTime.toNat ++ (bigEndian 8 s.resStartTime.toNat ++
          bigEndian 8 s.resLastTime.toNat)))))))

def bodyBytes (s : PacketRecordSessionUdp Ipv6Addr (List UInt8)) : List UInt8 :=
  peersBytes s.toSessionPeers ++ (countersBytes s.toSessionCounters ++
    ((bigEndian 8 s.reqData.length ++ s.reqData) ++ (bigEndian 8 s.resData.length ++ s.resData)))

def udpBytes (s : PacketRecordSessionUdp Ipv6Addr (List UInt8)) : List UInt8 :=
  bigEndian 1 s.isTimeout.toNat ++ (bigEndian 2 s.timeoutTv.toNat ++ bodyBytes s)

def tcpBytes (s : PacketRecordSessionTcp Ipv6Addr (List UInt8)) : List UInt8 :=
  bigEndian 1 s.isTimeout.toNat ++ (bigEndian 2 s.timeoutTv.toNat ++
    (bigEndian 2 s.phaseState.toNat ++ bodyBytes s.toPacketRecordSessionUdp))

def addrSize (s : SessionPeers Ipv6Addr) : ℕ := if s.isIpv6 ≠ 0 then 48 else 8

theorem length_addrBytes (s : SessionPeers Ipv6Addr) : (addrBytes s).length = addrSize s := by
  rw [addrBytes, addrSize]
  split
  · simp [s.srcAddr.2, s.dstAddr.2]
  · simp

theorem length_bodyBytes (s : PacketRecordSessionUdp Ipv6Addr (List UInt8)) :
    (bodyBytes s).length = 93 + addrSize s.toSessionPeers + s.reqData.length +
      s.resData.length := by
  simp only [bodyBytes, peersBytes, countersBytes, List.length_append, length_bigEndian,
    length_addrBytes]
  omega

theorem writes_addr (s : SessionPeers Ipv6Addr) :
    Writes (fun bf => sessionAddrWrite bf s) (addrBytes s) := by
  rw [addrBytes]
  simp only [sessionAddrWrite, uint32Write]
  split
  · exact (writes_bytes s.srcAddr.1).comp (writes_bytes s.dstAddr.1)
  · exact (writes_value 4 s.srcIp.toNat).comp (writes_value 4 s.dstIp.toNat)

theorem writes_peers (s : SessionPeers Ipv6Addr) :
    Writes (fun bf => sessionPeersWrite bf s) (peersBytes s) := by
  have hall := (writes_value 2 s.srcPort.toNat).comp ((writes_value 2 s.dstPort.toNat).comp
    ((writes_value 1 s.isIpv6.toNat).comp (writes_addr s)))
  simpa only [sessionPeersWrite, peersBytes, uint8Write, uint16Write] using hall

theorem writes_counters (s : SessionCounters) :
    Writes (fun bf => sessionCountersWrite bf s) (countersBytes s) := by
  have htimes := (writes_value 8 s.reqStartTime.toNat).comp
      ((writes_value 8 s.reqLastTime.toNat).comp
    ((writes_value 8 s.resStartTime.toNat).comp (writes_value 8 s.resLastTime.toNat)))
  have hall := (writes_value 8 s.sessionId.toNat).comp ((writes_value 8 s.reqPackets.toNat).comp
    ((writes_value 8 s.resPackets.toNat).comp ((writes_value 8 s.reqBytes.toNat).comp
      ((writes_value 8 s.resBytes.toNat).comp htimes))))
  simpa only [sessionCountersWrite, countersBytes, uint64Write] using hall

theorem writes_body (s : PacketRecordSessionUdp Ipv6Addr (List UInt8)) :
    Writes (fun bf => sessionBodyWrite bf s) (bodyBytes s) := by
  have hall := (writes_peers s.toSessionPeers).comp ((writes_counters s.toSessionCounters).comp
    ((writes_bytes s.reqData).comp (writes_bytes s.resData)))
  simpa only [sessionBodyWrite, bodyBytes] using hall

theorem packetRecordSessionUdpWrite_eq (s : PacketRecordSessionUdp Ipv6Addr (List UInt8))
    {buffer : List UInt8} (h : (udpBytes s).length ≤ buffer.length) :
    packetRecordSessionUdpWrite s buffer [] = (BinFormat.init buffer).doWrite (udpBytes s) := by
  have hall := (writes_value 1 s.isTimeout.toNat).comp
    ((writes_value 2 s.timeoutTv.toNat).comp (writes_body s))
  have hfits : (BinFormat.init buffer).Fits (udpBytes s).length := by
    simpa [Fits, BinFormat.init] using h
  simpa only [packetRecordSessionUdpWrite, udpBytes, uint8Write, uint16Write, List.isEmpty_nil,
    if_true] using hall _ hfits

theorem packetRecordSessionTcpWrite_eq (s : PacketRecordSessionTcp Ipv6Addr (List UInt8))
    {buffer : List UInt8} (h : (tcpBytes s).length ≤ buffer.length) :
    packetRecordSessionTcpWrite s buffer [] = (BinFormat.init buffer).doWrite (tcpBytes s) := by
  have hall := (writes_value 1 s.isTimeout.toNat).comp ((writes_value 2 s.timeoutTv.toNat).comp
    ((writes_value 2 s.phaseState.toNat).comp (writes_body s.toPacketRecordSessionUdp)))
  have hfits : (BinFormat.init buffer).Fits (tcpBytes s).length := by
    simpa [Fits, BinFormat.init] using h
  simpa only [packetRecordSessionTcpWrite, tcpBytes, uint8Write, uint16Write, List.isEmpty_nil,
    if_true] using hall _ hfits

/-- The address fields of the family in use say the same; the others are not transferred. -/
structure SessionPeers.Same (mem : Memory) (got : SessionPeers (Option ℕ))
    (s : SessionPeers Ipv6Addr) : Prop where
  srcPort : got.srcPort = s.srcPort
  dstPort : got.dstPort = s.dstPort
  isIpv6 : got.isIpv6 = s.isIpv6
  ipv6 : s.isIpv6 ≠ 0 → (∃ p, got.srcAddr = some p ∧ mem.read p 16 = s.srcAddr) ∧
    ∃ p, got.dstAddr = some p ∧ mem.read p 16 = s.dstAddr
  ipv4 : s.isIpv6 = 0 → got.srcIp = s.srcIp ∧ got.dstIp = s.dstIp

structure PacketRecordSessionUdp.Same (mem : Memory)
    (got : PacketRecordSessionUdp (Option ℕ) DataSlice)
    (s : PacketRecordSessionUdp Ipv6Addr (List UInt8)) : Prop where
  isTimeout : got.isTimeout = s.isTimeout
  timeoutTv : got.timeoutTv = s.timeoutTv
  peers : got.toSessionPeers.Same mem s.toSessionPeers
  counters : got.toSessionCounters = s.toSessionCounters
  reqData : got.reqData.Holds mem s.reqData
  resData : got.resData.Holds mem s.resData

section Readers

open CloudHands.Shm.Reading

variable {mem : Memory}

theorem within_addr (s : SessionPeers (Option ℕ)) : (sessionAddrRead s).Within 8 := by
  rw [sessionAddrRead]
  split
  · exact (within_bytes 4).bind fun _ => (within_bytes 4).bind fun _ => within_pure _ 0
  · exact within_uint32.bind fun _ => within_uint32.bind fun _ => within_pure _ 0

theorem within_counters : sessionCountersRead.Within 72 :=
  within_uint64.bind fun _ => within_uint64.bind fun _ => within_uint64.bind fun _ =>
    within_uint64.bind fun _ => within_uint64.bind fun _ => within_uint64.bind fun _ =>
    within_uint64.bind fun _ => within_uint64.bind fun _ => within_uint64.bind fun _ =>
    within_pure _ 0

theorem within_peers (old : SessionPeers (Option ℕ)) : (sessionPeersRead old).Within 13 :=
  within_uint16.bind fun _ => within_uint16.bind fun _ => within_uint8.bind fun _ => within_addr _

theorem within_body (old : SessionPeers (Option ℕ)) (isTimeout : UInt8) (timeoutTv : UInt16) :
    (sessionBodyRead old isTimeout timeoutTv).Within 85 :=
  (within_peers old).bind fun _ => within_counters.bind fun _ => (within_bytes 0).bind fun _ =>
    (within_bytes 0).bind fun _ => within_pure _ 0

theorem decodes_addr (s : SessionPeers Ipv6Addr) {p : SessionPeers (Option ℕ)}
    (hsrc : p.srcPort = s.srcPort) (hdst : p.dstPort = s.dstPort) (hfamily : p.isIpv6 = s.isIpv6) :
    ∃ n ≤ (addrBytes s).length,
      Decodes mem (sessionAddrRead p) (·.Same mem s) (addrBytes s) n := by
  have hsrcLen := s.srcAddr.2
  have hdstLen := s.dstAddr.2
  rw [length_addrBytes, sessionAddrRead, addrBytes, addrSize, hfamily]
  split
  case isTrue hipv6 =>
    refine ⟨(bigEndian 8 s.srcAddr.1.length ++ s.srcAddr.1).length + 8, by simp [hsrcLen], ?_⟩
    refine (decodes_bytes (by omega)).bind (w := 0) (by simp) ?_ (by simp) ?_
    · exact fun _ => (within_bytes 0).bind fun _ => within_pure _ 0
    rintro _ ⟨src, rfl, hsrcRead⟩
    refine (decodes_bytes (by omega)).map ?_
    rintro _ ⟨dst, rfl, hdstRead⟩
    rw [hsrcLen] at hsrcRead
    rw [hdstLen] at hdstRead
    exact ⟨hsrc, hdst, rfl, fun _ => ⟨⟨src, rfl, hsrcRead⟩, ⟨dst, rfl, hdstRead⟩⟩,
      fun h => absurd h hipv6⟩
  case isFalse hipv4 =>
    refine ⟨4 + 4, le_rfl, decodes_uint32_bind (n := 8) ?_ (by simp) fun _ => ?_⟩
    · exact within_uint32.bind fun _ => within_uint32.bind fun _ => within_pure _ 0
    refine (decodes_uint32 _).map ?_
    rintro _ rfl
    exact ⟨hsrc, hdst, rfl, fun h => absurd h hipv4, fun _ => ⟨rfl, rfl⟩⟩

theorem decodes_peers (s : SessionPeers Ipv6Addr) (old : SessionPeers (Option ℕ)) :
    ∃ n ≤ (peersBytes s).length,
      Decodes mem (sessionPeersRead old) (·.Same mem s) (peersBytes s) n := by
  have hmin : 8 ≤ (addrBytes s).length := by
    rw [length_addrBytes, addrSize]
    split <;> omega
  obtain ⟨n, hn, haddr⟩ : ∃ n ≤ (addrBytes s).length, Decodes mem (sessionAddrRead
      { old with srcPort := s.srcPort, dstPort := s.dstPort, isIpv6 := s.isIpv6 })
      (·.Same mem s) (addrBytes s) n := decodes_addr s rfl rfl rfl
  rw [peersBytes]
  refine ⟨2 + (2 + (1 + n)), by simpa using hn, ?_⟩
  exact decodes_uint16_bind (within_peers old) (by simp; omega) fun hw =>
    decodes_uint16_bind hw (by simp; omega) fun hw =>
      decodes_uint8_bind hw (by simp; omega) fun _ => haddr

theorem decodes_counters (s : SessionCounters) :
    Decodes mem sessionCountersRead (· = s) (countersBytes s)
      (8 + (8 + (8 + (8 + (8 + (8 + (8 + (8 + 8)))))))) := by
  refine decodes_uint64_bind within_counters (by simp) fun hw =>
    decodes_uint64_bind hw (by simp) fun hw => decodes_uint64_bind hw (by simp) fun hw =>
    decodes_uint64_bind hw (by simp) fun hw => decodes_uint64_bind hw (by simp) fun hw =>
    decodes_uint64_bind hw (by simp) fun hw => decodes_uint64_bind hw (by simp) fun hw =>
    decodes_uint64_bind hw (by simp) fun hw => (decodes_uint64 _).map ?_
  rintro _ rfl
  rfl

def bodyNeed (s : PacketRecordSessionUdp Ipv6Addr (List UInt8)) : ℕ :=
  93 + addrSize s.toSessionPeers + s.reqData.length

theorem decodes_body (s : PacketRecordSessionUdp Ipv6Addr (List UInt8))
    (hreq : s.reqData.length < 256 ^ 8) (hres : s.resData.length < 256 ^ 8)
    (old : SessionPeers (Option ℕ)) :
    Decodes mem (sessionBodyRead old s.isTimeout s.timeoutTv) (·.Same mem s) (bodyBytes s)
      (bodyNeed s) := by
  obtain ⟨n, hn, hpeers⟩ : ∃ n ≤ (peersBytes s.toSessionPeers).length, Decodes mem
      (sessionPeersRead old) (·.Same mem s.toSessionPeers) (peersBytes s.toSessionPeers) n :=
    decodes_peers s.toSessionPeers old
  have hneed : bodyNeed s = (peersBytes s.toSessionPeers).length +
      ((countersBytes s.toSessionCounters).length +
        ((bigEndian 8 s.reqData.length ++ s.reqData).length + 8)) := by
    simp only [bodyNeed, peersBytes, countersBytes, List.length_append, length_bigEndian,
      length_addrBytes]
    omega
  rw [hneed, bodyBytes]
  refine hpeers.bind (w := 72) hn ?_ (by simp [countersBytes]; omega) ?_
  · exact fun _ => within_counters.bind fun _ => (within_bytes 0).bind fun _ =>
      (within_bytes 0).bind fun _ => within_pure _ 0
  intro peers hsame
  refine (decodes_counters _).bind (w := 0) (by simp [countersBytes]) ?_ (by simp) ?_
  · exact fun _ => (within_bytes 0).bind fun _ => (within_bytes 0).bind fun _ => within_pure _ 0
  rintro _ rfl
  refine (decodes_bytes hreq).bind (w := 0) (by simp) ?_ (by simp) ?_
  · exact fun _ => (within_bytes 0).bind fun _ => within_pure _ 0
  intro req hreqHolds
  refine (decodes_bytes hres).map ?_
  intro res hresHolds
  exact ⟨rfl, rfl, hsame, rfl, hreqHolds, hresHolds⟩

theorem decodes_udp (s : PacketRecordSessionUdp Ipv6Addr (List UInt8))
    (hreq : s.reqData.length < 256 ^ 8) (hres : s.resData.length < 256 ^ 8)
    (old : SessionPeers (Option ℕ)) :
    Decodes mem (packetRecordSessionUdpRead old) (·.Same mem s) (udpBytes s)
      (1 + (2 + bodyNeed s)) := by
  have hlen := length_bodyBytes s
  have hw : (packetRecordSessionUdpRead old).Within 88 :=
    within_uint8.bind fun _ => within_uint16.bind fun _ => within_body old _ _
  exact decodes_uint8_bind hw (by simp [hlen]; omega) fun hw =>
    decodes_uint16_bind hw (by omega) fun _ => decodes_body s hreq hres old

theorem decodes_tcp (s : PacketRecordSessionTcp Ipv6Addr (List UInt8))
    (hreq : s.reqData.length < 256 ^ 8) (hres : s.resData.length < 256 ^ 8)
    (old : SessionPeers (Option ℕ)) :
    Decodes mem (packetRecordSessionTcpRead old)
      (fun got => got.toPacketRecordSessionUdp.Same mem s.toPacketRecordSessionUdp ∧
        got.phaseState = s.phaseState)
      (tcpBytes s) (1 + (2 + (2 + bodyNeed s.toPacketRecordSessionUdp))) := by
  have hlen := length_bodyBytes s.toPacketRecordSessionUdp
  have hw : (packetRecordSessionTcpRead old).Within 90 :=
    within_uint8.bind fun _ => within_uint16.bind fun _ => within_uint16.bind fun _ =>
      (within_body old _ _).bind fun _ => within_pure _ 0
  exact decodes_uint8_bind hw (by simp [hlen]; omega) fun hw =>
    decodes_uint16_bind hw (by simp [hlen]; omega) fun hw =>
      decodes_uint16_bind hw (by omega) fun _ =>
        (decodes_body s.toPacketRecordSessionUdp hreq hres old).map fun _ h => ⟨h, rfl⟩

end Readers

/-- `ch_buffer_need_update` and `ch_buffer_update`; what is in a new buffer does not matter. -/
def bufferUpdate (buffer : List UInt8) (nsize : ℕ) : List UInt8 :=
  if buffer.length < nsize then List.replicate nsize 0 else buffer

/-- The record that `_tcp_session_out` makes of a session. -/
def tcpSessionOut (buffer : List UInt8) (s : PacketRecordSessionTcp Ipv6Addr (List UInt8)) :
    PacketRecord × List UInt8 :=
  let metaDataSize := sessionTcpMetaSize s.reqData.length s.resData.length
  let bf := packetRecordSessionTcpWrite s (bufferUpdate buffer metaDataSize) []
  (⟨1, UInt16.ofNat metaDataSize, s.reqStartTime⟩, bf.bytes.take bf.pos)

/-- The record that `_udp_session_out` makes of a session. -/
def udpSessionOut (buffer : List UInt8) (s : PacketRecordSessionUdp Ipv6Addr (List UInt8)) :
    PacketRecord × List UInt8 :=
  let metaDataSize := sessionUdpMetaSize s.reqData.length s.resData.length
  let bf := packetRecordSessionUdpWrite s (bufferUpdate buffer metaDataSize) []
  (⟨2, UInt16.ofNat metaDataSize, s.reqStartTime⟩, bf.bytes.take bf.pos)

theorem le_length_bufferUpdate (buffer : List UInt8) (n : ℕ) :
    n ≤ (bufferUpdate buffer n).length := by
  rw [bufferUpdate]
  split
  · simp
  · omega

theorem addrSize_le (s : SessionPeers Ipv6Addr) : addrSize s ≤ 48 := by
  rw [addrSize]
  split <;> omega

theorem take_doWrite_init (buffer bs : List UInt8) :
    ((BinFormat.init buffer).doWrite bs).bytes.take
    ((BinFormat.init buffer).doWrite bs).pos = bs := by
  simp [BinFormat.init, doWrite, overwrite]

theorem length_tcpBytes (s : PacketRecordSessionTcp Ipv6Addr (List UInt8)) :
    (tcpBytes s).length =
      98 + addrSize s.toSessionPeers + s.reqData.length + s.resData.length := by
  simp only [tcpBytes, List.length_append, length_bigEndian, length_bodyBytes]
  omega

theorem length_udpBytes (s : PacketRecordSessionUdp Ipv6Addr (List UInt8)) :
    (udpBytes s).length =
      96 + addrSize s.toSessionPeers + s.reqData.length + s.resData.length := by
  simp only [udpBytes, List.length_append, length_bigEndian, length_bodyBytes]
  omega

theorem tcpSessionOut_data (buffer : List UInt8)
    (s : PacketRecordSessionTcp Ipv6Addr (List UInt8)) :
      (tcpSessionOut buffer s).2 = tcpBytes s := by
  have hfits : (tcpBytes s).length ≤ (bufferUpdate buffer
      (sessionTcpMetaSize s.reqData.length s.resData.length)).length := by
    refine le_trans ?_ (le_length_bufferUpdate _ _)
    have haddr := addrSize_le s.toSessionPeers
    rw [length_tcpBytes, sessionTcpMetaSize]
    omega
  simp only [tcpSessionOut, packetRecordSessionTcpWrite_eq s hfits, take_doWrite_init]

theorem udpSessionOut_data (buffer : List UInt8)
    (s : PacketRecordSessionUdp Ipv6Addr (List UInt8)) :
      (udpSessionOut buffer s).2 = udpBytes s := by
  have hfits : (udpBytes s).length ≤ (bufferUpdate buffer
      (sessionUdpMetaSize s.reqData.length s.resData.length)).length := by
    refine le_trans ?_ (le_length_bufferUpdate _ _)
    have haddr := addrSize_le s.toSessionPeers
    rw [length_udpBytes, sessionUdpMetaSize]
    omega
  simp only [udpSessionOut, packetRecordSessionUdpWrite_eq s hfits, take_doWrite_init]

/-- The record fits behind the cursor of the entry, and the memory at `base` is the entry
with the record written into it. -/
structure PutInto (mem : Memory) (base : ℕ) (bf : BinFormat) (out : PacketRecord × List UInt8) :
    Prop where
  fits : bf.Fits (pktRecordHeaderSize + out.2.length)
  size_lt : bf.bytes.length < 2 ^ 32
  entry : mem.read base bf.bytes.length =
    (recordBytesWrite packetRecordFormat bf (packetRecord out.1 out.2)).bytes

/-- The record is read with its header, the session reader gives a value with `R`, and each
of the two consumes as much as the record announces. -/
def RoundTrips {α : Type} (mem : Memory) (base : ℕ) (bf : BinFormat)
    (out : PacketRecord × List UInt8) (r : Reading α) (R : α → Prop) : Prop :=
  ∃ record c data, (recordReading pktRecordReading).run mem
      ⟨base, base + bf.pos, base + bf.bytes.length⟩ = (some record, c) ∧
    c.pos = base + bf.pos + record.recordSize.toNat ∧ record.header = out.1 ∧
    record.data = ⟨some data, out.2.length⟩ ∧
    R (r.run mem (.initWithLen data record.header.metaDataSize.toNat)).1 ∧
    (r.run mem (.initWithLen data record.header.metaDataSize.toNat)).2.pos = data + record.data.len

section RoundTrip

open CloudHands.Shm.Reading

variable {mem : Memory} {base : ℕ} {bf : BinFormat} {out : PacketRecord × List UInt8}

theorem decodes_pktRecord (rcd : PacketRecord) :
    Decodes mem pktRecordReading (· = rcd) (packetRecordFormat.encode rcd) (1 + (2 + 8)) := by
  have hw : pktRecordReading.Within 11 :=
    within_uint8.bind fun _ => within_uint16.bind fun _ => within_uint64.bind fun _ =>
      within_pure _ 0
  refine decodes_uint8_bind hw (by simp) fun hw => decodes_uint16_bind hw (by simp) fun hw =>
    (decodes_uint64 _).map ?_
  rintro _ rfl
  rfl

theorem within_recordReading : (recordReading pktRecordReading).Within 23 := by
  refine within_uint32.bind (n := 19) fun _ => ?_
  split
  · exact within_pure _ _
  · exact within_uint32.bind fun _ => (within_uint8.bind fun _ => within_uint16.bind fun _ =>
      within_uint64.bind fun _ => within_pure _ 0).bind fun _ => within_uint32.bind fun _ =>
        (within_bytes 0).bind fun _ => within_pure _ 0

theorem decodes_record (rcd : PacketRecord) {data : List UInt8} (hlen : data.length < 256 ^ 8) :
    Decodes mem (recordReading pktRecordReading)
      (fun got => ∃ record, got = some record ∧
        record.recordSize = shmRecordLen packetRecordFormat (packetRecord rcd data) ∧
        record.header = rcd ∧ record.data.Holds mem data)
      (recordBytes packetRecordFormat (packetRecord rcd data)) (4 + (4 + (11 + (4 + 8)))) := by
  have hheader : (packetRecordFormat.encode rcd).length = 11 := by
    simp [packetRecordFormat]
  refine decodes_uint32_bind within_recordReading ?_ fun hw => ?_
  · simp [hheader, packetRecord]
    omega
  rw [if_neg (by simp)] at hw ⊢
  refine decodes_uint32_bind hw ?_ fun _ => ?_
  · simp [hheader, packetRecord]
    omega
  rw [← hheader]
  refine (decodes_pktRecord rcd).bind (w := 4) (by simp [packetRecord, hheader]) ?_
    (by simp) ?_
  · exact fun _ => within_uint32.bind fun _ => (within_bytes 0).bind fun _ => within_pure _ 0
  rintro _ rfl
  refine decodes_uint32_bind (n := 4) ?_ (by simp) fun _ => (decodes_bytes hlen).map ?_
  · exact within_uint32.bind fun _ => (within_bytes 0).bind fun _ => within_pure _ 0
  intro slice hholds
  exact ⟨_, rfl, rfl, rfl, hholds⟩

theorem PutInto.record (h : PutInto mem base bf out) :
    mem.read (base + bf.pos) (recordBytes packetRecordFormat (packetRecord out.1 out.2)).length =
      recordBytes packetRecordFormat (packetRecord out.1 out.2) := by
  have hlen : (recordBytes packetRecordFormat (packetRecord out.1 out.2)).length =
      pktRecordHeaderSize + out.2.length := length_recordBytes _ _
  have hfits : bf.Fits (recordBytes packetRecordFormat (packetRecord out.1 out.2)).length := by
    rw [hlen]
    exact h.fits
  have hwritten : recordBytesWrite packetRecordFormat bf (packetRecord out.1 out.2) =
      bf.doWrite (recordBytes packetRecordFormat (packetRecord out.1 out.2)) :=
    writes_record packetRecordFormat _ bf hfits
  have hentry := h.entry
  rw [hwritten, doWrite] at hentry
  rw [Memory.read_of_read hentry hfits, drop_overwrite (by unfold Fits at hfits; omega)]
  exact List.take_left

/-- A reader that decodes the data gets it back iff the `meta_data_size` leaves it what it
needs. -/
theorem roundTrips_iff {α : Type} {r : Reading α} {R : α → Prop} {need : ℕ}
    (h : PutInto mem base bf out) (hr : Decodes mem r R out.2 need) :
    RoundTrips mem base bf out r R ↔ need ≤ out.1.metaDataSize.toNat := by
  have hfits := h.fits
  have hsize := h.size_lt
  unfold Fits pktRecordHeaderSize at hfits
  have hrecordLen : (shmRecordLen packetRecordFormat (packetRecord out.1 out.2)).toNat =
      pktRecordHeaderSize + out.2.length := by
    rw [shmRecordLen, UInt32.toNat_ofNat', Nat.add_comm]
    exact Nat.mod_eq_of_lt
      (by dsimp only [packetRecordFormat, packetRecord, pktRecordHeaderSize]; omega)
  have hdecodes : Decodes mem (recordReading pktRecordReading) _
      (recordBytes packetRecordFormat (packetRecord out.1 out.2)) _ :=
    decodes_record out.1 (show out.2.length < 256 ^ 8 by omega)
  obtain ⟨⟨record, hrecord, hrecordSize, hheader, data, hdata, hread⟩, hc⟩ :=
    (hdecodes ⟨base, base + bf.pos, base + bf.bytes.length⟩ h.record).1 (by dsimp only; omega)
  generalize hout : (recordReading pktRecordReading).run mem
    ⟨base, base + bf.pos, base + bf.bytes.length⟩ = found at hrecord hc
  obtain ⟨_, c⟩ := found
  dsimp only at hrecord hc
  subst hrecord
  obtain ⟨hgood, hshort⟩ := hr (.initWithLen data out.1.metaDataSize.toNat) hread
  constructor
  · rintro ⟨record', c', data', hrun, -, -, hdata', -, hpos⟩
    obtain ⟨hsome, rfl⟩ := Prod.mk.inj (hout.symm.trans hrun)
    obtain rfl := Option.some.inj hsome
    obtain ⟨hptr, -⟩ := DataSlice.mk.inj (hdata.symm.trans hdata')
    obtain rfl := Option.some.inj hptr
    rw [hheader, hdata] at hpos
    by_contra hneed
    have hless := (hshort (by dsimp only [Cursor.initWithLen]; omega)).1
    exact absurd hpos hless.ne
  · intro hneed
    obtain ⟨hvalue, hcursor⟩ := hgood (by simpa [Cursor.initWithLen] using hneed)
    refine ⟨record, c, data, hout, ?_, hheader, hdata, ?_, ?_⟩
    · rw [hc, hrecordSize, hrecordLen, Cursor.pos_advance, length_recordBytes]
      rfl
    · rw [hheader]
      exact hvalue
    · rw [hheader, hcursor, hdata]
      rfl

theorem PutInto.length_lt (h : PutInto mem base bf out) : out.2.length < 256 ^ 8 := by
  have hfits := h.fits
  have hsize := h.size_lt
  unfold Fits at hfits
  omega

theorem tcp_roundTrips_iff (buffer : List UInt8) (old : SessionPeers (Option ℕ))
    (s : PacketRecordSessionTcp Ipv6Addr (List UInt8))
    (h : PutInto mem base bf (tcpSessionOut buffer s)) :
    RoundTrips mem base bf (tcpSessionOut buffer s) (packetRecordSessionTcpRead old)
        (fun got => got.toPacketRecordSessionUdp.Same mem s.toPacketRecordSessionUdp ∧
          got.phaseState = s.phaseState) ↔
      98 + addrSize s.toSessionPeers + s.reqData.length ≤
        sessionTcpMetaSize s.reqData.length s.resData.length % 2 ^ 16 := by
  have hdata := tcpSessionOut_data buffer s
  have hlen := h.length_lt
  rw [hdata, length_tcpBytes] at hlen
  have hmeta : (tcpSessionOut buffer s).1.metaDataSize.toNat =
      sessionTcpMetaSize s.reqData.length s.resData.length % 2 ^ 16 := UInt16.toNat_ofNat'
  rw [roundTrips_iff h (hdata ▸ decodes_tcp s (by omega) (by omega) old), hmeta, bodyNeed]
  constructor <;> intro h <;> omega

theorem udp_roundTrips_iff (buffer : List UInt8) (old : SessionPeers (Option ℕ))
    (s : PacketRecordSessionUdp Ipv6Addr (List UInt8))
    (h : PutInto mem base bf (udpSessionOut buffer s)) :
    RoundTrips mem base bf (udpSessionOut buffer s) (packetRecordSessionUdpRead old)
      (·.Same mem s) ↔
      96 + addrSize s.toSessionPeers + s.reqData.length ≤
        sessionUdpMetaSize s.reqData.length s.resData.length % 2 ^ 16 := by
  have hdata := udpSessionOut_data buffer s
  have hlen := h.length_lt
  rw [hdata, length_udpBytes] at hlen
  have hmeta : (udpSessionOut buffer s).1.metaDataSize.toNat =
      sessionUdpMetaSize s.reqData.length s.resData.length % 2 ^ 16 := UInt16.toNat_ofNat'
  rw [roundTrips_iff h (hdata ▸ decodes_udp s (by omega) (by omega) old), hmeta, bodyNeed]
  constructor <;> intro h <;> omega

/-- A session that fits into the entry comes back as it was, and its record is consumed as
announced, iff what stands in front of the response payload ends within the low 16 bits of
the meta size. -/
theorem session_record_roundTrips (buffer : List UInt8) (old : SessionPeers (Option ℕ)) :
    (∀ s, PutInto mem base bf (tcpSessionOut buffer s) →
      (RoundTrips mem base bf (tcpSessionOut buffer s) (packetRecordSessionTcpRead old)
          (fun got => got.toPacketRecordSessionUdp.Same mem s.toPacketRecordSessionUdp ∧
            got.phaseState = s.phaseState) ↔
        98 + addrSize s.toSessionPeers + s.reqData.length ≤
          sessionTcpMetaSize s.reqData.length s.resData.length % 2 ^ 16)) ∧
    (∀ s, PutInto mem base bf (udpSessionOut buffer s) →
      (RoundTrips mem base bf (udpSessionOut buffer s) (packetRecordSessionUdpRead old)
          (·.Same mem s) ↔
        96 + addrSize s.toSessionPeers + s.reqData.length ≤
          sessionUdpMetaSize s.reqData.length s.resData.length % 2 ^ 16)) :=
  ⟨fun s h => tcp_roundTrips_iff buffer old s h, fun s h => udp_roundTrips_iff buffer old s h⟩

end RoundTrip

/-- The memory with a record written into the entry at `base`. -/
def entryMemory (base : ℕ) (bf : BinFormat) (out : PacketRecord × List UInt8) : Memory :=
  Memory.write (fun _ => 0) base
    (recordBytesWrite packetRecordFormat bf (packetRecord out.1 out.2)).bytes

theorem putInto_entryMemory (base : ℕ) {bf : BinFormat} {out : PacketRecord × List UInt8}
    (hfits : bf.Fits (pktRecordHeaderSize + out.2.length)) (hsize : bf.bytes.length < 2 ^ 32) :
    PutInto (entryMemory base bf out) base bf out := by
  have hrecord : (recordBytes packetRecordFormat (packetRecord out.1 out.2)).length =
      pktRecordHeaderSize + out.2.length := length_recordBytes _ _
  have hwritten : recordBytesWrite packetRecordFormat bf (packetRecord out.1 out.2) =
      bf.doWrite (recordBytes packetRecordFormat (packetRecord out.1 out.2)) :=
    writes_record packetRecordFormat _ bf (by rw [hrecord]; exact hfits)
  have hlen : (recordBytesWrite packetRecordFormat bf (packetRecord out.1 out.2)).bytes.length =
      bf.bytes.length := by
    rw [hwritten, doWrite]
    exact length_overwrite (by rw [hrecord]; exact hfits)
  refine ⟨hfits, hsize, ?_⟩
  conv_lhs => rw [← hlen]
  exact Memory.read_write _ _ _

def zeroAddr : Ipv6Addr := ⟨List.replicate 16 0, by simp⟩

def sampleSession (isIpv6 : UInt8) (reqData resData : List UInt8) :
    PacketRecordSessionTcp Ipv6Addr (List UInt8) :=
  ⟨⟨⟨1000, 80, isIpv6, 0x0A000001, 0x0A000002, zeroAddr, zeroAddr⟩, ⟨7, 3, 2, 180, 120, 1, 2, 3, 4⟩,
    0, 0, reqData, resData⟩, 4⟩

def freshEntry (size : ℕ) : BinFormat := ⟨List.replicate size 0, shmEntryHeaderLen⟩

theorem putInto_freshEntry (base : ℕ) {size : ℕ} {out : PacketRecord × List UInt8}
    (hfits : 51 + out.2.length ≤ size) (hsize : size < 2 ^ 32) :
    PutInto (entryMemory base (freshEntry size) out) base (freshEntry size) out := by
  have hlen : (freshEntry size).bytes.length = size := List.length_replicate
  refine putInto_entryMemory base ?_ (by omega)
  rw [Fits, hlen]
  dsimp only [freshEntry, shmEntryHeaderLen, pktRecordHeaderSize]
  omega

def noPeers : SessionPeers (Option ℕ) := ⟨0, 0, 0, 0, 0, none, none⟩

theorem sample_session_roundTrips :
    let tcp := sampleSession 0 [71, 69, 84] [79, 75]
    let udp := (sampleSession 1 [1, 2] []).toPacketRecordSessionUdp
    let tcpMem := entryMemory 4096 (freshEntry 400) (tcpSessionOut [] tcp)
    let udpMem := entryMemory 4096 (freshEntry 400) (udpSessionOut [] udp)
    RoundTrips tcpMem 4096 (freshEntry 400) (tcpSessionOut [] tcp)
        (packetRecordSessionTcpRead noPeers)
        (fun got => got.toPacketRecordSessionUdp.Same tcpMem tcp.toPacketRecordSessionUdp ∧
          got.phaseState = tcp.phaseState) ∧
      RoundTrips udpMem 4096 (freshEntry 400) (udpSessionOut [] udp)
        (packetRecordSessionUdpRead noPeers) (·.Same udpMem udp) := by
  intro tcp udp tcpMem udpMem
  have htcp : PutInto tcpMem 4096 (freshEntry 400) (tcpSessionOut [] tcp) := by
    refine putInto_freshEntry 4096 ?_ (by omega)
    rw [tcpSessionOut_data, length_tcpBytes]
    decide
  have hudp : PutInto udpMem 4096 (freshEntry 400) (udpSessionOut [] udp) := by
    refine putInto_freshEntry 4096 ?_ (by omega)
    rw [udpSessionOut_data, length_udpBytes]
    decide
  exact ⟨((session_record_roundTrips [] noPeers).1 tcp htcp).2 (by decide),
    ((session_record_roundTrips [] noPeers).2 udp hudp).2 (by decide)⟩

/-- A request of 65536 bytes makes the meta size end below it, so the response is lost. -/
theorem large_request_not_roundTrips :
    let s := sampleSession 0 (List.replicate 65536 65) [79, 75]
    let mem := entryMemory 4096 (freshEntry 70000) (tcpSessionOut [] s)
    PutInto mem 4096 (freshEntry 70000) (tcpSessionOut [] s) ∧
      ¬ RoundTrips mem 4096 (freshEntry 70000) (tcpSessionOut [] s)
        (packetRecordSessionTcpRead noPeers)
        (fun got => got.toPacketRecordSessionUdp.Same mem s.toPacketRecordSessionUdp ∧
          got.phaseState = s.phaseState) := by
  intro s mem
  have hreq : s.reqData.length = 65536 := List.length_replicate
  have hres : s.resData.length = 2 := rfl
  have haddr : addrSize s.toSessionPeers = 8 := rfl
  have hput : PutInto mem 4096 (freshEntry 70000) (tcpSessionOut [] s) := by
    refine putInto_freshEntry 4096 ?_ (by omega)
    rw [tcpSessionOut_data, length_tcpBytes, hreq, hres, haddr]
    omega
  refine ⟨hput, fun hround => ?_⟩
  have hle := (tcp_roundTrips_iff [] noPeers s hput).1 hround
  rw [hreq, hres, haddr, sessionTcpMetaSize] at hle
  omega

end CloudHands.Shm

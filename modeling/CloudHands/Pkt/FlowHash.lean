import CloudHands.Pkt.Payload
import CloudHands.Tcp.Handshake

/-!
# Hashes and entries of a flow

The hash of a packet and the hash and equality functions of the three tables of flows:
`tcp/session/ch_tcp_session_pool.c`, `ch_tcp_session_request_pool.c` and
`StreamAnalyze/ch_sa_udp_session_pool.c`. The table hashes are the same for both
directions. The packet hash takes the header of IPv6 for one of IPv4, and the equality
functions take an entry of IPv6 for one of IPv4 with zero addresses; the parser of IPv6 is
not registered, so neither happens to a packet.
-/

namespace CloudHands.Pkt

open Lib Tcp

/-- The word `i` of an address. -/
def addrWord (addr i : ℕ) : ℕ := addr / 2 ^ (32 * i) % 2 ^ 32

def ipv6Hash (srcAddr dstAddr : ℕ) : ℕ :=
  (addrWord srcAddr 0 ^^^ addrWord dstAddr 0) ^^^ (addrWord srcAddr 1 ^^^ addrWord dstAddr 1) ^^^
    (addrWord srcAddr 2 ^^^ addrWord dstAddr 2) ^^^ (addrWord srcAddr 3 ^^^ addrWord dstAddr 3)

def entryHash (key : FlowKey) : UInt32 :=
  if key.isIpv6 then
    jhash3wordsSort (ipv6Hash key.srcAddr key.dstAddr) key.srcPort key.dstPort 0
  else jhash4wordsSort key.srcIp key.dstIp key.srcPort key.dstPort 0

def PacketTcp.tcpPacket (t : PacketTcp) : TcpPacket where
  isIpv6 := t.isIpv6
  srcIp := t.srcIp
  dstIp := t.dstIp
  srcAddr := t.srcAddr
  dstAddr := t.dstAddr
  srcPort := t.srcPort
  dstPort := t.dstPort
  tcpFlags := t.tcpFlags
  sentSeq := t.sentSeq
  recvAck := t.recvAck
  payloadLen := t.payloadLen
  pdata := t.pdata

def tcpFlowKey (pkt : TcpPacket) : FlowKey :=
  ⟨pkt.isIpv6, pkt.srcIp, pkt.dstIp, pkt.srcAddr, pkt.dstAddr, pkt.srcPort, pkt.dstPort⟩

def tcpSessionEntryHash (pkt : TcpPacket) : UInt32 := entryHash (tcpFlowKey pkt)

def sessionRequestEntryHash (pkt : TcpPacket) : UInt32 := entryHash (tcpFlowKey pkt)

def saUdpSessionEntryHash (pkt : PacketUdp) : UInt32 := entryHash pkt.toFlowKey

/-- `ch_sa_udp_session_t` with the fields that tell flows apart. -/
structure SaUdpSession where
  isIpv6 : Bool
  reqIp : ℕ
  resIp : ℕ
  reqAddr : ℕ
  resAddr : ℕ
  reqPort : ℕ
  resPort : ℕ
  deriving DecidableEq

/-- The addresses of the other family stay what the pool had there. -/
def saUdpSessionInit (s : SaUdpSession) (pkt : PacketUdp) : SaUdpSession :=
  let s := { s with isIpv6 := pkt.isIpv6 }
  let s :=
    if pkt.isIpv6 then { s with reqAddr := pkt.srcAddr, resAddr := pkt.dstAddr }
    else { s with reqIp := pkt.srcIp, resIp := pkt.dstIp }
  { s with reqPort := pkt.srcPort, resPort := pkt.dstPort }

def isUdpRequest (s : SaUdpSession) (pkt : PacketUdp) : Bool :=
  if pkt.isIpv6 then
    s.isIpv6 && decide (s.reqAddr = pkt.srcAddr) && decide (s.reqPort = pkt.srcPort) &&
      decide (s.resAddr = pkt.dstAddr) && decide (s.resPort = pkt.dstPort)
  else
    decide (s.reqIp = pkt.srcIp) && decide (s.reqPort = pkt.srcPort) &&
      decide (s.resIp = pkt.dstIp) && decide (s.resPort = pkt.dstPort)

def isUdpResponse (s : SaUdpSession) (pkt : PacketUdp) : Bool :=
  if pkt.isIpv6 then
    s.isIpv6 && decide (s.reqAddr = pkt.dstAddr) && decide (s.reqPort = pkt.dstPort) &&
      decide (s.resAddr = pkt.srcAddr) && decide (s.resPort = pkt.srcPort)
  else
    decide (s.reqIp = pkt.dstIp) && decide (s.reqPort = pkt.dstPort) &&
      decide (s.resIp = pkt.srcIp) && decide (s.resPort = pkt.srcPort)

def saUdpSessionEntryEqual (s : SaUdpSession) (pkt : PacketUdp) : Bool :=
  isUdpRequest s pkt || isUdpResponse s pkt

def FlowKey.src (key : FlowKey) : ℕ := if key.isIpv6 then key.srcAddr else key.srcIp

def FlowKey.dst (key : FlowKey) : ℕ := if key.isIpv6 then key.dstAddr else key.dstIp

structure SameDirection (k k' : FlowKey) : Prop where
  family : k'.isIpv6 = k.isIpv6
  src : k'.src = k.src
  dst : k'.dst = k.dst
  srcPort : k'.srcPort = k.srcPort
  dstPort : k'.dstPort = k.dstPort

structure ReversedDirection (k k' : FlowKey) : Prop where
  family : k'.isIpv6 = k.isIpv6
  src : k'.src = k.dst
  dst : k'.dst = k.src
  srcPort : k'.srcPort = k.dstPort
  dstPort : k'.dstPort = k.srcPort

def SameFlow (k k' : FlowKey) : Prop := SameDirection k k' ∨ ReversedDirection k k'

theorem ipv6Hash_comm (a b : ℕ) : ipv6Hash b a = ipv6Hash a b := by
  unfold ipv6Hash
  rw [Nat.xor_comm (addrWord b 0), Nat.xor_comm (addrWord b 1), Nat.xor_comm (addrWord b 2),
    Nat.xor_comm (addrWord b 3)]

theorem entryHash_eq (key : FlowKey) : entryHash key =
    if key.isIpv6 then jhash3wordsSort (ipv6Hash key.src key.dst) key.srcPort key.dstPort 0
    else jhash4wordsSort key.src key.dst key.srcPort key.dstPort 0 := by
  unfold entryHash FlowKey.src FlowKey.dst
  split_ifs <;> rfl

theorem SameFlow.entryHash {k k' : FlowKey} (h : SameFlow k k') : entryHash k' = entryHash k := by
  rw [entryHash_eq, entryHash_eq]
  obtain h | h := h
  · rw [h.family, h.src, h.dst, h.srcPort, h.dstPort]
  · rw [h.family, h.src, h.dst, h.srcPort, h.dstPort, ipv6Hash_comm, jhash3wordsSort_swap,
      jhash4wordsSort_swap]

/-- The request made for `syn`, with the sequence number that the answer to it leaves. -/
def requestOf (syn : TcpPacket) (resSnInit : ℕ) : TcpSessionRequest :=
  { (sessionRequestCreate syn).sreq with resSnInit := resSnInit }

def requestKey (r : TcpSessionRequest) : FlowKey :=
  ⟨r.isIpv6, r.reqIp, r.resIp, r.srcAddr, r.dstAddr, r.reqPort, r.resPort⟩

def sessionKey {σ : Type*} (s : TcpSession σ) : FlowKey :=
  ⟨s.endpointReq.isIpv6 && s.endpointRes.isIpv6, s.endpointReq.ip, s.endpointRes.ip,
    s.endpointReq.addr, s.endpointRes.addr, s.endpointReq.port, s.endpointRes.port⟩

def udpKey (s : SaUdpSession) : FlowKey :=
  ⟨s.isIpv6, s.reqIp, s.resIp, s.reqAddr, s.resAddr, s.reqPort, s.resPort⟩

def FlowKey.reverse (k : FlowKey) : FlowKey :=
  ⟨k.isIpv6, k.dstIp, k.srcIp, k.dstAddr, k.srcAddr, k.dstPort, k.srcPort⟩

/-- What the equality functions ask of an entry `e` and a packet: only a packet of IPv6 looks
at the family of the entry. -/
def Meets (e k : FlowKey) : Prop :=
  e.srcPort = k.srcPort ∧ e.dstPort = k.dstPort ∧
    if k.isIpv6 then e.isIpv6 = true ∧ e.srcAddr = k.srcAddr ∧ e.dstAddr = k.dstAddr
    else e.srcIp = k.srcIp ∧ e.dstIp = k.dstIp

theorem meets_of_request {r : TcpSessionRequest} {pkt : TcpPacket}
    (h : sessionRequestEntryEqual r pkt = true) :
    Meets (requestKey r) (tcpFlowKey pkt) ∨ Meets (requestKey r) (tcpFlowKey pkt).reverse := by
  rw [sessionRequestEntryEqual, Bool.or_eq_true] at h
  unfold requestIsRequest requestIsResponse at h
  unfold Meets FlowKey.reverse tcpFlowKey requestKey
  cases hfamily : pkt.isIpv6 <;> simp only [hfamily] at h ⊢ <;> simp at h ⊢ <;> tauto

theorem meets_of_session {σ : Type*} {s : TcpSession σ} {pkt : TcpPacket}
    (h : tcpSessionEntryEqual s pkt = true) :
    Meets (sessionKey s) (tcpFlowKey pkt) ∨ Meets (sessionKey s) (tcpFlowKey pkt).reverse := by
  rw [tcpSessionEntryEqual, Bool.or_eq_true] at h
  unfold endpointIsRequest endpointIsResponse at h
  unfold Meets FlowKey.reverse tcpFlowKey sessionKey
  cases hfamily : pkt.isIpv6 <;> simp only [hfamily] at h ⊢ <;> simp at h ⊢ <;> tauto

theorem meets_of_udp {s : SaUdpSession} {pkt : PacketUdp}
    (h : saUdpSessionEntryEqual s pkt = true) :
    Meets (udpKey s) pkt.toFlowKey ∨ Meets (udpKey s) pkt.toFlowKey.reverse := by
  rw [saUdpSessionEntryEqual, Bool.or_eq_true] at h
  unfold isUdpRequest isUdpResponse at h
  unfold Meets FlowKey.reverse udpKey
  cases hfamily : pkt.isIpv6 <;> simp only [hfamily] at h ⊢ <;> simp at h ⊢ <;> tauto

theorem Meets.sameDirection {p e k : FlowKey} (h : Meets e k) (he : SameDirection p e)
    (hfamily : p.isIpv6 = true → k.isIpv6 = true) : SameDirection p k := by
  obtain ⟨hsrcPort, hdstPort, haddr⟩ := h
  have hsrc := he.src
  have hdst := he.dst
  have hports := he.srcPort
  have hports' := he.dstPort
  cases hk : k.isIpv6 with
  | true =>
    rw [hk, if_pos rfl] at haddr
    obtain ⟨hentry, hsrc', hdst'⟩ := haddr
    have hp : p.isIpv6 = true := he.family.symm.trans hentry
    simp only [FlowKey.src, FlowKey.dst, hentry, hp, if_true] at hsrc hdst
    refine ⟨hk.trans hp.symm, ?_, ?_, by omega, by omega⟩
    · simp only [FlowKey.src, hk, hp, if_true]
      omega
    · simp only [FlowKey.dst, hk, hp, if_true]
      omega
  | false =>
    have hp : p.isIpv6 = false := by
      by_contra hne
      rw [Bool.not_eq_false] at hne
      rw [hfamily hne] at hk
      cases hk
    rw [hk, if_neg Bool.false_ne_true] at haddr
    obtain ⟨hsrc', hdst'⟩ := haddr
    have hentry : e.isIpv6 = false := he.family.trans hp
    simp only [FlowKey.src, FlowKey.dst, hentry, hp, Bool.false_eq_true, if_false] at hsrc hdst
    refine ⟨hk.trans hp.symm, ?_, ?_, by omega, by omega⟩
    · simp only [FlowKey.src, hk, hp, Bool.false_eq_true, if_false]
      omega
    · simp only [FlowKey.dst, hk, hp, Bool.false_eq_true, if_false]
      omega

theorem SameDirection.reversed {p k : FlowKey} (h : SameDirection p k.reverse) :
    ReversedDirection p k := by
  refine ⟨h.family, ?_, ?_, h.dstPort, h.srcPort⟩
  · exact h.dst
  · exact h.src

/-- An entry made from `p` accepts only packets of the flow of `p`, unless it takes a packet
of IPv4 for an entry of IPv6. -/
theorem sameFlow_of_meets {p e k : FlowKey} (he : SameDirection p e)
    (h : Meets e k ∨ Meets e k.reverse) (hfamily : p.isIpv6 = true → k.isIpv6 = true) :
    SameFlow p k := by
  obtain h | h := h
  · exact .inl (h.sameDirection he hfamily)
  · exact .inr (h.sameDirection he hfamily).reversed

theorem sameDirection_request (p : TcpPacket) (n : ℕ) :
    SameDirection (tcpFlowKey p) (requestKey (requestOf p n)) := by
  refine ⟨rfl, ?_, ?_, rfl, rfl⟩
  · cases hp : p.isIpv6 <;>
      simp [FlowKey.src, tcpFlowKey, requestKey, requestOf, sessionRequestCreate, hp]
  · cases hp : p.isIpv6 <;>
      simp [FlowKey.dst, tcpFlowKey, requestKey, requestOf, sessionRequestCreate, hp]

theorem sameDirection_session {σ : Type*} (p : TcpPacket) (n : ℕ) (sentry : σ) :
    SameDirection (tcpFlowKey p) (sessionKey (tcpSessionInit (requestOf p n) sentry)) := by
  cases hp : p.isIpv6 with
  | true =>
    constructor <;> simp [FlowKey.src, FlowKey.dst, tcpFlowKey, sessionKey, tcpSessionInit,
      tcpSessionEndpointInitIpv6, requestOf, sessionRequestCreate, hp]
  | false =>
    constructor <;> simp [FlowKey.src, FlowKey.dst, tcpFlowKey, sessionKey, tcpSessionInit,
      tcpSessionEndpointInit, requestOf, sessionRequestCreate, hp]

theorem sameDirection_udp (s : SaUdpSession) (p : PacketUdp) :
    SameDirection p.toFlowKey (udpKey (saUdpSessionInit s p)) := by
  cases hp : p.isIpv6 with
  | true => constructor <;> simp [FlowKey.src, FlowKey.dst, udpKey, saUdpSessionInit, hp]
  | false => constructor <;> simp [FlowKey.src, FlowKey.dst, udpKey, saUdpSessionInit, hp]

theorem host_word {data : List UInt8} {o i : ℕ} (h : o + 16 ≤ data.length) (hi : i < 4) :
    host data (o + 4 * i) 4 = addrWord (host data o 16) i := by
  have hlen : ((data.drop o).take 16).length = 16 := by
    rw [List.length_take, List.length_drop]
    omega
  have hword : (((data.drop o).take 16).drop (4 * i)).take 4 = (data.drop (o + 4 * i)).take 4 := by
    rw [List.drop_take, List.drop_drop, List.take_take, min_eq_left (by omega)]
  rw [host, ← hword, ofLittleEndian_drop_take _ (by omega), addrWord, host]
  have hpow : 256 ^ (4 * i) = 2 ^ (32 * i) := by
    rw [show 256 = 2 ^ 8 by norm_num, ← pow_mul]
    congr 1
    ring
  rw [hpow]
  norm_num

def pktHash (key : FlowKey) : UInt32 :=
  if key.isIpv6 then
    jhash4wordsSort (addrWord key.srcAddr 1) (addrWord key.srcAddr 2) key.srcPort key.dstPort 0
  else jhash4wordsSort key.srcIp key.dstIp key.srcPort key.dstPort 0

theorem Layers.hash {ipv6 : Bool} {fuel : ℕ} {mbuf : List UInt8} {tr : Transport}
    {p q r : Packet} {key : FlowKey} (h : Layers ipv6 fuel mbuf tr p q r) (hkey : ReadsFlow r key) :
    r.hash = pktHash key := by
  obtain ⟨off, proto, rfl⟩ := packetEtherParse_spec h.ether
  have hl2 : off % 2 ^ 16 < 2 ^ 16 := Nat.mod_lt _ (by norm_num)
  have hl3 : AfterLayer3 (afterLayer2 mbuf off proto) q := by
    obtain ⟨-, hip⟩ | ⟨-, -, hip⟩ := h.network
    · exact (packetIpv4Parse_spec hip).1
    · exact (packetIpv6Parse_spec hip).1
  have hl4 := (Transport.parse_spec h.transport).1
  have hpos : q.parseOff % 2 ^ 16 = (r.l2Len + r.l3Len) % 2 ^ 16 := by
    rw [hl3.parseOff rfl hl2, hl4.l2Len, hl4.l3Len, Nat.mod_mod]
  rw [hl4.hash, hpos, ← hkey.ports.1, ← hkey.ports.2, flowHash, pktHash, hkey.family]
  split_ifs with hfamily
  · obtain ⟨hsrc, -⟩ := hkey.addr hfamily
    have hdlen : r.dlen ≤ r.data.length := by
      rw [h.frame.dlen, h.frame.data]
      exact Nat.mod_le _ _
    have hinside := hkey.inside hfamily
    have hword : ∀ i < 4, host r.data (r.l2Len % 2 ^ 16 + 8 + 4 * i) 4 =
        addrWord key.srcAddr i := by
      intro i hi
      rw [hsrc]
      exact host_word (by omega) hi
    rw [← hword 1 (by norm_num), ← hword 2 (by norm_num)]
  · obtain ⟨hsrc, hdst⟩ := hkey.ip (Bool.not_eq_true _ ▸ hfamily)
    rw [hsrc, hdst]

theorem pktHash_eq (key : FlowKey) : pktHash key =
    if key.isIpv6 then
      jhash4wordsSort (addrWord key.src 1) (addrWord key.src 2) key.srcPort key.dstPort 0
    else jhash4wordsSort key.src key.dst key.srcPort key.dstPort 0 := by
  unfold pktHash FlowKey.src FlowKey.dst
  split_ifs <;> rfl

def PktHashOk (k k' : FlowKey) : Prop :=
  k.isIpv6 = false ∨ SameDirection k k' ∨
    [addrWord k.dst 1, addrWord k.dst 2].Perm [addrWord k.src 1, addrWord k.src 2]

theorem SameDirection.pktHash {k k' : FlowKey} (h : SameDirection k k') :
    pktHash k' = pktHash k := by
  rw [pktHash_eq, pktHash_eq, h.family, h.src, h.dst, h.srcPort, h.dstPort]

theorem SameFlow.pktHash {k k' : FlowKey} (h : SameFlow k k') (hok : PktHashOk k k') :
    pktHash k' = pktHash k := by
  obtain h | h := h
  · exact h.pktHash
  · obtain hfamily | hsame | hwords := hok
    · rw [pktHash_eq, pktHash_eq, h.family, h.src, h.dst, h.srcPort, h.dstPort, hfamily,
        if_neg Bool.false_ne_true, if_neg Bool.false_ne_true, jhash4wordsSort_swap]
    · exact hsame.pktHash
    · rw [pktHash_eq, pktHash_eq, h.family, h.src, h.dst, h.srcPort, h.dstPort,
        jhash4wordsSort_swap k.src]
      have hperm := hwords.append (List.Perm.swap k.srcPort k.dstPort [])
      have hsort : jhash4wordsSort (addrWord k.dst 1) (addrWord k.dst 2) k.dstPort k.srcPort 0 =
          jhash4wordsSort (addrWord k.src 1) (addrWord k.src 2) k.srcPort k.dstPort 0 := by
        rw [jhash4wordsSort, jhash4wordsSort, sort4_congr hperm]
      rw [hsort]

/-- A frame accepted as TCP, with its parsed and its initialised packet. -/
structure TcpFrame (ipv6 : Bool) (p : Packet) (t : PacketTcp) : Prop where
  accepts : ∃ f, Accepts ipv6 f p
  pktType : p.pktType = .tcp
  init : ∃ tcpPkt, packetTcpInitFromPkt tcpPkt p = some t

structure UdpFrame (ipv6 : Bool) (p : Packet) (u : PacketUdp) : Prop where
  accepts : ∃ f, Accepts ipv6 f p
  pktType : p.pktType = .udp
  init : ∃ udpPkt, packetUdpInitFromPkt udpPkt p = some u

/-- Whether `ch_packet_init` registers the parser of IPv6: its call is commented out. -/
def ipv6Registered : Bool := false

theorem TcpFrame.layers {ipv6 : Bool} {p : Packet} {t : PacketTcp} (h : TcpFrame ipv6 p t) :
    (∃ fuel f p₂ p₃, Layers ipv6 fuel f .tcp p₂ p₃ p) ∧ ReadsFlow p t.toFlowKey := by
  obtain ⟨f, fuel, hparse⟩ := h.accepts
  obtain ⟨tcpPkt, hinit⟩ := h.init
  have htype : p.pktType = Transport.tcp.pktType := h.pktType
  obtain ⟨p₂, p₃, hlayers⟩ := packetParse_layers hparse htype
  exact ⟨⟨fuel, f, p₂, p₃, hlayers⟩, (packetTcpInitFromPkt_spec hinit).2⟩

theorem UdpFrame.layers {ipv6 : Bool} {p : Packet} {u : PacketUdp} (h : UdpFrame ipv6 p u) :
    (∃ fuel f p₂ p₃, Layers ipv6 fuel f .udp p₂ p₃ p) ∧ ReadsFlow p u.toFlowKey := by
  obtain ⟨f, fuel, hparse⟩ := h.accepts
  obtain ⟨udpPkt, hinit⟩ := h.init
  have htype : p.pktType = Transport.udp.pktType := h.pktType
  obtain ⟨p₂, p₃, hlayers⟩ := packetParse_layers hparse htype
  exact ⟨⟨fuel, f, p₂, p₃, hlayers⟩, (packetUdpInitFromPkt_spec hinit).2⟩

theorem TcpFrame.hash {ipv6 : Bool} {p : Packet} {t : PacketTcp} (h : TcpFrame ipv6 p t) :
    p.hash = Pkt.pktHash t.toFlowKey := by
  obtain ⟨⟨fuel, f, p₂, p₃, hlayers⟩, hreads⟩ := h.layers
  exact hlayers.hash hreads

theorem UdpFrame.hash {ipv6 : Bool} {p : Packet} {u : PacketUdp} (h : UdpFrame ipv6 p u) :
    p.hash = Pkt.pktHash u.toFlowKey := by
  obtain ⟨⟨fuel, f, p₂, p₃, hlayers⟩, hreads⟩ := h.layers
  exact hlayers.hash hreads

theorem Layers.isIpv6 {fuel : ℕ} {f : List UInt8} {tr : Transport} {p q r : Packet}
    (h : Layers ipv6Registered fuel f tr p q r) : r.isIpv6 = false := by
  obtain ⟨off, proto, rfl⟩ := packetEtherParse_spec h.ether
  rw [(Transport.parse_spec h.transport).1.isIpv6]
  obtain ⟨-, hip⟩ | ⟨hreg, -, -⟩ := h.network
  · rw [(packetIpv4Parse_spec hip).2]
    rfl
  · cases hreg

theorem TcpFrame.isIpv6 {p : Packet} {t : PacketTcp} (h : TcpFrame ipv6Registered p t) :
    t.isIpv6 = false := by
  obtain ⟨⟨fuel, f, p₂, p₃, hlayers⟩, hreads⟩ := h.layers
  exact hreads.family.trans hlayers.isIpv6

theorem UdpFrame.isIpv6 {p : Packet} {u : PacketUdp} (h : UdpFrame ipv6Registered p u) :
    u.isIpv6 = false := by
  obtain ⟨⟨fuel, f, p₂, p₃, hlayers⟩, hreads⟩ := h.layers
  exact hreads.family.trans hlayers.isIpv6

theorem flow_hash_coherent {σ : Type} (ipv6 : Bool) :
    (∀ p q t u, TcpFrame ipv6 p t → TcpFrame ipv6 q u → SameFlow t.toFlowKey u.toFlowKey →
      tcpSessionEntryHash u.tcpPacket = tcpSessionEntryHash t.tcpPacket ∧
      sessionRequestEntryHash u.tcpPacket = sessionRequestEntryHash t.tcpPacket ∧
      (PktHashOk t.toFlowKey u.toFlowKey → q.hash = p.hash)) ∧
    (∀ p q n, sessionRequestEntryEqual (requestOf p n) q = true →
      (p.isIpv6 = true → q.isIpv6 = true) →
      sessionRequestEntryHash q = sessionRequestEntryHash p) ∧
    (∀ syn p q n, ∀ sentry : σ, sessionRequestEntryEqual (requestOf syn n) p = true →
      tcpSessionEntryEqual (tcpSessionInit (requestOf syn n) sentry) q = true →
      (syn.isIpv6 = true → p.isIpv6 = true ∧ q.isIpv6 = true) →
      tcpSessionEntryHash q = tcpSessionEntryHash p) ∧
    (∀ s p q, saUdpSessionEntryEqual (saUdpSessionInit s p) q = true →
      (p.isIpv6 = true → q.isIpv6 = true) →
      saUdpSessionEntryHash q = saUdpSessionEntryHash p) := by
  refine ⟨?_, ?_, ?_, ?_⟩
  · intro p q t u hp hq hflow
    refine ⟨hflow.entryHash, hflow.entryHash, fun hok => ?_⟩
    rw [hp.hash, hq.hash]
    exact hflow.pktHash hok
  · intro p q n h hfamily
    exact (sameFlow_of_meets (sameDirection_request p n) (meets_of_request h) hfamily).entryHash
  · intro syn p q n sentry hp hq hfamily
    have hflowp : SameFlow (tcpFlowKey syn) (tcpFlowKey p) :=
      sameFlow_of_meets (sameDirection_request syn n) (meets_of_request hp) fun h => (hfamily h).1
    have hflowq : SameFlow (tcpFlowKey syn) (tcpFlowKey q) :=
      sameFlow_of_meets (sameDirection_session syn n sentry) (meets_of_session hq)
        fun h => (hfamily h).2
    exact hflowq.entryHash.trans hflowp.entryHash.symm
  · intro s p q h hfamily
    exact (sameFlow_of_meets (sameDirection_udp s p) (meets_of_udp h) hfamily).entryHash

/-- In the packets that the registered parsers accept, both directions of a flow have one packet
hash and one table hash, and an entry that accepts a packet was put in under the hash of that
packet. -/
theorem flow_hash_coherent_registered {σ : Type} :
    (∀ p q t u, TcpFrame ipv6Registered p t → TcpFrame ipv6Registered q u →
      SameFlow t.toFlowKey u.toFlowKey →
      q.hash = p.hash ∧ tcpSessionEntryHash u.tcpPacket = tcpSessionEntryHash t.tcpPacket ∧
        sessionRequestEntryHash u.tcpPacket = sessionRequestEntryHash t.tcpPacket) ∧
    (∀ p q t u n, TcpFrame ipv6Registered p t → TcpFrame ipv6Registered q u →
      sessionRequestEntryEqual (requestOf t.tcpPacket n) u.tcpPacket = true →
      sessionRequestEntryHash u.tcpPacket = sessionRequestEntryHash t.tcpPacket) ∧
    (∀ syn p q s t u n, ∀ sentry : σ, TcpFrame ipv6Registered syn s →
      TcpFrame ipv6Registered p t → TcpFrame ipv6Registered q u →
      sessionRequestEntryEqual (requestOf s.tcpPacket n) t.tcpPacket = true →
      tcpSessionEntryEqual (tcpSessionInit (requestOf s.tcpPacket n) sentry) u.tcpPacket = true →
      tcpSessionEntryHash u.tcpPacket = tcpSessionEntryHash t.tcpPacket) ∧
    (∀ p q t u, UdpFrame ipv6Registered p t → UdpFrame ipv6Registered q u →
      SameFlow t.toFlowKey u.toFlowKey →
      q.hash = p.hash ∧ saUdpSessionEntryHash u = saUdpSessionEntryHash t) ∧
    (∀ s p q t u, UdpFrame ipv6Registered p t → UdpFrame ipv6Registered q u →
      saUdpSessionEntryEqual (saUdpSessionInit s t) u = true →
      saUdpSessionEntryHash u = saUdpSessionEntryHash t) := by
  obtain ⟨hflows, hrequests, hsessions, hudp⟩ := @flow_hash_coherent σ ipv6Registered
  refine ⟨?_, ?_, ?_, ?_, ?_⟩
  · intro p q t u hp hq hflow
    obtain ⟨hsession, hrequest, hhash⟩ := hflows p q t u hp hq hflow
    exact ⟨hhash (.inl hp.isIpv6), hsession, hrequest⟩
  · intro p q t u n hp _ h
    have hfamily : t.tcpPacket.isIpv6 = false := hp.isIpv6
    exact hrequests _ _ n h fun htrue => absurd htrue (by simp [hfamily])
  · intro syn p q s t u n sentry hsyn _ _ hp hq
    have hfamily : s.tcpPacket.isIpv6 = false := hsyn.isIpv6
    exact hsessions _ _ _ n sentry hp hq fun htrue => absurd htrue (by simp [hfamily])
  · intro p q t u hp hq hflow
    refine ⟨?_, hflow.entryHash⟩
    rw [hp.hash, hq.hash]
    exact hflow.pktHash (.inl hp.isIpv6)
  · intro s p q t u hp _ h
    have hfamily : t.isIpv6 = false := hp.isIpv6
    exact hudp s _ _ h fun htrue => absurd htrue (by simp [hfamily])

def flowFrame (src dst : List UInt8) (srcPort dstPort : UInt8) : List UInt8 :=
  let ip : List UInt8 :=
    if src.length = 4 then [0x08, 0x00, 0x45, 0, 0, 40, 0, 0, 0, 0, 64, 6, 0, 0]
    else [0x86, 0xDD, 0x60, 0, 0, 0, 0, 20, 6, 64]
  [2, 0, 0, 0, 0, 1, 2, 0, 0, 0, 0, 2] ++ ip ++ src ++ dst ++
    [0, srcPort, 0, dstPort, 0, 0, 0, 1, 0, 0, 0, 1, 0x50, 0x02, 0, 0, 0, 0, 0, 0]

def parsedPacket (f : List UInt8) : Packet :=
  ((packetParse true 1 f).getD (.parseDrop, packetInit f)).2

def initPacket (f : List UInt8) : PacketTcp :=
  (packetTcpInitFromPkt blankTcp (parsedPacket f)).getD blankTcp

theorem tcpFrame_of_parse {ipv6 : Bool} {f : List UInt8}
    (hparse : packetParse ipv6 1 f = some (.parseOk, parsedPacket f))
    (htype : (parsedPacket f).pktType = .tcp)
    (hinit : packetTcpInitFromPkt blankTcp (parsedPacket f) = some (initPacket f)) :
    TcpFrame ipv6 (parsedPacket f) (initPacket f) :=
  ⟨⟨f, 1, hparse⟩, htype, ⟨blankTcp, hinit⟩⟩

def ipv4Request : List UInt8 := flowFrame [10, 0, 0, 1] [10, 0, 0, 2] 99 80

def ipv4Response : List UInt8 := flowFrame [10, 0, 0, 2] [10, 0, 0, 1] 80 99

def udpFlowFrame (src dst : List UInt8) (srcPort dstPort : UInt8) : List UInt8 :=
  [2, 0, 0, 0, 0, 1, 2, 0, 0, 0, 0, 2, 0x08, 0x00, 0x45, 0, 0, 28, 0, 0, 0, 0, 64, 17, 0, 0] ++
    src ++ dst ++ [0, srcPort, 0, dstPort, 0, 8, 0, 0]

def udpRequest : List UInt8 := udpFlowFrame [10, 0, 0, 1] [10, 0, 0, 2] 99 53

def udpResponse : List UInt8 := udpFlowFrame [10, 0, 0, 2] [10, 0, 0, 1] 53 99

def initUdpPacket (f : List UInt8) : PacketUdp :=
  (packetUdpInitFromPkt blankUdp (parsedPacket f)).getD blankUdp

theorem flow_hash_coherent_ipv4 :
    (parsedPacket ipv4Response).hash = (parsedPacket ipv4Request).hash ∧
    sessionRequestEntryHash (initPacket ipv4Response).tcpPacket =
      sessionRequestEntryHash (initPacket ipv4Request).tcpPacket ∧
    tcpSessionEntryHash (initPacket ipv4Response).tcpPacket =
      tcpSessionEntryHash (initPacket ipv4Request).tcpPacket ∧
    (parsedPacket udpResponse).hash = (parsedPacket udpRequest).hash ∧
    saUdpSessionEntryHash (initUdpPacket udpResponse) =
      saUdpSessionEntryHash (initUdpPacket udpRequest) := by
  have hrequest : TcpFrame ipv6Registered (parsedPacket ipv4Request) (initPacket ipv4Request) :=
    tcpFrame_of_parse (by decide +kernel) (by decide +kernel) (by decide +kernel)
  have hresponse : TcpFrame ipv6Registered (parsedPacket ipv4Response) (initPacket ipv4Response) :=
    tcpFrame_of_parse (by decide +kernel) (by decide +kernel) (by decide +kernel)
  have hflow : SameFlow (initPacket ipv4Request).toFlowKey (initPacket ipv4Response).toFlowKey :=
    .inr ⟨by decide +kernel, by decide +kernel, by decide +kernel, by decide +kernel,
      by decide +kernel⟩
  have hudpRequest : UdpFrame ipv6Registered (parsedPacket udpRequest)
      (initUdpPacket udpRequest) :=
    ⟨⟨udpRequest, 1, by decide +kernel⟩, by decide +kernel, ⟨blankUdp, by decide +kernel⟩⟩
  have hudpResponse : UdpFrame ipv6Registered (parsedPacket udpResponse)
      (initUdpPacket udpResponse) :=
    ⟨⟨udpResponse, 1, by decide +kernel⟩, by decide +kernel, ⟨blankUdp, by decide +kernel⟩⟩
  have hudpFlow : SameFlow (initUdpPacket udpRequest).toFlowKey
      (initUdpPacket udpResponse).toFlowKey :=
    .inr ⟨by decide +kernel, by decide +kernel, by decide +kernel, by decide +kernel,
      by decide +kernel⟩
  obtain ⟨hframes, hrequests, hsessions, hudpFrames, hudps⟩ :=
    @flow_hash_coherent_registered Unit
  refine ⟨(hframes _ _ _ _ hrequest hresponse hflow).1, ?_, ?_,
    (hudpFrames _ _ _ _ hudpRequest hudpResponse hudpFlow).1, ?_⟩
  · exact hrequests _ _ _ _ 0 hrequest hresponse (by decide +kernel)
  · exact hsessions _ _ _ _ _ _ 0 () hrequest hrequest hresponse (by decide +kernel)
      (by decide +kernel)
  · exact hudps ⟨false, 0, 0, 0, 0, 0, 0⟩ _ _ _ _ hudpRequest hudpResponse (by decide +kernel)

def ipv6Request : List UInt8 :=
  flowFrame [32, 1, 13, 184, 0, 0, 0, 1, 0, 0, 0, 0, 0, 0, 0, 1]
    [32, 1, 13, 184, 0, 0, 0, 2, 0, 0, 0, 0, 0, 0, 0, 2] 99 80

def ipv6Response : List UInt8 :=
  flowFrame [32, 1, 13, 184, 0, 0, 0, 2, 0, 0, 0, 0, 0, 0, 0, 2]
    [32, 1, 13, 184, 0, 0, 0, 1, 0, 0, 0, 0, 0, 0, 0, 1] 80 99

def zeroIpv4 : List UInt8 := flowFrame [0, 0, 0, 0] [0, 0, 0, 0] 99 80

theorem ipv6_flow_hash_differs :
    (TcpFrame true (parsedPacket ipv6Request) (initPacket ipv6Request) ∧
      TcpFrame true (parsedPacket ipv6Response) (initPacket ipv6Response) ∧
      SameFlow (initPacket ipv6Request).toFlowKey (initPacket ipv6Response).toFlowKey ∧
      (parsedPacket ipv6Response).hash ≠ (parsedPacket ipv6Request).hash) ∧
    (TcpFrame true (parsedPacket zeroIpv4) (initPacket zeroIpv4) ∧
      sessionRequestEntryEqual (requestOf (initPacket ipv6Request).tcpPacket 0)
        (initPacket zeroIpv4).tcpPacket = true ∧
      sessionRequestEntryHash (initPacket zeroIpv4).tcpPacket ≠
        sessionRequestEntryHash (initPacket ipv6Request).tcpPacket) := by
  refine ⟨⟨?_, ?_, ?_, by decide +kernel⟩, ?_, by decide +kernel, by decide +kernel⟩
  · exact tcpFrame_of_parse (by decide +kernel) (by decide +kernel) (by decide +kernel)
  · exact tcpFrame_of_parse (by decide +kernel) (by decide +kernel) (by decide +kernel)
  · exact .inr ⟨by decide +kernel, by decide +kernel, by decide +kernel, by decide +kernel,
      by decide +kernel⟩
  · exact tcpFrame_of_parse (by decide +kernel) (by decide +kernel) (by decide +kernel)

end CloudHands.Pkt

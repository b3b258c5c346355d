import CloudHands.Pkt.Parse
import CloudHands.Tcp.Session

/-!
# The transport payload of an accepted frame

`ch_packet_tcp_init_from_pkt` and `ch_packet_udp_init_from_pkt` of `packet/ch_packet_tcp.h`
and `packet/ch_packet_udp.h`. The length of the payload is the smaller of what the frame
and what the IP header leave behind the headers, both computed in 16 bits.
-/

namespace CloudHands.Pkt

open Lib

/-- Where the payload is taken to be; `pdata` is the bytes behind the pointer. -/
structure PayloadRange where
  ipDlen : ℕ
  tthLen : ℕ
  payloadLen : ℕ
  pdata : Option (List UInt8)
  deriving DecidableEq

def payloadRange (pkt : Packet) (ipLength : ℕ) : PayloadRange :=
  let ipDlen := Word.sub 16 ipLength (pkt.l3Len + pkt.l4Len)
  let tthLen := pkt.l2Len + pkt.l3Len + pkt.l4Len
  let mbdlen := Word.sub 16 pkt.dlen tthLen
  let payloadLen := min mbdlen ipDlen
  ⟨ipDlen, tthLen, payloadLen, if payloadLen > 0 then some (pkt.data.drop tthLen) else none⟩

structure FlowKey where
  isIpv6 : Bool
  srcIp : ℕ
  dstIp : ℕ
  srcAddr : ℕ
  dstAddr : ℕ
  srcPort : ℕ
  dstPort : ℕ
  deriving DecidableEq

/-- `ch_packet_tcp_t`. Initialising it leaves the fields of the other address family as
they are. -/
structure PacketTcp extends PayloadRange, FlowKey where
  tcpFlags : UInt8
  sentSeq : ℕ
  recvAck : ℕ
  deriving DecidableEq

structure PacketUdp extends PayloadRange, FlowKey
  deriving DecidableEq

def packetTcpInitFromPktIpv4 (tcpPkt : PacketTcp) (pkt : Packet) : Option PacketTcp :=
  match packetDataRead pkt pkt.l2Len 20, packetDataRead pkt (pkt.l2Len + pkt.l3Len) 20 with
  | some iph, some th =>
    some { tcpPkt with
      toPayloadRange := payloadRange pkt (be pkt.data (iph + 2) 2)
      isIpv6 := false
      srcIp := host pkt.data (iph + 12) 4
      dstIp := host pkt.data (iph + 16) 4
      srcPort := be pkt.data th 2
      dstPort := be pkt.data (th + 2) 2
      tcpFlags := UInt8.ofNat (be pkt.data (th + 13) 1)
      sentSeq := be pkt.data (th + 4) 4
      recvAck := be pkt.data (th + 8) 4 }
  | _, _ => none

def packetTcpInitFromPktIpv6 (tcpPkt : PacketTcp) (pkt : Packet) : Option PacketTcp :=
  match packetDataRead pkt pkt.l2Len 40, packetDataRead pkt (pkt.l2Len + pkt.l3Len) 20 with
  | some iph, some th =>
    some { tcpPkt with
      toPayloadRange := payloadRange pkt (be pkt.data (iph + 4) 2)
      isIpv6 := true
      srcAddr := host pkt.data (iph + 8) 16
      dstAddr := host pkt.data (iph + 24) 16
      srcPort := be pkt.data th 2
      dstPort := be pkt.data (th + 2) 2
      tcpFlags := UInt8.ofNat (be pkt.data (th + 13) 1)
      sentSeq := be pkt.data (th + 4) 4
      recvAck := be pkt.data (th + 8) 4 }
  | _, _ => none

def packetTcpInitFromPkt (tcpPkt : PacketTcp) (pkt : Packet) : Option PacketTcp :=
  if pkt.isIpv6 then packetTcpInitFromPktIpv6 tcpPkt pkt else packetTcpInitFromPktIpv4 tcpPkt pkt

def packetUdpInitFromPktIpv4 (pktUdp : PacketUdp) (pkt : Packet) : Option PacketUdp :=
  match packetDataRead pkt pkt.l2Len 20, packetDataRead pkt (pkt.l2Len + pkt.l3Len) 8 with
  | some iph, some uh =>
    some { pktUdp with
      toPayloadRange := payloadRange pkt (be pkt.data (iph + 2) 2)
      isIpv6 := false
      srcIp := host pkt.data (iph + 12) 4
      dstIp := host pkt.data (iph + 16) 4
      srcPort := be pkt.data uh 2
      dstPort := be pkt.data (uh + 2) 2 }
  | _, _ => none

def packetUdpInitFromPktIpv6 (pktUdp : PacketUdp) (pkt : Packet) : Option PacketUdp :=
  match packetDataRead pkt pkt.l2Len 40, packetDataRead pkt (pkt.l2Len + pkt.l3Len) 8 with
  | some iph, some uh =>
    some { pktUdp with
      toPayloadRange := payloadRange pkt (be pkt.data (iph + 4) 2)
      isIpv6 := true
      srcIp := 0
      dstIp := 0
      srcAddr := host pkt.data (iph + 8) 16
      dstAddr := host pkt.data (iph + 24) 16
      srcPort := be pkt.data uh 2
      dstPort := be pkt.data (uh + 2) 2 }
  | _, _ => none

def packetUdpInitFromPkt (pktUdp : PacketUdp) (pkt : Packet) : Option PacketUdp :=
  if pkt.isIpv6 then packetUdpInitFromPktIpv6 pktUdp pkt else packetUdpInitFromPktIpv4 pktUdp pkt

def blankTcp : PacketTcp := ⟨⟨0, 0, 0, none⟩, ⟨false, 0, 0, 0, 0, 0, 0⟩, 0, 0, 0⟩

def blankUdp : PacketUdp := ⟨⟨0, 0, 0, none⟩, ⟨false, 0, 0, 0, 0, 0, 0⟩⟩

/-- The parser accepts the frame as `pkt`. -/
def Accepts (ipv6 : Bool) (mbuf : List UInt8) (pkt : Packet) : Prop :=
  ∃ fuel, packetParse ipv6 fuel mbuf = some (.parseOk, pkt)

/-- The range that the initialisation of an accepted TCP or UDP packet computes. -/
inductive InitRange (pkt : Packet) : PayloadRange → Prop
  | tcp {tcpPkt t : PacketTcp} : pkt.pktType = .tcp → packetTcpInitFromPkt tcpPkt pkt = some t →
      InitRange pkt t.toPayloadRange
  | udp {pktUdp u : PacketUdp} : pkt.pktType = .udp → packetUdpInitFromPkt pktUdp pkt = some u →
      InitRange pkt u.toPayloadRange

/-- The length field of the IP header: `total_length` of IPv4, `payload_len` of IPv6. -/
def ipLength (pkt : Packet) : ℕ :=
  if pkt.isIpv6 then be pkt.data (pkt.l2Len % 2 ^ 16 + 4) 2
  else be pkt.data (pkt.l2Len % 2 ^ 16 + 2) 2

theorem packetDataRead_eq_some {pkt : Packet} {offset len p : ℕ}
    (h : packetDataRead pkt offset len = some p) : p = offset % 2 ^ 16 ∧ p + len ≤ pkt.dlen := by
  unfold packetDataRead at h
  split_ifs at h with hlen
  obtain rfl := Option.some.inj h
  exact ⟨rfl, by omega⟩

structure ReadsFlow (pkt : Packet) (key : FlowKey) : Prop where
  family : key.isIpv6 = pkt.isIpv6
  ip : pkt.isIpv6 = false → key.srcIp = host pkt.data (pkt.l2Len % 2 ^ 16 + 12) 4 ∧
    key.dstIp = host pkt.data (pkt.l2Len % 2 ^ 16 + 16) 4
  addr : pkt.isIpv6 = true → key.srcAddr = host pkt.data (pkt.l2Len % 2 ^ 16 + 8) 16 ∧
    key.dstAddr = host pkt.data (pkt.l2Len % 2 ^ 16 + 24) 16
  inside : pkt.isIpv6 = true → pkt.l2Len % 2 ^ 16 + 40 ≤ pkt.dlen
  ports : key.srcPort = be pkt.data ((pkt.l2Len + pkt.l3Len) % 2 ^ 16) 2 ∧
    key.dstPort = be pkt.data ((pkt.l2Len + pkt.l3Len) % 2 ^ 16 + 2) 2

theorem packetTcpInitFromPkt_spec {pkt : Packet} {tcpPkt t : PacketTcp}
    (h : packetTcpInitFromPkt tcpPkt pkt = some t) :
    t.toPayloadRange = payloadRange pkt (ipLength pkt) ∧ ReadsFlow pkt t.toFlowKey := by
  unfold packetTcpInitFromPkt at h
  split_ifs at h with hfamily
  · unfold packetTcpInitFromPktIpv6 at h
    split at h
    · next iph th hiph hth =>
      obtain rfl := Option.some.inj h
      obtain ⟨rfl, hinside⟩ := packetDataRead_eq_some hiph
      obtain ⟨rfl, -⟩ := packetDataRead_eq_some hth
      refine ⟨by simp [ipLength, hfamily], hfamily.symm, ?_, fun _ => ⟨rfl, rfl⟩,
        fun _ => hinside, rfl, rfl⟩
      simp [hfamily]
    · cases h
  · unfold packetTcpInitFromPktIpv4 at h
    split at h
    · next iph th hiph hth =>
      obtain rfl := Option.some.inj h
      obtain ⟨rfl, -⟩ := packetDataRead_eq_some hiph
      obtain ⟨rfl, -⟩ := packetDataRead_eq_some hth
      refine ⟨by simp [ipLength, hfamily], ?_, fun _ => ⟨rfl, rfl⟩, ?_, ?_, rfl, rfl⟩
      · simp [hfamily]
      · simp [hfamily]
      · simp [hfamily]
    · cases h

theorem packetUdpInitFromPkt_spec {pkt : Packet} {pktUdp u : PacketUdp}
    (h : packetUdpInitFromPkt pktUdp pkt = some u) :
    u.toPayloadRange = payloadRange pkt (ipLength pkt) ∧ ReadsFlow pkt u.toFlowKey := by
  unfold packetUdpInitFromPkt at h
  split_ifs at h with hfamily
  · unfold packetUdpInitFromPktIpv6 at h
    split at h
    · next iph uh hiph huh =>
      obtain rfl := Option.some.inj h
      obtain ⟨rfl, hinside⟩ := packetDataRead_eq_some hiph
      obtain ⟨rfl, -⟩ := packetDataRead_eq_some huh
      refine ⟨by simp [ipLength, hfamily], hfamily.symm, ?_, fun _ => ⟨rfl, rfl⟩,
        fun _ => hinside, rfl, rfl⟩
      simp [hfamily]
    · cases h
  · unfold packetUdpInitFromPktIpv4 at h
    split at h
    · next iph uh hiph huh =>
      obtain rfl := Option.some.inj h
      obtain ⟨rfl, -⟩ := packetDataRead_eq_some hiph
      obtain ⟨rfl, -⟩ := packetDataRead_eq_some huh
      refine ⟨by simp [ipLength, hfamily], ?_, fun _ => ⟨rfl, rfl⟩, ?_, ?_, rfl, rfl⟩
      · simp [hfamily]
      · simp [hfamily]
      · simp [hfamily]
    · cases h

theorem InitRange.eq {pkt : Packet} {r : PayloadRange} (h : InitRange pkt r) :
    r = payloadRange pkt (ipLength pkt) := by
  cases h with
  | tcp _ hinit => exact (packetTcpInitFromPkt_spec hinit).1
  | udp _ hinit => exact (packetUdpInitFromPkt_spec hinit).1

structure SameFrame (p q : Packet) : Prop where
  data : q.data = p.data
  dlen : q.dlen = p.dlen
  l2Len : q.l2Len = p.l2Len

theorem SameFrame.refl (p : Packet) : SameFrame p p := ⟨rfl, rfl, rfl⟩

theorem SameFrame.trans {p q r : Packet} (h : SameFrame p q) (h' : SameFrame q r) :
    SameFrame p r := ⟨h'.data.trans h.data, h'.dlen.trans h.dlen, h'.l2Len.trans h.l2Len⟩

structure AfterLayer3 (p q : Packet) : Prop extends SameFrame p q where
  pktType : q.pktType = p.pktType
  parseOff : p.parseOff = p.l2Len → p.l2Len < 2 ^ 16 →
    q.parseOff = (q.l2Len + q.l3Len) % 2 ^ 16

structure AfterLayer4 (p q : Packet) : Prop extends SameFrame p q where
  isIpv6 : q.isIpv6 = p.isIpv6
  l3Len : q.l3Len = p.l3Len
  hash : q.hash = flowHash q.data (q.l2Len % 2 ^ 16) (be q.data (p.parseOff % 2 ^ 16) 2)
    (be q.data (p.parseOff % 2 ^ 16 + 2) 2)

/-- The packet behind a layer 2 header of `off` bytes. -/
def afterLayer2 (mbuf : List UInt8) (off proto : ℕ) : Packet :=
  ⟨mbuf, mbuf.length % 2 ^ 16, .other, off % 2 ^ 16, 0, 0, proto, 0, off % 2 ^ 16, 0, false⟩

theorem packetEtherParse_spec {fuel : ℕ} {mbuf : List UInt8} {pkt : Packet}
    (h : packetEtherParse fuel (packetInit mbuf) = some (.parseOk, pkt)) :
    ∃ off proto, pkt = afterLayer2 mbuf off proto := by
  unfold packetEtherParse at h
  split at h
  · cases h
  · dsimp only at h
    split_ifs at h
    · cases h
    · cases h
    · obtain ⟨tags, -, hpkt⟩ := Option.map_eq_some_iff.1 h
      split at hpkt
      · cases hpkt
      · next off proto =>
        cases hpkt
        exact ⟨off, proto, rfl⟩

theorem packetIpv4Parse_spec {pkt q : Packet} (h : packetIpv4Parse pkt = (.parseOk, q)) :
    AfterLayer3 pkt q ∧ q.isIpv6 = pkt.isIpv6 := by
  unfold packetIpv4Parse at h
  split at h
  · cases h
  · dsimp only at h
    split_ifs at h
    · cases h
    · cases h
    · cases h
    · cases h
      refine ⟨⟨⟨rfl, rfl, rfl⟩, rfl, ?_⟩, rfl⟩
      intro hoff _
      dsimp only
      rw [hoff]

theorem netSkipIp6Ext_lt {pkt : Packet} {n proto off : ℕ} {r : ℕ × ℕ × Bool} (hoff : off < 2 ^ 16)
    (h : netSkipIp6Ext pkt n proto off = some r) : r.2.1 < 2 ^ 16 := by
  induction n generalizing proto off with
  | zero => cases h
  | succ n ih =>
    unfold netSkipIp6Ext at h
    split_ifs at h
    · split at h
      · cases h
      · exact ih (Nat.mod_lt _ (by norm_num)) h
    · split at h
      · cases h
      · cases h
        exact Nat.mod_lt _ (by norm_num)
    · cases h
      exact hoff
    · cases h
      exact hoff

theorem packetIpv6Parse_spec {pkt q : Packet} (h : packetIpv6Parse pkt = (.parseOk, q)) :
    AfterLayer3 pkt q ∧ q.isIpv6 = true := by
  unfold packetIpv6Parse at h
  split at h
  · cases h
  · dsimp only at h
    split at h
    · cases h
    · next proto r frag hskip =>
      split_ifs at h
      · cases h
      · cases h
      · cases h
        split_ifs at hskip
        · obtain ⟨⟨proto', off, frag'⟩, hext, hr⟩ := Option.map_eq_some_iff.1 hskip
          obtain ⟨-, rfl, -⟩ : proto' = proto ∧ _ = r ∧ frag' = frag := by simpa using hr
          refine ⟨⟨⟨rfl, rfl, rfl⟩, rfl, fun _ hl2 => ?_⟩, rfl⟩
          have hoff : off < 2 ^ 16 := netSkipIp6Ext_lt (Nat.mod_lt _ (by norm_num)) hext
          simp only [Word.sub]
          omega
        · cases hskip
          refine ⟨⟨⟨rfl, rfl, rfl⟩, rfl, fun hoff _ => ?_⟩, rfl⟩
          dsimp only
          rw [hoff]

inductive Transport
  | tcp
  | udp
  deriving DecidableEq

namespace Transport

def pktType : Transport → PktType
  | tcp => .tcp
  | udp => .udp

def proto : Transport → ℕ
  | tcp => 6
  | udp => 17

def parse : Transport → Packet → PktParse × Packet
  | tcp => packetTcpParse
  | udp => packetUdpParse

theorem parse_spec {tr : Transport} {pkt q : Packet} (h : tr.parse pkt = (.parseOk, q)) :
    AfterLayer4 pkt q ∧ q.pktType = tr.pktType := by
  cases tr with
  | tcp =>
    simp only [parse, packetTcpParse] at h
    split at h
    · next iph th hiph hth =>
      obtain ⟨rfl, -⟩ := packetDataRead_eq_some hiph
      obtain ⟨rfl, -⟩ := packetDataRead_eq_some hth
      split_ifs at h
      · cases h
      · cases h
        refine ⟨⟨⟨rfl, rfl, rfl⟩, rfl, rfl, ?_⟩, rfl⟩
        dsimp only
    · cases h
  | udp =>
    simp only [parse, packetUdpParse] at h
    split at h
    · next iph uh hiph huh =>
      obtain ⟨rfl, -⟩ := packetDataRead_eq_some hiph
      obtain ⟨rfl, -⟩ := packetDataRead_eq_some huh
      cases h
      refine ⟨⟨⟨rfl, rfl, rfl⟩, rfl, rfl, ?_⟩, rfl⟩
      dsimp only
    · cases h

theorem pktType_ne_other (tr : Transport) : tr.pktType ≠ .other := by cases tr <;> decide

theorem pktType_ne_arp (tr : Transport) : tr.pktType ≠ .arp := by cases tr <;> decide

end Transport

structure Layers (ipv6 : Bool) (fuel : ℕ) (mbuf : List UInt8) (tr : Transport) (p q r : Packet) :
    Prop where
  ether : packetEtherParse fuel (packetInit mbuf) = some (.parseOk, p)
  network : (p.l3Proto = 0x0800 ∧ packetIpv4Parse p = (.parseOk, q)) ∨
    (ipv6 = true ∧ p.l3Proto = 0x86DD ∧ packetIpv6Parse p = (.parseOk, q))
  proto : q.l4Proto = tr.proto
  transport : tr.parse q = (.parseOk, r)

theorem parseLayer_cons (parser : PacketParser) (parsers : List PacketParser) (proto : ℕ)
    (pkt : Packet) : parseLayer (parser :: parsers) proto pkt =
      if parser.proto = proto then parser.parse pkt else parseLayer parsers proto pkt := by
  unfold parseLayer packetParserFind
  by_cases h : parser.proto = proto
  · rw [List.find?_cons_of_pos (by simpa using h), if_pos h]
  · rw [List.find?_cons_of_neg (by simpa using h), if_neg h]

theorem parseLayer_transport {tr : Transport} {proto : ℕ} {q r : Packet}
    (h : parseLayer l4Parsers proto q = (.parseOk, r)) (hq : q.pktType ≠ tr.pktType)
    (hr : r.pktType = tr.pktType) : proto = tr.proto ∧ tr.parse q = (.parseOk, r) := by
  have hparse : ∀ tr' : Transport, proto = tr'.proto → tr'.parse q = (.parseOk, r) →
      proto = tr.proto ∧ tr.parse q = (.parseOk, r) := by
    intro tr' hproto h'
    have htype := (Transport.parse_spec h').2.symm.trans hr
    cases tr' <;> cases tr <;> first | exact ⟨hproto, h'⟩ | cases htype
  simp only [l4Parsers, parseLayer_cons] at h
  split_ifs at h with htcp hudp hicmp
  · exact hparse .tcp htcp.symm h
  · exact hparse .udp hudp.symm h
  · unfold packetIcmpParse at h
    split at h
    · cases h
    · cases h
      cases tr <;> cases hr
  · cases h
    exact absurd hr hq

theorem parseLayer_network {ipv6 : Bool} {proto : ℕ} {p q : Packet}
    (h : parseLayer (l3Parsers ipv6) proto p = (.parseOk, q)) :
    (proto = 0x0800 ∧ packetIpv4Parse p = (.parseOk, q)) ∨
    (ipv6 = true ∧ proto = 0x86DD ∧ packetIpv6Parse p = (.parseOk, q)) ∨
    (q.l4Proto = p.l4Proto ∧ (q.pktType = .arp ∨ q.pktType = p.pktType)) := by
  have hrest : parseLayer [⟨0x0806, packetArpParse⟩] proto p = (.parseOk, q) →
      q.l4Proto = p.l4Proto ∧ (q.pktType = .arp ∨ q.pktType = p.pktType) := by
    intro h
    rw [parseLayer_cons] at h
    split_ifs at h
    · dsimp only [packetArpParse] at h
      split at h
      · cases h
      · cases h
        exact ⟨rfl, .inl rfl⟩
    · cases h
      exact ⟨rfl, .inr rfl⟩
  cases ipv6 with
  | false =>
    simp only [l3Parsers, Bool.false_eq_true, if_false, List.append_nil, List.cons_append,
      List.nil_append, parseLayer_cons _ [_]] at h
    split_ifs at h with hip
    · exact .inl ⟨hip.symm, h⟩
    · exact .inr (.inr (hrest h))
  | true =>
    simp only [l3Parsers, if_true, List.cons_append, List.nil_append,
      parseLayer_cons _ (_ :: _)] at h
    split_ifs at h with hip hip6
    · exact .inl ⟨hip.symm, h⟩
    · exact .inr (.inl ⟨rfl, hip6.symm, h⟩)
    · exact .inr (.inr (hrest h))

theorem packetParse_layers {ipv6 : Bool} {fuel : ℕ} {mbuf : List UInt8} {r : Packet}
    {tr : Transport} (h : packetParse ipv6 fuel mbuf = some (.parseOk, r))
    (htype : r.pktType = tr.pktType) : ∃ p q, Layers ipv6 fuel mbuf tr p q r := by
  obtain ⟨⟨rc, p⟩, hp, hr⟩ := Option.map_eq_some_iff.1 h
  cases rc with
  | parseDrop => cases hr
  | parseBreak => cases hr
  | parseOk =>
    dsimp only at hr
    split at hr
    · next q hq =>
      obtain ⟨off, proto, rfl⟩ := packetEtherParse_spec hp
      obtain ⟨hproto, hipv4⟩ | ⟨hreg, hproto, hipv6⟩ | ⟨hl4, htype'⟩ := parseLayer_network hq
      · have hother : q.pktType ≠ tr.pktType := by
          rw [(packetIpv4Parse_spec hipv4).1.pktType]
          exact tr.pktType_ne_other.symm
        obtain ⟨hl4, htransport⟩ := parseLayer_transport hr hother htype
        exact ⟨_, q, hp, .inl ⟨hproto, hipv4⟩, hl4, htransport⟩
      · have hother : q.pktType ≠ tr.pktType := by
          rw [(packetIpv6Parse_spec hipv6).1.pktType]
          exact tr.pktType_ne_other.symm
        obtain ⟨hl4, htransport⟩ := parseLayer_transport hr hother htype
        exact ⟨_, q, hp, .inr ⟨hreg, hproto, hipv6⟩, hl4, htransport⟩
      · have hother : q.pktType ≠ tr.pktType := by
          obtain htype' | htype' := htype'
          · rw [htype']
            exact tr.pktType_ne_arp.symm
          · rw [htype']
            exact tr.pktType_ne_other.symm
        obtain ⟨hl4', -⟩ := parseLayer_transport hr hother htype
        rw [hl4] at hl4'
        cases tr <;> cases hl4'
    · next hne => exact absurd hr (hne _)

theorem Layers.frame {ipv6 : Bool} {fuel : ℕ} {mbuf : List UInt8} {tr : Transport}
    {p q r : Packet} (h : Layers ipv6 fuel mbuf tr p q r) : SameFrame p r := by
  have hpq : SameFrame p q := by
    obtain ⟨-, hip⟩ | ⟨-, -, hip⟩ := h.network
    · exact (packetIpv4Parse_spec hip).1.toSameFrame
    · exact (packetIpv6Parse_spec hip).1.toSameFrame
  exact hpq.trans (Transport.parse_spec h.transport).1.toSameFrame

theorem InitRange.transport {pkt : Packet} {r : PayloadRange} (h : InitRange pkt r) :
    ∃ tr : Transport, pkt.pktType = tr.pktType := by
  cases h with
  | tcp htype _ => exact ⟨.tcp, htype⟩
  | udp htype _ => exact ⟨.udp, htype⟩

theorem be_lt (data : List UInt8) (off n : ℕ) : be data off n < 256 ^ n := by
  have h := ofBigEndian_lt ((data.drop off).take n)
  exact h.trans_le (Nat.pow_le_pow_right (by norm_num) (List.length_take_le _ _))

theorem ipLength_lt (pkt : Packet) : ipLength pkt < 2 ^ 16 := by
  unfold ipLength
  split_ifs
  · exact be_lt _ _ 2
  · exact be_lt _ _ 2

/-- The range lies in the frame, and its length is what exact arithmetic gives: the smaller
of what the frame and what the IP length leave behind the headers. -/
def Confined (mbuf : List UInt8) (pkt : Packet) (r : PayloadRange) : Prop :=
  r.tthLen + r.payloadLen ≤ mbuf.length ∧
    (r.payloadLen : ℤ) = min ((mbuf.length : ℤ) - (pkt.l2Len + pkt.l3Len + pkt.l4Len : ℕ))
      ((ipLength pkt : ℤ) - (pkt.l3Len + pkt.l4Len : ℕ))

/-- The frame holds all headers, the IP length covers the headers it counts, and what the
frame leaves behind them is below 64 KiB or has low 16 bits that hold the IP payload. -/
def HeadersFit (mbuf : List UInt8) (pkt : Packet) : Prop :=
  let tthLen := pkt.l2Len + pkt.l3Len + pkt.l4Len
  tthLen ≤ mbuf.length ∧ pkt.l3Len + pkt.l4Len ≤ ipLength pkt ∧
    (mbuf.length - tthLen < 2 ^ 16 ∨
      ipLength pkt - (pkt.l3Len + pkt.l4Len) ≤ (mbuf.length - tthLen) % 2 ^ 16)

theorem sub_mod_of_le {len n : ℕ} (h : n ≤ len) :
    Word.sub 16 (len % 2 ^ 16) n = (len - n) % 2 ^ 16 := by
  unfold Word.sub
  omega

theorem payload_confined_iff (ipv6 : Bool) (mbuf : List UInt8) (pkt : Packet) (r : PayloadRange)
    (haccept : Accepts ipv6 mbuf pkt) (hinit : InitRange pkt r) :
    Confined mbuf pkt r ↔ HeadersFit mbuf pkt := by
  obtain ⟨tr, htype⟩ := hinit.transport
  obtain ⟨fuel, hparse⟩ := haccept
  obtain ⟨p, q, hlayers⟩ := packetParse_layers hparse htype
  obtain ⟨off, proto, rfl⟩ := packetEtherParse_spec hlayers.ether
  have hdlen : pkt.dlen = mbuf.length % 2 ^ 16 := hlayers.frame.dlen
  have hip := ipLength_lt pkt
  rw [hinit.eq]
  simp only [Confined, HeadersFit, payloadRange, hdlen]
  generalize ipLength pkt = ip at hip ⊢
  generalize mbuf.length = len
  generalize pkt.l2Len + pkt.l3Len + pkt.l4Len = tth
  generalize pkt.l3Len + pkt.l4Len = hdr
  constructor
  · rintro ⟨-, hmin⟩
    -- the exact length is not negative, so neither difference is
    have htth : tth ≤ len := by omega
    have hhdr : hdr ≤ ip := by omega
    rw [sub_mod_of_le htth, Word.sub_of_le hip hhdr] at hmin
    refine ⟨htth, hhdr, ?_⟩
    omega
  · rintro ⟨htth, hhdr, hroom⟩
    rw [sub_mod_of_le htth, Word.sub_of_le hip hhdr]
    have hmod := Nat.mod_le (len - tth) (2 ^ 16)
    refine ⟨by omega, ?_⟩
    obtain hroom | hroom := hroom
    · rw [Nat.mod_eq_of_lt hroom]
      omega
    · omega

/-- A frame with IPv4 and TCP headers of 20 bytes, for the total length and the data offset
given. -/
def tcpFrame (totalLength dataOff : UInt8) (payload : List UInt8) : List UInt8 :=
  let ether : List UInt8 := [2, 0, 0, 0, 0, 1, 2, 0, 0, 0, 0, 2, 0x08, 0x00]
  let ip : List UInt8 :=
    [0x45, 0, 0, totalLength, 0, 0, 0, 0, 64, 6, 0, 0, 10, 0, 0, 1, 10, 0, 0, 2]
  let tcp : List UInt8 :=
    [0x04, 0xd2, 0, 80, 0, 0, 0, 1, 0, 0, 0, 1, dataOff <<< 4, 0x18, 0, 0, 0, 0, 0, 0]
  ether ++ ip ++ tcp ++ payload

theorem payload_confined_padded :
    let mbuf := tcpFrame 43 5 [1, 2, 3, 0, 0, 0]
    let pkt : Packet := ⟨mbuf, 60, .tcp, 14, 20, 20, 0x0800, 6, 54, 491311340, false⟩
    Confined mbuf pkt (payloadRange pkt 43) ∧ (payloadRange pkt 43).payloadLen = 3 := by
  intro mbuf pkt
  have haccept : Accepts false mbuf pkt := ⟨1, by decide +kernel⟩
  have hinit : InitRange pkt (payloadRange pkt 43) := by
    have h : (packetTcpInitFromPkt blankTcp pkt).map PacketTcp.toPayloadRange =
        some (payloadRange pkt 43) := by decide +kernel
    obtain ⟨t, ht, hrange⟩ := Option.map_eq_some_iff.1 h
    exact hrange ▸ .tcp rfl ht
  refine ⟨(payload_confined_iff false mbuf pkt _ haccept hinit).2 ?_, by decide +kernel⟩
  exact ⟨by decide +kernel, by decide +kernel, .inl (by decide +kernel)⟩

/-- A data offset of 60 bytes in a frame of 54: both differences wrap. -/
theorem wrapped_payload_not_confined :
    let mbuf := tcpFrame 40 15 []
    let pkt : Packet := ⟨mbuf, 54, .tcp, 14, 20, 60, 0x0800, 6, 94, 491311340, false⟩
    Accepts false mbuf pkt ∧ InitRange pkt (payloadRange pkt 40) ∧
      (payloadRange pkt 40).payloadLen = 65496 ∧ ¬Confined mbuf pkt (payloadRange pkt 40) := by
  intro mbuf pkt
  have hinit : InitRange pkt (payloadRange pkt 40) := by
    have h : (packetTcpInitFromPkt blankTcp pkt).map PacketTcp.toPayloadRange =
        some (payloadRange pkt 40) := by decide +kernel
    obtain ⟨t, ht, hrange⟩ := Option.map_eq_some_iff.1 h
    exact hrange ▸ .tcp rfl ht
  refine ⟨⟨1, by decide +kernel⟩, hinit, by decide +kernel, ?_⟩
  rintro ⟨hle, -⟩
  exact absurd hle (by decide +kernel)

end CloudHands.Pkt

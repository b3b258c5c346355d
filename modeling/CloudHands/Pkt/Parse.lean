import CloudHands.Lib.Loop
import CloudHands.Lib.Memory
import CloudHands.Lib.Word
import CloudHands.Pkt.Jhash

/-!
# Parsing a captured frame

`packet/ch_packet.c` with the parsers of its layers: Ethernet with VLAN tags, IPv4, IPv6
with its extension headers, ARP, TCP, UDP and ICMP. A frame is the bytes of its mbuf.
Header positions are 16-bit offsets, and a read is checked against the 16-bit `dlen`.
-/

namespace CloudHands.Pkt

open Lib

inductive PktType
  | other
  | tcp
  | udp
  | icmp
  | arp
  deriving DecidableEq

/-- `PKT_PARSE_OK`, `PKT_PARSE_DROP` and `PKT_PARSE_BREAK`. -/
inductive PktParse
  | parseOk
  | parseDrop
  | parseBreak
  deriving DecidableEq

structure Packet where
  data : List UInt8
  dlen : ℕ
  pktType : PktType
  l2Len : ℕ
  l3Len : ℕ
  l4Len : ℕ
  l3Proto : ℕ
  l4Proto : ℕ
  parseOff : ℕ
  hash : UInt32
  isIpv6 : Bool
  deriving DecidableEq

def be (data : List UInt8) (off n : ℕ) : ℕ := ofBigEndian ((data.drop off).take n)

def host (data : List UInt8) (off n : ℕ) : ℕ := ofLittleEndian ((data.drop off).take n)

def packetInit (mbuf : List UInt8) : Packet where
  data := mbuf
  dlen := mbuf.length % 2 ^ 16
  pktType := .other
  l2Len := 0
  l3Len := 0
  l4Len := 0
  l3Proto := 0
  l4Proto := 0
  parseOff := 0
  hash := 0
  isIpv6 := false

def packetDataRead (pkt : Packet) (offset len : ℕ) : Option ℕ :=
  if offset % 2 ^ 16 + len > pkt.dlen then none else some (offset % 2 ^ 16)

/-- One turn of the loop over the tags, on `off` and `proto`. -/
def vlanIter (pkt : Packet) : ℕ × ℕ → Iter (ℕ × ℕ) (Option (ℕ × ℕ))
  | (off, proto) =>
    if proto = 0x8100 then
      match packetDataRead pkt off 4 with
      | none => .leave none
      | some vh => .next ((off + 4) % 2 ^ 32, be pkt.data (vh + 2) 2)
    else if proto = 0x88A8 then
      match packetDataRead pkt (off + 4) 4 with
      | none => .leave none
      | some vh => .next ((off + 8) % 2 ^ 32, be pkt.data (vh + 2) 2)
    else .leave (some (off, proto))

/-- None when the loop over the tags takes more than `fuel` turns. -/
def packetEtherParse (fuel : ℕ) (pkt : Packet) : Option (PktParse × Packet) :=
  match packetDataRead pkt 0 14 with
  | none => some (.parseDrop, pkt)
  | some eh =>
    let proto := be pkt.data (eh + 12) 2
    if 0x05DC ≤ proto ∧ proto ≤ 0x0600 then some (.parseDrop, pkt)
    else if proto < 0x05DC then some (.parseDrop, pkt)
    else
      (loop (vlanIter pkt) fuel (14, proto)).map fun tags =>
        match tags with
        | none => (.parseDrop, pkt)
        | some (off, proto) =>
          (.parseOk, { pkt with l2Len := off % 2 ^ 16, parseOff := off % 2 ^ 16, l3Proto := proto })

def packetIpv4Parse (pkt : Packet) : PktParse × Packet :=
  match packetDataRead pkt pkt.parseOff 20 with
  | none => (.parseDrop, pkt)
  | some ip4h =>
    let versionIhl := be pkt.data ip4h 1
    if versionIhl % 16 < 5 ∨ versionIhl / 16 ≠ 4 then (.parseDrop, pkt)
    else
      let l3Len := versionIhl % 16 * 4
      let pkt := { pkt with l3Len := l3Len, parseOff := (pkt.parseOff + l3Len) % 2 ^ 16 }
      -- the offset and the more-fragments flag
      if be pkt.data (ip4h + 6) 2 % 0x4000 ≠ 0 then
        (.parseBreak, { pkt with l4Len := 0, l4Proto := 0 })
      else
        let pkt := { pkt with l4Proto := be pkt.data (ip4h + 9) 1 }
        if pkt.l4Proto ≤ 0 ∨ 256 ≤ pkt.l4Proto then (.parseDrop, pkt) else (.parseOk, pkt)

/-- The headers that `_net_skip_ip6_ext` steps over: hop-by-hop, routing and destination
options. -/
def isSkipped (proto : ℕ) : Bool := proto == 0 || proto == 43 || proto == 60

def netSkipIp6Ext (pkt : Packet) : ℕ → ℕ → ℕ → Option (ℕ × ℕ × Bool)
  | 0, _, _ => none
  | n + 1, proto, off =>
    if isSkipped proto then
      match packetDataRead pkt off 2 with
      | none => none
      | some xh =>
        netSkipIp6Ext pkt n (be pkt.data xh 1) ((off + (be pkt.data (xh + 1) 1 + 1) * 8) % 2 ^ 16)
    else if proto = 44 then
      match packetDataRead pkt off 2 with
      | none => none
      | some xh => some (be pkt.data xh 1, (off + 8) % 2 ^ 16, true)
    else if proto = 59 then some (0, off, false)
    else some (proto, off, false)

/-- The next headers `ptype_l3_ip6` maps to `RTE_PTYPE_L3_IPV6_EXT`. -/
def isIp6Ext (proto : ℕ) : Bool :=
  isSkipped proto || proto == 44 || proto == 50 || proto == 51

def packetIpv6Parse (pkt : Packet) : PktParse × Packet :=
  match packetDataRead pkt pkt.parseOff 40 with
  | none => (.parseDrop, pkt)
  | some ip6h =>
    let proto := be pkt.data (ip6h + 6) 1
    let off := (pkt.parseOff + 40) % 2 ^ 16
    let pkt := { pkt with l3Len := 40, parseOff := off, isIpv6 := true }
    let skipped :=
      if isIp6Ext proto then
        (netSkipIp6Ext pkt 5 proto off).map fun (proto, off, frag) =>
          (proto, { pkt with l3Len := Word.sub 16 off pkt.l2Len, parseOff := off }, frag)
      else some (proto, pkt, false)
    match skipped with
    | none => (.parseDrop, pkt)
    | some (proto, pkt, frag) =>
      if proto = 0 then (.parseDrop, pkt)
      else if frag then (.parseBreak, { pkt with l4Len := 0, l4Proto := 0 })
      else (.parseOk, { pkt with l4Proto := proto })

def packetArpParse (pkt : Packet) : PktParse × Packet :=
  match packetDataRead pkt pkt.parseOff 28 with
  | none => (.parseDrop, pkt)
  | some arp =>
    (.parseOk, { pkt with
      pktType := .arp
      l3Len := 28
      parseOff := (pkt.parseOff + 28) % 2 ^ 16
      hash := jhash4wordsSort (host pkt.data (arp + 14) 4) (host pkt.data (arp + 24) 4) 0 0 0 })

/-- The hash takes the layer 3 header for one of IPv4. Layer 3 has read it already, so
`iph` is not NULL, which the TCP parser does not test. -/
def flowHash (data : List UInt8) (iph srcPort dstPort : ℕ) : UInt32 :=
  jhash4wordsSort (host data (iph + 12) 4) (host data (iph + 16) 4) srcPort dstPort 0

def packetTcpParse (pkt : Packet) : PktParse × Packet :=
  let iph := packetDataRead pkt pkt.l2Len 20
  let th := packetDataRead pkt pkt.parseOff 20
  let pkt := { pkt with pktType := .tcp }
  match iph, th with
  | some iph, some th =>
    let thOff := be pkt.data (th + 12) 1 / 16
    if thOff < 5 then (.parseDrop, pkt)
    else
      (.parseOk, { pkt with
        l4Len := thOff * 4
        parseOff := (pkt.parseOff + thOff * 4) % 2 ^ 16
        hash := flowHash pkt.data iph (be pkt.data th 2) (be pkt.data (th + 2) 2) })
  | _, _ => (.parseDrop, pkt)

def packetUdpParse (pkt : Packet) : PktParse × Packet :=
  let iph := packetDataRead pkt pkt.l2Len 20
  let uh := packetDataRead pkt pkt.parseOff 8
  let pkt := { pkt with pktType := .udp }
  match iph, uh with
  | some iph, some uh =>
    (.parseOk, { pkt with
      l4Len := 8
      parseOff := (pkt.parseOff + 8) % 2 ^ 16
      hash := flowHash pkt.data iph (be pkt.data uh 2) (be pkt.data (uh + 2) 2) })
  | _, _ => (.parseDrop, pkt)

def packetIcmpParse (pkt : Packet) : PktParse × Packet :=
  match packetDataRead pkt pkt.l2Len 20 with
  | none => (.parseDrop, pkt)
  | some iph =>
    (.parseOk, { pkt with
      pktType := .icmp
      l4Len := 8
      parseOff := (pkt.parseOff + 8) % 2 ^ 16
      hash := flowHash pkt.data iph 0 0 })

structure PacketParser where
  proto : ℕ
  parse : Packet → PktParse × Packet

/-- The parsers `ch_packet_init` registers. The call of `ch_packet_ipv6_init` is commented
out there; `ipv6` says whether it is made. -/
def l3Parsers (ipv6 : Bool) : List PacketParser :=
  [⟨0x0800, packetIpv4Parse⟩] ++ (if ipv6 then [⟨0x86DD, packetIpv6Parse⟩] else []) ++
    [⟨0x0806, packetArpParse⟩]

def l4Parsers : List PacketParser :=
  [⟨6, packetTcpParse⟩, ⟨17, packetUdpParse⟩, ⟨1, packetIcmpParse⟩]

def packetParserFind (parsers : List PacketParser) (proto : ℕ) : Option PacketParser :=
  parsers.find? fun parser => parser.proto == proto

def parseLayer (parsers : List PacketParser) (proto : ℕ) (pkt : Packet) : PktParse × Packet :=
  match packetParserFind parsers proto with
  | none => (.parseOk, pkt)
  | some parser => parser.parse pkt

def packetParse (ipv6 : Bool) (fuel : ℕ) (mbuf : List UInt8) : Option (PktParse × Packet) :=
  (packetEtherParse fuel (packetInit mbuf)).map fun r =>
    match r with
    | (.parseOk, pkt) =>
      match parseLayer (l3Parsers ipv6) pkt.l3Proto pkt with
      | (.parseOk, pkt) => parseLayer l4Parsers pkt.l4Proto pkt
      | r => r
    | r => r

end CloudHands.Pkt

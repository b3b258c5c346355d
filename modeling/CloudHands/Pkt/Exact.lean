import CloudHands.Pkt.Payload

/-!
# The payload of well-formed frames

What the length fields of a complete frame say the transport payload is, against what the
parser and the initialisation take it to be. The two agree for IPv4. For IPv6 the length
of the fixed header, which `payload_len` does not count, is subtracted from it as well.
-/

namespace CloudHands.Pkt

open Lib

def IsTag (proto : ℕ) : Prop := proto = 0x8100 ∨ proto = 0x88A8

/-- An Ethernet header with any number of VLAN tags ends at `off`, before a packet of
type `proto`. -/
inductive EtherHeader (f : List UInt8) : ℕ → ℕ → Prop
  | untagged : 14 ≤ f.length → EtherHeader f 14 (be f 12 2)
  | tagged {off proto : ℕ} : EtherHeader f off proto → IsTag proto → off + 4 ≤ f.length →
      EtherHeader f (off + 4) (be f (off + 2) 2)

/-- The tags are such that each service tag has a further tag behind it. -/
inductive PairedTags (f : List UInt8) : ℕ → ℕ → Prop
  | untagged : 14 ≤ f.length → PairedTags f 14 (be f 12 2)
  | customer {off : ℕ} : PairedTags f off 0x8100 → off + 4 ≤ f.length →
      PairedTags f (off + 4) (be f (off + 2) 2)
  | service {off : ℕ} : PairedTags f off 0x88A8 → IsTag (be f (off + 2) 2) →
      off + 8 ≤ f.length → PairedTags f (off + 8) (be f (off + 6) 2)

/-- The length of the transport header at `pos`. -/
def Transport.headerLen (f : List UInt8) (pos : ℕ) : Transport → ℕ
  | tcp => be f (pos + 12) 1 / 16 * 4
  | udp => 8

def Transport.fixedLen : Transport → ℕ
  | tcp => 20
  | udp => 8

/-- An IPv4 packet at `off` whose `len` bytes of payload begin at `start`. -/
structure Ipv4Payload (f : List UInt8) (tr : Transport) (off start len : ℕ) : Prop where
  version : be f off 1 / 16 = 4
  ihl : 5 ≤ be f off 1 % 16
  notFragment : be f (off + 6) 2 % 0x4000 = 0
  proto : be f (off + 9) 1 = tr.proto
  headerLen : tr.fixedLen ≤ tr.headerLen f (off + be f off 1 % 16 * 4)
  start_eq : start = off + be f off 1 % 16 * 4 + tr.headerLen f (off + be f off 1 % 16 * 4)
  len_eq : start + len = off + be f (off + 2) 2
  complete : start + len ≤ f.length

def IsExtHeader (proto : ℕ) : Prop := proto ∈ [0, 43, 44, 51, 60, 135, 139, 140]

instance (proto : ℕ) : Decidable (IsExtHeader proto) :=
  inferInstanceAs (Decidable (proto ∈ [0, 43, 44, 51, 60, 135, 139, 140]))

def extHeaderLen (f : List UInt8) (proto off : ℕ) : ℕ :=
  if proto = 44 then 8
  else if proto = 51 then (be f (off + 1) 1 + 2) * 4
  else (be f (off + 1) 1 + 1) * 8

/-- Extension headers of the kinds listed lead from `off` to `off'`, where the header of
`proto'` begins. -/
inductive ExtHeaders (f : List UInt8) : ℕ → ℕ → List ℕ → ℕ → ℕ → Prop
  | nil {off proto : ℕ} : ExtHeaders f off proto [] off proto
  | cons {off proto off' proto' : ℕ} {kinds : List ℕ} : IsExtHeader proto →
      ExtHeaders f (off + extHeaderLen f proto off) (be f off 1) kinds off' proto' →
      ExtHeaders f off proto (proto :: kinds) off' proto'

/-- An IPv6 packet at `off` with extension headers of these kinds. -/
structure Ipv6Payload (f : List UInt8) (tr : Transport) (off : ℕ) (kinds : List ℕ)
    (start len : ℕ) : Prop where
  version : be f off 1 / 16 = 6
  ext : ∃ off', ExtHeaders f (off + 40) (be f (off + 6) 1) kinds off' tr.proto ∧
    tr.fixedLen ≤ tr.headerLen f off' ∧ start = off' + tr.headerLen f off'
  len_eq : start + len = off + 40 + be f (off + 4) 2
  complete : start + len ≤ f.length

/-- The payload is that of an IPv4 packet, or of an IPv6 packet with extension headers of
these kinds. -/
inductive Carries (f : List UInt8) (tr : Transport) (off : ℕ) : ℕ → List ℕ → ℕ → ℕ → Prop
  | ipv4 {start len : ℕ} : Ipv4Payload f tr off start len → Carries f tr off 0x0800 [] start len
  | ipv6 {kinds : List ℕ} {start len : ℕ} : Ipv6Payload f tr off kinds start len →
      Carries f tr off 0x86DD kinds start len

/-- The frame is accepted for the transport, and the initialised packet has exactly the
payload of `len` bytes at `start`. -/
def ExactPayload (ipv6 : Bool) (f : List UInt8) (tr : Transport) (start len : ℕ) : Prop :=
  ∃ pkt r, Accepts ipv6 f pkt ∧ pkt.pktType = tr.pktType ∧ InitRange pkt r ∧
    r.tthLen = start ∧ r.payloadLen = len ∧
    r.pdata = if 0 < len then some (f.drop start) else none

theorem PairedTags.le_length {f : List UInt8} {off proto : ℕ} (h : PairedTags f off proto) :
    off ≤ f.length := by
  cases h with
  | untagged h => exact h
  | customer _ h => exact h
  | service _ _ h => exact h

theorem PairedTags.fourteen_le {f : List UInt8} {off proto : ℕ} (h : PairedTags f off proto) :
    14 ≤ off := by
  induction h with
  | untagged _ => exact le_rfl
  | customer _ _ ih => omega
  | service _ _ _ ih => omega

theorem PairedTags.first {f : List UInt8} {off proto : ℕ} (h : PairedTags f off proto) :
    (off = 14 ∧ proto = be f 12 2) ∨ IsTag (be f 12 2) := by
  induction h with
  | untagged _ => exact .inl ⟨rfl, rfl⟩
  | customer _ _ ih =>
    obtain ⟨-, htype⟩ | htype := ih
    · exact .inr (.inl htype.symm)
    · exact .inr htype
  | service _ _ _ ih =>
    obtain ⟨-, htype⟩ | htype := ih
    · exact .inr (.inr htype.symm)
    · exact .inr htype

theorem packetDataRead_of_le {f : List UInt8} {pkt : Packet} {off len : ℕ}
    (hlen : f.length < 2 ^ 16) (hdlen : pkt.dlen = f.length) (h : off + len ≤ f.length)
    (hpos : 0 < len) : packetDataRead pkt off len = some off := by
  have hmod : off % 2 ^ 16 = off := Nat.mod_eq_of_lt (by omega)
  rw [packetDataRead, hmod, if_neg (by omega)]

theorem PairedTags.loop {f : List UInt8} {off proto : ℕ} (hlen : f.length < 2 ^ 16)
    (h : PairedTags f off proto) :
    ∃ n, ∀ fuel, loop (vlanIter (packetInit f)) (n + fuel) (14, be f 12 2) =
      loop (vlanIter (packetInit f)) fuel (off, proto) := by
  have hdlen : (packetInit f).dlen = f.length := Nat.mod_eq_of_lt hlen
  induction h with
  | untagged _ => exact ⟨0, fun fuel => by rw [Nat.zero_add]⟩
  | @customer off _ hle ih =>
    obtain ⟨n, hn⟩ := ih
    refine ⟨n + 1, fun fuel => ?_⟩
    have hread : packetDataRead (packetInit f) off 4 = some off :=
      packetDataRead_of_le hlen hdlen hle (by norm_num)
    rw [Nat.add_assoc, Nat.add_comm 1, hn]
    apply loop_next
    simp only [vlanIter, if_true, hread, Nat.mod_eq_of_lt (show off + 4 < 2 ^ 32 by omega)]
    rfl
  | @service off _ _ hle ih =>
    obtain ⟨n, hn⟩ := ih
    refine ⟨n + 1, fun fuel => ?_⟩
    have hread : packetDataRead (packetInit f) (off + 4) 4 = some (off + 4) :=
      packetDataRead_of_le hlen hdlen (by omega) (by norm_num)
    rw [Nat.add_assoc, Nat.add_comm 1, hn]
    apply loop_next
    simp only [vlanIter, hread, Nat.mod_eq_of_lt (show off + 8 < 2 ^ 32 by omega)]
    rfl

theorem PairedTags.packetEtherParse {f : List UInt8} {off proto : ℕ} (hlen : f.length < 2 ^ 16)
    (h : PairedTags f off proto) (htag : ¬IsTag proto) (hproto : 0x0600 < proto) :
    ∃ n, packetEtherParse n (packetInit f) = some (.parseOk, afterLayer2 f off proto) := by
  have hle := h.fourteen_le.trans h.le_length
  have hfirst : 0x0600 < be f 12 2 := by
    obtain ⟨-, rfl⟩ | htype | htype := h.first
    · exact hproto
    · rw [htype]
      norm_num
    · rw [htype]
      norm_num
  obtain ⟨n, hn⟩ := h.loop hlen
  refine ⟨n + 1, ?_⟩
  have hread : packetDataRead (packetInit f) 0 14 = some 0 :=
    packetDataRead_of_le hlen (Nat.mod_eq_of_lt hlen) (by omega) (by norm_num)
  have hend : Lib.loop (vlanIter (packetInit f)) 1 (off, proto) = some (some (off, proto)) := by
    apply loop_leave
    simp only [IsTag, not_or] at htag
    simp only [vlanIter, htag.1, htag.2, if_false]
  unfold Pkt.packetEtherParse
  rw [hread]
  dsimp only
  rw [if_neg (by change ¬(0x05DC ≤ be f 12 2 ∧ be f 12 2 ≤ 0x0600); omega),
    if_neg (by change ¬be f 12 2 < 0x05DC; omega)]
  change Option.map _ (Lib.loop (vlanIter (packetInit f)) (n + 1) (14, be f 12 2)) = _
  rw [hn, hend]
  rfl

theorem packetEtherParse_unique {fuel fuel' : ℕ} {pkt : Packet} {r r' : PktParse × Packet}
    (h : packetEtherParse fuel pkt = some r) (h' : packetEtherParse fuel' pkt = some r') :
    r = r' := by
  cases heh : packetDataRead pkt 0 14 with
  | none =>
    simp only [packetEtherParse, heh] at h h'
    exact Option.some.inj (h.symm.trans h')
  | some eh =>
    simp only [packetEtherParse, heh] at h h'
    split_ifs at h h'
    · exact Option.some.inj (h.symm.trans h')
    · exact Option.some.inj (h.symm.trans h')
    · obtain ⟨tags, htags, rfl⟩ := Option.map_eq_some_iff.1 h
      obtain ⟨tags', htags', rfl⟩ := Option.map_eq_some_iff.1 h'
      rw [loop_unique htags htags']

theorem Accepts.unique {ipv6 : Bool} {f : List UInt8} {pkt pkt' : Packet}
    (h : Accepts ipv6 f pkt) (h' : Accepts ipv6 f pkt') : pkt = pkt' := by
  obtain ⟨fuel, h⟩ := h
  obtain ⟨fuel', h'⟩ := h'
  obtain ⟨p, hp, hr⟩ := Option.map_eq_some_iff.1 h
  obtain ⟨p', hp', hr'⟩ := Option.map_eq_some_iff.1 h'
  rw [packetEtherParse_unique hp hp'] at hr
  exact congrArg Prod.snd (hr.symm.trans hr')

structure AtTransport (f : List UInt8) (q : Packet) (off pos : ℕ) : Prop where
  data : q.data = f
  dlen : q.dlen = f.length
  l2Len : q.l2Len = off
  l3Len : q.l3Len = pos - off
  parseOff : q.parseOff = pos
  le : off + 20 ≤ pos

theorem AtTransport.le_pos {f : List UInt8} {q : Packet} {off pos : ℕ}
    (h : AtTransport f q off pos) : off ≤ pos := (Nat.le_add_right off 20).trans h.le

/-- The packet with its transport header of `tr` at `pos`. -/
structure AtPayload (f : List UInt8) (tr : Transport) (pkt : Packet) (off pos : ℕ) : Prop where
  data : pkt.data = f
  dlen : pkt.dlen = f.length
  l2Len : pkt.l2Len = off
  l3Len : pkt.l3Len = pos - off
  l4Len : pkt.l4Len = tr.headerLen f pos
  pktType : pkt.pktType = tr.pktType

theorem Transport.parse_of_complete {f : List UInt8} {tr : Transport} {q : Packet} {off pos : ℕ}
    (hlen : f.length < 2 ^ 16) (h : AtTransport f q off pos)
    (hfixed : tr.fixedLen ≤ tr.headerLen f pos) (hfits : pos + tr.headerLen f pos ≤ f.length) :
    ∃ pkt, tr.parse q = (.parseOk, pkt) ∧ AtPayload f tr pkt off pos ∧ pkt.isIpv6 = q.isIpv6 := by
  have hle := h.le
  have hiph : packetDataRead q q.l2Len 20 = some off := by
    rw [h.l2Len]
    exact packetDataRead_of_le hlen h.dlen (by omega) (by norm_num)
  cases tr with
  | tcp =>
    simp only [fixedLen, headerLen] at hfixed hfits
    have hth : packetDataRead q q.parseOff 20 = some pos := by
      rw [h.parseOff]
      exact packetDataRead_of_le hlen h.dlen (by omega) (by norm_num)
    have hoff : ¬be f (pos + 12) 1 / 16 < 5 := by omega
    simp only [parse, packetTcpParse, hiph, hth, h.data, hoff, if_false]
    exact ⟨_, rfl, ⟨rfl, h.dlen, h.l2Len, h.l3Len, rfl, rfl⟩, rfl⟩
  | udp =>
    simp only [fixedLen, headerLen] at hfixed hfits
    have huh : packetDataRead q q.parseOff 8 = some pos := by
      rw [h.parseOff]
      exact packetDataRead_of_le hlen h.dlen (by omega) (by norm_num)
    simp only [parse, packetUdpParse, hiph, huh]
    exact ⟨_, rfl, ⟨h.data, h.dlen, h.l2Len, h.l3Len, rfl, rfl⟩, rfl⟩

theorem Transport.proto_pos (tr : Transport) : 0 < tr.proto ∧ tr.proto < 256 := by
  cases tr <;> decide

theorem Ipv4Payload.parse {f : List UInt8} {tr : Transport} {off start len : ℕ}
    (hlen : f.length < 2 ^ 16) (h : Ipv4Payload f tr off start len) :
    ∃ q, packetIpv4Parse (afterLayer2 f off 0x0800) = (.parseOk, q) ∧
      AtTransport f q off (off + be f off 1 % 16 * 4) ∧ q.l4Proto = tr.proto ∧
      q.isIpv6 = false := by
  have hihl := h.ihl
  have hstart := h.start_eq
  have hcomplete := h.complete
  have hoff : off % 2 ^ 16 = off := Nat.mod_eq_of_lt (by omega)
  have hdlen : f.length % 2 ^ 16 = f.length := Nat.mod_eq_of_lt hlen
  have hread : packetDataRead (afterLayer2 f off 0x0800) off 20 = some off :=
    packetDataRead_of_le hlen hdlen (by omega) (by norm_num)
  have hpos : (off + be f off 1 % 16 * 4) % 2 ^ 16 = off + be f off 1 % 16 * 4 :=
    Nat.mod_eq_of_lt (by omega)
  have hparseOff : (afterLayer2 f off 0x0800).parseOff = off := hoff
  have hihl' : ¬(be f off 1 % 16 < 5 ∨ be f off 1 / 16 ≠ 4) := by
    rintro (hlt | hne)
    · omega
    · exact hne h.version
  have hproto : ¬(tr.proto ≤ 0 ∨ 256 ≤ tr.proto) := by
    have htr := tr.proto_pos
    omega
  have hdata : (afterLayer2 f off 0x0800).data = f := rfl
  simp only [packetIpv4Parse, hparseOff, hread, hdata, hihl', h.notFragment, h.proto, hproto,
    hpos, if_false, ne_eq, not_true_eq_false]
  refine ⟨_, rfl, ⟨rfl, hdlen, hoff, ?_, rfl, by omega⟩, rfl, rfl⟩
  dsimp only
  omega

theorem ExtHeaders.le {f : List UInt8} {off proto off' proto' : ℕ} {kinds : List ℕ}
    (h : ExtHeaders f off proto kinds off' proto') : off ≤ off' := by
  induction h with
  | nil => exact le_rfl
  | cons _ _ ih => omega

theorem extHeaderLen_of_skipped {f : List UInt8} {proto off : ℕ} (h : isSkipped proto = true) :
    extHeaderLen f proto off = (be f (off + 1) 1 + 1) * 8 := by
  have hne : proto ≠ 44 ∧ proto ≠ 51 := by
    constructor <;> rintro rfl <;> cases h
  rw [extHeaderLen, if_neg hne.1, if_neg hne.2]

theorem Transport.not_ext (tr : Transport) :
    isSkipped tr.proto = false ∧ isIp6Ext tr.proto = false ∧ tr.proto ≠ 44 ∧ tr.proto ≠ 59 := by
  cases tr <;> decide

theorem netSkipIp6Ext_skipped {f : List UInt8} {pkt : Packet} {n proto off : ℕ}
    (hlen : f.length < 2 ^ 16) (hdata : pkt.data = f) (hdlen : pkt.dlen = f.length)
    (hskip : isSkipped proto = true) (hle : off + extHeaderLen f proto off ≤ f.length) :
    netSkipIp6Ext pkt (n + 1) proto off =
      netSkipIp6Ext pkt n (be f off 1) (off + extHeaderLen f proto off) := by
  rw [extHeaderLen_of_skipped hskip] at hle ⊢
  have hread : packetDataRead pkt off 2 = some off :=
    packetDataRead_of_le hlen hdlen (by omega) (by norm_num)
  rw [netSkipIp6Ext, if_pos hskip, hread]
  dsimp only
  rw [hdata, Nat.mod_eq_of_lt (by omega)]

theorem netSkipIp6Ext_not_skipped (pkt : Packet) (tr : Transport) (n off o : ℕ) {proto : ℕ}
    (hext : IsExtHeader proto) (hskip : isSkipped proto = false) :
    netSkipIp6Ext pkt (n + 1) proto off ≠ some (tr.proto, o, false) := by
  intro h
  rw [netSkipIp6Ext, if_neg (by simp [hskip])] at h
  split_ifs at h with hfrag hnone
  · split at h
    · cases h
    · simp at h
  · subst hnone
    exact absurd hext (by decide)
  · obtain ⟨hproto, -⟩ : proto = tr.proto ∧ off = o := by simpa using h
    subst hproto
    cases tr <;> exact absurd hext (by decide)

theorem ExtHeaders.skip_iff {f : List UInt8} {pkt : Packet} {tr : Transport}
    {n off proto off' proto' : ℕ} {kinds : List ℕ} (hlen : f.length < 2 ^ 16)
    (hdata : pkt.data = f) (hdlen : pkt.dlen = f.length)
    (h : ExtHeaders f off proto kinds off' proto') (hproto : proto' = tr.proto)
    (hle : off' ≤ f.length) (o : ℕ) :
    netSkipIp6Ext pkt n proto off = some (tr.proto, o, false) ↔
      (∀ k ∈ kinds, isSkipped k = true) ∧ kinds.length < n ∧ o = off' := by
  induction h generalizing n with
  | @nil off proto =>
    subst hproto
    obtain ⟨hskip, -, hfrag, hnone⟩ := tr.not_ext
    cases n with
    | zero => simp [netSkipIp6Ext]
    | succ n =>
      have heq : netSkipIp6Ext pkt (n + 1) tr.proto off = some (tr.proto, off, false) := by
        simp [netSkipIp6Ext, hskip, hfrag, hnone]
      rw [heq]
      simp only [Option.some.injEq, Prod.mk.injEq, true_and, and_true]
      exact ⟨fun h => ⟨by simp, by simp, h.symm⟩, fun h => h.2.2.symm⟩
  | @cons off proto off' proto' kinds hext hrest ih =>
    have hle' := hrest.le
    cases n with
    | zero => simp [netSkipIp6Ext]
    | succ n =>
      cases hskip : isSkipped proto with
      | true =>
        rw [netSkipIp6Ext_skipped hlen hdata hdlen hskip (by omega), ih hproto hle]
        simp [hskip]
      | false =>
        have hnot := netSkipIp6Ext_not_skipped pkt tr n off o hext hskip
        simp [hnot, hskip]

theorem ExtHeaders.of_transport {f : List UInt8} {tr : Transport} {off off' proto' : ℕ}
    {kinds : List ℕ} (h : ExtHeaders f off tr.proto kinds off' proto') :
    kinds = [] ∧ off' = off := by
  generalize hproto : tr.proto = proto at h
  cases h with
  | nil => exact ⟨rfl, rfl⟩
  | cons hext _ =>
    subst hproto
    cases tr <;> exact absurd hext (by decide)

/-- The packet as layer 3 of IPv6 leaves it, with the extension headers ending at `pos`. -/
def afterIpv6 (f : List UInt8) (off pos l4Proto : ℕ) : Packet :=
  ⟨f, f.length, .other, off, pos - off, 0, 0x86DD, l4Proto, pos, 0, true⟩

theorem Ipv6Payload.parse_iff {f : List UInt8} {tr : Transport} {off off' : ℕ} {kinds : List ℕ}
    (hlen : f.length < 2 ^ 16)
    (hext : ExtHeaders f (off + 40) (be f (off + 6) 1) kinds off' tr.proto)
    (hle : off' ≤ f.length) (q : Packet) :
    (packetIpv6Parse (afterLayer2 f off 0x86DD) = (.parseOk, q) ∧ q.l4Proto = tr.proto) ↔
      (∀ k ∈ kinds, isSkipped k = true) ∧ kinds.length ≤ 4 ∧ q = afterIpv6 f off off' tr.proto := by
  have hoff' := hext.le
  have hoff : off % 2 ^ 16 = off := Nat.mod_eq_of_lt (by omega)
  have hpos : (off + 40) % 2 ^ 16 = off + 40 := Nat.mod_eq_of_lt (by omega)
  have hdlen : f.length % 2 ^ 16 = f.length := Nat.mod_eq_of_lt hlen
  have hparseOff : (afterLayer2 f off 0x86DD).parseOff = off := hoff
  have hl2Len : (afterLayer2 f off 0x86DD).l2Len = off := hoff
  have hdlen' : (afterLayer2 f off 0x86DD).dlen = f.length := hdlen
  have hdata : (afterLayer2 f off 0x86DD).data = f := rfl
  have hread : packetDataRead (afterLayer2 f off 0x86DD) off 40 = some off :=
    packetDataRead_of_le hlen hdlen (by omega) (by norm_num)
  have htr := tr.proto_pos
  simp only [packetIpv6Parse, hparseOff, hread, hdata, hpos, hl2Len, hdlen']
  generalize hinner : (Packet.mk f f.length _ off 40 _ _ _ (off + 40) _ true) = inner
  by_cases hmap : isIp6Ext (be f (off + 6) 1) = true
  · have hskip : ∀ o, netSkipIp6Ext inner 5 (be f (off + 6) 1) (off + 40) =
        some (tr.proto, o, false) ↔ (∀ k ∈ kinds, isSkipped k = true) ∧ kinds.length < 5 ∧
          o = off' :=
      hext.skip_iff hlen (hinner ▸ rfl) (hinner ▸ rfl) rfl hle
    rw [if_pos hmap]
    cases hs : netSkipIp6Ext inner 5 (be f (off + 6) 1) (off + 40) with
    | none =>
      constructor
      · rintro ⟨hq, -⟩
        cases hq
      · rintro ⟨hall, hcount, -⟩
        cases hs.symm.trans ((hskip off').2 ⟨hall, by omega, rfl⟩)
    | some r =>
      obtain ⟨proto, o, frag⟩ := r
      rw [hs] at hskip
      dsimp only [Option.map_some]
      constructor
      · rintro ⟨hq, hl4⟩
        split_ifs at hq with hzero hfrag
        · cases hq
        · cases hq
        · cases hq
          dsimp only at hl4
          rw [Bool.not_eq_true] at hfrag
          obtain ⟨hall, hcount, rfl⟩ := (hskip o).1 (by rw [hl4, hfrag])
          refine ⟨hall, by omega, ?_⟩
          rw [Word.sub_of_le (by omega) (by omega), hl4]
          rfl
      · rintro ⟨hall, hcount, rfl⟩
        cases (hskip off').2 ⟨hall, by omega, rfl⟩
        rw [if_neg htr.1.ne', if_neg (by decide), Word.sub_of_le (by omega) (by omega)]
        exact ⟨rfl, rfl⟩
  · rw [if_neg hmap, ← hinner]
    dsimp only
    rw [if_neg Bool.false_ne_true]
    constructor
    · rintro ⟨hq, hl4⟩
      split_ifs at hq
      · cases hq
      · cases hq
        dsimp only at hl4
        rw [hl4] at hext ⊢
        obtain ⟨rfl, rfl⟩ := hext.of_transport
        refine ⟨by simp, by simp, ?_⟩
        simp only [afterIpv6, Nat.add_sub_cancel_left]
        rfl
    · rintro ⟨hall, -, rfl⟩
      generalize be f (off + 6) 1 = proto at hext hmap ⊢
      cases hext with
      | nil =>
        rw [if_neg htr.1.ne']
        simp only [afterIpv6, Nat.add_sub_cancel_left]
        exact ⟨rfl, trivial⟩
      | cons _ _ =>
        have hskip := hall proto (List.mem_cons_self ..)
        exact absurd (by simp [isIp6Ext, hskip]) hmap

theorem AtPayload.initRange {f : List UInt8} {tr : Transport} {pkt : Packet} {off pos : ℕ}
    (hlen : f.length < 2 ^ 16) (h : AtPayload f tr pkt off pos)
    (hpos : (if pkt.isIpv6 then 40 else 20) ≤ pos - off) (hle : off ≤ pos)
    (hfixed : tr.fixedLen ≤ tr.headerLen f pos) (hfits : pos + tr.headerLen f pos ≤ f.length) :
    InitRange pkt (payloadRange pkt (ipLength pkt)) := by
  have hiph : ∀ n, 0 < n → n ≤ pos - off → packetDataRead pkt pkt.l2Len n = some off := by
    intro n hn hle'
    rw [h.l2Len]
    exact packetDataRead_of_le hlen h.dlen (by omega) hn
  have hth : ∀ n, 0 < n → n ≤ tr.fixedLen →
      packetDataRead pkt (pkt.l2Len + pkt.l3Len) n = some pos := by
    intro n hn hle'
    rw [h.l2Len, h.l3Len, Nat.add_sub_cancel' hle]
    exact packetDataRead_of_le hlen h.dlen (by omega) hn
  cases tr with
  | tcp =>
    have hinit : ∃ t, packetTcpInitFromPkt blankTcp pkt = some t := by
      have hth' := hth 20 (by norm_num) le_rfl
      unfold packetTcpInitFromPkt
      split_ifs at hpos ⊢
      · simp only [packetTcpInitFromPktIpv6, hiph 40 (by norm_num) hpos, hth']
        exact ⟨_, rfl⟩
      · simp only [packetTcpInitFromPktIpv4, hiph 20 (by norm_num) hpos, hth']
        exact ⟨_, rfl⟩
    obtain ⟨t, ht⟩ := hinit
    have hrange := InitRange.tcp h.pktType ht
    rwa [hrange.eq] at hrange
  | udp =>
    have hinit : ∃ u, packetUdpInitFromPkt blankUdp pkt = some u := by
      have huh := hth 8 (by norm_num) le_rfl
      unfold packetUdpInitFromPkt
      split_ifs at hpos ⊢
      · simp only [packetUdpInitFromPktIpv6, hiph 40 (by norm_num) hpos, huh]
        exact ⟨_, rfl⟩
      · simp only [packetUdpInitFromPktIpv4, hiph 20 (by norm_num) hpos, huh]
        exact ⟨_, rfl⟩
    obtain ⟨u, hu⟩ := hinit
    have hrange := InitRange.udp h.pktType hu
    rwa [hrange.eq] at hrange

theorem exactPayload_iff_of_accepts {ipv6 : Bool} {f : List UInt8} {tr : Transport} {pkt : Packet}
    {r : PayloadRange} {start len : ℕ} (haccept : Accepts ipv6 f pkt)
    (htype : pkt.pktType = tr.pktType) (hinit : InitRange pkt r) (hdata : pkt.data = f) :
    ExactPayload ipv6 f tr start len ↔ r.tthLen = start ∧ r.payloadLen = len := by
  constructor
  · rintro ⟨pkt', r', haccept', -, hinit', hstart, hlen, -⟩
    obtain rfl := haccept.unique haccept'
    rw [hinit.eq, ← hinit'.eq]
    exact ⟨hstart, hlen⟩
  · rintro ⟨hstart, hlen⟩
    refine ⟨pkt, r, haccept, htype, hinit, hstart, hlen, ?_⟩
    rw [hinit.eq] at hstart hlen ⊢
    rw [← hstart, ← hlen, ← hdata]
    rfl

theorem accepts_of_layers {ipv6 : Bool} {n : ℕ} {f : List UInt8} {tr : Transport} {p q pkt : Packet}
    (hether : packetEtherParse n (packetInit f) = some (.parseOk, p))
    (hnetwork : parseLayer (l3Parsers ipv6) p.l3Proto p = (.parseOk, q))
    (hproto : q.l4Proto = tr.proto) (htransport : tr.parse q = (.parseOk, pkt)) :
    Accepts ipv6 f pkt := by
  refine ⟨n, ?_⟩
  have hlast : parseLayer l4Parsers tr.proto q = tr.parse q := by cases tr <;> rfl
  simp only [packetParse, hether, Option.map_some, hnetwork, hproto, hlast, htransport]

/-- A complete frame: any tags, and a packet whose length fields lie inside the frame. -/
structure WellFormed (f : List UInt8) (tr : Transport) (off proto : ℕ) (kinds : List ℕ)
    (start len : ℕ) : Prop where
  ether : EtherHeader f off proto
  carries : Carries f tr off proto kinds start len

theorem Ipv4Payload.exact (ipv6 : Bool) {f : List UInt8} {tr : Transport} {off start len : ℕ}
    (hlen : f.length < 2 ^ 16) (htags : PairedTags f off 0x0800)
    (h : Ipv4Payload f tr off start len) : ExactPayload ipv6 f tr start len := by
  obtain ⟨n, hether⟩ := htags.packetEtherParse hlen (by simp [IsTag]) (by norm_num)
  obtain ⟨q, hnetwork, hat, hproto, hfamily⟩ := h.parse hlen
  have hstart := h.start_eq
  have hend := h.len_eq
  have hcomplete := h.complete
  obtain ⟨pkt, htransport, hpay, hfamily'⟩ :=
    Transport.parse_of_complete hlen hat h.headerLen (by omega)
  rw [hfamily] at hfamily'
  have hlayer : parseLayer (l3Parsers ipv6) 0x0800 (afterLayer2 f off 0x0800) = (.parseOk, q) := by
    cases ipv6 <;> exact hnetwork
  have haccept := accepts_of_layers hether hlayer hproto htransport
  have hl3 : (if pkt.isIpv6 then 40 else 20) ≤ off + be f off 1 % 16 * 4 - off := by
    have hle := hat.le
    rw [hfamily', if_neg Bool.false_ne_true]
    omega
  have hinit := hpay.initRange hlen hl3 hat.le_pos h.headerLen (by omega)
  rw [exactPayload_iff_of_accepts haccept hpay.pktType hinit hpay.data]
  have hip : ipLength pkt = be f (off + 2) 2 := by
    rw [ipLength, hfamily', hpay.data, hpay.l2Len, Nat.mod_eq_of_lt (by omega)]
    rfl
  have hiplt := be_lt f (off + 2) 2
  simp only [payloadRange, hip, hpay.dlen, hpay.l2Len, hpay.l3Len, hpay.l4Len]
  rw [Word.sub_of_le hlen (by omega), Word.sub_of_le hiplt (by omega)]
  omega

/-- The frames of IPv6 whose payload the code finds: the parser is registered, it steps over
the extension headers, and the wrapped difference of the IP length gives way to the length
of a frame that has nothing behind the payload. -/
def Ipv6Exact (ipv6 : Bool) (f : List UInt8) (kinds : List ℕ) (start len : ℕ) : Prop :=
  ipv6 = true ∧ (∀ k ∈ kinds, isSkipped k = true) ∧ kinds.length ≤ 4 ∧ len < 40 ∧
    start + len = f.length

theorem Ipv6Payload.exact_iff (ipv6 : Bool) {f : List UInt8} {tr : Transport} {off : ℕ}
    {kinds : List ℕ} {start len : ℕ} (hlen : f.length < 2 ^ 16) (htags : PairedTags f off 0x86DD)
    (h : Ipv6Payload f tr off kinds start len) :
    ExactPayload ipv6 f tr start len ↔ Ipv6Exact ipv6 f kinds start len := by
  obtain ⟨n, hether⟩ := htags.packetEtherParse hlen (by simp [IsTag]) (by norm_num)
  obtain ⟨off', hext, hfixed, hstart⟩ := h.ext
  have hend := h.len_eq
  have hcomplete := h.complete
  have hparse := fun q => Ipv6Payload.parse_iff hlen hext (by omega) q
  by_cases hskip : ipv6 = true ∧ (∀ k ∈ kinds, isSkipped k = true) ∧ kinds.length ≤ 4
  · obtain ⟨rfl, hall, hcount⟩ := hskip
    obtain ⟨hnetwork, hproto⟩ := (hparse _).2 ⟨hall, hcount, rfl⟩
    have hle := hext.le
    have hat : AtTransport f (afterIpv6 f off off' tr.proto) off off' :=
      ⟨rfl, rfl, rfl, rfl, rfl, by omega⟩
    obtain ⟨pkt, htransport, hpay, hfamily⟩ :=
      Transport.parse_of_complete hlen hat hfixed (by omega)
    have haccept : Accepts true f pkt := accepts_of_layers hether hnetwork hproto htransport
    have hl3 : (if pkt.isIpv6 then 40 else 20) ≤ off' - off := by
      rw [hfamily, afterIpv6, if_pos rfl]
      omega
    have hinit := hpay.initRange hlen hl3 hat.le_pos hfixed (by omega)
    rw [exactPayload_iff_of_accepts haccept hpay.pktType hinit hpay.data]
    have hip : ipLength pkt = be f (off + 4) 2 := by
      rw [ipLength, hfamily, hpay.data, hpay.l2Len, Nat.mod_eq_of_lt (by omega)]
      rfl
    -- the fixed header is subtracted from a length that does not count it
    have hdlen : Word.sub 16 (be f (off + 4) 2) (off' - off + tr.headerLen f off') =
        if len < 40 then len + (2 ^ 16 - 40) else len - 40 := by
      have hiplt : be f (off + 4) 2 < 2 ^ 16 := be_lt f (off + 4) 2
      unfold Word.sub
      split_ifs <;> omega
    simp only [payloadRange, hip, hpay.dlen, hpay.l2Len, hpay.l3Len, hpay.l4Len, hdlen]
    rw [Word.sub_of_le hlen (by omega)]
    constructor
    · rintro ⟨-, hmin⟩
      refine ⟨rfl, hall, hcount, ?_⟩
      split_ifs at hmin <;> omega
    · rintro ⟨-, -, -, hshort, hbare⟩
      rw [if_pos hshort]
      omega
  · constructor
    · rintro ⟨pkt, r, ⟨fuel, hpkt⟩, htype, -⟩
      obtain ⟨p, q, hlayers⟩ := packetParse_layers hpkt htype
      obtain rfl : afterLayer2 f off 0x86DD = p :=
        congrArg Prod.snd (packetEtherParse_unique hether hlayers.ether)
      obtain ⟨hproto, -⟩ | ⟨hreg, -, hnetwork⟩ := hlayers.network
      · cases hproto
      · obtain ⟨hall, hcount, -⟩ := (hparse q).1 ⟨hnetwork, hlayers.proto⟩
        exact absurd ⟨hreg, hall, hcount⟩ hskip
    · rintro ⟨hreg, hall, hcount, -⟩
      exact absurd ⟨hreg, hall, hcount⟩ hskip

theorem exact_payload_iff (ipv6 : Bool) (f : List UInt8) (tr : Transport) (off proto : ℕ)
    (kinds : List ℕ) (start len : ℕ) (hframe : WellFormed f tr off proto kinds start len)
    (htags : PairedTags f off proto) (hlen : f.length < 2 ^ 16) :
    ExactPayload ipv6 f tr start len ↔ proto = 0x0800 ∨ Ipv6Exact ipv6 f kinds start len := by
  cases hframe.carries with
  | ipv4 h => exact ⟨fun _ => .inl rfl, fun _ => h.exact ipv6 hlen htags⟩
  | ipv6 h =>
    rw [h.exact_iff ipv6 hlen htags]
    exact ⟨.inr, fun hor => hor.resolve_left (by norm_num)⟩

theorem exact_payload_padded :
    ExactPayload false (tcpFrame 43 5 [1, 2, 3, 0, 0, 0]) .tcp 54 3 := by
  have htype : be (tcpFrame 43 5 [1, 2, 3, 0, 0, 0]) 12 2 = 0x0800 := by decide +kernel
  have hlen : (tcpFrame 43 5 [1, 2, 3, 0, 0, 0]).length = 60 := by decide +kernel
  have hether : EtherHeader (tcpFrame 43 5 [1, 2, 3, 0, 0, 0]) 14 0x0800 :=
    htype ▸ .untagged (by omega)
  have htags : PairedTags (tcpFrame 43 5 [1, 2, 3, 0, 0, 0]) 14 0x0800 :=
    htype ▸ .untagged (by omega)
  have hcarries : Carries (tcpFrame 43 5 [1, 2, 3, 0, 0, 0]) .tcp 14 0x0800 [] 54 3 :=
    .ipv4 ⟨by decide +kernel, by decide +kernel, by decide +kernel, by decide +kernel,
      by decide +kernel, by decide +kernel, by decide +kernel, by decide +kernel⟩
  exact (exact_payload_iff false _ .tcp 14 0x0800 [] 54 3 ⟨hether, hcarries⟩ htags (by omega)).2
    (.inl rfl)

/-- A frame with an IPv6 header and a TCP header of 20 bytes. -/
def tcpFrame6 (payload : List UInt8) : List UInt8 :=
  let ether : List UInt8 := [2, 0, 0, 0, 0, 1, 2, 0, 0, 0, 0, 2, 0x86, 0xDD]
  let ip : List UInt8 := [0x60, 0, 0, 0, 0, UInt8.ofNat (20 + payload.length), 6, 64] ++
    List.replicate 15 0 ++ [1] ++ List.replicate 15 0 ++ [2]
  let tcp : List UInt8 := [0x04, 0xd2, 0, 80, 0, 0, 0, 1, 0, 0, 0, 1, 0x50, 0x18, 0, 0, 0, 0, 0, 0]
  ether ++ ip ++ tcp ++ payload

theorem ipv6Frame_not_exact :
    WellFormed (tcpFrame6 (List.replicate 41 1)) .tcp 14 0x86DD [] 74 41 ∧
      ∀ ipv6, ¬ExactPayload ipv6 (tcpFrame6 (List.replicate 41 1)) .tcp 74 41 := by
  have htype : be (tcpFrame6 (List.replicate 41 1)) 12 2 = 0x86DD := by decide +kernel
  have hlen : (tcpFrame6 (List.replicate 41 1)).length = 115 := by decide +kernel
  have hether : EtherHeader (tcpFrame6 (List.replicate 41 1)) 14 0x86DD :=
    htype ▸ .untagged (by omega)
  have hnext : be (tcpFrame6 (List.replicate 41 1)) (14 + 6) 1 = 6 := by decide +kernel
  refine ⟨⟨hether, .ipv6 ⟨by decide +kernel, ⟨54, ?_, by decide +kernel, by decide +kernel⟩,
    by decide +kernel, by decide +kernel⟩⟩, ?_⟩
  · rw [hnext]
    exact .nil
  · rintro ipv6 ⟨pkt, r, haccept, hpkt, hinit, -, hr, -⟩
    have hparse : (packetParse ipv6 1 (tcpFrame6 (List.replicate 41 1))).map
        (fun r => (r.1, r.2.pktType, (payloadRange r.2 (ipLength r.2)).payloadLen)) =
          some (.parseOk, if ipv6 then .tcp else .other, if ipv6 then 1 else 0) := by
      cases ipv6 <;> decide +kernel
    obtain ⟨⟨rc, p⟩, hp, heq⟩ := Option.map_eq_some_iff.1 hparse
    obtain ⟨rfl, hptype, hplen⟩ : rc = .parseOk ∧ _ ∧ _ := by simpa using heq
    obtain rfl := haccept.unique ⟨1, hp⟩
    rw [hinit.eq, hplen] at hr
    cases ipv6 with
    | false => cases hptype.symm.trans hpkt
    | true => cases hr

def serviceTagged (f : List UInt8) : List UInt8 := f.take 12 ++ [0x88, 0xA8, 0, 1] ++ f.drop 12

theorem taggedFrame_not_exact :
    WellFormed (serviceTagged (tcpFrame 43 5 [1, 2, 3])) .tcp 18 0x0800 [] 58 3 ∧
      ∀ ipv6, ¬ExactPayload ipv6 (serviceTagged (tcpFrame 43 5 [1, 2, 3])) .tcp 58 3 := by
  have htag : be (serviceTagged (tcpFrame 43 5 [1, 2, 3])) 12 2 = 0x88A8 := by decide +kernel
  have htype : be (serviceTagged (tcpFrame 43 5 [1, 2, 3])) (14 + 2) 2 = 0x0800 := by decide +kernel
  have hlen : (serviceTagged (tcpFrame 43 5 [1, 2, 3])).length = 61 := by decide +kernel
  have hether : EtherHeader (serviceTagged (tcpFrame 43 5 [1, 2, 3])) 18 0x0800 :=
    htype ▸ .tagged (.untagged (by omega)) (.inr htag) (by omega)
  refine ⟨⟨hether,
    .ipv4 ⟨by decide +kernel, by decide +kernel, by decide +kernel, by decide +kernel,
    by decide +kernel, by decide +kernel, by decide +kernel, by decide +kernel⟩⟩, ?_⟩
  rintro ipv6 ⟨pkt, r, haccept, hpkt, -⟩
  have hparse : (packetParse ipv6 2 (serviceTagged (tcpFrame 43 5 [1, 2, 3]))).map
      (fun r => (r.1, r.2.pktType)) = some (.parseOk, .other) := by
    cases ipv6 <;> decide +kernel
  obtain ⟨⟨rc, p⟩, hp, heq⟩ := Option.map_eq_some_iff.1 hparse
  obtain ⟨rfl, hptype⟩ : rc = .parseOk ∧ _ := by simpa using heq
  obtain rfl := haccept.unique ⟨2, hp⟩
  cases hptype.symm.trans hpkt

/-- An IPv6 frame, and an IPv4 frame with a single service tag. -/
theorem payload_not_exact :
    (WellFormed (tcpFrame6 (List.replicate 41 1)) .tcp 14 0x86DD [] 74 41 ∧
        ∀ ipv6, ¬ExactPayload ipv6 (tcpFrame6 (List.replicate 41 1)) .tcp 74 41) ∧
      WellFormed (serviceTagged (tcpFrame 43 5 [1, 2, 3])) .tcp 18 0x0800 [] 58 3 ∧
        ∀ ipv6, ¬ExactPayload ipv6 (serviceTagged (tcpFrame 43 5 [1, 2, 3])) .tcp 58 3 :=
  ⟨ipv6Frame_not_exact, taggedFrame_not_exact⟩

end CloudHands.Pkt

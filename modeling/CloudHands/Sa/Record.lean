import CloudHands.Dns.StoreReading
import CloudHands.Sa.SessionHandler

/-!
# The two record formats of a TCP session

`_tcp_session_store_msgpack` and `_tcp_session_out` of `ch_sa_tcp_session_handler.c` write one
session for two readers, `TCPSession.Parse` of the Go side and
`ch_packet_record_session_tcp_read`. The first has no field for an IPv6 address and writes a
text for a data store that holds nothing; the second is read in a range of 16 bits.
-/

namespace CloudHands.Sa

open Lib Lib.TokenReader Msgpack Japi Shm Dns

structure SessionOutput extends SessionPeers Ipv6Addr, SessionCounters where
  reqDstore : Option DataStore
  resDstore : Option DataStore
  isTimeout : UInt8
  timeoutTv : UInt16
  isClose : Bool

def SessionOutput.phaseState (s : SessionOutput) : UInt16 := if s.isClose then 4 else 3

/-- The payload of `_tcp_session_store_msgpack`. -/
def msgpackData (dstore : Option DataStore) : List UInt8 :=
  match dstore with
  | none => []
  | some dst => if dst.data.length = 0 then utf8Bytes "nil" else dst.data

/-- `_tcp_session_store_msgpack`, for a session that passes the filter. -/
def tcpSessionStoreMsgpack (s : SessionOutput) : List Token :=
  mapStart "" 18 ++ (writeUint8 "isTimeout" s.isTimeout ++ (writeUint16 "timeoutTV" s.timeoutTv ++
    (writeUint16 "phaseState" s.phaseState ++ (writeUint64 "sessionID" s.sessionId ++
    (writeUint32 "srcIP" s.srcIp ++ (writeUint32 "dstIP" s.dstIp ++
    (writeUint16 "srcPort" s.srcPort ++ (writeUint16 "dstPort" s.dstPort ++
    (writeUint64 "reqPackets" s.reqPackets ++ (writeUint64 "reqBytes" s.reqBytes ++
    (writeUint64 "resPackets" s.resPackets ++ (writeUint64 "resBytes" s.resBytes ++
    (writeUint64 "reqStartTime" s.reqStartTime ++ (writeUint64 "reqLastTime" s.reqLastTime ++
    (writeUint64 "resStartTime" s.resStartTime ++ (writeUint64 "resLastTime" s.resLastTime ++
    (writeBinKv "reqData" (msgpackData s.reqDstore) ++
      writeBinKv "resData" (msgpackData s.resDstore))))))))))))))))))

/-- The payload of `_tcp_session_out`. -/
def outData (dstore : Option DataStore) : List UInt8 :=
  match dstore with
  | none => []
  | some dst => dst.data

/-- The structure that `_tcp_session_out` fills before it is written. -/
def SessionOutput.record (s : SessionOutput) : PacketRecordSessionTcp Ipv6Addr (List UInt8) where
  toSessionPeers := s.toSessionPeers
  toSessionCounters := s.toSessionCounters
  isTimeout := s.isTimeout
  timeoutTv := s.timeoutTv
  phaseState := s.phaseState
  reqData := outData s.reqDstore
  resData := outData s.resDstore

/-- `TCPSession` of `tcpSession.go`. -/
structure GoTcpSession where
  isTimeOut : ℕ
  timeoutTV : ℕ
  phaseState : ℕ
  sessionID : ℕ
  srcIP : String
  dstIP : String
  srcPort : ℕ
  dstPort : ℕ
  reqPackets : ℕ
  reqBytes : ℕ
  resPackets : ℕ
  resBytes : ℕ
  reqStartTime : ℕ
  reqLastTime : ℕ
  resStartTime : ℕ
  resLastTime : ℕ
  reqData : List UInt8
  resData : List UInt8

/-- `TCPSession.Parse`; a panic is a failure. -/
def goTcpSession : Unpacker GoTcpSession := do
  let n ← unpackMapLen
  check (n = 18)
  let isTimeOut ← goUint 8
  let timeoutTV ← goUint 16
  let phaseState ← goUint 16
  let sessionID ← goUint 64
  let srcIP ← goUint 32
  let dstIP ← goUint 32
  let srcPort ← goUint 16
  let dstPort ← goUint 16
  let reqPackets ← goUint 64
  let reqBytes ← goUint 64
  let resPackets ← goUint 64
  let resBytes ← goUint 64
  let reqStartTime ← goUint 64
  let reqLastTime ← goUint 64
  let resStartTime ← goUint 64
  let resLastTime ← goUint 64
  let reqData ← parseRaw
  let resData ← parseRaw
  pure ⟨isTimeOut, timeoutTV, phaseState, sessionID, IPv4Str srcIP, IPv4Str dstIP, srcPort, dstPort,
    reqPackets, reqBytes, resPackets, resBytes, reqStartTime, reqLastTime, resStartTime,
      resLastTime,
    reqData, resData⟩

inductive Address
  | ipv4 (ip : UInt32)
  | ipv6 (bytes : List UInt8)
deriving DecidableEq

def Address.text : Address → String
  | .ipv4 ip => IPv4Str ip.toNat
  | .ipv6 bytes => String.intercalate ":" ((List.range 8).map fun i =>
      String.ofList (Nat.toDigits 16 (ofBigEndian ((bytes.drop (2 * i)).take 2))))

def addressOf (isIpv6 : UInt8) (ip : UInt32) (bytes : List UInt8) : Address :=
  if isIpv6 ≠ 0 then .ipv6 bytes else .ipv4 ip

def SessionOutput.srcAddress (s : SessionOutput) : Address := addressOf s.isIpv6 s.srcIp s.srcAddr
def SessionOutput.dstAddress (s : SessionOutput) : Address := addressOf s.isIpv6 s.dstIp s.dstAddr

def addressAt (mem : Memory) (isIpv6 : UInt8) (ip : UInt32) (addr : Option ℕ) : Address :=
  addressOf isIpv6 ip (addr.elim [] (mem.read · 16))

def dataAt (mem : Memory) (s : DataSlice) : List UInt8 := s.data.elim [] (mem.read · s.len)

/-- What the Go side has and what the C side has are the same session. -/
structure GoTcpSession.Agrees (mem : Memory) (go : GoTcpSession)
    (c : PacketRecordSessionTcp (Option ℕ) DataSlice) : Prop where
  isTimeout : go.isTimeOut = c.isTimeout.toNat
  timeoutTv : go.timeoutTV = c.timeoutTv.toNat
  phaseState : go.phaseState = c.phaseState.toNat
  sessionId : go.sessionID = c.sessionId.toNat
  srcIP : go.srcIP = (addressAt mem c.isIpv6 c.srcIp c.srcAddr).text
  dstIP : go.dstIP = (addressAt mem c.isIpv6 c.dstIp c.dstAddr).text
  srcPort : go.srcPort = c.srcPort.toNat
  dstPort : go.dstPort = c.dstPort.toNat
  reqPackets : go.reqPackets = c.reqPackets.toNat
  reqBytes : go.reqBytes = c.reqBytes.toNat
  resPackets : go.resPackets = c.resPackets.toNat
  resBytes : go.resBytes = c.resBytes.toNat
  reqStartTime : go.reqStartTime = c.reqStartTime.toNat
  reqLastTime : go.reqLastTime = c.reqLastTime.toNat
  resStartTime : go.resStartTime = c.resStartTime.toNat
  resLastTime : go.resLastTime = c.resLastTime.toNat
  reqData : go.reqData = dataAt mem c.reqData
  resData : go.resData = dataAt mem c.resData

def goEntry (s : SessionOutput) : GoTcpSession :=
  ⟨s.isTimeout.toNat, s.timeoutTv.toNat, s.phaseState.toNat, s.sessionId.toNat,
    IPv4Str s.srcIp.toNat, IPv4Str s.dstIp.toNat, s.srcPort.toNat, s.dstPort.toNat,
    s.reqPackets.toNat, s.reqBytes.toNat, s.resPackets.toNat, s.resBytes.toNat,
    s.reqStartTime.toNat, s.reqLastTime.toNat, s.resStartTime.toNat, s.resLastTime.toNat,
    msgpackData s.reqDstore, msgpackData s.resDstore⟩

theorem yields_uint8 {k : String} (v : UInt8) (hk : k.isEmpty = false) :
    Yields (goUint 8) (writeUint8 k v) v.toNat := yields_goUint v.toNat_lt hk

theorem yields_uint16 {k : String} (v : UInt16) (hk : k.isEmpty = false) :
    Yields (goUint 16) (writeUint16 k v) v.toNat := yields_goUint v.toNat_lt hk

theorem yields_uint32 {k : String} (v : UInt32) (hk : k.isEmpty = false) :
    Yields (goUint 32) (writeUint32 k v) v.toNat := yields_goUint v.toNat_lt hk

theorem yields_uint64 {k : String} (v : UInt64) (hk : k.isEmpty = false) :
    Yields (goUint 64) (writeUint64 k v) v.toNat := yields_goUint v.toNat_lt hk

theorem yields_goTcpSession (s : SessionOutput) :
    Yields goTcpSession (tcpSessionStoreMsgpack s) (goEntry s) := by
  refine (yields_mapLen 18).bind ((yields_check rfl).nil_bind ?_)
  refine (yields_uint8 s.isTimeout rfl).bind ?_
  refine (yields_uint16 s.timeoutTv rfl).bind ((yields_uint16 s.phaseState rfl).bind ?_)
  refine (yields_uint64 s.sessionId rfl).bind ?_
  refine (yields_uint32 s.srcIp rfl).bind ((yields_uint32 s.dstIp rfl).bind ?_)
  refine (yields_uint16 s.srcPort rfl).bind ((yields_uint16 s.dstPort rfl).bind ?_)
  refine (yields_uint64 s.reqPackets rfl).bind ((yields_uint64 s.reqBytes rfl).bind ?_)
  refine (yields_uint64 s.resPackets rfl).bind ((yields_uint64 s.resBytes rfl).bind ?_)
  refine (yields_uint64 s.reqStartTime rfl).bind ((yields_uint64 s.reqLastTime rfl).bind ?_)
  refine (yields_uint64 s.resStartTime rfl).bind ((yields_uint64 s.resLastTime rfl).bind ?_)
  refine (yields_bin _ rfl).bind ((yields_bin _ rfl).bind_pure ?_)
  exact yields_pure _

theorem colon_not_mem_IPv4Str (ip : ℕ) : ':' ∉ (IPv4Str ip).toList := by
  have hdigits : ∀ n, ':' ∉ Nat.toDigits 10 n := fun n hmem =>
    absurd (Nat.isDigit_of_mem_toDigits (by omega) (by omega) hmem) (by decide)
  have hdot : ':' ∉ (toString ".").toList := by decide
  simp only [IPv4Str, String.toList_append, List.mem_append, not_or]
  simp [hdigits, hdot]

theorem colon_mem_ipv6 (bytes : List UInt8) : ':' ∈ (Address.ipv6 bytes).text.toList := by
  simp [Address.text, List.range_succ]

theorem text_ipv6_ne (ip : ℕ) (bytes : List UInt8) : IPv4Str ip ≠ (Address.ipv6 bytes).text := by
  intro h
  have hcolon := colon_mem_ipv6 bytes
  rw [← h] at hcolon
  exact colon_not_mem_IPv4Str ip hcolon

section Binary

open CloudHands.Shm.Reading

variable {mem : Memory}

/-- The reads of `ch_packet_record_session_tcp_read` in front of the payloads. -/
def tcpHeadRead (old : SessionPeers (Option ℕ)) :
    Reading (UInt8 × UInt16 × UInt16 × SessionPeers (Option ℕ) × SessionCounters) := do
  let isTimeout ← Reading.uint8Read
  let timeoutTv ← Reading.uint16Read
  let phaseState ← Reading.uint16Read
  let peers ← sessionPeersRead old
  let counters ← sessionCountersRead
  pure (isTimeout, timeoutTv, phaseState, peers, counters)

def tcpDataRead (head : UInt8 × UInt16 × UInt16 × SessionPeers (Option ℕ) × SessionCounters) :
    Reading (PacketRecordSessionTcp (Option ℕ) DataSlice) := do
  let (isTimeout, timeoutTv, phaseState, peers, counters) := head
  let reqData ← Reading.bytesRead
  let resData ← Reading.bytesRead
  pure { toSessionPeers := peers, toSessionCounters := counters, isTimeout, timeoutTv, reqData,
         resData, phaseState }

theorem tcpRead_run (old : SessionPeers (Option ℕ)) (c : Cursor) :
    (packetRecordSessionTcpRead old).run mem c =
      let head := (tcpHeadRead old).run mem c
      let req := head.2.bytesRead mem
      let res := req.2.bytesRead mem
      let (isTimeout, timeoutTv, phaseState, peers, counters) := head.1
      ({ toSessionPeers := peers, toSessionCounters := counters, isTimeout, timeoutTv, phaseState
         reqData := req.1, resData := res.1 }, res.2) := by
  have hsplit : packetRecordSessionTcpRead old = tcpHeadRead old >>= tcpDataRead := by
    simp only [packetRecordSessionTcpRead, sessionBodyRead, tcpHeadRead, tcpDataRead, bind_assoc,
      pure_bind]
  rw [hsplit, run_bind]
  generalize (tcpHeadRead old).run mem c = out
  obtain ⟨⟨isTimeout, timeoutTv, phaseState, peers, counters⟩, c'⟩ := out
  rfl

def headBytes (s : PacketRecordSessionTcp Ipv6Addr (List UInt8)) : List UInt8 :=
  bigEndian 1 s.isTimeout.toNat ++ (bigEndian 2 s.timeoutTv.toNat ++
    (bigEndian 2 s.phaseState.toNat ++
      (peersBytes s.toSessionPeers ++ countersBytes s.toSessionCounters)))

theorem length_headBytes (s : PacketRecordSessionTcp Ipv6Addr (List UInt8)) :
    (headBytes s).length = 82 + addrSize s.toSessionPeers := by
  simp only [headBytes, peersBytes, countersBytes, List.length_append, length_bigEndian,
    length_addrBytes]
  omega

theorem tcpBytes_eq (s : PacketRecordSessionTcp Ipv6Addr (List UInt8)) :
    tcpBytes s = headBytes s ++ ((bigEndian 8 s.reqData.length ++ s.reqData) ++
      (bigEndian 8 s.resData.length ++ s.resData)) := by
  simp only [tcpBytes, bodyBytes, headBytes, List.append_assoc]

structure HeadSame (mem : Memory)
    (head : UInt8 × UInt16 × UInt16 × SessionPeers (Option ℕ) × SessionCounters)
    (s : PacketRecordSessionTcp Ipv6Addr (List UInt8)) : Prop where
  isTimeout : head.1 = s.isTimeout
  timeoutTv : head.2.1 = s.timeoutTv
  phaseState : head.2.2.1 = s.phaseState
  peers : head.2.2.2.1.Same mem s.toSessionPeers
  counters : head.2.2.2.2 = s.toSessionCounters

theorem decodes_tcpHead (s : PacketRecordSessionTcp Ipv6Addr (List UInt8))
    (old : SessionPeers (Option ℕ)) :
    Decodes mem (tcpHeadRead old) (HeadSame mem · s) (headBytes s) (headBytes s).length := by
  obtain ⟨n, hn, hpeers⟩ : ∃ n ≤ (peersBytes s.toSessionPeers).length, Decodes mem
      (sessionPeersRead old) (·.Same mem s.toSessionPeers) (peersBytes s.toSessionPeers) n :=
    decodes_peers s.toSessionPeers old
  have hcounters : (countersBytes s.toSessionCounters).length = 72 := by simp [countersBytes]
  have hlen : (headBytes s).length =
      1 + (2 + (2 + ((peersBytes s.toSessionPeers).length + 72))) := by
    simp only [headBytes, List.length_append, length_bigEndian, hcounters]
  have hpeersLen : 13 ≤ (peersBytes s.toSessionPeers).length := by
    simp only [peersBytes, List.length_append, length_bigEndian, length_addrBytes, addrSize]
    split <;> omega
  have hw : (tcpHeadRead old).Within 90 :=
    within_uint8.bind fun _ => within_uint16.bind fun _ => within_uint16.bind fun _ =>
      (within_peers old).bind fun _ => within_counters.bind fun _ => within_pure _ 0
  rw [hlen]
  refine decodes_uint8_bind hw (by simp [hcounters]; omega) fun hw =>
    decodes_uint16_bind hw (by simp [hcounters]; omega) fun hw =>
      decodes_uint16_bind hw (by simp [hcounters]; omega) fun _ => ?_
  refine hpeers.bind (w := 72) hn ?_ (by rw [hcounters]) ?_
  · exact fun _ => within_counters.bind fun _ => within_pure _ 0
  intro peers hsame
  refine (decodes_counters _).map ?_
  rintro _ rfl
  exact ⟨rfl, rfl, rfl, hsame, rfl⟩

theorem bytesRead_cut {c : Cursor} (h : c.stop < c.pos + 8) : c.bytesRead mem = (⟨none, 0⟩, c) :=
  Cursor.bytesRead_of_full (Cursor.full_eq_true.2 h)

theorem bytesRead_fits {c : Cursor} {bs : List UInt8} (hlen : bs.length < 256 ^ 8)
    (hmem : mem.read c.pos (bigEndian 8 bs.length ++ bs).length = bigEndian 8 bs.length ++ bs)
    (h : c.pos + 8 ≤ c.stop) :
    dataAt mem (c.bytesRead mem).1 = bs ∧ (c.bytesRead mem).2 = c.advance (8 + bs.length) := by
  obtain ⟨⟨q, hslice, hread⟩, hc⟩ := (decodes_bytes hlen c hmem).1 h
  rw [List.length_append, length_bigEndian] at hc
  have hfst : (c.bytesRead mem).1 = ⟨some q, bs.length⟩ := hslice
  rw [hfst]
  exact ⟨hread, hc⟩

theorem tcpRead_payloads {s : PacketRecordSessionTcp Ipv6Addr (List UInt8)} {p n : ℕ}
    (hlen : (tcpBytes s).length < 2 ^ 32) (hmem : mem.read p (tcpBytes s).length = tcpBytes s)
    (old : SessionPeers (Option ℕ)) :
    let got := ((packetRecordSessionTcpRead old).run mem (.initWithLen p n)).1
    let head := (headBytes s).length
    (n < head + 8 → dataAt mem got.reqData = [] ∧ dataAt mem got.resData = []) ∧
      (head + 8 ≤ n →
        HeadSame mem (got.isTimeout, got.timeoutTv, got.phaseState, got.toSessionPeers,
          got.toSessionCounters) s ∧ dataAt mem got.reqData = s.reqData ∧
        dataAt mem got.resData = if head + 16 + s.reqData.length ≤ n then s.resData else []) := by
  intro got head
  rw [tcpBytes_eq] at hmem
  obtain ⟨hhead, hdata⟩ := Memory.read_of_append hmem
  obtain ⟨hreqMem, hresMem⟩ := Memory.read_of_append hdata
  have hsize : head + 16 + s.reqData.length + s.resData.length < 2 ^ 32 := by
    rw [tcpBytes_eq] at hlen
    simp only [List.length_append, length_bigEndian] at hlen
    omega
  set c : Cursor := .initWithLen p n with hc
  obtain ⟨hgood, hshort⟩ := decodes_tcpHead s old c hhead
  have hrun : (packetRecordSessionTcpRead old).run mem c = _ := tcpRead_run old c
  generalize hout : (tcpHeadRead old).run mem c = out at hrun hgood hshort
  obtain ⟨⟨isTimeout, timeoutTv, phaseState, peers, counters⟩, c₁⟩ := out
  have hgot : got = _ := congrArg Prod.fst hrun
  dsimp only at hgot hgood hshort
  have hpos : c.pos = p := rfl
  have hstop : c.stop = p + n := rfl
  constructor
  · intro hn
    have hcut : c₁.stop < c₁.pos + 8 := by
      by_cases hroom : head ≤ n
      · rw [(hgood (by omega)).2, Cursor.pos_advance, Cursor.stop_advance]
        omega
      · exact (hshort (by omega)).2
    rw [hgot, bytesRead_cut hcut]
    dsimp only
    rw [bytesRead_cut hcut]
    exact ⟨rfl, rfl⟩
  · intro hn
    obtain ⟨hsame, hc₁⟩ := hgood (by omega)
    have hpos₁ : c₁.pos = p + head := by
      rw [hc₁, Cursor.pos_advance]
      rfl
    have hstop₁ : c₁.stop = p + n := by
      rw [hc₁, Cursor.stop_advance]
      exact hstop
    have hreqAt : mem.read c₁.pos (bigEndian 8 s.reqData.length ++ s.reqData).length =
        bigEndian 8 s.reqData.length ++ s.reqData := by
      rw [hpos₁]
      exact hreqMem
    obtain ⟨hreq, hc₂⟩ := bytesRead_fits (by omega) hreqAt (by omega)
    have hpos₂ : (c₁.bytesRead mem).2.pos = p + head + (8 + s.reqData.length) := by
      rw [hc₂, Cursor.pos_advance, hpos₁]
    have hstop₂ : (c₁.bytesRead mem).2.stop = p + n := by rw [hc₂, Cursor.stop_advance, hstop₁]
    rw [hgot]
    refine ⟨hsame, hreq, ?_⟩
    dsimp only
    split
    · have hresAt : mem.read (c₁.bytesRead mem).2.pos
          (bigEndian 8 s.resData.length ++ s.resData).length =
            bigEndian 8 s.resData.length ++ s.resData := by
        rw [hpos₂]
        rw [@List.length_append _ (bigEndian 8 s.reqData.length), length_bigEndian] at hresMem
        exact hresMem
      exact (bytesRead_fits (by omega) hresAt (by omega)).1
    · rw [bytesRead_cut (by omega)]
      rfl

theorem addressAt_eq {peers : SessionPeers (Option ℕ)} {s : SessionPeers Ipv6Addr}
    (h : peers.Same mem s) :
    addressAt mem peers.isIpv6 peers.srcIp peers.srcAddr = addressOf s.isIpv6 s.srcIp s.srcAddr ∧
      addressAt mem peers.isIpv6 peers.dstIp peers.dstAddr =
        addressOf s.isIpv6 s.dstIp s.dstAddr := by
  by_cases hfamily : s.isIpv6 = 0
  · obtain ⟨hsrc, hdst⟩ := h.ipv4 hfamily
    simp [addressAt, addressOf, h.isIpv6, hfamily, hsrc, hdst]
  · obtain ⟨⟨src, hsrc, hsrcMem⟩, ⟨dst, hdst, hdstMem⟩⟩ := h.ipv6 hfamily
    simp [addressAt, addressOf, h.isIpv6, hfamily, hsrc, hdst, hsrcMem, hdstMem]

end Binary

theorem msgpackData_eq_nil {dstore : Option DataStore} (h : msgpackData dstore = []) :
    dstore = none := by
  cases dstore with
  | none => rfl
  | some dst =>
    simp only [msgpackData] at h
    split at h
    · exact absurd h (by decide)
    · exact absurd (congrArg List.length h) ‹_›

theorem msgpackData_eq_outData_iff (dstore : Option DataStore) :
    msgpackData dstore = outData dstore ↔ ∀ dst ∈ dstore, dst.data ≠ [] := by
  cases dstore with
  | none => simp [msgpackData, outData]
  | some dst =>
    have hnil : utf8Bytes "nil" ≠ [] := by decide
    by_cases hdata : dst.data = []
    · simp [msgpackData, outData, hdata, hnil]
    · simp [msgpackData, outData, hdata]

def SessionOutput.metaDataSize (s : SessionOutput) : ℕ :=
  sessionTcpMetaSize (outData s.reqDstore).length (outData s.resDstore).length

def SessionOutput.Carried (s : SessionOutput) : Prop :=
  s.isIpv6 = 0 ∧ (∀ dst ∈ s.reqDstore, dst.data ≠ []) ∧ (∀ dst ∈ s.resDstore, dst.data ≠ []) ∧
    98 ≤ s.metaDataSize % 2 ^ 16 ∧ ((outData s.resDstore).length ≠ 0 →
      106 + (outData s.reqDstore).length ≤ s.metaDataSize % 2 ^ 16)

/-- The binary record of the session stands at `p`. -/
structure RecordAt (mem : Memory) (p : ℕ) (out : PacketRecord × List UInt8) : Prop where
  size_lt : out.2.length < 2 ^ 32
  data : mem.read p out.2.length = out.2

/-- The C reader on the record that stands at `p`. -/
def readRecord (mem : Memory) (p : ℕ) (old : SessionPeers (Option ℕ))
    (out : PacketRecord × List UInt8) : PacketRecordSessionTcp (Option ℕ) DataSlice :=
  ((packetRecordSessionTcpRead old).run mem (.initWithLen p out.1.metaDataSize.toNat)).1

/-- What a C reader gets whose range has `n` bytes. -/
structure ReadWithin (mem : Memory) (s : SessionOutput) (n : ℕ)
    (got : PacketRecordSessionTcp (Option ℕ) DataSlice) : Prop where
  cut : n < 90 + addrSize s.toSessionPeers →
    dataAt mem got.reqData = [] ∧ dataAt mem got.resData = []
  head : 90 + addrSize s.toSessionPeers ≤ n →
    got.isTimeout = s.isTimeout ∧ got.timeoutTv = s.timeoutTv ∧ got.phaseState = s.phaseState ∧
      got.toSessionPeers.Same mem s.toSessionPeers ∧ got.toSessionCounters = s.toSessionCounters
  reqData : 90 + addrSize s.toSessionPeers ≤ n → dataAt mem got.reqData = outData s.reqDstore
  resData : 90 + addrSize s.toSessionPeers ≤ n → dataAt mem got.resData =
    if 98 + addrSize s.toSessionPeers + (outData s.reqDstore).length ≤ n then outData s.resDstore
    else []

theorem readRecord_within {mem : Memory} {p : ℕ} {buffer : List UInt8} {s : SessionOutput}
    (h : RecordAt mem p (tcpSessionOut buffer s.record)) (old : SessionPeers (Option ℕ)) :
    ReadWithin mem s (s.metaDataSize % 2 ^ 16)
      (readRecord mem p old (tcpSessionOut buffer s.record)) := by
  have hdata := h.data
  have hlen := h.size_lt
  rw [tcpSessionOut_data] at hdata hlen
  have hmeta : (tcpSessionOut buffer s.record).1.metaDataSize.toNat = s.metaDataSize % 2 ^ 16 :=
    UInt16.toNat_ofNat'
  have hhead : (headBytes s.record).length = 82 + addrSize s.toSessionPeers := length_headBytes _
  rw [readRecord, hmeta]
  obtain ⟨hcut, hfits⟩ := tcpRead_payloads (n := s.metaDataSize % 2 ^ 16) hlen hdata old
  rw [hhead] at hcut hfits
  generalize ((packetRecordSessionTcpRead old).run mem
    (.initWithLen p (s.metaDataSize % 2 ^ 16))).1 = got at hcut hfits ⊢
  constructor
  · exact fun hn => hcut (by omega)
  · intro hn
    obtain ⟨htimeout, htv, hphase, hpeers, hcounters⟩ := (hfits (by omega)).1
    exact ⟨htimeout, htv, hphase, hpeers, hcounters⟩
  · exact fun hn => (hfits (by omega)).2.1
  · intro hn
    rw [(hfits (by omega)).2.2]
    have hreq : s.record.reqData.length = (outData s.reqDstore).length := rfl
    rw [hreq]
    congr 1
    exact propext ⟨fun h => by omega, fun h => by omega⟩

section Agreement

variable {mem : Memory} {s : SessionOutput} {got : PacketRecordSessionTcp (Option ℕ) DataSlice}

theorem carried_of_agrees (h : ReadWithin mem s (s.metaDataSize % 2 ^ 16) got)
    (hagree : (goEntry s).Agrees mem got) : s.Carried := by
  have hreqGo : msgpackData s.reqDstore = dataAt mem got.reqData := hagree.reqData
  have hresGo : msgpackData s.resDstore = dataAt mem got.resData := hagree.resData
  have hroom : 90 + addrSize s.toSessionPeers ≤ s.metaDataSize % 2 ^ 16 := by
    by_contra hless
    obtain ⟨hreq, hres⟩ := h.cut (not_le.1 hless)
    have hnoReq : s.reqDstore = none := msgpackData_eq_nil (hreqGo.trans hreq)
    have hnoRes : s.resDstore = none := msgpackData_eq_nil (hresGo.trans hres)
    have haddr : addrSize s.toSessionPeers ≤ 48 := addrSize_le _
    have hsmall : s.metaDataSize = 154 := by
      rw [SessionOutput.metaDataSize, hnoReq, hnoRes]
      rfl
    rw [hsmall] at hless
    omega
  have hfamily : s.isIpv6 = 0 := by
    by_contra hne
    have htext : IPv4Str s.srcIp.toNat = _ := hagree.srcIP
    obtain ⟨-, -, -, hpeers, -⟩ := h.head hroom
    rw [(addressAt_eq hpeers).1, addressOf, if_pos hne] at htext
    exact text_ipv6_ne _ _ htext
  have haddr : addrSize s.toSessionPeers = 8 := by simp [addrSize, hfamily]
  have hres := h.resData hroom
  rw [haddr] at hres hroom
  have hresData : msgpackData s.resDstore = outData s.resDstore ∧
      ((outData s.resDstore).length ≠ 0 →
        106 + (outData s.reqDstore).length ≤ s.metaDataSize % 2 ^ 16) := by
    by_cases hcond : 98 + 8 + (outData s.reqDstore).length ≤ s.metaDataSize % 2 ^ 16
    · rw [if_pos hcond] at hres
      exact ⟨hresGo.trans hres, fun _ => by omega⟩
    · rw [if_neg hcond] at hres
      rw [msgpackData_eq_nil (hresGo.trans hres)]
      exact ⟨rfl, fun h => absurd rfl h⟩
  refine ⟨hfamily, ?_, ?_, hroom, hresData.2⟩
  · exact (msgpackData_eq_outData_iff _).1 (hreqGo.trans (h.reqData (by omega)))
  · exact (msgpackData_eq_outData_iff _).1 hresData.1

theorem agrees_of_carried (h : ReadWithin mem s (s.metaDataSize % 2 ^ 16) got) (hs : s.Carried) :
    (goEntry s).Agrees mem got := by
  obtain ⟨hfamily, hreqFull, hresFull, hroom, hresRoom⟩ := hs
  have haddr : addrSize s.toSessionPeers = 8 := by simp [addrSize, hfamily]
  obtain ⟨-, hhead, hreq, hres⟩ := h
  rw [haddr] at hhead hreq hres
  obtain ⟨htimeout, htv, hphase, hpeers, hcounters⟩ := hhead hroom
  obtain ⟨hsrc, hdst⟩ := addressAt_eq hpeers
  have hresData : dataAt mem got.resData = outData s.resDstore := by
    rw [hres hroom]
    split
    · rfl
    · have hempty : (outData s.resDstore).length = 0 := by
        by_contra hne
        have := hresRoom hne
        omega
      exact (List.eq_nil_of_length_eq_zero hempty).symm
  have hv4 : ∀ ip bytes, (addressOf s.isIpv6 ip bytes).text = IPv4Str ip.toNat := fun ip bytes => by
    rw [addressOf, if_neg (by simp [hfamily])]
    rfl
  constructor
  case srcIP => rw [hsrc, hv4]; rfl
  case dstIP => rw [hdst, hv4]; rfl
  case srcPort => rw [hpeers.srcPort]; rfl
  case dstPort => rw [hpeers.dstPort]; rfl
  case isTimeout => rw [htimeout]; rfl
  case timeoutTv => rw [htv]; rfl
  case phaseState => rw [hphase]; rfl
  case reqData =>
    rw [hreq hroom]
    exact (msgpackData_eq_outData_iff _).2 hreqFull
  case resData =>
    rw [hresData]
    exact (msgpackData_eq_outData_iff _).2 hresFull
  all_goals
    rw [hcounters]
    rfl

theorem agrees_iff_carried (h : ReadWithin mem s (s.metaDataSize % 2 ^ 16) got) :
    (∃ go, goTcpSession.run (tcpSessionStoreMsgpack s) = some (go, []) ∧ go.Agrees mem got) ↔
      s.Carried := by
  have hrun : goTcpSession.run (tcpSessionStoreMsgpack s) = some (goEntry s, []) :=
    (yields_goTcpSession s).run
  constructor
  · rintro ⟨go, hgo, hagree⟩
    obtain ⟨rfl, -⟩ := Prod.mk.inj (Option.some.inj (hrun.symm.trans hgo))
    exact carried_of_agrees h hagree
  · exact fun hs => ⟨goEntry s, hrun, agrees_of_carried h hs⟩

end Agreement

theorem msgpack_injective {s t : SessionOutput} (hs : s.Carried) (ht : t.Carried)
    (h : tcpSessionStoreMsgpack s = tcpSessionStoreMsgpack t) :
    s.srcAddress = t.srcAddress ∧ s.dstAddress = t.dstAddress ∧
      outData s.reqDstore = outData t.reqDstore ∧ outData s.resDstore = outData t.resDstore := by
  obtain ⟨hsFamily, hsReq, hsRes, -⟩ := hs
  obtain ⟨htFamily, htReq, htRes, -⟩ := ht
  rw [← (msgpackData_eq_outData_iff _).2 hsReq, ← (msgpackData_eq_outData_iff _).2 hsRes,
    ← (msgpackData_eq_outData_iff _).2 htReq, ← (msgpackData_eq_outData_iff _).2 htRes]
  simp [tcpSessionStoreMsgpack, writeUint8, writeUint16, writeUint32, writeUint64, writeBinKv,
    withKey, mapStart] at h
  obtain ⟨-, -, -, -, hsrc, hdst, -, -, -, -, -, -, -, -, -, -, hreq, hres⟩ := h
  have hsrc : s.srcIp = t.srcIp := UInt32.toNat_inj.1 hsrc
  have hdst : s.dstIp = t.dstIp := UInt32.toNat_inj.1 hdst
  refine ⟨?_, ?_, hreq, hres⟩
  · simp [SessionOutput.srcAddress, addressOf, hsFamily, htFamily, hsrc]
  · simp [SessionOutput.dstAddress, addressOf, hsFamily, htFamily, hdst]

theorem record_formats_agree_iff (buffer : List UInt8) (old : SessionPeers (Option ℕ)) :
    (∀ (mem : Memory) (p : ℕ) (s : SessionOutput),
      RecordAt mem p (tcpSessionOut buffer s.record) →
      ((∃ go, goTcpSession.run (tcpSessionStoreMsgpack s) = some (go, []) ∧
          go.Agrees mem (readRecord mem p old (tcpSessionOut buffer s.record))) ↔ s.Carried)) ∧
    (∀ s t : SessionOutput, s.Carried → t.Carried →
      tcpSessionStoreMsgpack s = tcpSessionStoreMsgpack t →
      s.srcAddress = t.srcAddress ∧ s.dstAddress = t.dstAddress ∧
        outData s.reqDstore = outData t.reqDstore ∧ outData s.resDstore = outData t.resDstore) :=
  ⟨fun _ _ _ h => agrees_iff_carried (readRecord_within h old),
    fun _ _ hs ht h => msgpack_injective hs ht h⟩

theorem store_data_fits : [(71 : UInt8), 69, 84].length ≤ 512 := by decide

def closedSession (isIpv6 : UInt8) (srcAddr : Ipv6Addr) : SessionOutput where
  srcPort := 1000
  dstPort := 80
  isIpv6 := isIpv6
  srcIp := 0x0A000001
  dstIp := 0x0A000002
  srcAddr := srcAddr
  dstAddr := zeroAddr
  sessionId := 7
  reqPackets := 3
  resPackets := 2
  reqBytes := 180
  resBytes := 120
  reqStartTime := 1
  resStartTime := 3
  reqLastTime := 2
  resLastTime := 4
  reqDstore := some ⟨512, [71, 69, 84], store_data_fits⟩
  resDstore := none
  isTimeout := 0
  timeoutTv := 0
  isClose := true

def recordMemory (p : ℕ) (out : PacketRecord × List UInt8) : Memory :=
  Memory.write (fun _ => 0) p out.2

theorem closedSession_recordAt (isIpv6 : UInt8) (srcAddr : Ipv6Addr) (p : ℕ) :
    let out := tcpSessionOut [] (closedSession isIpv6 srcAddr).record
    RecordAt (recordMemory p out) p out := by
  intro out
  refine ⟨?_, Memory.read_write _ _ _⟩
  have hreq : (closedSession isIpv6 srcAddr).record.reqData.length = 3 := rfl
  have hres : (closedSession isIpv6 srcAddr).record.resData.length = 0 := rfl
  have haddr := addrSize_le (closedSession isIpv6 srcAddr).record.toSessionPeers
  rw [tcpSessionOut_data, length_tcpBytes, hreq, hres]
  omega

theorem onesAddr_length : (List.replicate 16 (1 : UInt8)).length = 16 := rfl

def onesAddr : Ipv6Addr := ⟨List.replicate 16 1, onesAddr_length⟩

theorem ipv6_records_disagree :
    let s := closedSession 1 zeroAddr
    let t := closedSession 1 onesAddr
    let out := tcpSessionOut [] s.record
    RecordAt (recordMemory 4096 out) 4096 out ∧
      (¬ ∃ go, goTcpSession.run (tcpSessionStoreMsgpack s) = some (go, []) ∧
        go.Agrees (recordMemory 4096 out) (readRecord (recordMemory 4096 out) 4096 noPeers out)) ∧
      s.srcAddress ≠ t.srcAddress ∧ tcpSessionStoreMsgpack s = tcpSessionStoreMsgpack t := by
  intro s t out
  have hplaced : RecordAt (recordMemory 4096 out) 4096 out :=
    closedSession_recordAt 1 zeroAddr 4096
  refine ⟨hplaced, fun hagree => ?_, by decide, rfl⟩
  have hs : s.Carried := (agrees_iff_carried (readRecord_within hplaced noPeers)).1 hagree
  exact absurd hs.1 (by decide)

end CloudHands.Sa

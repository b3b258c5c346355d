import CloudHands.Dns.Store
import CloudHands.Japi.SessionRecord
import CloudHands.Msgpack.Unpacker

/-!
# DNS sessions read from the msgpack format

`ch_udp_app_session_store` with the readers `DNSSession.Parse` of the Go side and
`DNSSession(MessageUnpacker)` of the Java side. Both readers take the same sequence of
fields; where the Java side unpacks an int the Go side unpacks a 16-bit number, and so on,
so the sequence is written once over these primitives. Names are byte strings.
-/

namespace CloudHands.Dns

open Lib Lib.TokenReader Msgpack Japi Shm

/-- The fields of `ch_udp_session_t` that are stored. -/
structure UdpSession extends SessionCounters where
  srcIp : UInt32
  dstIp : UInt32
  srcPort : UInt16
  dstPort : UInt16

/-- `ch_udp_app_session_store` for a session that passes the filter. -/
def udpAppSessionStore (u : UdpSession) (s : DnsSession) : List Token :=
  mapStart "" 2 ++ (mapStart "common" 13 ++ (writeUint64 "sessionID" u.sessionId ++
    (writeUint32 "srcIP" u.srcIp ++ (writeUint32 "dstIP" u.dstIp ++
    (writeUint16 "srcPort" u.srcPort ++ (writeUint16 "dstPort" u.dstPort ++
    (writeUint64 "reqPackets" u.reqPackets ++ (writeUint64 "reqBytes" u.reqBytes ++
    (writeUint64 "resPackets" u.resPackets ++ (writeUint64 "resBytes" u.resBytes ++
    (writeUint64 "reqStartTime" u.reqStartTime ++ (writeUint64 "reqLastTime" u.reqLastTime ++
    (writeUint64 "resStartTime" u.resStartTime ++ (writeUint64 "resLastTime" u.resLastTime ++
      dnsSessionStore s))))))))))))))

structure NameEntry where
  labels : ℕ
  name : List UInt8
deriving DecidableEq

structure QuestionEntry where
  name : NameEntry
  type : ℕ
  dclass : ℕ
deriving DecidableEq

structure RecordEntry where
  name : NameEntry
  type : ℕ
  dclass : ℕ
  ttl : ℕ
  pos : ℕ
  rdata : List UInt8
deriving DecidableEq

structure HeaderEntry where
  id : ℕ
  flags : ℕ
  counts : List ℕ
deriving DecidableEq

structure RequestEntry where
  header : HeaderEntry
  questions : List QuestionEntry
deriving DecidableEq

structure ResponseEntry where
  header : HeaderEntry
  questions : List QuestionEntry
  answers : List RecordEntry
  authorities : List RecordEntry
  additionals : List RecordEntry
deriving DecidableEq

/-- `ι` is how the side keeps an IPv4 address. -/
structure CommonEntry (ι : Type) where
  sessionID : ℕ
  reqIP : ι
  resIP : ι
  reqPort : ℕ
  resPort : ℕ
  reqPackets : ℕ
  reqBytes : ℕ
  resPackets : ℕ
  resBytes : ℕ
  reqStartTime : ℕ
  reqLastTime : ℕ
  resStartTime : ℕ
  resLastTime : ℕ
deriving DecidableEq

structure SessionEntry (ι : Type) where
  common : CommonEntry ι
  request : Option RequestEntry
  response : Option ResponseEntry
deriving DecidableEq

structure Primitives (ι : Type) where
  u8 : Unpacker ℕ
  u16 : Unpacker ℕ
  u32 : Unpacker ℕ
  u64 : Unpacker ℕ
  mapHeader : Unpacker ℕ
  arrayHeader : Unpacker ℕ
  address : ℕ → ι

def javaPrimitives : Primitives ℕ :=
  ⟨parseByte, parseInt, parseLong, parseLong, unpackMapHeader, unpackArrayHeader, id⟩

/-- `netutils.IPv4Str`. -/
def IPv4Str (ip : ℕ) : String :=
  s!"{ip % 256}.{ip / 2 ^ 8 % 256}.{ip / 2 ^ 16 % 256}.{ip / 2 ^ 24 % 256}"

def goPrimitives : Primitives String :=
  ⟨goUint 8, goUint 16, goUint 32, goUint 64, unpackMapLen, unpackArrayLen, IPv4Str⟩

section Readers

variable {ι : Type} (P : Primitives ι)

/-- A named map, which has to have `n` entries. -/
def parseMap (n : ℕ) : Unpacker Unit := do
  let m ← named P.mapHeader
  check (m = n)

def parseName : Unpacker NameEntry := do
  parseMap P 2
  let labels ← P.u16
  let name ← parseRaw
  pure ⟨labels, name⟩

def parseQuestion : Unpacker QuestionEntry := do
  parseMap P 3
  let name ← parseName P
  let type ← P.u16
  let dclass ← P.u16
  pure ⟨name, type, dclass⟩

def parseRecord : Unpacker RecordEntry := do
  parseMap P 6
  let name ← parseName P
  let type ← P.u16
  let dclass ← P.u16
  let ttl ← P.u32
  let pos ← P.u16
  let rdata ← parseRaw
  pure ⟨name, type, dclass, ttl, pos, rdata⟩

def parseHeader : Unpacker HeaderEntry := do
  parseMap P 6
  let id ← P.u16
  let flags ← P.u16
  let qd ← P.u16
  let an ← P.u16
  let au ← P.u16
  let ad ← P.u16
  pure ⟨id, flags, [qd, an, au, ad]⟩

def parseQuestions : Unpacker (List QuestionEntry) := do
  let n ← named P.arrayHeader
  times (parseQuestion P) n

/-- `buildRecord` and `makeRecords`: the size of the map is not looked at. -/
def parseRecords : Unpacker (List RecordEntry) := do
  let _ ← named P.mapHeader
  let n ← named P.arrayHeader
  times (parseRecord P) n

def parseRequest : Unpacker RequestEntry := do
  parseMap P 2
  let header ← parseHeader P
  let questions ← parseQuestions P
  pure ⟨header, questions⟩

def parseResponse : Unpacker ResponseEntry := do
  parseMap P 5
  let header ← parseHeader P
  let questions ← parseQuestions P
  let answers ← parseRecords P
  let authorities ← parseRecords P
  let additionals ← parseRecords P
  pure ⟨header, questions, answers, authorities, additionals⟩

def parseCommon : Unpacker (CommonEntry ι) := do
  parseMap P 13
  let sessionID ← P.u64
  let reqIP ← P.u32
  let resIP ← P.u32
  let reqPort ← P.u16
  let resPort ← P.u16
  let reqPackets ← P.u64
  let reqBytes ← P.u64
  let resPackets ← P.u64
  let resBytes ← P.u64
  let reqStartTime ← P.u64
  let reqLastTime ← P.u64
  let resStartTime ← P.u64
  let resLastTime ← P.u64
  pure ⟨sessionID, P.address reqIP, P.address resIP, reqPort, resPort, reqPackets, reqBytes,
    resPackets, resBytes, reqStartTime, reqLastTime, resStartTime, resLastTime⟩

def parsePart {α : Type} (has : Bool) (parse : Unpacker α) : Unpacker (Option α) :=
  if has then some <$> parse else pure none

def parseSession : Unpacker (SessionEntry ι) := do
  let n ← P.mapHeader
  check (n = 2)
  let common ← parseCommon P
  let n ← named P.mapHeader
  check (n = 3 ∨ n = 4)
  let hasReq ← P.u8
  let hasRes ← P.u8
  let request ← parsePart (hasReq == 1) (parseRequest P)
  let response ← parsePart (hasRes == 1) (parseResponse P)
  pure ⟨common, request, response⟩

end Readers

/-- `DNSSession(MessageUnpacker)` of the Java side. -/
def javaDnsSession : Unpacker (SessionEntry ℕ) := parseSession javaPrimitives

/-- `DNSSession.Parse` of the Go side. -/
def goDnsSession : Unpacker (SessionEntry String) := parseSession goPrimitives

def nameEntry (n : DnsName) : NameEntry := ⟨n.labels.toNat, n.ndata⟩

def questionEntry (q : DnsQuestion) : QuestionEntry :=
  ⟨nameEntry q.qname, q.qtype.toNat, q.qclass.toNat⟩

def recordEntry (r : DnsRdata) : RecordEntry :=
  ⟨nameEntry r.name, r.type.toNat, r.dclass.toNat, r.ttl.toNat, r.pos.toNat, r.data⟩

def headerEntry (h : DnsHeader) : HeaderEntry :=
  ⟨h.id.toNat, h.flags.toNat,
    [h.qcount.toNat, h.ancount.toNat, h.aucount.toNat, h.adcount.toNat]⟩

def requestEntry (r : DnsRequest) : RequestEntry :=
  ⟨headerEntry r.hdr, r.questions.map questionEntry⟩

def responseEntry (r : DnsResponse) : ResponseEntry :=
  ⟨headerEntry r.hdr, r.qlist.map questionEntry, r.alist.map recordEntry, r.aulist.map recordEntry,
    r.adlist.map recordEntry⟩

def commonEntry {ι : Type} (address : ℕ → ι) (u : UdpSession) : CommonEntry ι :=
  ⟨u.sessionId.toNat, address u.srcIp.toNat, address u.dstIp.toNat, u.srcPort.toNat,
    u.dstPort.toNat,
    u.reqPackets.toNat, u.reqBytes.toNat, u.resPackets.toNat, u.resBytes.toNat,
    u.reqStartTime.toNat, u.reqLastTime.toNat, u.resStartTime.toNat, u.resLastTime.toNat⟩

/-- The session as its fields say it, with addresses written by `address`. -/
def sessionEntry {ι : Type} (address : ℕ → ι) (u : UdpSession) (s : DnsSession) : SessionEntry ι :=
  ⟨commonEntry address u, s.dnsReq.map requestEntry, s.dnsRes.map responseEntry⟩

/-- The dotted form of an address, whose first byte is the lowest one. -/
def dotted (ip : ℕ) : String :=
  ".".intercalate ((List.range 4).map fun i => toString (ip / 256 ^ i % 256))

theorem IPv4Str_eq_dotted : IPv4Str = dotted := by
  funext ip
  simp only [IPv4Str, dotted, List.range_succ]
  norm_num [String.append_assoc]
  rfl

structure Primitives.Reads {ι : Type} (P : Primitives ι) : Prop where
  u8 {k : String} {v : ℕ} : v < 2 ^ 7 → k.isEmpty = false → Yields P.u8 (withKey k (.uint v)) v
  u16 {k : String} {v : ℕ} : v < 2 ^ 16 → k.isEmpty = false → Yields P.u16 (withKey k (.uint v)) v
  u32 {k : String} {v : ℕ} : v < 2 ^ 32 → k.isEmpty = false → Yields P.u32 (withKey k (.uint v)) v
  u64 {k : String} {v : ℕ} : v < 2 ^ 63 → k.isEmpty = false → Yields P.u64 (withKey k (.uint v)) v
  mapHeader {n : ℕ} : n < 2 ^ 16 → Yields P.mapHeader [.map n] n
  arrayHeader {n : ℕ} : n < 2 ^ 16 → Yields P.arrayHeader [.array n] n

theorem javaPrimitives_reads : javaPrimitives.Reads where
  u8 h hk := yields_named (yields_below (yields_uint _) h) hk
  u16 h hk := yields_named (yields_below (yields_uint _) (by omega)) hk
  u32 h hk := yields_named (yields_below (yields_uint _) (by omega)) hk
  u64 h hk := yields_named (yields_below (yields_uint _) h) hk
  mapHeader h := yields_below (yields_mapLen _) (by omega)
  arrayHeader h := yields_below (yields_arrayLen _) (by omega)

theorem goPrimitives_reads : goPrimitives.Reads where
  u8 h hk := yields_goUint (by omega) hk
  u16 h hk := yields_goUint h hk
  u32 h hk := yields_goUint h hk
  u64 h hk := yields_goUint (by omega) hk
  mapHeader h := yields_mapLen _
  arrayHeader h := yields_arrayLen _

section Reading

variable {ι : Type} {P : Primitives ι} (hP : P.Reads)
include hP

theorem yields_map {k : String} {n : ℕ} (hn : n < 2 ^ 16) (hk : k.isEmpty = false) :
    Yields (parseMap P n) (mapStart k n) () :=
  (yields_named (hP.mapHeader hn) hk).bind_pure (yields_check rfl)

theorem Primitives.Reads.field16 (v : UInt16) {k : String} (hk : k.isEmpty = false) :
    Yields P.u16 (writeUint16 k v) v.toNat := hP.u16 v.toNat_lt hk

theorem Primitives.Reads.field32 (v : UInt32) {k : String} (hk : k.isEmpty = false) :
    Yields P.u32 (writeUint32 k v) v.toNat := hP.u32 v.toNat_lt hk

theorem yields_nameEntry (n : DnsName) : Yields (parseName P) (dnsNameStore n) (nameEntry n) :=
  (yields_map hP (by omega) rfl).bind <| (hP.field16 n.labels rfl).bind <|
    (yields_named (k := "name") (yields_raw_str n.ndata) rfl).bind_pure (yields_pure _)

theorem yields_questionEntry (q : DnsQuestion) :
    Yields (parseQuestion P) (dnsQuestionStore q) (questionEntry q) :=
  (yields_map hP (by omega) rfl).bind <| (yields_nameEntry hP q.qname).bind <|
    (hP.field16 q.qtype rfl).bind <| (hP.field16 q.qclass rfl).bind_pure (yields_pure _)

theorem yields_recordEntry (r : DnsRdata) :
    Yields (parseRecord P) (dnsRdataStore r) (recordEntry r) :=
  (yields_map hP (by omega) rfl).bind <| (yields_nameEntry hP r.name).bind <|
    (hP.field16 r.type rfl).bind <| (hP.field16 r.dclass rfl).bind <|
    (hP.field32 r.ttl rfl).bind <| (hP.field16 r.pos rfl).bind <|
    (yields_named (k := "rdata") (yields_raw_bin r.data) rfl).bind_pure (yields_pure _)

theorem yields_headerEntry (h : DnsHeader) :
    Yields (parseHeader P) (dnsHeaderStore h) (headerEntry h) :=
  (yields_map hP (by omega) rfl).bind <| (hP.field16 h.id rfl).bind <|
    (hP.field16 h.flags rfl).bind <| (hP.field16 h.qcount rfl).bind <|
    (hP.field16 h.ancount rfl).bind <| (hP.field16 h.aucount rfl).bind <|
    (hP.field16 h.adcount rfl).bind_pure (yields_pure _)

theorem yields_questionEntries {qs : List DnsQuestion} (h : qs.length < 1000) :
    Yields (parseQuestions P) (questionsStore qs) (qs.map questionEntry) := by
  rw [questionsStore, count16_of_lt h]
  exact (yields_named (hP.arrayHeader (by omega)) rfl).bind
    (yields_times fun q _ => yields_questionEntry hP q)

theorem yields_recordEntries {name : String} (hname : name.isEmpty = false) {rs : List DnsRdata}
    (h : rs.length < 1000) :
    Yields (parseRecords P) (rdataListStore name rs) (rs.map recordEntry) := by
  rw [rdataListStore, count16_of_lt h]
  exact (yields_named (hP.mapHeader (by omega)) hname).bind <|
    (yields_named (hP.arrayHeader (by omega)) rfl).bind
      (yields_times fun r _ => yields_recordEntry hP r)

theorem yields_requestEntry {r : DnsRequest} (h : RequestAccepted r) :
    Yields (parseRequest P) (dnsRequestStore r) (requestEntry r) := by
  obtain ⟨hle, hlt⟩ := h.questions_le
  exact (yields_map hP (by omega) rfl).bind <| (yields_headerEntry hP r.hdr).bind <|
    (yields_questionEntries hP (by omega)).bind_pure (yields_pure _)

theorem yields_responseEntry {r : DnsResponse} (h : ResponseAccepted r) :
    Yields (parseResponse P) (dnsResponseStore r) (responseEntry r) := by
  obtain ⟨⟨hq, hq'⟩, ⟨han, han'⟩, ⟨hau, hau'⟩, ⟨had, had'⟩, -⟩ := h.shape
  exact (yields_map hP (by omega) rfl).bind <| (yields_headerEntry hP r.hdr).bind <|
    (yields_questionEntries hP (by omega)).bind <| (yields_recordEntries hP rfl (by omega)).bind <|
    (yields_recordEntries hP rfl (by omega)).bind <|
    (yields_recordEntries hP rfl (by omega)).bind_pure (yields_pure _)

theorem yields_commonEntry {u : UdpSession} (h63 : Bits63 u.toSessionCounters) {ts : List Token}
    {α : Type} {f : CommonEntry ι → Unpacker α} {a : α}
    (hf : Yields (f (commonEntry P.address u)) ts a) :
    Yields (parseCommon P >>= f)
      (mapStart "common" 13 ++ (writeUint64 "sessionID" u.sessionId ++
        (writeUint32 "srcIP" u.srcIp ++ (writeUint32 "dstIP" u.dstIp ++
        (writeUint16 "srcPort" u.srcPort ++ (writeUint16 "dstPort" u.dstPort ++
        (writeUint64 "reqPackets" u.reqPackets ++ (writeUint64 "reqBytes" u.reqBytes ++
        (writeUint64 "resPackets" u.resPackets ++ (writeUint64 "resBytes" u.resBytes ++
        (writeUint64 "reqStartTime" u.reqStartTime ++ (writeUint64 "reqLastTime" u.reqLastTime ++
        (writeUint64 "resStartTime" u.resStartTime ++ (writeUint64 "resLastTime" u.resLastTime ++
          ts)))))))))))))) a := by
  obtain ⟨h₁, h₂, h₃, h₄, h₅, h₆, h₇, h₈, h₉⟩ := h63
  simp only [parseCommon, bind_assoc, pure_bind]
  exact (yields_map hP (by omega) rfl).bind <| (hP.u64 h₁ rfl).bind <|
    (hP.field32 u.srcIp rfl).bind <| (hP.field32 u.dstIp rfl).bind <|
    (hP.field16 u.srcPort rfl).bind <| (hP.field16 u.dstPort rfl).bind <|
    (hP.u64 h₂ rfl).bind <| (hP.u64 h₄ rfl).bind <| (hP.u64 h₃ rfl).bind <|
    (hP.u64 h₅ rfl).bind <| (hP.u64 h₆ rfl).bind <| (hP.u64 h₇ rfl).bind <|
    (hP.u64 h₈ rfl).bind <| (hP.u64 h₉ rfl).bind hf

omit hP in
theorem yields_parsePart {α β : Type} {parse : Unpacker α} {store : β → List Token} {entry : β → α}
    {part : Option β} (h : ∀ b ∈ part, Yields parse (store b) (entry b)) :
    Yields (parsePart part.isSome parse) (partStore store part) (part.map entry) := by
  cases part with
  | none => exact yields_pure none
  | some b => exact (h b rfl).map some

theorem yields_flag (b : Bool) {k : String} (hk : k.isEmpty = false) :
    Yields P.u8 (writeUint8 k (if b then 1 else 0)) (if b then 1 else 0) := by
  cases b
  · exact hP.u8 (by decide) hk
  · exact hP.u8 (by decide) hk

theorem yields_session {u : UdpSession} {s : DnsSession} (h63 : Bits63 u.toSessionCounters)
    (haccepted : SessionAccepted s) :
    Yields (parseSession P) (udpAppSessionStore u s) (sessionEntry P.address u s) := by
  obtain ⟨⟨hreq, hres⟩, hsome⟩ := haccepted
  have hparts : Yields (do
      let request ← parsePart s.dnsReq.isSome (parseRequest P)
      let response ← parsePart s.dnsRes.isSome (parseResponse P)
      pure ⟨commonEntry P.address u, request, response⟩ : Unpacker (SessionEntry ι))
      (partStore dnsRequestStore s.dnsReq ++ partStore dnsResponseStore s.dnsRes)
      (sessionEntry P.address u s) :=
    (yields_parsePart fun r hr => yields_requestEntry hP (hreq r hr)).bind <|
      (yields_parsePart fun r hr => yields_responseEntry hP (hres r hr)).bind_pure (yields_pure _)
  rw [udpAppSessionStore, dnsSessionStore, if_neg (not_bothNone hsome)]
  refine Yields.bind (hP.mapHeader (by omega)) ((yields_check rfl).bind ?_)
  refine yields_commonEntry hP h63 ?_
  refine (yields_named (hP.mapHeader ?_) rfl).bind ((yields_check ?_).bind ?_)
  · split <;> omega
  · split
    · exact .inr rfl
    · exact .inl rfl
  refine (yields_flag hP s.dnsReq.isSome (k := "hasReq") rfl).bind ?_
  refine (yields_flag hP s.dnsRes.isSome (k := "hasRes") rfl).bind ?_
  rw [DataInput.flag_beq_one, DataInput.flag_beq_one]
  exact hparts

end Reading

/-- Both readers get through the whole stream and give every field of the session. -/
theorem dns_store_read (u : UdpSession) (s : DnsSession) (h63 : Bits63 u.toSessionCounters)
    (haccepted : SessionAccepted s) :
    goDnsSession.run (udpAppSessionStore u s) = some (sessionEntry dotted u s, []) ∧
      javaDnsSession.run (udpAppSessionStore u s) = some (sessionEntry id u s, []) := by
  have hgo := (yields_session goPrimitives_reads h63 haccepted).run
  have hjava := (yields_session javaPrimitives_reads h63 haccepted).run
  have haddress : goPrimitives.address = dotted := IPv4Str_eq_dotted
  rw [haddress] at hgo
  exact ⟨hgo, hjava⟩

def lookup : UdpSession where
  sessionId := 7
  srcIp := 0xC0A80001
  dstIp := 0xC0A800FE
  srcPort := 40000
  dstPort := 53
  reqPackets := 1
  resPackets := 1
  reqBytes := 19
  resBytes := 35
  reqStartTime := 100
  reqLastTime := 100
  resStartTime := 101
  resLastTime := 101

theorem dns_store_read_answer :
    goDnsSession.run (udpAppSessionStore lookup answerSession) =
        some (sessionEntry dotted lookup answerSession, []) ∧
      javaDnsSession.run (udpAppSessionStore lookup answerSession) =
        some (sessionEntry id lookup answerSession, []) :=
  dns_store_read lookup answerSession (by decide) answerSession_accepted

end CloudHands.Dns

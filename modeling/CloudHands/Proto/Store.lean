import CloudHands.Msgpack.Unpacker
import CloudHands.Shm.SessionRecord

/-!
# The common part of the stored protocol sessions

`ch_proto_session_store_write` puts the fields of the TCP session before what the format
function of the protocol writes, and `TCPSessionEntry.parse` of the Java side reads them.
-/

namespace CloudHands.Proto

open Lib Lib.TokenReader Msgpack Japi Shm

/-- The fields of the TCP session and of its protocol entry that are stored. -/
structure TcpSession where
  protocolId : UInt32
  sessionId : UInt64
  reqTime : UInt64
  resTime : UInt64
  isIpv6 : Bool
  srcIp : UInt32
  dstIp : UInt32
  srcAddr : Ipv6Addr
  dstAddr : Ipv6Addr
  srcPort : UInt16
  dstPort : UInt16
  reqPackets : UInt64
  reqBytes : UInt64
  resPackets : UInt64
  resBytes : UInt64

def commonStore (t : TcpSession) : List Token :=
  mapStart "common" 17 ++ (writeUint32 "protoID" t.protocolId ++
    (writeUint64 "sessionID" t.sessionId ++ (writeUint64 "reqTime" t.reqTime ++
    (writeUint64 "resTime" t.resTime ++ (writeUint8 "isIPV6" (if t.isIpv6 then 1 else 0) ++
    (writeUint32 "srcIP" t.srcIp ++ (writeUint32 "dstIP" t.dstIp ++
    (writeBinKv "srcAddr" t.srcAddr ++ (writeBinKv "dstAddr" t.dstAddr ++
    (writeUint16 "srcPort" t.srcPort ++ (writeUint16 "dstPort" t.dstPort ++
    (writeUint64 "reqPackets" t.reqPackets ++ (writeUint64 "reqBytes" t.reqBytes ++
    (writeUint64 "reqPBytes" t.reqBytes ++ (writeUint64 "resPackets" t.resPackets ++
    (writeUint64 "resBytes" t.resBytes ++ writeUint64 "resPBytes" t.resBytes))))))))))))))))

/-- `ch_proto_session_store_write`; `format` is what the protocol's function writes. -/
def protoSessionStore (t : TcpSession) (format : List Token) : List Token :=
  mapStart "" 2 ++ (commonStore t ++ format)

def PROTOCOL_HTTP : UInt32 := 0
def PROTOCOL_SMTP : UInt32 := 1
def PROTOCOL_POP3 : UInt32 := 2
def PROTOCOL_IMAP : UInt32 := 3
def PROTOCOL_FTP : UInt32 := 7
def PROTOCOL_MYSQL : UInt32 := 10

def protoID2String : List String :=
  ["HTTP", "SMTP", "POP3", "IMAP", "DNS", "DEBUG", "TELNET", "FTP", "SMON", "SSH", "MYSQL"]

structure TCPSessionEntry where
  protocolID : ℕ
  protocol : String
  sessionID : ℕ
  reqStartTime : ℕ
  resStartTime : ℕ
  isIPV6 : Bool
  reqIP : ℕ
  resIP : ℕ
  reqAddr : List UInt8
  resAddr : List UInt8
  reqPort : ℕ
  resPort : ℕ
  reqPackets : ℕ
  reqBytes : ℕ
  reqPBytes : ℕ
  resPackets : ℕ
  resBytes : ℕ
  resPBytes : ℕ
deriving DecidableEq

/-- What the Java side finds around it: the text that stands for malformed input, the size of
the file under a path unless the path is not one, and the results of a detection that other
writers append. -/
structure Env where
  replaced : List UInt8 → String
  fsize : String → Option ℕ
  secMatchResult : Unpacker Unit

def orThrow {α : Type} : Option α → Unpacker α
  | none => throw
  | some a => pure a

theorem orThrow_run_eq_some {α : Type} {o : Option α} {ts rest : List Token} {a : α} :
    (orThrow o).run ts = some (a, rest) ↔ o = some a ∧ ts = rest := by
  cases o with
  | none => simp [orThrow]
  | some b => simp [orThrow]

theorem yields_orThrow {α : Type} {o : Option α} {a : α} (h : o = some a) :
    Yields (orThrow o) ([] : List Token) a := by
  rw [h]
  exact yields_pure a

def parseCommon : Unpacker TCPSessionEntry := do
  parseMapOf 17
  let protocolID ← parseLong
  let protocol ← orThrow protoID2String[protocolID]?
  let sessionID ← parseLong
  let reqStartTime ← parseLong
  let resStartTime ← parseLong
  let isIPV6 ← parseByte
  let reqIP ← parseLong
  let resIP ← parseLong
  let reqAddr ← parseRaw
  let resAddr ← parseRaw
  let reqPort ← parseInt
  let resPort ← parseInt
  let reqPackets ← parseLong
  let reqBytes ← parseLong
  let reqPBytes ← parseLong
  let resPackets ← parseLong
  let resBytes ← parseLong
  let resPBytes ← parseLong
  pure ⟨protocolID, protocol, sessionID, reqStartTime, resStartTime, isIPV6 == 1, reqIP, resIP,
    reqAddr, resAddr, reqPort, resPort, reqPackets, reqBytes, reqPBytes, resPackets, resBytes,
    resPBytes⟩

structure Counters63 (t : TcpSession) : Prop where
  sessionId : t.sessionId.toNat < 2 ^ 63
  reqTime : t.reqTime.toNat < 2 ^ 63
  resTime : t.resTime.toNat < 2 ^ 63
  reqPackets : t.reqPackets.toNat < 2 ^ 63
  reqBytes : t.reqBytes.toNat < 2 ^ 63
  resPackets : t.resPackets.toNat < 2 ^ 63
  resBytes : t.resBytes.toNat < 2 ^ 63

structure Storable (t : TcpSession) : Prop extends Counters63 t where
  protocolId : t.protocolId.toNat < 11

/-- The common fields; `reqPBytes` and `resPBytes` are computed again from files. -/
structure TCPSessionEntry.Same (got : TCPSessionEntry) (t : TcpSession) : Prop where
  protocolID : got.protocolID = t.protocolId.toNat
  sessionID : got.sessionID = t.sessionId.toNat
  reqStartTime : got.reqStartTime = t.reqTime.toNat
  resStartTime : got.resStartTime = t.resTime.toNat
  isIPV6 : got.isIPV6 = t.isIpv6
  reqIP : got.reqIP = t.srcIp.toNat
  resIP : got.resIP = t.dstIp.toNat
  reqAddr : got.reqAddr = t.srcAddr.1
  resAddr : got.resAddr = t.dstAddr.1
  reqPort : got.reqPort = t.srcPort.toNat
  resPort : got.resPort = t.dstPort.toNat
  reqPackets : got.reqPackets = t.reqPackets.toNat
  reqBytes : got.reqBytes = t.reqBytes.toNat
  resPackets : got.resPackets = t.resPackets.toNat
  resBytes : got.resBytes = t.resBytes.toNat

def SameText (got : String) (bs : List UInt8) : Prop := utf8Bytes got = bs

theorem decodeText_same_iff {replaced : List UInt8 → String} {bs : List UInt8} :
    SameText (decodeText replaced bs) bs ↔ IsUtf8 bs := utf8Bytes_decodeText_iff

def TextReadable (bs : List UInt8) : Prop := bs.length < 2 ^ 31 ∧ IsUtf8 bs

theorem textReadable_utf8Bytes {s : String} (h : (utf8Bytes s).length < 2 ^ 31) :
    TextReadable (utf8Bytes s) := ⟨h, isUtf8_utf8Bytes s⟩

theorem TextReadable.same {replaced : List UInt8 → String} {bs : List UInt8} (h : TextReadable bs) :
    SameText (decodeText replaced bs) bs := decodeText_same_iff.2 h.2

def SamePair (got : String × String) (pair : List UInt8 × List UInt8) : Prop :=
  SameText got.1 pair.1 ∧ SameText got.2 pair.2

def decodePair (env : Env) (pair : List UInt8 × List UInt8) : String × String :=
  (decodeText env.replaced pair.1, decodeText env.replaced pair.2)

def PairReadable (pair : List UInt8 × List UInt8) : Prop := TextReadable pair.1 ∧
    TextReadable pair.2

theorem PairReadable.same {env : Env} {pair : List UInt8 × List UInt8} (h : PairReadable pair) :
    SamePair (decodePair env pair) pair := ⟨h.1.same, h.2.same⟩

def ListReadable {γ : Type} (readable : γ → Prop) (xs : List γ) : Prop :=
  xs.length < 2 ^ 31 ∧ ∀ x ∈ xs, readable x

theorem ListReadable.same {α γ : Type} {readable : γ → Prop} {same : α → γ → Prop} {dec : γ → α}
    {xs : List γ} (h : ListReadable readable xs) (hdec : ∀ x, readable x → same (dec x) x) :
    List.Forall₂ same (xs.map dec) xs := by
  rw [List.forall₂_map_left_iff, List.forall₂_same]
  exact fun x hx => hdec x (h.2 x hx)

def commonOf (t : TcpSession) : TCPSessionEntry :=
  ⟨t.protocolId.toNat, protoID2String.getD t.protocolId.toNat "", t.sessionId.toNat,
    t.reqTime.toNat,
    t.resTime.toNat, t.isIpv6, t.srcIp.toNat, t.dstIp.toNat, t.srcAddr, t.dstAddr, t.srcPort.toNat,
    t.dstPort.toNat, t.reqPackets.toNat, t.reqBytes.toNat, t.reqBytes.toNat, t.resPackets.toNat,
    t.resBytes.toNat, t.resBytes.toNat⟩

theorem commonOf_same (t : TcpSession) : (commonOf t).Same t :=
  ⟨rfl, rfl, rfl, rfl, rfl, rfl, rfl, rfl, rfl, rfl, rfl, rfl, rfl, rfl, rfl⟩

theorem yields_uint16Field (v : UInt16) {k : String} (hk : k.isEmpty = false) :
    Yields parseInt (writeUint16 k v) v.toNat := by
  have hv := v.toNat_lt
  exact yields_int (by omega) hk

theorem yields_uint32Field (v : UInt32) {k : String} (hk : k.isEmpty = false) :
    Yields parseLong (writeUint32 k v) v.toNat := by
  have hv := v.toNat_lt
  exact yields_long (by omega) hk

theorem yields_protocol {id : ℕ} (h : id < 11) :
    Yields (orThrow protoID2String[id]?) ([] : List Token) (protoID2String.getD id "") := by
  have hlen : id < protoID2String.length := h
  refine yields_orThrow ?_
  rw [List.getD_eq_getElem?_getD]
  simp [List.getElem?_eq_getElem hlen]

theorem yields_flag (b : Bool) {k : String} (hk : k.isEmpty = false) :
    Yields parseByte (writeUint8 k (if b then 1 else 0)) (if b then 1 else 0) := by
  cases b
  · exact yields_byte (by decide) hk
  · exact yields_byte (by decide) hk

theorem yields_common {t : TcpSession} (h : Storable t) :
    Yields parseCommon (commonStore t) (commonOf t) := by
  refine (yields_mapOf (by omega) rfl).bind <| (yields_uint32Field t.protocolId rfl).bind <|
    (yields_protocol h.protocolId).nil_bind <| (yields_long h.sessionId rfl).bind <|
    (yields_long h.reqTime rfl).bind <| (yields_long h.resTime rfl).bind <|
    (yields_flag t.isIpv6 rfl).bind <| (yields_uint32Field t.srcIp rfl).bind <|
    (yields_uint32Field t.dstIp rfl).bind <| (yields_bin t.srcAddr.1 rfl).bind <|
    (yields_bin t.dstAddr.1 rfl).bind <| (yields_uint16Field t.srcPort rfl).bind <|
    (yields_uint16Field t.dstPort rfl).bind <| (yields_long h.reqPackets rfl).bind <|
    (yields_long h.reqBytes rfl).bind <| (yields_long h.reqBytes rfl).bind <|
    (yields_long h.resPackets rfl).bind <| (yields_long h.resBytes rfl).bind <|
    (yields_long h.resBytes rfl).bind_pure ?_
  rw [DataInput.flag_beq_one]
  exact yields_pure _

theorem takes_orThrow {α : Type} (o : Option α) : Takes (orThrow o) 0 := by
  cases o with
  | none => exact takes_throw 0
  | some a => exact takes_pure a

theorem takes_common : Takes parseCommon 36 :=
  (takes_mapOf 17).bind fun _ => takes_long.bind fun _ => (takes_orThrow _).bind fun _ =>
    takes_long.bind fun _ => takes_long.bind fun _ => takes_long.bind fun _ =>
      takes_byte.bind fun _ =>
    takes_long.bind fun _ => takes_long.bind fun _ => takes_parseRaw.bind fun _ =>
    takes_parseRaw.bind fun _ => takes_int.bind fun _ => takes_int.bind fun _ =>
      takes_long.bind fun _ =>
    takes_long.bind fun _ => takes_long.bind fun _ => takes_long.bind fun _ =>
      takes_long.bind fun _ =>
    takes_long.bind_zero fun _ => takes_pure _

theorem common_rest {t : TcpSession} {format rest : List Token} {entry : TCPSessionEntry}
    (h : parseCommon.run (commonStore t ++ format) = some (entry, rest)) : rest = format := by
  have hlen : (commonStore t).length = 36 := rfl
  rw [takes_common h, ← hlen, List.drop_left]

/-- The reader does not throw, reads the whole record and gives a value that is the same. -/
def Agrees {α : Type} (p : Unpacker α) (ts : List Token) (same : α → Prop) : Prop :=
  ∃ got, p.run ts = some (got, []) ∧ same got

theorem record_run {α : Type} {P : ℕ → Prop} [DecidablePred P]
    {f : ℕ → TCPSessionEntry → Unpacker α} {t : TcpSession} (hok : P 2) (ht : Storable t)
    (format : List Token) :
    (do let n ← unpackMapHeader
        check (P n)
        let entry ← parseCommon
        f n entry).run (protoSessionStore t format) = (f 2 (commonOf t)).run format := by
  have houter : Yields unpackMapHeader (mapStart "" 2) 2 :=
    yields_below (yields_mapLen 2) (by omega)
  rw [protoSessionStore, houter.bind_run]
  exact ((yields_check hok).nil_bind_run _ _).trans ((yields_common ht).bind_run _ _)

theorem unspecified_length : (List.replicate 16 (0 : UInt8)).length = 16 := rfl

def smallSession (protocolId : UInt32) : TcpSession :=
  { protocolId, sessionId := 1, reqTime := 2, resTime := 3, isIpv6 := false, srcIp := 0xC0A80001,
    dstIp := 0x0A000001, srcAddr := ⟨List.replicate 16 0, unspecified_length⟩,
    dstAddr := ⟨List.replicate 16 0, unspecified_length⟩,
    srcPort := 40000, dstPort := 80,
    reqPackets := 1, reqBytes := 20, resPackets := 0, resBytes := 0 }

/-- Malformed texts become one replacement character, and there are no body files. -/
def plainEnv : Env := ⟨fun _ => "\ufffd", fun _ => some 0, throw⟩

theorem smallSession_counters (protocolId : UInt32) : Counters63 (smallSession protocolId) where
  sessionId := (by decide : (1 : UInt64).toNat < 2 ^ 63)
  reqTime := (by decide : (2 : UInt64).toNat < 2 ^ 63)
  resTime := (by decide : (3 : UInt64).toNat < 2 ^ 63)
  reqPackets := (by decide : (1 : UInt64).toNat < 2 ^ 63)
  reqBytes := (by decide : (20 : UInt64).toNat < 2 ^ 63)
  resPackets := (by decide : (0 : UInt64).toNat < 2 ^ 63)
  resBytes := (by decide : (0 : UInt64).toNat < 2 ^ 63)

end CloudHands.Proto

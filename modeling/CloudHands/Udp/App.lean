import CloudHands.Lib.Arena
import CloudHands.Udp.Session

/-!
# The applications of the udp process

`ch_udp_app_pool.c`. An application is a record of callbacks; what they depend on besides the
packet and the session of the application, such as free memory, is their last argument. The
callbacks that write a session out are left out.
-/

namespace CloudHands.Udp

open CloudHands.Lib
open CloudHands.Pkt

variable {σ ε : Type*}

/-- `ch_udp_app_t`. Some applications have no `process_request_session`, and `app_session_fin`
is tested for null as well. -/
structure UdpApp (σ ε : Type*) where
  appSessionCreate : PacketUdp → ε → Option σ
  processRequestSession : Option (σ → PacketUdp → ε → ReqSessionRc × σ)
  requestSessionEqual : σ → PacketUdp → Bool
  isRequest : σ → PacketUdp → Bool
  reqPktProcess : σ → PacketUdp → ε → ProcessRc × σ
  resPktProcess : σ → PacketUdp → ε → ProcessRc × σ
  hasAppSessionFin : Bool

/-- `ch_udp_app_session_t`. -/
structure AppSession (σ ε : Type*) where
  app : UdpApp σ ε
  data : σ

/-- `ch_udp_app_session_create`: the first application that wants the packet. -/
def appSessionCreate (apps : List (UdpApp σ ε)) (pkt : PacketUdp) (env : ε) :
    Option (AppSession σ ε) :=
  apps.findSome? fun app => (app.appSessionCreate pkt env).map fun data => ⟨app, data⟩

/-- `ch_udp_app_session_packet_process`. -/
def AppSession.packetProcess (s : AppSession σ ε) (pkt : PacketUdp) (env : ε) : ProcessRc × σ :=
  if s.app.isRequest s.data pkt then s.app.reqPktProcess s.data pkt env
  else s.app.resPktProcess s.data pkt env

/-- `ch_udp_app_session_request_process`; there is no test for a null callback. -/
def AppSession.requestProcess (s : AppSession σ ε) (pkt : PacketUdp) (env : ε) :
    Option (ReqSessionRc × σ) :=
  s.app.processRequestSession.map fun process => process s.data pkt env

/-- `ch_udp_app_session_fin`. -/
def appSessionFin (sessions : Arena (AppSession σ ε)) (i : ℕ) : Option (Arena (AppSession σ ε)) :=
  match sessions.cell i with
  | none => none
  | some s => if s.app.hasAppSessionFin then sessions.free i else some sessions

theorem app_mem_of_create {apps : List (UdpApp σ ε)} {pkt : PacketUdp} {env : ε}
    {s : AppSession σ ε} (h : appSessionCreate apps pkt env = some s) : s.app ∈ apps := by
  obtain ⟨app, happ, hs⟩ := List.exists_of_findSome?_eq_some h
  obtain ⟨data, -, rfl⟩ := Option.map_eq_some_iff.1 hs
  exact happ

structure TftpEnv where
  memory : Bool
  file : Bool
deriving DecidableEq, Repr

/-- `ch_tftp_session_t`; `fp` tells whether the file is open. The names of a request are written
out only. -/
structure TftpSession where
  srcIp : ℕ
  dstIp : ℕ
  srcPort : ℕ
  dstPort : ℕ
  isRead : Bool
  isError : Bool
  lastBlock : ℕ
  fp : Bool
deriving DecidableEq, Repr

def readUint16 (p : List UInt8) : ℕ := (p.getD 0 0).toNat * 256 + (p.getD 1 0).toNat

def tftpSessionCreate (pkt : PacketUdp) : Option TftpSession :=
  match pkt.pdata with
  | none => none
  | some p =>
    let opcode := readUint16 p
    if pkt.payloadLen < 4 then none
    else if opcode ≠ 1 ∧ opcode ≠ 2 then none
    else
      some
        { srcIp := pkt.srcIp, dstIp := pkt.dstIp, srcPort := pkt.srcPort, dstPort := pkt.dstPort
          isRead := opcode = 1, isError := false, lastBlock := 0, fp := false }

def tftpAppSessionCreate (pkt : PacketUdp) (env : TftpEnv) : Option TftpSession :=
  if pkt.dstPort = 69 ∧ env.memory then tftpSessionCreate pkt else none

/-- `_tftp_request_session_equal`: the server answers from a port of its own. -/
def tftpRequestSessionEqual (s : TftpSession) (pkt : PacketUdp) : Bool :=
  pkt.srcIp == s.dstIp && pkt.dstIp == s.srcIp && pkt.dstPort == s.srcPort

def tftpProcessRequestSession (s : TftpSession) (pkt : PacketUdp) (_ : TftpEnv) :
    ReqSessionRc × TftpSession :=
  (.done,
    { s with
      srcIp := pkt.dstIp
      srcPort := pkt.dstPort
      dstIp := pkt.srcIp
      dstPort := pkt.srcPort })

def tftpIsRequest (s : TftpSession) (pkt : PacketUdp) : Bool := s.dstPort == pkt.dstPort

/-- `_do_file_content_process`: whether the content could be written. -/
def tftpFileContentProcess (s : TftpSession) (env : TftpEnv) : Bool × TftpSession :=
  if s.fp then (true, s) else if env.file then (true, { s with fp := true }) else (false, s)

/-- The case of a data packet in `do_tftp_packet_parse`. -/
def tftpDataProcess (s : TftpSession) (block dlen : ℕ) (env : TftpEnv) : ProcessRc × TftpSession :=
  if s.lastBlock + 1 < block then (.err, s)
  else
    match tftpFileContentProcess { s with lastBlock := block } env with
    | (false, s) => (.err, s)
    | (true, s) => (if dlen - 4 < 512 then .done else .continue, s)

def tftpPacketParse (s : TftpSession) (pkt : PacketUdp) (env : TftpEnv) : ProcessRc × TftpSession :=
  match pkt.pdata with
  | none => (.continue, s)
  | some p =>
    let opcode := readUint16 p
    let block := readUint16 (p.drop 2)
    if pkt.payloadLen < 4 then (.continue, s)
    else if opcode = 3 then tftpDataProcess s block pkt.payloadLen env
    else if opcode = 4 then (if block ≠ 0 ∧ block ≠ s.lastBlock then .err else .continue, s)
    else if opcode = 5 then (.done, { s with isError := true })
    else (.continue, s)

def tftpApp : UdpApp TftpSession TftpEnv where
  appSessionCreate := tftpAppSessionCreate
  processRequestSession := some tftpProcessRequestSession
  requestSessionEqual := tftpRequestSessionEqual
  isRequest := tftpIsRequest
  reqPktProcess := tftpPacketParse
  resPktProcess := tftpPacketParse
  hasAppSessionFin := true

end CloudHands.Udp

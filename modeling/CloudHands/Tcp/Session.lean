import CloudHands.Tcp.AssembleFragment

/-!
# TCP packets, endpoints and sessions

The record types of `ch_packet_tcp.h`, `ch_tcp_session_endpoint.h` and
`ch_tcp_session.h` with the fields that the session handlers read. A payload
pointer is the list of the bytes behind it. The session entry of the
application (`sentry`) is a value of an arbitrary type.
-/

namespace CloudHands.Tcp

open CloudHands.Word (add sub)

structure TcpPacket where
  isIpv6 : Bool
  srcIp : ℕ
  dstIp : ℕ
  srcAddr : ℕ
  dstAddr : ℕ
  srcPort : ℕ
  dstPort : ℕ
  tcpFlags : UInt8
  sentSeq : ℕ
  recvAck : ℕ
  payloadLen : ℕ
  pdata : Option (List UInt8)
deriving DecidableEq, Repr

def thFin : UInt8 := 0x01
def thSyn : UInt8 := 0x02
def thRst : UInt8 := 0x04
def thAck : UInt8 := 0x10

def TcpPacket.hasFlag (pkt : TcpPacket) (flag : UInt8) : Bool := pkt.tcpFlags &&& flag != 0

def isTcpFinPacket (pkt : TcpPacket) : Bool := pkt.hasFlag thFin

def isTcpRstPacket (pkt : TcpPacket) : Bool := pkt.hasFlag thRst

def isTcpDataPacket (pkt : TcpPacket) : Bool := decide (0 < pkt.payloadLen)

/-- `ch_tcp_session_endpoint_t`. -/
structure TcpSessionEndpoint where
  asFrag : List DataFragment
  lastOffset : ℕ
  lastAck : ℕ
  initSeq : ℕ
  ip : ℕ
  port : ℕ
  addr : ℕ
  isIpv6 : Bool
deriving DecidableEq, Repr

def endpointOffsetGet (ep : TcpSessionEndpoint) (seq : ℕ) : ℕ := sub 32 seq ep.initSeq

def tcpSessionEndpointInit (ip port initSeq : ℕ) : TcpSessionEndpoint :=
  { asFrag := [], lastOffset := 0, lastAck := 0, initSeq := initSeq, ip := ip, port := port
    addr := 0, isIpv6 := false }

def tcpSessionEndpointInitIpv6 (addr port initSeq : ℕ) : TcpSessionEndpoint :=
  { asFrag := [], lastOffset := 0, lastAck := 0, initSeq := initSeq, ip := 0, port := port
    addr := addr, isIpv6 := true }

def tcpSessionEndpointDo (allocOk : Bool) (ep : TcpSessionEndpoint) (data : List UInt8)
    (dlen offset : ℕ) : List DataFragment × Bool :=
  assembleFragmentPush allocOk ep.asFrag data dlen offset

/-- The two endpoints of a session, and the two directions of its data. -/
inductive SessionDirect
  | req
  | res
deriving DecidableEq, Repr

instance {p : SessionDirect → Prop} [DecidablePred p] : Decidable (∀ d, p d) :=
  decidable_of_iff (p .req ∧ p .res) ⟨fun h d => by cases d <;> simp [h], fun h => ⟨h _, h _⟩⟩

def SessionDirect.peer : SessionDirect → SessionDirect
  | .req => .res
  | .res => .req

inductive SessionState
  | init
  | data
  | fin
  | rst
deriving DecidableEq, Repr

inductive FourWayState
  | init
  | fin1
  | fin1Ack
  | fin2
  | fin2Ack
deriving DecidableEq, Repr

/-- `ch_tcp_session_t`; `curEp` names the endpoint the pointer points to. -/
structure TcpSession (σ : Type*) where
  endpointReq : TcpSessionEndpoint
  endpointRes : TcpSessionEndpoint
  sentry : Option σ
  curEp : Option SessionDirect
  fin1Seq : ℕ
  fin2Seq : ℕ
  state : SessionState
  fourWayState : FourWayState
deriving DecidableEq, Repr

variable {σ : Type*}

def TcpSession.endpoint (s : TcpSession σ) : SessionDirect → TcpSessionEndpoint
  | .req => s.endpointReq
  | .res => s.endpointRes

def TcpSession.setEndpoint (s : TcpSession σ) (d : SessionDirect) (ep : TcpSessionEndpoint) :
    TcpSession σ :=
  match d with
  | .req => { s with endpointReq := ep }
  | .res => { s with endpointRes := ep }

/-- The fields of a session request that a new session takes over. -/
structure TcpSessionRequest where
  isIpv6 : Bool
  reqIp : ℕ
  resIp : ℕ
  srcAddr : ℕ
  dstAddr : ℕ
  reqPort : ℕ
  resPort : ℕ
  reqSnInit : ℕ
  resSnInit : ℕ
deriving DecidableEq, Repr

def tcpSessionInit (sreq : TcpSessionRequest) (sentry : σ) : TcpSession σ :=
  { endpointReq :=
      if sreq.isIpv6 then tcpSessionEndpointInitIpv6 sreq.srcAddr sreq.reqPort sreq.reqSnInit
      else tcpSessionEndpointInit sreq.reqIp sreq.reqPort sreq.reqSnInit
    endpointRes :=
      if sreq.isIpv6 then tcpSessionEndpointInitIpv6 sreq.dstAddr sreq.resPort sreq.resSnInit
      else tcpSessionEndpointInit sreq.resIp sreq.resPort sreq.resSnInit
    sentry := some sentry
    curEp := none
    fin1Seq := 0
    fin2Seq := 0
    state := .init
    fourWayState := .init }

def endpointIsRequest (req res : TcpSessionEndpoint) (pkt : TcpPacket) : Bool :=
  if pkt.isIpv6 then
    req.isIpv6 && decide (req.addr = pkt.srcAddr) && decide (req.port = pkt.srcPort) &&
      res.isIpv6 && decide (res.addr = pkt.dstAddr) && decide (res.port = pkt.dstPort)
  else
    decide (req.ip = pkt.srcIp) && decide (req.port = pkt.srcPort) &&
      decide (res.ip = pkt.dstIp) && decide (res.port = pkt.dstPort)

def endpointIsResponse (req res : TcpSessionEndpoint) (pkt : TcpPacket) : Bool :=
  if pkt.isIpv6 then
    req.isIpv6 && decide (req.addr = pkt.dstAddr) && decide (req.port = pkt.dstPort) &&
      res.isIpv6 && decide (res.addr = pkt.srcAddr) && decide (res.port = pkt.srcPort)
  else
    decide (req.ip = pkt.dstIp) && decide (req.port = pkt.dstPort) &&
      decide (res.ip = pkt.srcIp) && decide (res.port = pkt.srcPort)

def tcpSessionEndpointGet (s : TcpSession σ) (pkt : TcpPacket) : Option SessionDirect :=
  if endpointIsRequest s.endpointReq s.endpointRes pkt then some .req
  else if endpointIsResponse s.endpointReq s.endpointRes pkt then some .res
  else none

def tcpSessionPairEndpointGet (s : TcpSession σ) (pkt : TcpPacket) : Option SessionDirect :=
  (tcpSessionEndpointGet s pkt).map SessionDirect.peer

@[simp] theorem endpoint_setEndpoint (s : TcpSession σ) (d : SessionDirect)
    (ep : TcpSessionEndpoint) : (s.setEndpoint d ep).endpoint d = ep := by
  cases d <;> rfl

@[simp] theorem endpoint_setEndpoint_peer (s : TcpSession σ) (d : SessionDirect)
    (ep : TcpSessionEndpoint) : (s.setEndpoint d ep).endpoint d.peer = s.endpoint d.peer := by
  cases d <;> rfl

@[simp] theorem setEndpoint_sentry (s : TcpSession σ) (d : SessionDirect)
    (ep : TcpSessionEndpoint) : (s.setEndpoint d ep).sentry = s.sentry := by
  cases d <;> rfl

@[simp] theorem setEndpoint_curEp (s : TcpSession σ) (d : SessionDirect)
    (ep : TcpSessionEndpoint) : (s.setEndpoint d ep).curEp = s.curEp := by
  cases d <;> rfl

@[simp] theorem setEndpoint_fourWayState (s : TcpSession σ) (d : SessionDirect)
    (ep : TcpSessionEndpoint) : (s.setEndpoint d ep).fourWayState = s.fourWayState := by
  cases d <;> rfl

@[simp] theorem setEndpoint_fin1Seq (s : TcpSession σ) (d : SessionDirect)
    (ep : TcpSessionEndpoint) : (s.setEndpoint d ep).fin1Seq = s.fin1Seq := by
  cases d <;> rfl

@[simp] theorem setEndpoint_fin2Seq (s : TcpSession σ) (d : SessionDirect)
    (ep : TcpSessionEndpoint) : (s.setEndpoint d ep).fin2Seq = s.fin2Seq := by
  cases d <;> rfl

end CloudHands.Tcp

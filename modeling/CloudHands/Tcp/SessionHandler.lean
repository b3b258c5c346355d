import CloudHands.Tcp.Session

/-!
# The packet handler of an established TCP session

`ch_tcp_session_handler.c`, one definition per function. A call works on the
session and writes a log: each block of reads and writes of the session or of
one of its endpoints is an `access`, each byte range handed to the application
an `output`, and each `_tcp_session_close` a `close`. A close leaves the memory
of the session behind as the cleanup left it, so the statements that follow a
close in the source run on that memory here too.

The application is a pair of parse functions on the session entry. The result of
the one allocation a packet can need is the argument `allocOk`. The timeout ring is
drained at the end of every call; `inRing` says whether this session's own entry is
among the entries taken from the ring, which is then an `expire`.
-/

namespace CloudHands.Tcp

open CloudHands.Word (add sub)

inductive ParseStatus
  | parseDone
  | parseContinue
  | parseBreak
deriving DecidableEq, Repr

/-- `ch_tcp_app_t`: the two content parsers, either of which may be missing. -/
structure TcpApp (σ : Type*) where
  requestContentParse : Option (σ → List UInt8 → ParseStatus × σ)
  responseContentParse : Option (σ → List UInt8 → ParseStatus × σ)

inductive Event
  | access
  | output (direct : SessionDirect) (data : List UInt8)
  | close
  | expire
deriving DecidableEq, Repr

structure Handling (σ : Type*) where
  session : TcpSession σ
  log : List Event
deriving DecidableEq, Repr

variable {σ : Type*}

def Handling.emit (h : Handling σ) (e : Event) : Handling σ := { h with log := h.log ++ [e] }

def Handling.setEndpoint (h : Handling σ) (d : SessionDirect) (ep : TcpSessionEndpoint) :
    Handling σ :=
  { h with session := h.session.setEndpoint d ep }

def TcpApp.contentParse (app : TcpApp σ) : SessionDirect →
    Option (σ → List UInt8 → ParseStatus × σ)
  | .req => app.requestContentParse
  | .res => app.responseContentParse

/-- `_session_direct`, and the test at the start of `_content_data_output`. -/
def sessionDirect (s : TcpSession σ) : SessionDirect :=
  match s.curEp with
  | some .req => .req
  | _ => .res

/-- `_content_data_output` with the `ch_tcp_app_*_content_parse` it calls. -/
def contentDataOutput (app : TcpApp σ) (h : Handling σ) (data : List UInt8) :
    ParseStatus × Handling σ :=
  let h := h.emit .access
  let d := sessionDirect h.session
  match app.contentParse d, h.session.sentry with
  | some parse, some st =>
    let r := parse st data
    (r.1, { (h.emit (.output d data)) with session := { h.session with sentry := some r.2 } })
  | _, _ => (.parseBreak, h)

/-- What freeing a session leaves behind: the application entry is cleaned and
`ch_tcp_session_fin` has released the fragments of both endpoints. -/
def tcpSessionFin (s : TcpSession σ) : TcpSession σ :=
  { s with
    sentry := none
    endpointReq := { s.endpointReq with asFrag := [] }
    endpointRes := { s.endpointRes with asFrag := [] } }

def tcpSessionClose (h : Handling σ) : Handling σ :=
  { h.emit .close with session := tcpSessionFin h.session }

/-- `ch_ptable_entries_timeout_free`, as far as this session is concerned. -/
def entriesTimeoutFree (inRing : Bool) (h : Handling σ) : Handling σ :=
  if inRing then { h.emit .expire with session := tcpSessionFin h.session } else h

/-- The tail of `_process_data_packet` after data was accepted: the continuing
fragment is taken from the list, handed out and freed. -/
def processPoppedData (app : TcpApp σ) (d : SessionDirect) (h : Handling σ) : Handling σ :=
  let h := h.emit .access
  let ep := h.session.endpoint d
  let p := assembleFragmentPop ep.asFrag ep.lastOffset
  let h := h.setEndpoint d { ep with asFrag := p.2 }
  match p.1 with
  | none => h
  | some df =>
    let r := contentDataOutput app h df.bytes
    let h := r.2
    let h :=
      if r.1 = .parseBreak then tcpSessionClose h
      else (h.emit .access).setEndpoint d { h.session.endpoint d with lastOffset := df.stop }
    h.emit .access

def processDataPacket (app : TcpApp σ) (allocOk : Bool) (d : SessionDirect) (pkt : TcpPacket)
    (h : Handling σ) : Handling σ :=
  let h := h.emit .access
  let ep := h.session.endpoint d
  let data := pkt.pdata.getD []
  let offset := endpointOffsetGet ep pkt.sentSeq
  let endOffset := add 32 offset pkt.payloadLen
  if endOffset ≤ ep.lastOffset then
    -- invalid or retransmitted
    h
  else if ep.lastOffset < offset then
    -- out of order
    let r := tcpSessionEndpointDo allocOk ep data pkt.payloadLen offset
    let h := h.setEndpoint d { ep with asFrag := r.1 }
    if r.2 then h else tcpSessionClose h
  else
    let diff := sub 32 ep.lastOffset offset
    let pdata := data.drop diff
    let payloadLen := sub 32 pkt.payloadLen diff
    let h := h.setEndpoint d { ep with lastOffset := endOffset }
    let r := contentDataOutput app h (pdata.take payloadLen)
    if r.1 = .parseBreak then tcpSessionClose r.2 else processPoppedData app d r.2

def isFinAck (seq : ℕ) (pkt : TcpPacket) : Bool :=
  pkt.hasFlag thAck && decide (pkt.recvAck = add 32 seq 1)

def isFin1Ack (s : TcpSession σ) (pkt : TcpPacket) : Bool := isFinAck s.fin1Seq pkt

def isFin2Ack (s : TcpSession σ) (pkt : TcpPacket) : Bool := isFinAck s.fin2Seq pkt

def processFinPacket (pkt : TcpPacket) (h : Handling σ) : Handling σ :=
  let h := h.emit .access
  match h.session.fourWayState with
  | .init => { h with session := { h.session with fin1Seq := pkt.sentSeq, fourWayState := .fin1 } }
  | .fin1 | .fin1Ack =>
    { h with session := { h.session with fin2Seq := pkt.sentSeq, fourWayState := .fin2 } }
  | .fin2 | .fin2Ack => h

def processFin1AckPacket (h : Handling σ) : Handling σ :=
  { h.emit .access with session := { h.session with fourWayState := .fin1Ack } }

def processFin2AckPacket (h : Handling σ) : Handling σ :=
  tcpSessionClose { h.emit .access with session := { h.session with fourWayState := .fin2Ack } }

/-- The flag handling at the end of `ch_tcp_session_packet_handle`. The FIN
sequence numbers are read only when the packet has the ACK flag. -/
def processFlags (pkt : TcpPacket) (h : Handling σ) : Handling σ :=
  if isTcpFinPacket pkt then processFinPacket pkt h
  else if isTcpRstPacket pkt then tcpSessionClose h
  else if pkt.hasFlag thAck then
    let h := h.emit .access
    if isFin1Ack h.session pkt then processFin1AckPacket h
    else if isFin2Ack h.session pkt then processFin2AckPacket h
    else h
  else h

def ackBeyondOffset (ep : TcpSessionEndpoint) : Bool := decide (ep.lastOffset < ep.lastAck)

/-- The `do … while(0)` of `ch_tcp_session_packet_handle`. -/
def packetHandle (app : TcpApp σ) (allocOk : Bool) (pkt : TcpPacket) (h : Handling σ) :
    Handling σ :=
  let h := h.emit .access
  match tcpSessionEndpointGet h.session pkt with
  | none => h
  | some d =>
    let h := { h.emit .access with session := { h.session with curEp := some d } }
    if pkt.pdata.isSome then
      let h := (processDataPacket app allocOk d pkt h).emit .access
      if ackBeyondOffset (h.session.endpoint d) then tcpSessionClose h else processFlags pkt h
    else processFlags pkt h

def tcpSessionPacketHandle (app : TcpApp σ) (allocOk inRing : Bool) (pkt : TcpPacket)
    (h : Handling σ) : Handling σ :=
  entriesTimeoutFree inRing (packetHandle app allocOk pkt h)

def setTcpState (s : TcpSession σ) (pkt : TcpPacket) : TcpSession σ :=
  if s.state = .fin ∨ s.state = .rst then s
  else if isTcpDataPacket pkt then { s with state := .data }
  else if isTcpFinPacket pkt then { s with state := .fin }
  else if isTcpRstPacket pkt then { s with state := .rst }
  else s

def needUpdateLastAck (s : TcpSession σ) (pkt : TcpPacket) : Bool :=
  !(decide (s.state = .fin) || decide (s.state = .rst)) &&
    !(isTcpFinPacket pkt || isTcpRstPacket pkt)

def isNeedIgnore (s : TcpSession σ) (pkt : TcpPacket) : Bool :=
  !isTcpDataPacket pkt && !(decide (s.state = .fin) || decide (s.state = .rst))

def updateLastAck (s : TcpSession σ) (pkt : TcpPacket) : TcpSession σ :=
  match tcpSessionPairEndpointGet s pkt with
  | none => s
  | some d =>
    let ep := s.endpoint d
    s.setEndpoint d { ep with lastAck := max ep.lastAck (endpointOffsetGet ep pkt.recvAck) }

/-- `_tcp_session_data_process`, through which every packet of a session passes. -/
def tcpSessionDataProcess (app : TcpApp σ) (allocOk inRing : Bool) (pkt : TcpPacket)
    (h : Handling σ) : Handling σ :=
  let s := setTcpState h.session pkt
  let s := if needUpdateLastAck s pkt then updateLastAck s pkt else s
  let h := { h.emit .access with session := s }
  if isNeedIgnore s pkt then h else tcpSessionPacketHandle app allocOk inRing pkt h

end CloudHands.Tcp

import CloudHands.Sa.SessionHandler
import CloudHands.Tcp.Handshake
import CloudHands.Lib.Tally

/-!
# The packet counters of the stream analysis

`ch_sa_tcp_session_request_handler.c`: the packets of one 4-tuple, from the SYN over the
handshake to the session and its end. The entry of a request counts the packets of the
handshake, the entry of a session starts from it and counts the rest.

A lookup in the pools finds the request or the session of the 4-tuple if there is one. The
packets that an entry has seen since the SYN are kept for the statements only.
-/

namespace CloudHands.Sa

open CloudHands.Word (add)
open CloudHands.Tcp
open CloudHands.Lib

/-- `ch_sa_session_tcp_request_entry_t`. -/
structure SaRequestEntry where
  reqPackets : ℕ
  resPackets : ℕ
  reqStartTime : ℕ
  reqLastTime : ℕ
  resStartTime : ℕ
  resLastTime : ℕ
deriving DecidableEq, Repr

/-- The lines of `_three_way_handshake_process` that fill the entry of a new request in. -/
def saRequestEntryInit (time : ℕ) : SaRequestEntry := ⟨1, 0, time, time, time, time⟩

inductive SaRequestFate
  | keep (r : SessionRequest) (e : SaRequestEntry)
  | reset
  | session (r : SessionRequest) (e : SaRequestEntry)

/-- `_three_way_handshake_process` of the stream analysis on a request it found. -/
def saThreeWayHandshakeProcess (r : SessionRequest) (e : SaRequestEntry) (pkt : TcpPacket)
    (time : ℕ) : SaRequestFate :=
  if isTcpSynPacket pkt then
    .keep r { e with reqPackets := add 64 e.reqPackets 1, reqLastTime := time }
  else if isTcpSynAckPacket pkt then
    if r.threeWayState = .syn then
      .keep ⟨{ r.sreq with resSnInit := add 32 pkt.sentSeq 1 }, .synAck⟩
        { e with
          resStartTime := time, resLastTime := time, resPackets := add 64 e.resPackets 1 }
    else .keep r e
  else if isTcpAckAckPacket r pkt then
    let e := { e with reqPackets := add 64 e.reqPackets 1, reqLastTime := time }
    if r.threeWayState = .synAck then
      if isTcpDataPacket pkt then .session ⟨r.sreq, .ackAck⟩ e else .keep ⟨r.sreq, .ackAck⟩ e
    else .keep r e
  else if isTcpRstPacket pkt then .reset
  else if isTcpDataPacket pkt then
    if r.threeWayState = .ackAck then .session r e else .keep r e
  else .keep r e

structure SaTracked where
  sa : SaSession
  reqStartTime : ℕ
  resStartTime : ℕ
  seen : List SaArrival

structure SaPending where
  request : SessionRequest
  entry : SaRequestEntry
  seen : List SaArrival

structure SaFlow where
  request : Option SaPending
  session : Option SaTracked
  ended : List SaTracked

/-- A packet, or the end of an entry in a drain of the timeout rings. The store pool of the
task and the outcomes of the allocations come from the surroundings. -/
inductive SaFlowEvent
  | packet (a : SaArrival) (pool : DataStorePool) (requestOk sessionOk : Bool)
  | requestExpired
  | sessionExpired

/-- `ch_sa_session_entry_init` on a new session. -/
def saSessionEntryInit (r : SessionRequest) (e : SaRequestEntry) (pool : DataStorePool)
    (seen : List SaArrival) : SaTracked where
  sa :=
    { session := tcpSessionInit r.sreq ()
      req := .init e.reqPackets e.reqLastTime
      res := .init e.resPackets e.resLastTime
      pool := pool
      closes := 0 }
  reqStartTime := e.reqStartTime
  resStartTime := e.resStartTime
  seen := seen

/-- `_tcp_session_data_process` on the session of the flow. -/
def SaFlow.dataProcess (ctx : SaContext) (f : SaFlow) (x : SaTracked) (a : SaArrival)
    (pool : DataStorePool) : SaFlow :=
  let x := { x with sa := saSessionDataProcess ctx a { x.sa with pool := pool } }
  if x.sa.closes = 0 then { f with session := some x }
  else { f with session := none, ended := f.ended ++ [x] }

/-- `_three_way_handshake_process`. -/
def SaFlow.handshakeProcess (ctx : SaContext) (f : SaFlow) (a : SaArrival)
    (pool : DataStorePool) (requestOk sessionOk : Bool) : SaFlow :=
  match f.request with
  | none =>
    if isTcpSynPacket a.pkt && requestOk then
      { f with request := some ⟨sessionRequestCreate a.pkt, saRequestEntryInit a.timestamp, [a]⟩ }
    else f
  | some p =>
    match saThreeWayHandshakeProcess p.request p.entry a.pkt a.timestamp with
    | .keep r e => { f with request := some ⟨r, e, p.seen⟩ }
    | .reset => { f with request := none }
    | .session r e =>
      let f := { f with request := none }
      if sessionOk then f.dataProcess ctx (saSessionEntryInit r e pool p.seen) a pool else f

def SaFlow.see (f : SaFlow) (a : SaArrival) : SaFlow :=
  { f with
    request := f.request.map fun p => { p with seen := p.seen ++ [a] }
    session := f.session.map fun x => { x with seen := x.seen ++ [a] } }

/-- `ch_sa_tcp_session_request_packet_handle`. -/
def SaFlow.packetHandle (ctx : SaContext) (f : SaFlow) (a : SaArrival) (pool : DataStorePool)
    (requestOk sessionOk : Bool) : SaFlow :=
  let f := f.see a
  match if isTcpSynPacket a.pkt || isTcpSynAckPacket a.pkt then none else f.session with
  | some x => f.dataProcess ctx x a pool
  | none => f.handshakeProcess ctx a pool requestOk sessionOk

def SaFlow.handle (ctx : SaContext) (f : SaFlow) : SaFlowEvent → SaFlow
  | .packet a pool requestOk sessionOk => f.packetHandle ctx a pool requestOk sessionOk
  | .requestExpired => { f with request := none }
  | .sessionExpired =>
    { f with
      session := none
      ended := f.ended ++ (f.session.map fun x => { x with sa := saSessionClose x.sa }).toList }

def packetSource (pkt : TcpPacket) : Bool × ℕ × ℕ :=
  (pkt.isIpv6, if pkt.isIpv6 then pkt.srcAddr else pkt.srcIp, pkt.srcPort)

def packetDest (pkt : TcpPacket) : Bool × ℕ × ℕ :=
  (pkt.isIpv6, if pkt.isIpv6 then pkt.dstAddr else pkt.dstIp, pkt.dstPort)

def SameWay (p q : TcpPacket) : Prop :=
  packetSource p = packetSource q ∧ packetDest p = packetDest q

def OtherWay (p q : TcpPacket) : Prop :=
  packetSource p = packetDest q ∧ packetDest p = packetSource q

def SameFlow (p q : TcpPacket) : Prop := SameWay p q ∨ OtherWay p q

instance (p q : TcpPacket) : Decidable (SameWay p q) := inferInstanceAs (Decidable (_ ∧ _))

instance (p q : TcpPacket) : Decidable (OtherWay p q) := inferInstanceAs (Decidable (_ ∧ _))

instance (p q : TcpPacket) : Decidable (SameFlow p q) := inferInstanceAs (Decidable (_ ∨ _))

def direction (syn pkt : TcpPacket) : SessionDirect := if SameWay syn pkt then .req else .res

def observation (a : SaArrival) : Observation := ⟨a.pkt.payloadLen, a.timestamp⟩

def observations (seen : List SaArrival) (d : SessionDirect) : List Observation :=
  match seen with
  | [] => []
  | syn :: rest =>
    ((syn :: rest).filter fun a => direction syn.pkt a.pkt = d).map observation

def SaTracked.startTime (x : SaTracked) : SessionDirect → ℕ
  | .req => x.reqStartTime
  | .res => x.resStartTime

def SaTracked.tally (x : SaTracked) (d : SessionDirect) : Tally :=
  ⟨(x.sa.side d).packets, (x.sa.side d).bytes, x.startTime d, (x.sa.side d).lastTime⟩

/-- The counters of the session are those of the packets seen since its SYN. -/
def CountersExact (x : SaTracked) : Prop := ∀ d, (x.tally d).Counts (observations x.seen d)

def HandshakeCounted (p : SaPending) (a : SaArrival) : Prop :=
  ∀ syn ∈ p.seen.head?,
    if isTcpSynPacket a.pkt then direction syn.pkt a.pkt = .req ∧ ¬ isTcpDataPacket a.pkt
    else if isTcpSynAckPacket a.pkt then
      p.request.threeWayState = .syn ∧ direction syn.pkt a.pkt = .res ∧ ¬ isTcpDataPacket a.pkt
    else if isTcpAckAckPacket p.request a.pkt then
      direction syn.pkt a.pkt = .req ∧ ¬ isTcpDataPacket a.pkt
    else isTcpRstPacket a.pkt ∨ (isTcpDataPacket a.pkt ∧ p.request.threeWayState = .ackAck)

/-- The packet is counted once: a SYN without payload opens a request, a packet of the
handshake is one of the above, and while there is a session no SYN flag is seen. -/
def CountedOnce (f : SaFlow) : SaFlowEvent → Prop
  | .packet a _ _ _ =>
    match f.session, f.request with
    | some _, _ => ¬ a.pkt.hasFlag thSyn
    | none, some p => HandshakeCounted p a
    | none, none => isTcpSynPacket a.pkt → ¬ isTcpDataPacket a.pkt
  | .requestExpired => True
  | .sessionExpired => True

/-- The events of the flow of the packet `k`. -/
def OfFlow (k : TcpPacket) : SaFlowEvent → Prop
  | .packet a _ _ _ => SameFlow k a.pkt
  | .requestExpired => True
  | .sessionExpired => True

def SaFlowStep (ctx : SaContext) (k : TcpPacket) (f : SaFlow) (l : SaFlowEvent) (f' : SaFlow) :
    Prop :=
  OfFlow k l ∧ f' = f.handle ctx l

def SaFlowRun (ctx : SaContext) (k : TcpPacket) : List (SaFlow × SaFlowEvent) → SaFlow → Prop :=
  Run (SaFlowStep ctx k) ⟨none, none, []⟩

instance (k : TcpPacket) : ∀ l, Decidable (OfFlow k l)
  | .packet a _ _ _ => inferInstanceAs (Decidable (SameFlow k a.pkt))
  | .requestExpired => .isTrue trivial
  | .sessionExpired => .isTrue trivial

instance (p : SaPending) (a : SaArrival) : Decidable (HandshakeCounted p a) :=
  inferInstanceAs (Decidable (∀ syn ∈ p.seen.head?, _))

instance (f : SaFlow) : ∀ l, Decidable (CountedOnce f l)
  | .packet a _ _ _ =>
    match hsession : f.session, hrequest : f.request with
    | some _, _ => decidable_of_iff (¬ a.pkt.hasFlag thSyn) (by simp [CountedOnce, hsession])
    | none, some p =>
      decidable_of_iff (HandshakeCounted p a) (by simp [CountedOnce, hsession, hrequest])
    | none, none =>
      decidable_of_iff (isTcpSynPacket a.pkt → ¬ isTcpDataPacket a.pkt)
        (by simp [CountedOnce, hsession, hrequest])
  | .requestExpired => .isTrue trivial
  | .sessionExpired => .isTrue trivial

/-- The sessions of the flow, with those that have ended. -/
def SaFlow.sessions (f : SaFlow) : List SaTracked := f.session.toList ++ f.ended

def endpointPeer (ep : TcpSessionEndpoint) : Bool × ℕ × ℕ × ℕ :=
  (ep.isIpv6, ep.ip, ep.addr, ep.port)

def SaSession.countsOf (x : SaSession) (d : SessionDirect) : (ℕ × ℕ × ℕ) × Bool × ℕ × ℕ × ℕ :=
  (((x.side d).packets, (x.side d).bytes, (x.side d).lastTime),
    endpointPeer (x.session.endpoint d))

theorem countsOf_setSide (x : SaSession) (d : SessionDirect) {side : SaSide}
    (h : (side.packets, side.bytes, side.lastTime) =
      ((x.side d).packets, (x.side d).bytes, (x.side d).lastTime)) :
    (x.setSide d side).countsOf = x.countsOf := by
  funext d'
  cases d <;> cases d' <;> first | rfl | exact congrArg (·, _) h

theorem countsOf_setEndpoint (x : SaSession) (d : SessionDirect) {ep : TcpSessionEndpoint}
    (h : endpointPeer ep = endpointPeer (x.session.endpoint d)) :
    (x.setEndpoint d ep).countsOf = x.countsOf := by
  funext d'
  cases d <;> cases d' <;> first | rfl | exact congrArg (_, ·) h

theorem countsOf_storePayload (ctx : SaContext) (d : SessionDirect) (dst : DataStore)
    (data : List UInt8) (dlen : ℕ) (x : SaSession) :
    (storePayload ctx d dst data dlen x).countsOf = x.countsOf := by
  unfold storePayload
  dsimp only
  generalize dataStoreWrite dst data (if ctx.payloadDataSize < dst.data.length + dlen then
    ctx.payloadDataSize - dst.data.length else dlen) = written
  split
  · exact countsOf_setSide x d rfl
  · split
    · have hident : endpointPeer { x.session.endpoint d with asFrag := [] } =
          endpointPeer (x.session.endpoint d) := rfl
      exact (countsOf_setEndpoint _ d (by cases d <;> exact hident)).trans
        (countsOf_setSide x d rfl)
    · exact countsOf_setSide x d rfl

theorem countsOf_writeSessionPayload (ctx : SaContext) (mallocOk : Bool) (d : SessionDirect)
    (data : List UInt8) (dlen : ℕ) (x : SaSession) :
    (writeSessionPayload ctx mallocOk d data dlen x).countsOf = x.countsOf := by
  unfold writeSessionPayload
  dsimp only
  split
  · refine (countsOf_setSide _ d ?_).trans ?_ <;> rfl
  · exact countsOf_storePayload _ _ _ _ _ _

theorem countsOf_saSessionClose (x : SaSession) : (saSessionClose x).countsOf = x.countsOf := by
  funext d
  cases d <;> rfl

theorem countsOf_saProcessPopped (ctx : SaContext) (a : SaArrival) (d : SessionDirect)
    (x : SaSession) : (saProcessPopped ctx a d x).countsOf = x.countsOf := by
  unfold saProcessPopped
  dsimp only
  split
  · exact countsOf_setEndpoint x d rfl
  · refine (countsOf_setEndpoint _ d ?_).trans ?_
    · rfl
    · rw [countsOf_writeSessionPayload]
      exact countsOf_setEndpoint x d rfl

theorem countsOf_saProcessDataPacket (ctx : SaContext) (a : SaArrival) (d : SessionDirect)
    (x : SaSession) : (saProcessDataPacket ctx a d x).countsOf = x.countsOf := by
  unfold saProcessDataPacket
  dsimp only
  split
  · rfl
  · split
    · split
      · exact countsOf_setEndpoint x d rfl
      · exact (countsOf_saSessionClose _).trans (countsOf_setEndpoint x d rfl)
    · have hwrite : ∀ (data : List UInt8) (dlen lastOffset : ℕ),
          (saProcessPopped ctx a d (writeSessionPayload ctx a.mallocOk d data dlen
            (x.setEndpoint d { x.session.endpoint d with lastOffset := lastOffset }))).countsOf =
            x.countsOf := by
        intro data dlen lastOffset
        rw [countsOf_saProcessPopped, countsOf_writeSessionPayload]
        exact countsOf_setEndpoint x d rfl
      split
      · exact (countsOf_saSessionClose _).trans (hwrite _ _ _)
      · exact hwrite _ _ _

theorem countsOf_saProcessFinPacket (pkt : TcpPacket) (x : SaSession) :
    (saProcessFinPacket pkt x).countsOf = x.countsOf := by
  unfold saProcessFinPacket
  funext d
  split <;> cases d <;> rfl

theorem countsOf_saProcessAck (pkt : TcpPacket) (x : SaSession) :
    (saProcessAck pkt x).countsOf = x.countsOf := by
  unfold saProcessAck
  split
  · funext d
    cases d <;> rfl
  · split
    · rw [countsOf_saSessionClose]
      funext d
      cases d <;> rfl
    · rfl

theorem countsOf_setTcpState (x : SaSession) (pkt : TcpPacket) :
    { x with session := setTcpState x.session pkt }.countsOf = x.countsOf := by
  funext d
  unfold setTcpState
  split
  · rfl
  · split
    · cases d <;> rfl
    · split
      · cases d <;> rfl
      · split <;> cases d <;> rfl

theorem tcpSessionEndpointGet_congr {x y : SaSession} (h : y.countsOf = x.countsOf)
    (pkt : TcpPacket) :
      tcpSessionEndpointGet y.session pkt = tcpSessionEndpointGet x.session pkt := by
  have hident : ∀ d, endpointPeer (y.session.endpoint d) = endpointPeer (x.session.endpoint d) :=
    fun d => congrArg Prod.snd (congrFun h d)
  have hreq := hident .req
  have hres := hident .res
  simp only [endpointPeer, TcpSession.endpoint, Prod.mk.injEq] at hreq hres
  have hrequest : endpointIsRequest y.session.endpointReq y.session.endpointRes pkt =
      endpointIsRequest x.session.endpointReq x.session.endpointRes pkt := by
    simp only [endpointIsRequest, hreq, hres]
  have hresponse : endpointIsResponse y.session.endpointReq y.session.endpointRes pkt =
      endpointIsResponse x.session.endpointReq x.session.endpointRes pkt := by
    simp only [endpointIsResponse, hreq, hres]
  rw [tcpSessionEndpointGet, tcpSessionEndpointGet, hrequest, hresponse]

theorem countsOf_updateSaEntry (d : SessionDirect) (dlen time : ℕ) (x : SaSession) :
    (updateSaEntry d dlen time x).countsOf = Function.update x.countsOf d
      ((add 64 (x.countsOf d).1.1 1, add 64 (x.countsOf d).1.2.1 dlen, time),
        (x.countsOf d).2) := by
  funext d'
  cases d <;> cases d' <;> rfl

theorem countsOf_saSessionDataProcess {ctx : SaContext} {a : SaArrival} {x : SaSession}
    {d : SessionDirect} (hd : tcpSessionEndpointGet x.session a.pkt = some d) :
    (saSessionDataProcess ctx a x).countsOf =
      (updateSaEntry d a.pkt.payloadLen a.timestamp x).countsOf := by
  have hstate := countsOf_setTcpState x a.pkt
  set y : SaSession := { x with session := setTcpState x.session a.pkt } with hy
  have hget : tcpSessionEndpointGet y.session a.pkt = some d :=
    (tcpSessionEndpointGet_congr hstate a.pkt).trans hd
  have hcur : { y with session := { y.session with curEp := some d } }.countsOf = y.countsOf := by
    funext d'
    cases d' <;> rfl
  have hhandle : (saPacketHandle ctx a y).countsOf =
      (updateSaEntry d a.pkt.payloadLen a.timestamp
        { y with session := { y.session with curEp := some d } }).countsOf := by
    simp only [saPacketHandle, hget]
    split
    · exact countsOf_saProcessFinPacket _ _
    · split
      · exact countsOf_saSessionClose _
      · rw [countsOf_saProcessAck]
        split
        · exact countsOf_saProcessDataPacket _ _ _ _
        · rfl
  have hall : (saSessionDataProcess ctx a x).countsOf = (saPacketHandle ctx a y).countsOf := by
    simp only [saSessionDataProcess, saTcpSessionPacketHandle]
    split
    · exact countsOf_saSessionClose _
    · rfl
  rw [hall, hhandle, countsOf_updateSaEntry, countsOf_updateSaEntry, hcur, hstate]

theorem SameFlow.symm {p q : TcpPacket} (h : SameFlow p q) : SameFlow q p := by
  rcases h with ⟨hs, hd⟩ | ⟨hs, hd⟩
  · exact .inl ⟨hs.symm, hd.symm⟩
  · exact .inr ⟨hd.symm, hs.symm⟩

theorem SameFlow.trans {p q r : TcpPacket} (h : SameFlow p q) (h' : SameFlow q r) :
    SameFlow p r := by
  rcases h with ⟨hs, hd⟩ | ⟨hs, hd⟩ <;> rcases h' with ⟨hs', hd'⟩ | ⟨hs', hd'⟩
  · exact .inl ⟨hs.trans hs', hd.trans hd'⟩
  · exact .inr ⟨hs.trans hs', hd.trans hd'⟩
  · exact .inr ⟨hs.trans hd', hd.trans hs'⟩
  · exact .inl ⟨hs.trans hd', hd.trans hs'⟩

def sessionOfSyn (syn : TcpPacket) (resSnInit : ℕ) : TcpSession Unit :=
  tcpSessionInit { (sessionRequestCreate syn).sreq with resSnInit := resSnInit } ()

theorem SameFlow.isIpv6 {p q : TcpPacket} (h : SameFlow p q) : q.isIpv6 = p.isIpv6 := by
  rcases h with ⟨hs, -⟩ | ⟨hs, -⟩ <;> exact (congrArg Prod.fst hs).symm

theorem isRequest_sessionOfSyn {syn pkt : TcpPacket} (hfamily : pkt.isIpv6 = syn.isIpv6)
    (resSnInit : ℕ) : endpointIsRequest (sessionOfSyn syn resSnInit).endpointReq
      (sessionOfSyn syn resSnInit).endpointRes pkt = true ↔ SameWay syn pkt := by
  cases hsyn : syn.isIpv6 <;> rw [hsyn] at hfamily <;>
    simp [endpointIsRequest, sessionOfSyn, tcpSessionInit, sessionRequestCreate,
      tcpSessionEndpointInit, tcpSessionEndpointInitIpv6, SameWay, packetSource, packetDest, hsyn,
      hfamily, and_assoc]

theorem isResponse_sessionOfSyn {syn pkt : TcpPacket} (hfamily : pkt.isIpv6 = syn.isIpv6)
    (resSnInit : ℕ) : endpointIsResponse (sessionOfSyn syn resSnInit).endpointReq
      (sessionOfSyn syn resSnInit).endpointRes pkt = true ↔ OtherWay syn pkt := by
  cases hsyn : syn.isIpv6 <;> rw [hsyn] at hfamily <;>
    simp [endpointIsResponse, sessionOfSyn, tcpSessionInit, sessionRequestCreate,
      tcpSessionEndpointInit, tcpSessionEndpointInitIpv6, OtherWay, packetSource, packetDest, hsyn,
      hfamily, and_assoc]

theorem endpointGet_sessionOfSyn {syn pkt : TcpPacket} (h : SameFlow syn pkt) (resSnInit : ℕ) :
    tcpSessionEndpointGet (sessionOfSyn syn resSnInit) pkt = some (direction syn pkt) := by
  have hrequest := isRequest_sessionOfSyn h.isIpv6 resSnInit
  have hresponse := isResponse_sessionOfSyn h.isIpv6 resSnInit
  unfold tcpSessionEndpointGet direction
  by_cases hway : SameWay syn pkt
  · rw [if_pos (hrequest.2 hway), if_pos hway]
  · rw [if_neg (fun hr => hway (hrequest.1 hr)), if_pos (hresponse.2 (h.resolve_left hway)),
      if_neg hway]

theorem direction_self (syn : TcpPacket) : direction syn syn = .req := if_pos ⟨rfl, rfl⟩

theorem observations_snoc (syn : SaArrival) (rest : List SaArrival) (a : SaArrival)
    (d : SessionDirect) :
    observations (syn :: rest ++ [a]) d = observations (syn :: rest) d ++
      if direction syn.pkt a.pkt = d then [observation a] else [] := by
  change ((syn :: rest ++ [a]).filter fun a => direction syn.pkt a.pkt = d).map observation = _
  rw [List.filter_append, List.map_append]
  by_cases h : direction syn.pkt a.pkt = d <;> simp [observations, h]

theorem observations_req_ne_nil (syn : SaArrival) (rest : List SaArrival) :
    observations (syn :: rest) .req ≠ [] := by
  simp [observations, direction_self]

def SaPending.tally (p : SaPending) : SessionDirect → Tally
  | .req => ⟨p.entry.reqPackets, 0, p.entry.reqStartTime, p.entry.reqLastTime⟩
  | .res => ⟨p.entry.resPackets, 0, p.entry.resStartTime, p.entry.resLastTime⟩

structure PendingOk (k : TcpPacket) (p : SaPending) : Prop where
  origin : ∃ syn rest, p.seen = syn :: rest ∧ SameFlow k syn.pkt ∧
    p.request.sreq =
      { (sessionRequestCreate syn.pkt).sreq with resSnInit := p.request.sreq.resSnInit }
  counts : ∀ d, (p.tally d).Counts (observations p.seen d)
  waits : p.request.threeWayState = .syn ↔ observations p.seen .res = []

structure TrackedOk (k : TcpPacket) (x : SaTracked) : Prop where
  origin : ∃ syn rest n, x.seen = syn :: rest ∧ SameFlow k syn.pkt ∧
    ∀ d, endpointPeer (x.sa.session.endpoint d) = endpointPeer ((sessionOfSyn syn.pkt n).endpoint d)
  exact : CountersExact x
  nonempty : ∀ d, observations x.seen d ≠ []

theorem TrackedOk.endpointGet {k : TcpPacket} {x : SaTracked} {syn : SaArrival}
    {rest : List SaArrival} (hx : TrackedOk k x) (hseen : x.seen = syn :: rest) {pkt : TcpPacket}
    (hpkt : SameFlow k pkt) :
    tcpSessionEndpointGet x.sa.session pkt = some (direction syn.pkt pkt) := by
  obtain ⟨syn', rest', n, hseen', hsyn, hident⟩ := hx.origin
  rw [hseen] at hseen'
  obtain ⟨rfl, rfl⟩ := List.cons.inj hseen'
  rw [← endpointGet_sessionOfSyn (hsyn.symm.trans hpkt) n]
  have hcounts : ({ x.sa with session := sessionOfSyn syn.pkt n } : SaSession).countsOf =
      x.sa.countsOf := by
    funext d
    refine Prod.ext ?_ (hident d).symm
    cases d <;> rfl
  exact (tcpSessionEndpointGet_congr hcounts pkt).symm

theorem tally_of_countsOf {x : SaTracked} {y : SaSession} {d : SessionDirect}
    {counts : ℕ × ℕ × ℕ} {seen : List SaArrival} (h : (y.countsOf d).1 = counts) :
    (SaTracked.mk y x.reqStartTime x.resStartTime seen).tally d =
      ⟨counts.1, counts.2.1, x.startTime d, counts.2.2⟩ := by
  subst h
  cases d <;> rfl

theorem TrackedOk.dataProcess {k : TcpPacket} {x : SaTracked} (hx : TrackedOk k x)
    (ctx : SaContext) {a : SaArrival} (ha : SameFlow k a.pkt) (pool : DataStorePool) :
    TrackedOk k { x with
      sa := saSessionDataProcess ctx a { x.sa with pool := pool }
      seen := x.seen ++ [a] } := by
  obtain ⟨syn, rest, n, hseen, hsyn, hident⟩ := hx.origin
  have hget := hx.endpointGet hseen ha
  set d := direction syn.pkt a.pkt with hd
  set y := saSessionDataProcess ctx a { x.sa with pool := pool } with hy
  have hcounts : y.countsOf =
      (updateSaEntry d a.pkt.payloadLen a.timestamp { x.sa with pool := pool }).countsOf :=
    countsOf_saSessionDataProcess hget
  rw [countsOf_updateSaEntry] at hcounts
  have hobs : ∀ d', observations (x.seen ++ [a]) d' = observations x.seen d' ++
      if d = d' then [observation a] else [] := by
    intro d'
    rw [hseen]
    exact observations_snoc syn rest a d'
  refine ⟨⟨syn, rest ++ [a], n, by simp [hseen], hsyn, ?_⟩, ?_, ?_⟩
  · intro d'
    have hd' : (y.countsOf d').2 = (x.sa.countsOf d').2 := by
      rw [hcounts]
      by_cases heq : d' = d
      · subst heq
        simp only [Function.update_self]
        rfl
      · rw [Function.update_of_ne heq]
        rfl
    exact hd'.trans (hident d')
  · intro d'
    rw [hobs]
    by_cases heq : d = d'
    · subst heq
      have hnew : (y.countsOf d).1 = (add 64 (x.sa.side d).packets 1,
          add 64 (x.sa.side d).bytes a.pkt.payloadLen, a.timestamp) := by
        rw [hcounts, Function.update_self]
        rfl
      rw [if_pos rfl]
      rw [tally_of_countsOf hnew]
      exact (hx.exact d).observe (hx.nonempty d) (observation a)
    · have hold : (y.countsOf d').1 =
          ((x.sa.side d').packets, (x.sa.side d').bytes, (x.sa.side d').lastTime) := by
        rw [hcounts, Function.update_of_ne (Ne.symm heq)]
        rfl
      rw [if_neg heq, List.append_nil]
      rw [tally_of_countsOf hold]
      exact hx.exact d'
  · intro d'
    rw [hobs]
    simp [hx.nonempty d']

theorem PendingOk.request {k : TcpPacket} {p : SaPending} (hp : PendingOk k p) {a : SaArrival}
    {r : SessionRequest} (hsreq : r.sreq = p.request.sreq)
    (hstate : r.threeWayState = .syn ↔ p.request.threeWayState = .syn)
    (hdir : ∀ syn ∈ p.seen.head?, direction syn.pkt a.pkt = .req)
    (hdata : ¬ isTcpDataPacket a.pkt) :
    PendingOk k ⟨r, { p.entry with
      reqPackets := add 64 p.entry.reqPackets 1, reqLastTime := a.timestamp }, p.seen ++ [a]⟩ := by
  obtain ⟨syn, rest, hseen, hsyn, horigin⟩ := hp.origin
  have hempty : a.pkt.payloadLen = 0 := by simpa [isTcpDataPacket] using hdata
  have hobs := observations_snoc syn rest a
  rw [hdir syn (by simp [hseen]), ← hseen] at hobs
  refine ⟨⟨syn, rest ++ [a], by simp [hseen], hsyn, ?_⟩, ?_, ?_⟩
  · dsimp only
    rw [hsreq]
    exact horigin
  · intro d
    rw [hobs]
    cases d with
    | req =>
      have hcounts := (hp.counts .req).observe (by rw [hseen]; exact observations_req_ne_nil _ _)
        (observation a)
      simpa [Tally.observe, SaPending.tally, observation, hempty, add] using hcounts
    | res => simpa [SaPending.tally] using hp.counts .res
  · rw [hobs, hstate, hp.waits]
    simp

theorem PendingOk.answer {k : TcpPacket} {p : SaPending} (hp : PendingOk k p) {a : SaArrival}
    (hstate : p.request.threeWayState = .syn)
    (hdir : ∀ syn ∈ p.seen.head?, direction syn.pkt a.pkt = .res)
    (hdata : ¬ isTcpDataPacket a.pkt) :
    PendingOk k ⟨⟨{ p.request.sreq with resSnInit := add 32 a.pkt.sentSeq 1 }, .synAck⟩,
      { p.entry with
        resStartTime := a.timestamp, resLastTime := a.timestamp
        resPackets := add 64 p.entry.resPackets 1 }, p.seen ++ [a]⟩ := by
  obtain ⟨syn, rest, hseen, hsyn, horigin⟩ := hp.origin
  have hempty : a.pkt.payloadLen = 0 := by simpa [isTcpDataPacket] using hdata
  have hobs := observations_snoc syn rest a
  rw [hdir syn (by simp [hseen]), ← hseen] at hobs
  have hnone := hp.waits.1 hstate
  refine ⟨⟨syn, rest ++ [a], by simp [hseen], hsyn, ?_⟩, ?_, ?_⟩
  · dsimp only
    rw [horigin]
  · intro d
    rw [hobs]
    cases d with
    | req => simpa [SaPending.tally] using hp.counts .req
    | res =>
      have hzero : p.entry.resPackets = 0 := by
        have hpackets := (hp.counts .res).packets
        rw [hnone] at hpackets
        exact hpackets
      rw [hnone]
      constructor <;> simp [SaPending.tally, hzero, add, observation, hempty]
  · rw [hobs]
    simp

theorem PendingOk.handshake {k : TcpPacket} {p : SaPending} (hp : PendingOk k p) {a : SaArrival}
    (ha : HandshakeCounted p a) :
    match saThreeWayHandshakeProcess p.request p.entry a.pkt a.timestamp with
    | .keep r e => PendingOk k ⟨r, e, p.seen ++ [a]⟩
    | .reset => True
    | .session r e => r = p.request ∧ e = p.entry ∧ p.request.threeWayState = .ackAck := by
  obtain ⟨syn, rest, hseen, -, -⟩ := hp.origin
  have hhead : ∀ syn' ∈ p.seen.head?, syn' = syn := by
    intro syn' hsyn'
    rw [hseen] at hsyn'
    exact (Option.some.inj hsyn').symm
  have ha := ha syn (by simp [hseen])
  unfold saThreeWayHandshakeProcess
  split at ha
  case isTrue hisSyn =>
    rw [if_pos hisSyn]
    exact hp.request rfl Iff.rfl (fun syn' h => hhead syn' h ▸ ha.1) ha.2
  case isFalse hnotSyn =>
    rw [if_neg hnotSyn]
    split at ha
    case isTrue hisSynAck =>
      rw [if_pos hisSynAck, if_pos ha.1]
      exact hp.answer ha.1 (fun syn' h => hhead syn' h ▸ ha.2.1) ha.2.2
    case isFalse hnotSynAck =>
      rw [if_neg hnotSynAck]
      split at ha
      case isTrue hack =>
        have hstate := ackAck_state hack
        rw [if_pos hack, if_pos hstate, if_neg ha.2]
        exact hp.request rfl (by simp [hstate]) (fun syn' h => hhead syn' h ▸ ha.1) ha.2
      case isFalse hnotAck =>
        rw [if_neg hnotAck]
        by_cases hrst : isTcpRstPacket a.pkt
        · rw [if_pos hrst]
          trivial
        · obtain ⟨hdata, hstate⟩ := ha.resolve_left hrst
          rw [if_neg hrst, if_pos hdata, if_pos hstate]
          exact ⟨rfl, rfl, hstate⟩

theorem PendingOk.session {k : TcpPacket} {p : SaPending} (hp : PendingOk k p)
    (hstate : p.request.threeWayState = .ackAck) (pool : DataStorePool) :
    TrackedOk k (saSessionEntryInit p.request p.entry pool p.seen) := by
  obtain ⟨syn, rest, hseen, hsyn, horigin⟩ := hp.origin
  refine ⟨⟨syn, rest, p.request.sreq.resSnInit, hseen, hsyn, ?_⟩, ?_, ?_⟩
  · intro d
    rw [sessionOfSyn, ← horigin]
    rfl
  · intro d
    cases d
    · exact hp.counts .req
    · exact hp.counts .res
  · intro d
    cases d with
    | req =>
      change observations p.seen .req ≠ []
      rw [hseen]
      exact observations_req_ne_nil syn rest
    | res =>
      intro hnone
      have hsynState := hp.waits.2 hnone
      rw [hstate] at hsynState
      cases hsynState

theorem PendingOk.create {k : TcpPacket} {a : SaArrival} (ha : SameFlow k a.pkt)
    (hdata : ¬ isTcpDataPacket a.pkt) :
    PendingOk k ⟨sessionRequestCreate a.pkt, saRequestEntryInit a.timestamp, [a]⟩ := by
  have hempty : a.pkt.payloadLen = 0 := by simpa [isTcpDataPacket] using hdata
  refine ⟨⟨a, [], rfl, ha, rfl⟩, ?_, ?_⟩
  · intro d
    cases d <;> constructor <;>
      simp [SaPending.tally, saRequestEntryInit, observations, direction_self, observation, hempty]
  · simp [observations, direction_self, sessionRequestCreate]

structure FlowOk (k : TcpPacket) (f : SaFlow) : Prop where
  request : ∀ p ∈ f.request, PendingOk k p
  session : ∀ x ∈ f.session, TrackedOk k x
  ended : ∀ x ∈ f.ended, CountersExact x
  alone : f.session.isSome → f.request = none

theorem FlowOk.dataProcess {k : TcpPacket} {f : SaFlow} (hrequest : f.request = none)
    (hended : ∀ x ∈ f.ended, CountersExact x) {x y : SaTracked} (hx : TrackedOk k x)
    (ctx : SaContext) {a : SaArrival} (ha : SameFlow k a.pkt) (pool : DataStorePool)
    (hy : y = { x with seen := x.seen ++ [a] }) : FlowOk k (f.dataProcess ctx y a pool) := by
  subst hy
  have hnew := hx.dataProcess ctx ha pool
  unfold SaFlow.dataProcess
  dsimp only
  split
  · refine ⟨by simp [hrequest], ?_, hended, fun _ => hrequest⟩
    intro y hy
    obtain rfl := Option.some.inj hy
    exact hnew
  · refine ⟨by simp [hrequest], by simp, ?_, fun _ => hrequest⟩
    intro y hy
    rcases List.mem_append.1 hy with hold | hlast
    · exact hended y hold
    · rw [List.mem_singleton.1 hlast]
      exact hnew.exact

theorem FlowOk.pending {k : TcpPacket} {f : SaFlow} (hf : FlowOk k f) (hnone : f.session = none)
    {ctx : SaContext} {a : SaArrival} {pool : DataStorePool} {requestOk sessionOk : Bool}
    (ha : SameFlow k a.pkt) (hcounted : CountedOnce f (.packet a pool requestOk sessionOk)) :
    FlowOk k ((f.see a).handshakeProcess ctx a pool requestOk sessionOk) := by
  rw [CountedOnce, hnone] at hcounted
  unfold SaFlow.handshakeProcess SaFlow.see
  cases hrequest : f.request with
  | none =>
    rw [hrequest] at hcounted
    simp only [Option.map_none, hnone]
    split
    case isTrue hsyn =>
      rw [Bool.and_eq_true] at hsyn
      refine ⟨?_, by simp, hf.ended, by simp⟩
      intro p hp
      obtain rfl := Option.some.inj hp
      exact .create ha (hcounted hsyn.1)
    case isFalse => exact ⟨by simp, by simp, hf.ended, by simp⟩
  | some p =>
    rw [hrequest] at hcounted
    have hp := hf.request p hrequest
    have hstep := hp.handshake hcounted
    simp only [Option.map_some, hnone]
    split at hstep
    case h_1 r e hfate =>
      refine ⟨?_, by simp, hf.ended, by simp⟩
      intro p' hp'
      obtain rfl := Option.some.inj hp'
      exact hstep
    case h_2 hfate =>
      exact ⟨by simp, by simp, hf.ended, by simp⟩
    case h_3 r e hfate =>
      obtain ⟨rfl, rfl, hstate⟩ := hstep
      split
      · refine FlowOk.dataProcess ?_ ?_ (hp.session hstate pool) ctx ha pool ?_
        · rfl
        · exact hf.ended
        · rfl
      · exact ⟨by simp, by simp, hf.ended, by simp⟩

theorem countersExact_close {x : SaTracked} (h : CountersExact x) :
    CountersExact { x with sa := saSessionClose x.sa } := by
  intro d
  have hsame := congrArg Prod.fst (congrFun (countsOf_saSessionClose x.sa) d)
  rw [tally_of_countsOf hsame]
  exact h d

theorem FlowOk.handle {k : TcpPacket} {f : SaFlow} (hf : FlowOk k f) (ctx : SaContext)
    {l : SaFlowEvent} (hl : OfFlow k l) (hcounted : CountedOnce f l) :
    FlowOk k (f.handle ctx l) := by
  cases l with
  | requestExpired =>
    rw [SaFlow.handle]
    exact ⟨by simp, hf.session, hf.ended, fun _ => rfl⟩
  | sessionExpired =>
    rw [SaFlow.handle]
    refine ⟨hf.request, by simp, ?_, by simp⟩
    intro x hx
    rcases List.mem_append.1 hx with hold | hlast
    · exact hf.ended x hold
    · obtain ⟨y, hy, rfl⟩ := Option.map_eq_some_iff.1 (Option.mem_toList.1 hlast)
      exact countersExact_close (hf.session y hy).exact
  | packet a pool requestOk sessionOk =>
    rw [SaFlow.handle, SaFlow.packetHandle]
    cases hsession : f.session with
    | none =>
      have hlookup : (if isTcpSynPacket a.pkt || isTcpSynAckPacket a.pkt then none
          else (f.see a).session) = none := by
        simp [SaFlow.see, hsession]
      rw [hlookup]
      exact hf.pending hsession hl hcounted
    | some x =>
      rw [CountedOnce, hsession] at hcounted
      have hnotSyn : ¬ a.pkt.hasFlag thSyn := hcounted
      have hlookup : (if isTcpSynPacket a.pkt || isTcpSynAckPacket a.pkt then none
          else (f.see a).session) = some { x with seen := x.seen ++ [a] } := by
        simp [isTcpSynPacket, isTcpSynAckPacket, hnotSyn, SaFlow.see, hsession]
      have hrequest : (f.see a).request = none := by
        simp [SaFlow.see, hf.alone (by simp [hsession])]
      rw [hlookup]
      exact FlowOk.dataProcess hrequest hf.ended (hf.session x hsession) ctx hl pool rfl

theorem FlowOk.exact {k : TcpPacket} {f : SaFlow} (hf : FlowOk k f) {x : SaTracked}
    (hx : x ∈ f.sessions) : CountersExact x := by
  rcases List.mem_append.1 hx with hlive | hended
  · exact (hf.session x (Option.mem_toList.1 hlive)).exact
  · exact hf.ended x hended

/-- In every run of the packets of a 4-tuple that are counted once each, the counters of
every session are those of the packets seen since its SYN, in every state of the run. -/
theorem packet_counters_exact (ctx : SaContext) (k : TcpPacket)
    (history : List (SaFlow × SaFlowEvent)) (f : SaFlow) (hrun : SaFlowRun ctx k history f)
    (hcounted : StepsOk (fun _ => CountedOnce) history) :
    (∀ x ∈ f.sessions, CountersExact x) ∧
      ∀ v ∈ history, ∀ x ∈ v.1.sessions, CountersExact x := by
  have hinit : FlowOk k ⟨none, none, []⟩ := ⟨by simp, by simp, by simp, by simp⟩
  have hstep : ∀ {s l s'}, FlowOk k s → CountedOnce s l → SaFlowStep ctx k s l s' →
      FlowOk k s' := by
    rintro s l s' hs hl ⟨hflow, rfl⟩
    exact hs.handle ctx hflow hl
  obtain ⟨hf, hall⟩ := Run.stateInvariant hinit hstep hrun hcounted
  exact ⟨fun x hx => hf.exact hx, fun v hv x hx => (hall v hv).exact hx⟩

section Handshakes

def flowPacket (fromClient : Bool) (flags : UInt8) (payload : List UInt8) : TcpPacket where
  isIpv6 := false
  srcIp := if fromClient then 1 else 2
  dstIp := if fromClient then 2 else 1
  srcAddr := 0
  dstAddr := 0
  srcPort := if fromClient then 1000 else 80
  dstPort := if fromClient then 80 else 1000
  tcpFlags := flags
  sentSeq := 0
  recvAck := 1
  payloadLen := payload.length
  pdata := some payload

def flowEvent (fromClient : Bool) (flags : UInt8) (payload : List UInt8) (time : ℕ) : SaFlowEvent :=
  .packet ⟨flowPacket fromClient flags payload, time, true, true, false⟩ ⟨10, 0, 10, 512,
    10⟩ true true

def dataWithAck : List SaFlowEvent :=
  [flowEvent true thSyn [] 1, flowEvent false (thSyn ||| thAck) [] 2, flowEvent true thAck [65] 3]

def dataAfterAck : List SaFlowEvent :=
  [flowEvent true thSyn [] 1, flowEvent false (thSyn ||| thAck) [] 2, flowEvent true thAck [] 3,
    flowEvent true thAck [65] 4]

def flowContext : SaContext := ⟨512, false⟩

def flowRun (events : List SaFlowEvent) : SaFlow :=
  events.foldl (SaFlow.handle flowContext) ⟨none, none, []⟩

def flowTrace (events : List SaFlowEvent) : List (SaFlow × SaFlowEvent) :=
  trace (SaFlow.handle flowContext) ⟨none, none, []⟩ events

theorem flowRun_trace {events : List SaFlowEvent}
    (h : ∀ v ∈ flowTrace events, OfFlow (flowPacket true thSyn []) v.2) :
    SaFlowRun flowContext (flowPacket true thSyn []) (flowTrace events) (flowRun events) :=
  Run.guardedTrace h

theorem packet_counters_exact_dataAfterAck :
    (flowRun dataAfterAck).session.isSome ∧
      ∀ x ∈ (flowRun dataAfterAck).sessions, CountersExact x := by
  have hof : ∀ v ∈ flowTrace dataAfterAck,
      OfFlow (flowPacket true thSyn []) v.2 := by decide +kernel
  have hcounted : ∀ v ∈ flowTrace dataAfterAck, CountedOnce v.1 v.2 := by decide +kernel
  exact ⟨by decide +kernel, (packet_counters_exact flowContext _ _ _ (flowRun_trace hof)
    (StepsOk.of_forall hcounted)).1⟩

/-- The acknowledgement that carries data is counted by the handshake and again as the first
packet of the session. -/
theorem dataWithAck_not_exact :
    ¬ ∀ (ctx : SaContext) (k : TcpPacket) (history : List (SaFlow × SaFlowEvent)) (f : SaFlow),
      SaFlowRun ctx k history f → ∀ x ∈ f.sessions, CountersExact x := by
  intro h
  have hof : ∀ v ∈ flowTrace dataWithAck, OfFlow (flowPacket true thSyn []) v.2 := by decide +kernel
  have hexact := h flowContext _ _ _ (flowRun_trace hof)
  have hcounts : (flowRun dataWithAck).sessions.map (fun x =>
      ((x.tally .req).packets, (observations x.seen .req).length)) = [(3, 2)] := by
    decide +kernel
  obtain ⟨x, hx, hpair⟩ := List.mem_map.1 (hcounts ▸ List.mem_singleton_self (3, 2))
  have hpackets := (hexact x hx .req).packets
  rw [Prod.mk.injEq] at hpair
  rw [hpair.1, hpair.2] at hpackets
  omega

end Handshakes

end CloudHands.Sa

import CloudHands.Tcp.FourWay

/-!
# The stream analysis of a TCP session

`ch_sa_tcp_session_handler.c` from a packet to the data stores, and the data stores of
`ch_sa_data_store_pool.h`. What the stream analysis keeps of one direction is a `SaSide`;
the source has the fields of both directions side by side and treats them alike.

A store holds the bytes between its `start` and its `pos`, and its bound is part of it.
Closing a session writes its record, hands the stores back and frees the entry; `closes`
counts that, and what the source does after it is done on the memory left behind.
-/

namespace CloudHands.Sa

open CloudHands.Word (add sub)
open CloudHands.Tcp

/-- `ch_sa_data_store_t`: `dsize` is the distance of `end` from `start`. -/
structure DataStore where
  dsize : ℕ
  data : List UInt8
  fits : data.length ≤ dsize
deriving DecidableEq, Repr

structure DataStorePool where
  freeN : ℕ
  usingN : ℕ
  allocN : ℕ
  dsize : ℕ
  dstoreLimits : ℕ
deriving DecidableEq, Repr

def DataStore.empty (dsize : ℕ) : DataStore := ⟨dsize, [], Nat.zero_le _⟩

/-- `ch_sa_data_store_get`. The content of a reused store is forgotten with its `pos`. -/
def dataStoreGet (mallocOk : Bool) (dsp : DataStorePool) : Option DataStore × DataStorePool :=
  if dsp.dstoreLimits < dsp.allocN ∧ dsp.freeN = 0 then (none, dsp)
  else if dsp.freeN = 0 then
    if mallocOk then
      (some (.empty dsp.dsize), { dsp with usingN := dsp.usingN + 1, allocN := dsp.allocN + 1 })
    else (none, dsp)
  else
    (some (.empty dsp.dsize), { dsp with freeN := dsp.freeN - 1, usingN := dsp.usingN + 1 })

/-- `ch_sa_data_store_free`. -/
def dataStoreFree (dsp : DataStorePool) : DataStorePool :=
  { dsp with freeN := dsp.freeN + 1, usingN := dsp.usingN - 1 }

/-- How many of `dsize` bytes a store takes. -/
def dataStoreRoom (dst : DataStore) (dsize : ℕ) : ℕ :=
  if dsize < dst.dsize - dst.data.length then dsize else dst.dsize - dst.data.length

def dataStoreWrite (dst : DataStore) (data : List UInt8) (dsize : ℕ) : DataStore where
  dsize := dst.dsize
  data := dst.data ++ data.take (dataStoreRoom dst dsize)
  fits := by
    have hfits := dst.fits
    simp only [List.length_append, List.length_take, dataStoreRoom]
    split <;> omega

/-- The fields of `ch_sa_session_entry_t` for one direction. -/
structure SaSide where
  dstore : Option DataStore
  error : Bool
  dataOk : Bool
  packets : ℕ
  bytes : ℕ
  lastTime : ℕ
deriving DecidableEq, Repr

def SaSide.init (packets lastTime : ℕ) : SaSide := ⟨none, false, false, packets, 0, lastTime⟩

/-- `ch_sa_sentry_dstore_size`. -/
def dstoreSize (dstore : Option DataStore) : ℕ := dstore.elim 0 (·.data.length)

structure SaContext where
  payloadDataSize : ℕ
  isBreakDataOk : Bool
deriving DecidableEq, Repr

/-- A session with its entry, the store pool of the task, and the times it was closed. -/
structure SaSession where
  session : TcpSession Unit
  req : SaSide
  res : SaSide
  pool : DataStorePool
  closes : ℕ
deriving DecidableEq, Repr

def SaSession.side (x : SaSession) : SessionDirect → SaSide
  | .req => x.req
  | .res => x.res

def SaSession.setSide (x : SaSession) (d : SessionDirect) (side : SaSide) : SaSession :=
  match d with
  | .req => { x with req := side }
  | .res => { x with res := side }

def SaSession.setEndpoint (x : SaSession) (d : SessionDirect) (ep : TcpSessionEndpoint) :
    SaSession :=
  { x with session := x.session.setEndpoint d ep }

/-- A packet with its time stamp and what the call takes from its surroundings. -/
structure SaArrival where
  pkt : TcpPacket
  timestamp : ℕ
  mallocOk : Bool
  allocOk : Bool
  inRing : Bool
deriving DecidableEq, Repr

def needProcessPayload (ctx : SaContext) (d : SessionDirect) (pkt : TcpPacket) (x : SaSession) :
    Bool :=
  let offset := endpointOffsetGet (x.session.endpoint d) pkt.sentSeq
  !decide (ctx.payloadDataSize ≤ offset) && !(x.side d).error &&
    !decide (ctx.payloadDataSize ≤ dstoreSize (x.side d).dstore)

def sideStore (mallocOk : Bool) (side : SaSide) (dsp : DataStorePool) :
    Option DataStore × DataStorePool :=
  match side.dstore with
  | some dst => (some dst, dsp)
  | none => dataStoreGet mallocOk dsp

/-- `_write_session_payload` on the store it got. -/
def storePayload (ctx : SaContext) (d : SessionDirect) (dst : DataStore) (data : List UInt8)
    (dlen : ℕ) (x : SaSession) : SaSession :=
  let side := { x.side d with dstore := some dst }
  let dataSize := dst.data.length
  if ctx.payloadDataSize ≤ dataSize then x.setSide d { side with dataOk := true }
  else
    let rdlen :=
      if ctx.payloadDataSize < dataSize + dlen then ctx.payloadDataSize - dataSize else dlen
    let dst := dataStoreWrite dst data rdlen
    let side := { side with dstore := some dst }
    if ctx.payloadDataSize ≤ dst.data.length then
      -- the rest of the stream is of no interest
      (x.setSide d { side with dataOk := true }).setEndpoint d
        { x.session.endpoint d with asFrag := [] }
    else x.setSide d side

def writeSessionPayload (ctx : SaContext) (mallocOk : Bool) (d : SessionDirect)
    (data : List UInt8) (dlen : ℕ) (x : SaSession) : SaSession :=
  let r := sideStore mallocOk (x.side d) x.pool
  let x := { x with pool := r.2 }
  match r.1 with
  | none => x.setSide d { x.side d with error := true }
  | some dst => storePayload ctx d dst data dlen x

def sentryDstoreFree (x : SaSession) : SaSession :=
  let pool := if x.req.dstore.isSome then dataStoreFree x.pool else x.pool
  let pool := if x.res.dstore.isSome then dataStoreFree pool else pool
  { x with
    req := { x.req with dstore := none }
    res := { x.res with dstore := none }
    pool := pool }

/-- The record is written and the entry freed: `_tcp_session_close`, the break, and the
callback of the timeout. -/
def saSessionClose (x : SaSession) : SaSession :=
  let x := sentryDstoreFree x
  { x with session := tcpSessionFin x.session, closes := x.closes + 1 }

/-- The tail of `_process_data_packet` after a payload was written. -/
def saProcessPopped (ctx : SaContext) (a : SaArrival) (d : SessionDirect) (x : SaSession) :
    SaSession :=
  let ep := x.session.endpoint d
  let p := assembleFragmentPop ep.asFrag ep.lastOffset
  let x := x.setEndpoint d { ep with asFrag := p.2 }
  match p.1 with
  | none => x
  | some df =>
    let x := writeSessionPayload ctx a.mallocOk d df.bytes df.len x
    x.setEndpoint d { x.session.endpoint d with lastOffset := df.stop }

def saProcessDataPacket (ctx : SaContext) (a : SaArrival) (d : SessionDirect) (x : SaSession) :
    SaSession :=
  let ep := x.session.endpoint d
  let data := a.pkt.pdata.getD []
  let offset := endpointOffsetGet ep a.pkt.sentSeq
  let endOffset := add 32 offset a.pkt.payloadLen
  if endOffset ≤ ep.lastOffset then
    -- invalid or retransmitted
    x
  else if ep.lastOffset < offset then
    -- out of order
    let r := tcpSessionEndpointDo a.allocOk ep data a.pkt.payloadLen offset
    let x := x.setEndpoint d { ep with asFrag := r.1 }
    if r.2 then x else saSessionClose x
  else
    let diff := sub 32 ep.lastOffset offset
    let x := x.setEndpoint d { ep with lastOffset := endOffset }
    let x := writeSessionPayload ctx a.mallocOk d (data.drop diff) (sub 32 a.pkt.payloadLen diff) x
    let x := saProcessPopped ctx a d x
    if ctx.isBreakDataOk && x.req.dataOk && x.res.dataOk then saSessionClose x else x

def updateSaEntry (d : SessionDirect) (dlen time : ℕ) (x : SaSession) : SaSession :=
  let side := x.side d
  x.setSide d { side with
    packets := add 64 side.packets 1, bytes := add 64 side.bytes dlen, lastTime := time }

def saProcessFinPacket (pkt : TcpPacket) (x : SaSession) : SaSession :=
  match x.session.fourWayState with
  | .init => { x with session := { x.session with fin1Seq := pkt.sentSeq, fourWayState := .fin1 } }
  | .fin1 | .fin1Ack =>
    { x with session := { x.session with fin2Seq := pkt.sentSeq, fourWayState := .fin2 } }
  | .fin2 | .fin2Ack => x

/-- The end of `ch_sa_tcp_session_packet_handle` for a packet that is neither a FIN nor
a reset. -/
def saProcessAck (pkt : TcpPacket) (x : SaSession) : SaSession :=
  if isFin1Ack x.session pkt then { x with session := { x.session with fourWayState := .fin1Ack } }
  else if isFin2Ack x.session pkt then
    saSessionClose { x with session := { x.session with fourWayState := .fin2Ack } }
  else x

/-- The `do … while(0)` of `ch_sa_tcp_session_packet_handle`. -/
def saPacketHandle (ctx : SaContext) (a : SaArrival) (x : SaSession) : SaSession :=
  match tcpSessionEndpointGet x.session a.pkt with
  | none => x
  | some d =>
    let x := { x with session := { x.session with curEp := some d } }
    let x := updateSaEntry d a.pkt.payloadLen a.timestamp x
    if isTcpFinPacket a.pkt then saProcessFinPacket a.pkt x
    else if isTcpRstPacket a.pkt then saSessionClose x
    else
      let x :=
        if a.pkt.pdata.isSome && needProcessPayload ctx d a.pkt x then saProcessDataPacket ctx a d x
        else x
      saProcessAck a.pkt x

def saTcpSessionPacketHandle (ctx : SaContext) (a : SaArrival) (x : SaSession) : SaSession :=
  let x := saPacketHandle ctx a x
  if a.inRing then saSessionClose x else x

/-- `_tcp_session_data_process` of the stream analysis. -/
def saSessionDataProcess (ctx : SaContext) (a : SaArrival) (x : SaSession) : SaSession :=
  saTcpSessionPacketHandle ctx a { x with session := setTcpState x.session a.pkt }

end CloudHands.Sa

import CloudHands.Sa.Capture
import CloudHands.Sa.Counters
import CloudHands.Tcp.SessionClose

/-!
# When a session of the stream analysis is released

The data step frees the session when both stores are full and the configuration says to break,
and when a fragment cannot be buffered. The caller goes on with the acknowledgement of the FINs.
-/

namespace CloudHands.Sa

open CloudHands.Word (add sub)
open CloudHands.Lib
open CloudHands.Tcp

/-- Each block of reads and writes of the session, its entry or its endpoints is an `access`. A
`close` frees the session, also when the drain of the timeout ring does it. -/
structure SaHandling where
  sa : SaSession
  log : List Event
deriving DecidableEq, Repr

namespace SaHandling

def access (h : SaHandling) (f : SaSession → SaSession) : SaHandling :=
  ⟨f h.sa, h.log ++ [.access]⟩

def close (h : SaHandling) : SaHandling := ⟨saSessionClose h.sa, h.log ++ [.close]⟩

def processDataPacket (ctx : SaContext) (a : SaArrival) (d : SessionDirect) (h : SaHandling) :
    SaHandling :=
  let h := h.access id
  let ep := h.sa.session.endpoint d
  let data := a.pkt.pdata.getD []
  let offset := endpointOffsetGet ep a.pkt.sentSeq
  let endOffset := add 32 offset a.pkt.payloadLen
  if endOffset ≤ ep.lastOffset then h
  else if ep.lastOffset < offset then
    let r := tcpSessionEndpointDo a.allocOk ep data a.pkt.payloadLen offset
    let h := h.access (·.setEndpoint d { ep with asFrag := r.1 })
    if r.2 then h else h.close
  else
    let diff := sub 32 ep.lastOffset offset
    let h := h.access (·.setEndpoint d { ep with lastOffset := endOffset })
    let h := h.access
      (writeSessionPayload ctx a.mallocOk d (data.drop diff) (sub 32 a.pkt.payloadLen diff))
    let h := h.access (saProcessPopped ctx a d)
    if ctx.isBreakDataOk && h.sa.req.dataOk && h.sa.res.dataOk then h.close else h

def processAck (pkt : TcpPacket) (h : SaHandling) : SaHandling :=
  if pkt.hasFlag thAck then
    let h := h.access id
    if isFin1Ack h.sa.session pkt then
      h.access fun x => { x with session := { x.session with fourWayState := .fin1Ack } }
    else if isFin2Ack h.sa.session pkt then
      (h.access fun x => { x with session := { x.session with fourWayState := .fin2Ack } }).close
    else h
  else h

def entered (a : SaArrival) (d : SessionDirect) (h : SaHandling) : SaHandling :=
  (h.access id).access fun x =>
    updateSaEntry d a.pkt.payloadLen a.timestamp
      { x with session := { x.session with curEp := some d } }

def processPayload (ctx : SaContext) (a : SaArrival) (d : SessionDirect) (h : SaHandling) :
    SaHandling :=
  if a.pkt.pdata.isSome then
    let h := h.access id
    if needProcessPayload ctx d a.pkt h.sa then h.processDataPacket ctx a d else h
  else h

def packetHandle (ctx : SaContext) (a : SaArrival) (h : SaHandling) : SaHandling :=
  match tcpSessionEndpointGet h.sa.session a.pkt with
  | none => h.access id
  | some d =>
    let h := h.entered a d
    if isTcpFinPacket a.pkt then h.access (saProcessFinPacket a.pkt)
    else if isTcpRstPacket a.pkt then h.close
    else (h.processPayload ctx a d).processAck a.pkt

def tcpSessionPacketHandle (ctx : SaContext) (a : SaArrival) (h : SaHandling) : SaHandling :=
  let h := h.packetHandle ctx a
  if a.inRing then h.close else h

end SaHandling

namespace SaHandling

variable {ctx : SaContext} {a : SaArrival} {d : SessionDirect}

theorem processDataPacket_sa (h : SaHandling) :
    (h.processDataPacket ctx a d).sa = saProcessDataPacket ctx a d h.sa := by
  unfold processDataPacket saProcessDataPacket
  dsimp only [access, id]
  split
  · rfl
  · split
    · split <;> rfl
    · split <;> rfl

theorem processAck_sa (pkt : TcpPacket) (h : SaHandling) :
    (h.processAck pkt).sa = saProcessAck pkt h.sa := by
  unfold processAck saProcessAck
  by_cases hack : pkt.hasFlag thAck
  · rw [if_pos hack]
    dsimp only [access, id]
    split
    · rfl
    · split <;> rfl
  · have hfin1 : isFin1Ack h.sa.session pkt = false := by simp [isFin1Ack, isFinAck, hack]
    have hfin2 : isFin2Ack h.sa.session pkt = false := by simp [isFin2Ack, isFinAck, hack]
    rw [if_neg hack, hfin1, hfin2]
    rfl

theorem processPayload_sa (h : SaHandling) :
    (h.processPayload ctx a d).sa =
      if a.pkt.pdata.isSome && needProcessPayload ctx d a.pkt h.sa then
        saProcessDataPacket ctx a d h.sa
      else h.sa := by
  unfold processPayload
  cases a.pkt.pdata.isSome with
  | false => rfl
  | true =>
    rw [if_pos rfl, Bool.true_and]
    dsimp only [access, id]
    split
    · exact processDataPacket_sa _
    · rfl

theorem tcpSessionPacketHandle_sa (h : SaHandling) :
    (h.tcpSessionPacketHandle ctx a).sa = saTcpSessionPacketHandle ctx a h.sa := by
  have hhandle : (h.packetHandle ctx a).sa = saPacketHandle ctx a h.sa := by
    unfold packetHandle saPacketHandle
    cases hd : tcpSessionEndpointGet h.sa.session a.pkt with
    | none => rfl
    | some d =>
      dsimp only
      split
      · rfl
      · split
        · rfl
        · rw [processAck_sa, processPayload_sa]
          rfl
  unfold tcpSessionPacketHandle saTcpSessionPacketHandle
  dsimp only
  split
  · rw [close, hhandle]
  · exact hhandle

end SaHandling

def Full (ctx : SaContext) (dst : DataStore) : Prop := ctx.payloadDataSize ≤ dst.data.length

def payloadStored (ctx : SaContext) (dst : DataStore) (data : List UInt8) (dlen : ℕ) : DataStore :=
  if ctx.payloadDataSize ≤ dst.data.length then dst
  else
    dataStoreWrite dst data
      (if ctx.payloadDataSize < dst.data.length + dlen then ctx.payloadDataSize - dst.data.length
        else dlen)

def FillsStore (ctx : SaContext) (a : SaArrival) (d : SessionDirect) (x : SaSession) : Prop :=
  let ep := x.session.endpoint d
  let diff := sub 32 ep.lastOffset (endpointOffsetGet ep a.pkt.sentSeq)
  ∃ dst ∈ (sideStore a.mallocOk (x.side d) x.pool).1,
    let stored :=
      payloadStored ctx dst ((a.pkt.pdata.getD []).drop diff) (sub 32 a.pkt.payloadLen diff)
    Full ctx stored ∨
      ∃ df ∈ (assembleFragmentPop ep.asFrag (endOffset ep a.pkt)).1,
        Full ctx (payloadStored ctx stored df.bytes df.len)

def DataStepFrees (ctx : SaContext) (a : SaArrival) (d : SessionDirect) (x : SaSession) : Prop :=
  let ep := x.session.endpoint d
  let offset := endpointOffsetGet ep a.pkt.sentSeq
  ep.lastOffset < endOffset ep a.pkt ∧
    if ep.lastOffset < offset then
      (tcpSessionEndpointDo a.allocOk ep (a.pkt.pdata.getD []) a.pkt.payloadLen offset).2 = false
    else
      ctx.isBreakDataOk ∧ (x.side d.peer).dataOk ∧ ((x.side d).dataOk ∨ FillsStore ctx a d x)

variable {ctx : SaContext} {a : SaArrival} {d : SessionDirect} {x : SaSession}

structure Wrote (ctx : SaContext) (d : SessionDirect) (x y : SaSession) (stored : DataStore) :
    Prop where
  dstore : (y.side d).dstore = some stored
  dataOk : (y.side d).dataOk ↔ (x.side d).dataOk ∨ Full ctx stored
  peer : y.side d.peer = x.side d.peer
  endpoint : y.session.endpoint d = x.session.endpoint d ∨
    Full ctx stored ∧ y.session.endpoint d = { x.session.endpoint d with asFrag := [] }
  fins : y.session.fins = x.session.fins

theorem storePayload_wrote (dst : DataStore) (data : List UInt8) (dlen : ℕ) :
    Wrote ctx d x (storePayload ctx d dst data dlen x) (payloadStored ctx dst data dlen) := by
  unfold storePayload payloadStored
  dsimp only
  generalize dataStoreWrite dst data (if ctx.payloadDataSize < dst.data.length + dlen then
    ctx.payloadDataSize - dst.data.length else dlen) = written
  split
  case isTrue hfull =>
    refine ⟨by simp, ?_, (Elsewhere.setSide x d _).side, .inl (by simp), by simp⟩
    simp [Full, hfull]
  case isFalse hroom =>
    split
    case isTrue hfull =>
      refine ⟨by simp, ?_, ?_, .inr ⟨hfull, by simp⟩, by simp⟩
      · simp [Full, hfull]
      · exact ((Elsewhere.setSide x d _).trans (Elsewhere.setEndpoint _ d _)).side
    case isFalse hless =>
      refine ⟨by simp, ?_, (Elsewhere.setSide x d _).side, .inl (by simp), by simp⟩
      simp [Full, hless]

theorem writeSessionPayload_wrote {mallocOk : Bool} {dst : DataStore}
    (h : (sideStore mallocOk (x.side d) x.pool).1 = some dst) (data : List UInt8) (dlen : ℕ) :
    Wrote ctx d x (writeSessionPayload ctx mallocOk d data dlen x)
      (payloadStored ctx dst data dlen) := by
  set x' : SaSession := { x with pool := (sideStore mallocOk (x.side d) x.pool).2 } with hx'
  have hrun : writeSessionPayload ctx mallocOk d data dlen x =
      storePayload ctx d dst data dlen x' := by
    simp only [writeSessionPayload, h, hx']
  have hside : ∀ e, x'.side e = x.side e := by
    intro e
    cases e <;> rfl
  rw [hrun]
  obtain ⟨hdstore, hdataOk, hpeer, hend, hfins⟩ :=
    @storePayload_wrote ctx d x' dst data dlen
  rw [hside] at hdataOk hpeer
  exact ⟨hdstore, hdataOk, hpeer, hend, hfins⟩

structure Missed (mallocOk : Bool) (d : SessionDirect) (x y : SaSession) : Prop where
  dataOk : (y.side d).dataOk = (x.side d).dataOk
  peer : y.side d.peer = x.side d.peer
  endpoint : y.session.endpoint d = x.session.endpoint d
  fins : y.session.fins = x.session.fins
  again : (sideStore mallocOk (y.side d) y.pool).1 = none

theorem dataStoreGet_none {mallocOk : Bool} {dsp : DataStorePool}
    (h : (dataStoreGet mallocOk dsp).1 = none) : (dataStoreGet mallocOk dsp).2 = dsp := by
  unfold dataStoreGet at h ⊢
  split at h
  · rw [if_pos ‹_›]
  · rw [if_neg ‹_›]
    split at h
    · rw [if_pos ‹_›]
      split at h
      · cases h
      · rw [if_neg ‹_›]
    · cases h

theorem writeSessionPayload_missed {mallocOk : Bool}
    (h : (sideStore mallocOk (x.side d) x.pool).1 = none) (data : List UInt8) (dlen : ℕ) :
    Missed mallocOk d x (writeSessionPayload ctx mallocOk d data dlen x) := by
  have hnone : (x.side d).dstore = none := by
    cases hdst : (x.side d).dstore with
    | none => rfl
    | some dst =>
      rw [sideStore, hdst] at h
      cases h
  have hget : (dataStoreGet mallocOk x.pool).1 = none := by
    simpa only [sideStore, hnone] using h
  have hrun : writeSessionPayload ctx mallocOk d data dlen x =
      x.setSide d { x.side d with error := true } := by
    simp only [writeSessionPayload, sideStore, hnone, hget, dataStoreGet_none hget]
  rw [hrun]
  refine ⟨by simp, (Elsewhere.setSide x d _).side, by simp, by simp, ?_⟩
  have hpool : (x.setSide d { x.side d with error := true }).pool = x.pool := by cases d <;> rfl
  rw [hpool, side_setSide, sideStore, hnone]
  exact hget

theorem saProcessPopped_spec :
    let ep := x.session.endpoint d
    let y := saProcessPopped ctx a d x
    ((y.side d).dataOk ↔ (x.side d).dataOk ∨
      ∃ df ∈ (assembleFragmentPop ep.asFrag ep.lastOffset).1,
        ∃ dst ∈ (sideStore a.mallocOk (x.side d) x.pool).1,
          Full ctx (payloadStored ctx dst df.bytes df.len)) ∧
      y.side d.peer = x.side d.peer ∧ y.session.fins = x.session.fins := by
  intro ep y
  set popped := assembleFragmentPop ep.asFrag ep.lastOffset with hpopped
  set x' := x.setEndpoint d { ep with asFrag := popped.2 } with hx'
  have hside : x'.side d = x.side d := side_setEndpoint x d d _
  have hpeer : x'.side d.peer = x.side d.peer := side_setEndpoint x d _ _
  have hfins : x'.session.fins = x.session.fins := setEndpoint_fins x.session d _
  cases hpop : popped.1 with
  | none =>
    have hy : y = x' := by
      simp only [y, saProcessPopped, ← hpopped, hpop, ← hx', ep]
    rw [hy]
    exact ⟨by simp [hside], hpeer, hfins⟩
  | some df =>
    set w := writeSessionPayload ctx a.mallocOk d df.bytes df.len x' with hw
    have hy : y = w.setEndpoint d { w.session.endpoint d with lastOffset := df.stop } := by
      simp only [y, saProcessPopped, ← hpopped, hpop, ← hx', ep, ← hw]
    have hstore : sideStore a.mallocOk (x.side d) x.pool =
        sideStore a.mallocOk (x'.side d) x'.pool := by
      rw [hside]
      rfl
    have hyfins : y.session.fins = w.session.fins := by
      rw [hy]
      exact setEndpoint_fins w.session d _
    have hyside : ∀ e, y.side e = w.side e := fun e => by
      rw [hy]
      exact side_setEndpoint w d e _
    rw [hyfins, hyside, hyside, hstore]
    cases hget : (sideStore a.mallocOk (x'.side d) x'.pool).1 with
    | none =>
      have hmissed := @writeSessionPayload_missed ctx _ _ _ hget df.bytes df.len
      refine ⟨?_, hmissed.peer.trans hpeer, hmissed.fins.trans hfins⟩
      rw [hmissed.dataOk, hside]
      simp
    | some dst =>
      have hwrote := @writeSessionPayload_wrote ctx _ _ _ _ hget df.bytes df.len
      refine ⟨?_, hwrote.peer.trans hpeer, hwrote.fins.trans hfins⟩
      rw [hwrote.dataOk, hside]
      simp

theorem payload_then_popped (data : List UInt8) (dlen lastOffset : ℕ) :
    let ep := x.session.endpoint d
    let y := saProcessPopped ctx a d (writeSessionPayload ctx a.mallocOk d data dlen
      (x.setEndpoint d { ep with lastOffset := lastOffset }))
    ((y.side d).dataOk ↔ (x.side d).dataOk ∨
      ∃ dst ∈ (sideStore a.mallocOk (x.side d) x.pool).1,
        Full ctx (payloadStored ctx dst data dlen) ∨
          ∃ df ∈ (assembleFragmentPop ep.asFrag lastOffset).1,
            Full ctx (payloadStored ctx (payloadStored ctx dst data dlen) df.bytes df.len)) ∧
      y.side d.peer = x.side d.peer ∧ y.session.fins = x.session.fins := by
  intro ep y
  set x' := x.setEndpoint d { ep with lastOffset := lastOffset } with hx'
  have hside : x'.side d = x.side d := side_setEndpoint x d d _
  have hpeer : x'.side d.peer = x.side d.peer := side_setEndpoint x d _ _
  have hfins : x'.session.fins = x.session.fins := setEndpoint_fins x.session d _
  have hep : x'.session.endpoint d = { ep with lastOffset := lastOffset } :=
    endpoint_setEndpoint x.session d _
  have hstore : sideStore a.mallocOk (x.side d) x.pool =
      sideStore a.mallocOk (x'.side d) x'.pool := by
    rw [hside]
    rfl
  set w := writeSessionPayload ctx a.mallocOk d data dlen x' with hw
  obtain ⟨hdataOk, hypeer, hyfins⟩ := @saProcessPopped_spec ctx a d w
  rw [hstore]
  cases hget : (sideStore a.mallocOk (x'.side d) x'.pool).1 with
  | none =>
    have hmissed := @writeSessionPayload_missed ctx _ _ _ hget data dlen
    refine ⟨?_, hypeer.trans (hmissed.peer.trans hpeer), hyfins.trans (hmissed.fins.trans hfins)⟩
    rw [hdataOk, hmissed.again, hmissed.dataOk, hside]
    simp
  | some dst =>
    have hwrote := @writeSessionPayload_wrote ctx _ _ _ _ hget data dlen
    refine ⟨?_, hypeer.trans (hwrote.peer.trans hpeer), hyfins.trans (hwrote.fins.trans hfins)⟩
    have hagain : (sideStore a.mallocOk (w.side d) w.pool).1 =
        some (payloadStored ctx dst data dlen) := by
      rw [sideStore, hwrote.dstore]
    rw [hdataOk, hwrote.dataOk, hside, hagain]
    rcases hwrote.endpoint with hsame | ⟨hfull, -⟩
    · rw [hsame, hep]
      simp [or_assoc]
    · simp [hfull]

/-- The packet gets to the data step, and that frees the session. -/
def PayloadFrees (ctx : SaContext) (a : SaArrival) (d : SessionDirect) (x : SaSession) : Prop :=
  ¬ isTcpFinPacket a.pkt ∧ ¬ isTcpRstPacket a.pkt ∧ a.pkt.pdata.isSome ∧
    needProcessPayload ctx d a.pkt x ∧ DataStepFrees ctx a d x

def EndsClosed (log : List Event) : Prop := ∃ pre, .close ∉ pre ∧ log = pre ++ [.close]

def Touched (log : List Event) : Prop := ∃ pre post, .close ∈ pre ∧ post ≠ [] ∧ log = pre ++ post

theorem EndsClosed.closedOnce {log : List Event} (h : EndsClosed log) : ClosedOnce log := by
  obtain ⟨pre, hpre, rfl⟩ := h
  exact closedOnce_concat hpre

theorem Touched.not_closedOnce {log : List Event} (h : Touched log) : ¬ ClosedOnce log := by
  obtain ⟨pre, post, hpre, hpost, rfl⟩ := h
  exact not_closedOnce_of_mem hpre hpost

theorem Touched.append {log : List Event} (h : Touched log) (more : List Event) :
    Touched (log ++ more) := by
  obtain ⟨pre, post, hpre, hpost, rfl⟩ := h
  exact ⟨pre, post ++ more, hpre, by simp [hpost], List.append_assoc _ _ _⟩

theorem EndsClosed.touched {log : List Event} (h : EndsClosed log) {more : List Event}
    (hmore : more ≠ []) : Touched (log ++ more) := by
  obtain ⟨pre, -, rfl⟩ := h
  exact ⟨pre ++ [.close], more, by simp, hmore, rfl⟩

namespace SaHandling

theorem not_mem_access {h : SaHandling} (hopen : .close ∉ h.log) (f : SaSession → SaSession) :
    .close ∉ (h.access f).log := by
  simp [access, hopen]

theorem close_endsClosed {h : SaHandling} (hopen : .close ∉ h.log) : EndsClosed h.close.log :=
  ⟨h.log, hopen, rfl⟩

theorem breaks_iff (d : SessionDirect) (x : SaSession) :
    (ctx.isBreakDataOk && x.req.dataOk && x.res.dataOk) = true ↔
      ctx.isBreakDataOk ∧ (x.side d.peer).dataOk ∧ (x.side d).dataOk := by
  cases d <;> simp only [Bool.and_eq_true, SaSession.side, SessionDirect.peer] <;> tauto

theorem processDataPacket_log {h : SaHandling} (hopen : .close ∉ h.log) :
    let r := h.processDataPacket ctx a d
    (DataStepFrees ctx a d h.sa → EndsClosed r.log) ∧
      (¬ DataStepFrees ctx a d h.sa → .close ∉ r.log) ∧ r.sa.session.fins = h.sa.session.fins := by
  intro r
  set ep := h.sa.session.endpoint d with hep
  have hopen₁ := not_mem_access hopen id
  by_cases hold : endOffset ep a.pkt ≤ ep.lastOffset
  · have hr : r = h.access id := if_pos hold
    have hno : ¬ DataStepFrees ctx a d h.sa := fun hc => absurd hc.1 (not_lt.2 hold)
    exact ⟨fun hc => absurd hc hno, fun _ => hr ▸ hopen₁, hr ▸ rfl⟩
  by_cases hhole : ep.lastOffset < endpointOffsetGet ep a.pkt.sentSeq
  · set o := tcpSessionEndpointDo a.allocOk ep (a.pkt.pdata.getD []) a.pkt.payloadLen
      (endpointOffsetGet ep a.pkt.sentSeq) with ho
    set h₂ := (h.access id).access (·.setEndpoint d { ep with asFrag := o.1 }) with hh₂
    have hr : r = if o.2 then h₂ else h₂.close := (if_neg hold).trans (if_pos hhole)
    have hiff : DataStepFrees ctx a d h.sa ↔ o.2 = false := by
      simp only [DataStepFrees, ← hep, if_pos hhole, ← ho]
      exact and_iff_right (not_le.1 hold)
    have hopen₂ := not_mem_access hopen₁ (·.setEndpoint d { ep with asFrag := o.1 })
    have hfins : h₂.sa.session.fins = h.sa.session.fins := setEndpoint_fins h.sa.session d _
    rw [hiff, hr]
    cases o.2 with
    | true => exact ⟨fun hc => absurd hc (by decide), fun _ => hopen₂, hfins⟩
    | false => exact ⟨fun _ => close_endsClosed hopen₂, fun hc => absurd rfl hc, hfins⟩
  · set diff := sub 32 ep.lastOffset (endpointOffsetGet ep a.pkt.sentSeq) with hdiff
    set data := (a.pkt.pdata.getD []).drop diff with hdata
    set h₂ :=
      (((h.access id).access (·.setEndpoint d { ep with lastOffset := endOffset ep a.pkt })).access
      (writeSessionPayload ctx a.mallocOk d data (sub 32 a.pkt.payloadLen diff))).access
        (saProcessPopped ctx a d) with hh₂
    have hr : r = if ctx.isBreakDataOk && h₂.sa.req.dataOk && h₂.sa.res.dataOk then h₂.close
        else h₂ := (if_neg hold).trans (if_neg hhole)
    have hopen₂ : .close ∉ h₂.log := by
      refine not_mem_access (not_mem_access (not_mem_access hopen₁ _) _) _
    obtain ⟨hdataOk, hpeer, hfins⟩ :
        ((h₂.sa.side d).dataOk ↔ (h.sa.side d).dataOk ∨ FillsStore ctx a d h.sa) ∧
          h₂.sa.side d.peer = h.sa.side d.peer ∧ h₂.sa.session.fins = h.sa.session.fins :=
      payload_then_popped data (sub 32 a.pkt.payloadLen diff) (endOffset ep a.pkt)
    have hiff : DataStepFrees ctx a d h.sa ↔
        (ctx.isBreakDataOk && h₂.sa.req.dataOk && h₂.sa.res.dataOk) = true := by
      simp only [DataStepFrees, ← hep, if_neg hhole]
      rw [and_iff_right (not_le.1 hold), breaks_iff d, hpeer, hdataOk]
    rw [hiff, hr]
    split
    case isTrue hfull => exact ⟨fun _ => close_endsClosed hopen₂, fun hc => absurd hfull hc, hfins⟩
    case isFalse hless => exact ⟨fun hc => absurd hc hless, fun _ => hopen₂, hfins⟩

theorem processPayload_log {h : SaHandling} (hopen : .close ∉ h.log)
    (hfin : ¬ isTcpFinPacket a.pkt) (hrst : ¬ isTcpRstPacket a.pkt) :
    let r := h.processPayload ctx a d
    (PayloadFrees ctx a d h.sa → EndsClosed r.log) ∧
      (¬ PayloadFrees ctx a d h.sa → .close ∉ r.log) ∧ r.sa.session.fins = h.sa.session.fins := by
  intro r
  by_cases hdata : a.pkt.pdata.isSome
  · by_cases hneed : needProcessPayload ctx d a.pkt h.sa
    · have hr : r = (h.access id).processDataPacket ctx a d := (if_pos hdata).trans (if_pos hneed)
      have hiff : PayloadFrees ctx a d h.sa ↔ DataStepFrees ctx a d h.sa := by
        simp only [PayloadFrees, hfin, hrst, hdata, hneed]
        simp
      rw [hiff, hr]
      exact processDataPacket_log (not_mem_access hopen id)
    · have hr : r = h.access id := (if_pos hdata).trans (if_neg hneed)
      have hno : ¬ PayloadFrees ctx a d h.sa := fun hc => hneed hc.2.2.2.1
      exact ⟨fun hc => absurd hc hno, fun _ => hr ▸ not_mem_access hopen id, hr ▸ rfl⟩
  · have hr : r = h := if_neg hdata
    have hno : ¬ PayloadFrees ctx a d h.sa := fun hc => hdata hc.2.2.1
    exact ⟨fun hc => absurd hc hno, fun _ => hr ▸ hopen, hr ▸ rfl⟩

theorem processAck_of_not_ack {pkt : TcpPacket} (hack : ¬ pkt.hasFlag thAck) (h : SaHandling) :
    h.processAck pkt = h :=
  if_neg hack

theorem processAck_touched {pkt : TcpPacket} (hack : pkt.hasFlag thAck) {h : SaHandling}
    (hclosed : EndsClosed h.log) : Touched (h.processAck pkt).log := by
  have htouched : Touched (h.access id).log := hclosed.touched (by simp)
  unfold processAck
  rw [if_pos hack]
  dsimp only
  split
  · exact htouched.append _
  · split
    · exact (htouched.append _).append _
    · exact htouched

theorem processAck_log {pkt : TcpPacket} {h : SaHandling} (hopen : .close ∉ h.log)
    (hfin : ¬ isTcpFinPacket pkt) (hrst : ¬ isTcpRstPacket pkt) :
    (flagsClose pkt h.sa.session → EndsClosed (h.processAck pkt).log) ∧
      (¬ flagsClose pkt h.sa.session → .close ∉ (h.processAck pkt).log) := by
  have hiff : flagsClose pkt h.sa.session ↔
      ¬ isFin1Ack h.sa.session pkt ∧ isFin2Ack h.sa.session pkt := by
    simp [flagsClose, hfin, hrst]
  rw [hiff]
  by_cases hack : pkt.hasFlag thAck
  · have hopen₁ := not_mem_access hopen id
    unfold processAck
    rw [if_pos hack]
    by_cases h₁ : isFin1Ack h.sa.session pkt
    · refine ⟨fun hc => absurd h₁ hc.1, fun _ => ?_⟩
      rw [if_pos (show isFin1Ack (h.access id).sa.session pkt from h₁)]
      exact not_mem_access hopen₁ _
    rw [if_neg (show ¬ isFin1Ack (h.access id).sa.session pkt from h₁)]
    by_cases h₂ : isFin2Ack h.sa.session pkt
    · refine ⟨fun _ => ?_, fun hc => absurd ⟨h₁, h₂⟩ hc⟩
      rw [if_pos (show isFin2Ack (h.access id).sa.session pkt from h₂)]
      exact close_endsClosed (not_mem_access hopen₁ _)
    · refine ⟨fun hc => absurd hc.2 h₂, fun _ => ?_⟩
      rw [if_neg (show ¬ isFin2Ack (h.access id).sa.session pkt from h₂)]
      exact hopen₁
  · rw [processAck_of_not_ack hack]
    refine ⟨fun hc => ?_, fun _ => hopen⟩
    simp [isFin2Ack, isFinAck, hack] at hc

theorem packetHandle_log (x : SaSession) (hd : tcpSessionEndpointGet x.session a.pkt = some d) :
    let r := packetHandle ctx a ⟨x, []⟩
    (PayloadFrees ctx a d x → a.pkt.hasFlag thAck → Touched r.log) ∧
      (PayloadFrees ctx a d x → ¬ a.pkt.hasFlag thAck → EndsClosed r.log) ∧
        (¬ PayloadFrees ctx a d x → flagsClose a.pkt x.session → EndsClosed r.log) ∧
          (¬ PayloadFrees ctx a d x → ¬ flagsClose a.pkt x.session → .close ∉ r.log) := by
  intro r
  set h := entered a d ⟨x, []⟩ with hh
  have hopen : .close ∉ h.log := by simp [hh, entered, access]
  have hfrees : PayloadFrees ctx a d h.sa ↔ PayloadFrees ctx a d x := by cases d <;> rfl
  have hflags : flagsClose a.pkt h.sa.session ↔ flagsClose a.pkt x.session := by cases d <;> rfl
  rw [← hfrees, ← hflags]
  have hrun : r = if isTcpFinPacket a.pkt then h.access (saProcessFinPacket a.pkt)
      else if isTcpRstPacket a.pkt then h.close
      else (h.processPayload ctx a d).processAck a.pkt := by
    simp only [r, packetHandle, hd, hh]
  by_cases hfin : isTcpFinPacket a.pkt
  · have hno : ¬ PayloadFrees ctx a d h.sa := fun hc => hc.1 hfin
    have hnone : ¬ flagsClose a.pkt h.sa.session := fun hc => hc.1 hfin
    rw [if_pos hfin] at hrun
    exact ⟨fun hc => absurd hc hno, fun hc => absurd hc hno, fun _ hc => absurd hc hnone,
      fun _ _ => hrun ▸ not_mem_access hopen _⟩
  rw [if_neg hfin] at hrun
  by_cases hrst : isTcpRstPacket a.pkt
  · have hno : ¬ PayloadFrees ctx a d h.sa := fun hc => hc.2.1 hrst
    have hcloses : flagsClose a.pkt h.sa.session := ⟨hfin, .inl hrst⟩
    rw [if_pos hrst] at hrun
    exact ⟨fun hc => absurd hc hno, fun hc => absurd hc hno,
      fun _ _ => hrun ▸ close_endsClosed hopen, fun _ hc => absurd hcloses hc⟩
  rw [if_neg hrst] at hrun
  obtain ⟨hclosed, hstays, hfins⟩ :=
    @processPayload_log ctx a d _ hopen hfin hrst
  rw [hrun, ← flagsClose_congr a.pkt hfins]
  refine ⟨fun hc hack => processAck_touched hack (hclosed hc), fun hc hack => ?_, fun hc => ?_,
    fun hc => ?_⟩
  · rw [processAck_of_not_ack hack]
    exact hclosed hc
  · exact (processAck_log (hstays hc) hfin hrst).1
  · exact (processAck_log (hstays hc) hfin hrst).2

end SaHandling

/-- A call frees the session at most once and leaves it alone after that exactly when a packet
whose data step frees it has no ACK flag, and what the call frees is not waiting in the timeout
ring. -/
theorem released_once_iff (ctx : SaContext) (a : SaArrival) (x : SaSession) :
    ClosedOnce (SaHandling.tcpSessionPacketHandle ctx a ⟨x, []⟩).log ↔
      ∀ d, tcpSessionEndpointGet x.session a.pkt = some d →
        (PayloadFrees ctx a d x → ¬ a.pkt.hasFlag thAck) ∧
          (a.inRing → ¬ PayloadFrees ctx a d x ∧ ¬ flagsClose a.pkt x.session) := by
  set h := SaHandling.packetHandle ctx a ⟨x, []⟩ with hh
  have hrun : SaHandling.tcpSessionPacketHandle ctx a ⟨x, []⟩ = if a.inRing then h.close else h :=
    rfl
  rw [hrun]
  cases hd : tcpSessionEndpointGet x.session a.pkt with
  | none =>
    have hlog : h.log = [.access] := by
      simp [hh, SaHandling.packetHandle, hd, SaHandling.access]
    refine iff_of_true ?_ (by simp)
    split
    · exact (SaHandling.close_endsClosed (by simp [hlog])).closedOnce
    · exact closedOnce_of_not_mem (by simp [hlog])
  | some d =>
    obtain ⟨htouched, hclosed, hlate, hopen⟩ := @SaHandling.packetHandle_log ctx _ _ x hd
    have hdrain : EndsClosed h.log →
        (ClosedOnce (if a.inRing then h.close else h).log ↔ ¬ a.inRing) := by
      intro hends
      split
      case isTrue hring =>
        have hnot : ¬ ClosedOnce h.close.log :=
          (hends.touched (List.cons_ne_nil _ _)).not_closedOnce
        exact iff_of_false hnot (not_not.2 hring)
      case isFalse hring => exact iff_of_true hends.closedOnce hring
    simp only [Option.some.injEq, forall_eq']
    by_cases hfrees : PayloadFrees ctx a d x
    · by_cases hack : a.pkt.hasFlag thAck
      · refine iff_of_false ?_ fun hc => hc.1 hfrees hack
        split
        · exact ((htouched hfrees hack).append _).not_closedOnce
        · exact (htouched hfrees hack).not_closedOnce
      · rw [hdrain (hclosed hfrees hack)]
        simp [hfrees, hack]
    · by_cases hflags : flagsClose a.pkt x.session
      · rw [hdrain (hlate hfrees hflags)]
        simp [hfrees, hflags]
      · refine iff_of_true ?_ ⟨fun hc => absurd hc hfrees, fun _ => ⟨hfrees, hflags⟩⟩
        have hnone := hopen hfrees hflags
        split
        · exact (SaHandling.close_endsClosed hnone).closedOnce
        · exact closedOnce_of_not_mem hnone

section BothFull

def oneByteContext : SaContext := ⟨1, true⟩

def oneByte (fromClient : Bool) : SaArrival :=
  ⟨{ flowPacket fromClient thAck [65] with sentSeq := 1 }, 4, true, true, false⟩

def requestFull : List SaFlowEvent :=
  [flowEvent true thSyn [] 1, flowEvent false (thSyn ||| thAck) [] 2, flowEvent true thAck [] 3,
    .packet (oneByte true) ⟨10, 0, 10, 512, 10⟩ true true]

/-- The first byte of the server frees the session, whose FIN sequence number is then read and
whose state is written. -/
theorem lastByte_not_released_once :
    ¬ ∀ (ctx : SaContext) (k : TcpPacket) (history : List (SaFlow × SaFlowEvent)) (f : SaFlow),
      SaFlowRun ctx k history f → ∀ x ∈ f.session, ∀ a : SaArrival, SameFlow k a.pkt →
        ClosedOnce (SaHandling.tcpSessionPacketHandle ctx a ⟨x.sa, []⟩).log := by
  intro h
  set f := requestFull.foldl (SaFlow.handle oneByteContext) ⟨none, none, []⟩ with hf
  have hrun : SaFlowRun oneByteContext (flowPacket true thSyn [])
      (trace (SaFlow.handle oneByteContext) ⟨none, none, []⟩ requestFull) f :=
    Run.guardedTrace (by decide +kernel)
  have hlogs : f.session.map (fun x =>
      (SaHandling.tcpSessionPacketHandle oneByteContext (oneByte false) ⟨x.sa, []⟩).log) =
        some [.access, .access, .access, .access, .access, .access, .access, .close, .access,
          .access] := by
    decide +kernel
  obtain ⟨x, hx, hlog⟩ := Option.map_eq_some_iff.1 hlogs
  have honce := h oneByteContext _ _ f hrun x hx (oneByte false) (by decide)
  rw [hlog] at honce
  have hnil := honce.nothingAfter (List.replicate 7 .access) [.access, .access] rfl
  exact List.cons_ne_nil _ _ hnil

end BothFull

end CloudHands.Sa

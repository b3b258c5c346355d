import CloudHands.Pkt.FlowHash
import CloudHands.Sa.Record
import CloudHands.Sa.Release

/-!
# The sessions that the stream analysis writes

The handler writes the record of a session where it closes it, where it breaks with both stores
full, and where the session leaves the timeout ring. A session that it writes is one of IPv4, as
the parser of IPv6 is not registered, and a data store of it holds 1 to 512 bytes: a store is
taken from the pool when there is a byte for it. On such sessions the two record formats agree.
-/

namespace CloudHands.Sa

open CloudHands.Word (add sub)
open CloudHands.Lib
open CloudHands.Tcp
open CloudHands.Pkt (Packet PacketTcp TcpFrame ipv6Registered)

structure SaWriting where
  sa : SaSession
  written : List SaSession

namespace SaWriting

def update (h : SaWriting) (f : SaSession → SaSession) : SaWriting := { h with sa := f h.sa }

def close (h : SaWriting) : SaWriting := ⟨saSessionClose h.sa, h.written ++ [h.sa]⟩

def processDataPacket (ctx : SaContext) (a : SaArrival) (d : SessionDirect) (h : SaWriting) :
    SaWriting :=
  let ep := h.sa.session.endpoint d
  let data := a.pkt.pdata.getD []
  let offset := endpointOffsetGet ep a.pkt.sentSeq
  let endOffset := add 32 offset a.pkt.payloadLen
  if endOffset ≤ ep.lastOffset then h
  else if ep.lastOffset < offset then
    let r := tcpSessionEndpointDo a.allocOk ep data a.pkt.payloadLen offset
    let h := h.update (·.setEndpoint d { ep with asFrag := r.1 })
    if r.2 then h else h.close
  else
    let diff := sub 32 ep.lastOffset offset
    let h := h.update (·.setEndpoint d { ep with lastOffset := endOffset })
    let h := h.update
      (writeSessionPayload ctx a.mallocOk d (data.drop diff) (sub 32 a.pkt.payloadLen diff))
    let h := h.update (saProcessPopped ctx a d)
    if ctx.isBreakDataOk && h.sa.req.dataOk && h.sa.res.dataOk then h.close else h

def processAck (pkt : TcpPacket) (h : SaWriting) : SaWriting :=
  if isFin1Ack h.sa.session pkt then
    h.update fun x => { x with session := { x.session with fourWayState := .fin1Ack } }
  else if isFin2Ack h.sa.session pkt then
    (h.update fun x => { x with session := { x.session with fourWayState := .fin2Ack } }).close
  else h

def packetHandle (ctx : SaContext) (a : SaArrival) (h : SaWriting) : SaWriting :=
  match tcpSessionEndpointGet h.sa.session a.pkt with
  | none => h
  | some d =>
    let h := h.update fun x =>
      updateSaEntry d a.pkt.payloadLen a.timestamp
        { x with session := { x.session with curEp := some d } }
    if isTcpFinPacket a.pkt then h.update (saProcessFinPacket a.pkt)
    else if isTcpRstPacket a.pkt then h.close
    else
      let h :=
        if a.pkt.pdata.isSome && needProcessPayload ctx d a.pkt h.sa then
          h.processDataPacket ctx a d
        else h
      h.processAck a.pkt

/-- `_tcp_session_data_process`, with the drain of the timeout ring at its end. -/
def dataProcess (ctx : SaContext) (a : SaArrival) (h : SaWriting) : SaWriting :=
  let h := h.update fun x => { x with session := setTcpState x.session a.pkt }
  let h := h.packetHandle ctx a
  if a.inRing then h.close else h

variable {ctx : SaContext} {a : SaArrival} {d : SessionDirect}

theorem processDataPacket_sa (h : SaWriting) :
    (h.processDataPacket ctx a d).sa = saProcessDataPacket ctx a d h.sa := by
  unfold processDataPacket saProcessDataPacket
  dsimp only [update]
  split
  · rfl
  · split
    · split <;> rfl
    · split <;> rfl

theorem processAck_sa (pkt : TcpPacket) (h : SaWriting) :
    (h.processAck pkt).sa = saProcessAck pkt h.sa := by
  unfold processAck saProcessAck
  split
  · rfl
  · split <;> rfl

theorem dataProcess_sa (h : SaWriting) :
    (h.dataProcess ctx a).sa = saSessionDataProcess ctx a h.sa := by
  have hhandle (h : SaWriting) : (h.packetHandle ctx a).sa = saPacketHandle ctx a h.sa := by
    unfold packetHandle saPacketHandle
    cases hd : tcpSessionEndpointGet h.sa.session a.pkt with
    | none => rfl
    | some d =>
      dsimp only [update]
      split
      · rfl
      · split
        · rfl
        · rw [processAck_sa]
          split
          · rw [processDataPacket_sa]
          · rfl
  unfold dataProcess saSessionDataProcess saTcpSessionPacketHandle
  dsimp only
  split
  · rw [close, hhandle]
    rfl
  · exact hhandle _

end SaWriting

def SaFlow.records (ctx : SaContext) (f : SaFlow) : SaFlowEvent → List SaSession
  | .packet a pool _ sessionOk =>
    match if isTcpSynPacket a.pkt || isTcpSynAckPacket a.pkt then none else f.session,
      f.request with
    | some x, _ => (SaWriting.dataProcess ctx a ⟨{ x.sa with pool := pool }, []⟩).written
    | none, none => []
    | none, some p =>
      match saThreeWayHandshakeProcess p.request p.entry a.pkt a.timestamp with
      | .session r e =>
        if sessionOk then
          (SaWriting.dataProcess ctx a ⟨(saSessionEntryInit r e pool p.seen).sa, []⟩).written
        else []
      | _ => []
  | .requestExpired => []
  | .sessionExpired => (f.session.map (·.sa)).toList

/-- The bytes of a store of the pool that `ch_sa_data_store_pool_create` makes for the task. -/
def storeSize (ctx : SaContext) : ℕ :=
  if ctx.payloadDataSize < 512 then ctx.payloadDataSize else 512

def OfFrame (a : SaArrival) : Prop :=
  ∃ p t behind, TcpFrame ipv6Registered p t ∧
    a.pkt = { t.tcpPacket with pdata := t.pdata.map (· ++ behind) } ∧
      ∀ bytes ∈ a.pkt.pdata, a.pkt.payloadLen ≤ bytes.length

/-- The events that the task sees: its frames and its own store pool. -/
def TaskEvent (ctx : SaContext) : SaFlowEvent → Prop
  | .packet a pool _ _ => OfFrame a ∧ pool.dsize = storeSize ctx
  | .requestExpired => True
  | .sessionExpired => True

/-- The handler writes the record of the session in some run of a flow. -/
def Written (ctx : SaContext) (y : SaSession) : Prop :=
  ∃ k history f, SaFlowRun ctx k history f ∧ (∀ v ∈ history, TaskEvent ctx v.2) ∧
    ∃ v ∈ history, y ∈ v.1.records ctx v.2

def Filled (cap : ℕ) (dst : DataStore) : Prop := dst.data ≠ [] ∧ dst.dsize = cap

structure StoresFilled (cap : ℕ) (x : SaSession) : Prop where
  isIpv6 : ∀ d, (x.session.endpoint d).isIpv6 = false
  pool : x.pool.dsize = cap
  store : ∀ d, ∀ dst ∈ (x.side d).dstore, Filled cap dst

structure Fills (ctx : SaContext) (cap : ℕ) (data : List UInt8) (dlen : ℕ) : Prop where
  wanted : 0 < ctx.payloadDataSize
  room : 0 < cap
  some : 0 < dlen
  behind : dlen ≤ data.length

section Stores

variable {ctx : SaContext} {cap : ℕ} {d : SessionDirect} {x : SaSession}

theorem StoresFilled.setEndpoint (h : StoresFilled cap x) (d : SessionDirect)
    {ep : TcpSessionEndpoint}
    (hep : ep.isIpv6 = false) : StoresFilled cap (x.setEndpoint d ep) := by
  refine ⟨?_, h.pool, ?_⟩
  · intro e
    have hother := h.isIpv6 e
    cases d <;> cases e <;> first | exact hep | exact hother
  · intro e
    rw [side_setEndpoint]
    exact h.store e

theorem StoresFilled.setSide (h : StoresFilled cap x) (d : SessionDirect) {side : SaSide}
    (hside : ∀ dst ∈ side.dstore, Filled cap dst) : StoresFilled cap (x.setSide d side) := by
  refine ⟨?_, ?_, ?_⟩
  · rw [setSide_session]
    exact h.isIpv6
  · cases d <;> exact h.pool
  · intro e
    have hother := h.store e
    cases d <;> cases e <;> first | exact hside | exact hother

theorem StoresFilled.setSession (h : StoresFilled cap x) {s : TcpSession Unit}
    (hs : ∀ d, (s.endpoint d).isIpv6 = false) : StoresFilled cap { x with session := s } :=
  ⟨hs, h.pool, h.store⟩

theorem StoresFilled.setPool (h : StoresFilled cap x) {pool : DataStorePool}
    (hpool : pool.dsize = cap) :
    StoresFilled cap { x with pool := pool } :=
  ⟨h.isIpv6, hpool, h.store⟩

theorem saSessionClose_filled (h : StoresFilled cap x) : StoresFilled cap (saSessionClose x) := by
  refine ⟨?_, ?_, ?_⟩
  · intro d
    cases d with
    | req => exact h.isIpv6 .req
    | res => exact h.isIpv6 .res
  · have hpool := h.pool
    simp only [saSessionClose, sentryDstoreFree]
    split <;> split <;> exact hpool
  · intro d dst hdst
    cases d <;> cases hdst

theorem sideStore_size (h : StoresFilled cap x) (mallocOk : Bool) :
    (sideStore mallocOk (x.side d) x.pool).2.dsize = cap ∧
      ∀ dst ∈ (sideStore mallocOk (x.side d) x.pool).1, dst.dsize = cap ∧
        (Filled cap dst ∨ dst.data = []) := by
  have hpool := h.pool
  unfold sideStore
  cases hdst : (x.side d).dstore with
  | some dst =>
    refine ⟨hpool, ?_⟩
    rintro _ ⟨⟩
    have hfilled := h.store d dst hdst
    exact ⟨hfilled.2, .inl hfilled⟩
  | none =>
    dsimp only [dataStoreGet]
    split
    · exact ⟨hpool, by simp⟩
    · split
      · split
        · exact ⟨hpool, by simp [DataStore.empty, hpool]⟩
        · exact ⟨hpool, by simp⟩
      · exact ⟨hpool, by simp [DataStore.empty, hpool]⟩

theorem payloadStored_filled {dst : DataStore} {data : List UInt8} {dlen : ℕ}
    (hsize : dst.dsize = cap) (h : Filled cap dst ∨ dst.data = [] ∧ Fills ctx cap data dlen) :
    Filled cap (payloadStored ctx dst data dlen) := by
  unfold payloadStored
  split
  case isTrue hfull =>
    obtain hfilled | ⟨hempty, hfills⟩ := h
    · exact hfilled
    · have hwanted := hfills.wanted
      rw [hempty, List.length_nil] at hfull
      omega
  case isFalse hroom =>
    refine ⟨?_, hsize⟩
    obtain hfilled | ⟨hempty, hwanted, hcap, hsome, hbehind⟩ := h
    · simp [dataStoreWrite, hfilled.1]
    · have hwritten : 0 < (data.take (dataStoreRoom dst
          (if ctx.payloadDataSize < dst.data.length + dlen then
            ctx.payloadDataSize - dst.data.length else dlen))).length := by
        rw [List.length_take, dataStoreRoom, hempty, hsize, List.length_nil]
        split_ifs <;> omega
      intro hnil
      rw [dataStoreWrite, List.append_eq_nil_iff] at hnil
      rw [hnil.2] at hwritten
      exact absurd hwritten (by simp)

theorem storePayload_filled (h : StoresFilled cap x) {dst : DataStore} {data : List UInt8}
    {dlen : ℕ} (hfilled : Filled cap (payloadStored ctx dst data dlen)) :
    StoresFilled cap (storePayload ctx d dst data dlen x) := by
  unfold payloadStored at hfilled
  unfold storePayload
  dsimp only
  generalize dataStoreWrite dst data (if ctx.payloadDataSize < dst.data.length + dlen then
    ctx.payloadDataSize - dst.data.length else dlen) = written at hfilled ⊢
  split
  case isTrue hfull =>
    rw [if_pos hfull] at hfilled
    apply h.setSide
    rintro _ ⟨⟩
    exact hfilled
  case isFalse hroom =>
    rw [if_neg hroom] at hfilled
    split
    · refine (h.setSide d ?_).setEndpoint d (h.isIpv6 d)
      rintro _ ⟨⟩
      exact hfilled
    · apply h.setSide
      rintro _ ⟨⟩
      exact hfilled

theorem writeSessionPayload_filled (h : StoresFilled cap x) {mallocOk : Bool} {data : List UInt8}
    {dlen : ℕ} (hfills : (∀ dst ∈ (sideStore mallocOk (x.side d) x.pool).1, dst.data ≠ []) ∨
      Fills ctx cap data dlen) :
    StoresFilled cap (writeSessionPayload ctx mallocOk d data dlen x) := by
  obtain ⟨hpool, hstore⟩ := @sideStore_size _ d _ h mallocOk
  have hx := h.setPool hpool
  unfold writeSessionPayload
  dsimp only
  cases hgot : (sideStore mallocOk (x.side d) x.pool).1 with
  | none => exact hx.setSide d (h.store d)
  | some dst =>
    obtain ⟨hsize, hkind⟩ := hstore dst hgot
    apply storePayload_filled hx
    apply payloadStored_filled hsize
    obtain hfilled | hempty := hkind
    · exact .inl hfilled
    · obtain hready | hfills := hfills
      · exact absurd hempty (hready dst hgot)
      · exact .inr ⟨hempty, hfills⟩

theorem sideStore_written (mallocOk : Bool) {data : List UInt8} {dlen : ℕ}
    (h : StoresFilled cap (writeSessionPayload ctx mallocOk d data dlen x)) :
    let y := writeSessionPayload ctx mallocOk d data dlen x
    ∀ dst ∈ (sideStore mallocOk (y.side d) y.pool).1, dst.data ≠ [] := by
  intro y dst hdst
  cases hgot : (sideStore mallocOk (x.side d) x.pool).1 with
  | none =>
    have hmissed := @writeSessionPayload_missed ctx d x mallocOk hgot data dlen
    have hnone : (sideStore mallocOk (y.side d) y.pool).1 = none := hmissed.again
    rw [hnone] at hdst
    cases hdst
  | some stored =>
    have hwrote := @writeSessionPayload_wrote ctx d x mallocOk stored hgot data dlen
    have hside : (y.side d).dstore = some (payloadStored ctx stored data dlen) := hwrote.dstore
    rw [sideStore, hside] at hdst
    obtain rfl := Option.some.inj hdst
    exact (h.store d _ hside).1

theorem saProcessPopped_filled {a : SaArrival} (h : StoresFilled cap x)
    (hready : ∀ dst ∈ (sideStore a.mallocOk (x.side d) x.pool).1, dst.data ≠ []) :
    StoresFilled cap (saProcessPopped ctx a d x) := by
  have hpopped : ∀ frags, StoresFilled cap
      (x.setEndpoint d { x.session.endpoint d with asFrag := frags }) :=
    fun frags => h.setEndpoint d (h.isIpv6 d)
  unfold saProcessPopped
  dsimp only
  generalize assembleFragmentPop (x.session.endpoint d).asFrag (x.session.endpoint d).lastOffset = p
  cases p.1 with
  | none => exact hpopped p.2
  | some df =>
    have hwritten : StoresFilled cap (writeSessionPayload ctx a.mallocOk d df.bytes df.len
        (x.setEndpoint d { x.session.endpoint d with asFrag := p.2 })) := by
      apply writeSessionPayload_filled (hpopped p.2)
      left
      rw [side_setEndpoint]
      exact hready
    exact hwritten.setEndpoint d (hwritten.isIpv6 d)

end Stores

theorem OfFrame.isIpv6 {a : SaArrival} (h : OfFrame a) : a.pkt.isIpv6 = false := by
  obtain ⟨p, t, behind, hframe, hpkt, -⟩ := h
  rw [hpkt]
  exact hframe.isIpv6

theorem OfFrame.payloadLen_lt {a : SaArrival} (h : OfFrame a) : a.pkt.payloadLen < 2 ^ 32 := by
  obtain ⟨p, t, behind, ⟨-, -, tcpPkt, hinit⟩, hpkt, -⟩ := h
  have hrange : t.payloadLen < 2 ^ 16 := by
    rw [(Pkt.packetTcpInitFromPkt_spec hinit).1]
    exact lt_of_le_of_lt (min_le_left _ _) (Nat.mod_lt _ (by norm_num))
  rw [hpkt]
  exact lt_trans hrange (by norm_num)

theorem OfFrame.behind {a : SaArrival} (h : OfFrame a) (hdata : a.pkt.pdata.isSome) :
    a.pkt.payloadLen ≤ (a.pkt.pdata.getD []).length := by
  obtain ⟨p, t, behind, -, -, hbytes⟩ := h
  obtain ⟨bytes, hsome⟩ := Option.isSome_iff_exists.1 hdata
  rw [hsome]
  exact hbytes bytes hsome

theorem storeSize_pos {ctx : SaContext} (h : 0 < ctx.payloadDataSize) : 0 < storeSize ctx := by
  unfold storeSize
  split <;> omega

theorem storeSize_le (ctx : SaContext) : storeSize ctx ≤ 512 := by
  unfold storeSize
  split <;> omega

section Handler

variable {ctx : SaContext} {cap : ℕ} {a : SaArrival} {d : SessionDirect}

theorem fills_of_need {x : SaSession} (ha : OfFrame a) (hdata : a.pkt.pdata.isSome)
    (hneed : needProcessPayload ctx d a.pkt x)
    (hnew : (x.session.endpoint d).lastOffset < endOffset (x.session.endpoint d) a.pkt)
    (hold : endpointOffsetGet (x.session.endpoint d) a.pkt.sentSeq ≤
      (x.session.endpoint d).lastOffset) :
    let diff := sub 32 (x.session.endpoint d).lastOffset
      (endpointOffsetGet (x.session.endpoint d) a.pkt.sentSeq)
    Fills ctx (storeSize ctx) ((a.pkt.pdata.getD []).drop diff) (sub 32 a.pkt.payloadLen diff) := by
  intro diff
  have hwanted : 0 < ctx.payloadDataSize := by
    simp only [needProcessPayload, Bool.and_eq_true, Bool.not_eq_true',
      decide_eq_false_iff_not] at hneed
    omega
  have hlen := ha.payloadLen_lt
  have hbehind := ha.behind hdata
  set offset := endpointOffsetGet (x.session.endpoint d) a.pkt.sentSeq with hoffset
  set lastOffset := (x.session.endpoint d).lastOffset with hlast
  have hend : endOffset (x.session.endpoint d) a.pkt = (offset + a.pkt.payloadLen) % 2 ^ 32 := rfl
  have hlt : lastOffset < 2 ^ 32 := by
    rw [hend] at hnew
    exact lt_trans hnew (Nat.mod_lt _ (by norm_num))
  have hsum : lastOffset < offset + a.pkt.payloadLen := by
    rw [hend] at hnew
    exact lt_of_lt_of_le hnew (Nat.mod_le _ _)
  have hdiff : diff = lastOffset - offset := Word.sub_of_le hlt hold
  have hdlen : sub 32 a.pkt.payloadLen diff = a.pkt.payloadLen - diff :=
    Word.sub_of_le hlen (by omega)
  refine ⟨hwanted, storeSize_pos hwanted, ?_, ?_⟩
  · omega
  · rw [hdlen, List.length_drop]
    omega

theorem updateSaEntry_filled {x : SaSession} (h : StoresFilled cap x) (dlen time : ℕ) :
    StoresFilled cap (updateSaEntry d dlen time x) := by
  exact h.setSide d (h.store d)

theorem saProcessFinPacket_filled {x : SaSession} (h : StoresFilled cap x) (pkt : TcpPacket) :
    StoresFilled cap (saProcessFinPacket pkt x) := by
  unfold saProcessFinPacket
  cases x.session.fourWayState <;> first | exact h | exact h.setSession h.isIpv6

theorem setTcpState_endpoint {σ : Type*} (s : TcpSession σ) (pkt : TcpPacket)
    (d : SessionDirect) : (setTcpState s pkt).endpoint d = s.endpoint d := by
  unfold setTcpState
  split_ifs <;> cases d <;> rfl

structure SaWriting.Filled (cap : ℕ) (h : SaWriting) : Prop where
  sa : StoresFilled cap h.sa
  written : ∀ y ∈ h.written, StoresFilled cap y

namespace SaWriting

variable {h : SaWriting}

theorem Filled.update (hh : h.Filled cap) {f : SaSession → SaSession}
    (hf : StoresFilled cap (f h.sa)) : (h.update f).Filled cap := ⟨hf, hh.written⟩

theorem Filled.close (hh : h.Filled cap) : h.close.Filled cap := by
  refine ⟨saSessionClose_filled hh.sa, ?_⟩
  rw [SaWriting.close, List.forall_mem_append, List.forall_mem_singleton]
  exact ⟨hh.written, hh.sa⟩

theorem processDataPacket_filled (hh : h.Filled (storeSize ctx)) (ha : OfFrame a)
    (hdata : a.pkt.pdata.isSome) (hneed : needProcessPayload ctx d a.pkt h.sa) :
    (h.processDataPacket ctx a d).Filled (storeSize ctx) := by
  have hv4 := hh.sa.isIpv6 d
  unfold processDataPacket
  dsimp only
  split
  case isTrue => exact hh
  case isFalse hnew =>
    split
    case isTrue =>
      have hpushed : ∀ frags, (h.update (·.setEndpoint d
          { h.sa.session.endpoint d with asFrag := frags })).Filled (storeSize ctx) :=
        fun frags => hh.update (hh.sa.setEndpoint d hv4)
      split
      · exact hpushed _
      · exact (hpushed _).close
    case isFalse hold =>
      have hfills := fills_of_need ha hdata hneed (not_le.1 hnew) (not_lt.1 hold)
      have hmoved : StoresFilled (storeSize ctx) (h.sa.setEndpoint d
          { h.sa.session.endpoint d with
            lastOffset := endOffset (h.sa.session.endpoint d) a.pkt }) :=
        hh.sa.setEndpoint d hv4
      have hwritten := @writeSessionPayload_filled _ _ d _ hmoved a.mallocOk _ _ (.inr hfills)
      have hpopped := @saProcessPopped_filled ctx _ d _ a hwritten
        (sideStore_written a.mallocOk hwritten)
      have hdone : SaWriting.Filled (storeSize ctx) ⟨_, h.written⟩ := ⟨hpopped, hh.written⟩
      split
      · exact hdone.close
      · exact hdone

theorem processAck_filled (hh : h.Filled cap) (pkt : TcpPacket) :
    (h.processAck pkt).Filled cap := by
  have hstate : ∀ st, (h.update fun x =>
      { x with session := { x.session with fourWayState := st } }).Filled cap :=
    fun st => hh.update (hh.sa.setSession hh.sa.isIpv6)
  unfold processAck
  split
  · exact hstate _
  · split
    · exact (hstate _).close
    · exact hh

theorem packetHandle_filled (hh : h.Filled (storeSize ctx)) (ha : OfFrame a) :
    (h.packetHandle ctx a).Filled (storeSize ctx) := by
  unfold packetHandle
  cases tcpSessionEndpointGet h.sa.session a.pkt with
  | none => exact hh
  | some d =>
    have hentered : (h.update fun x => updateSaEntry d a.pkt.payloadLen a.timestamp
        { x with session := { x.session with curEp := some d } }).Filled (storeSize ctx) := by
      apply hh.update
      apply updateSaEntry_filled
      exact hh.sa.setSession hh.sa.isIpv6
    dsimp only
    split
    · exact hentered.update (saProcessFinPacket_filled hentered.sa _)
    · split
      · exact hentered.close
      · apply processAck_filled
        split
        case isTrue hcond =>
          obtain ⟨hdata, hneed⟩ := Bool.and_eq_true_iff.1 hcond
          exact processDataPacket_filled hentered ha hdata hneed
        case isFalse => exact hentered

theorem dataProcess_filled (hh : h.Filled (storeSize ctx)) (ha : OfFrame a) :
    (h.dataProcess ctx a).Filled (storeSize ctx) := by
  have hstate : (h.update fun x =>
      { x with session := setTcpState x.session a.pkt }).Filled (storeSize ctx) := by
    refine hh.update (hh.sa.setSession fun d => ?_)
    rw [setTcpState_endpoint]
    exact hh.sa.isIpv6 d
  have hhandled := packetHandle_filled hstate ha
  unfold dataProcess
  dsimp only
  split
  · exact hhandled.close
  · exact hhandled

end SaWriting

end Handler

structure FlowFilled (cap : ℕ) (f : SaFlow) : Prop where
  request : ∀ p ∈ f.request, p.request.sreq.isIpv6 = false
  session : ∀ x ∈ f.session, StoresFilled cap x.sa

section Runs

variable {ctx : SaContext} {a : SaArrival} {pool : DataStorePool} {f : SaFlow}

theorem saThreeWayHandshakeProcess_isIpv6 (r : SessionRequest) (e : SaRequestEntry)
    (pkt : TcpPacket) (time : ℕ) :
    match saThreeWayHandshakeProcess r e pkt time with
    | .keep r' _ => r'.sreq.isIpv6 = r.sreq.isIpv6
    | .reset => True
    | .session r' _ => r'.sreq.isIpv6 = r.sreq.isIpv6 := by
  unfold saThreeWayHandshakeProcess
  split_ifs <;> first | exact rfl | trivial

theorem saSessionEntryInit_filled {r : SessionRequest} (hr : r.sreq.isIpv6 = false)
    (e : SaRequestEntry) (seen : List SaArrival) :
    StoresFilled pool.dsize (saSessionEntryInit r e pool seen).sa := by
  refine ⟨?_, rfl, ?_⟩
  · intro d
    cases d <;> simp [saSessionEntryInit, tcpSessionInit, TcpSession.endpoint, hr,
      tcpSessionEndpointInit]
  · intro d dst hdst
    cases d <;> cases hdst

theorem FlowFilled.dataProcess {x : SaTracked}
    (hrequest : ∀ p ∈ f.request, p.request.sreq.isIpv6 = false)
    (hx : StoresFilled (storeSize ctx) x.sa) (ha : OfFrame a) (hpool : pool.dsize = storeSize ctx) :
    FlowFilled (storeSize ctx) (f.dataProcess ctx x a pool) := by
  have hdone :
      StoresFilled (storeSize ctx) (saSessionDataProcess ctx a { x.sa with pool := pool }) := by
    have hstart : SaWriting.Filled (storeSize ctx) ⟨{ x.sa with pool := pool }, []⟩ :=
      ⟨hx.setPool hpool, List.forall_mem_nil _⟩
    have hprocessed := (SaWriting.dataProcess_filled hstart ha).sa
    rwa [SaWriting.dataProcess_sa] at hprocessed
  unfold SaFlow.dataProcess
  dsimp only
  split
  · refine ⟨hrequest, ?_⟩
    rintro _ ⟨⟩
    exact hdone
  · exact ⟨hrequest, by simp⟩

theorem FlowFilled.handshakeProcess (hf : FlowFilled (storeSize ctx) f)
    (ha : OfFrame a) (hpool : pool.dsize = storeSize ctx) (requestOk sessionOk : Bool) :
    FlowFilled (storeSize ctx) (f.handshakeProcess ctx a pool requestOk sessionOk) := by
  unfold SaFlow.handshakeProcess
  cases hrequest : f.request with
  | none =>
    dsimp only
    split
    · refine ⟨?_, hf.session⟩
      rintro _ ⟨⟩
      exact ha.isIpv6
    · exact hf
  | some p =>
    have hp := hf.request p hrequest
    have hstep := saThreeWayHandshakeProcess_isIpv6 p.request p.entry a.pkt a.timestamp
    dsimp only
    cases hfate : saThreeWayHandshakeProcess p.request p.entry a.pkt a.timestamp with
    | keep r e =>
      rw [hfate] at hstep
      dsimp only
      refine ⟨?_, hf.session⟩
      rintro _ ⟨⟩
      exact hstep.trans hp
    | reset =>
      dsimp only
      exact ⟨by simp, hf.session⟩
    | session r e =>
      rw [hfate] at hstep
      dsimp only
      split
      · have hstart := @saSessionEntryInit_filled pool r (hstep.trans hp) e p.seen
        rw [hpool] at hstart
        exact FlowFilled.dataProcess (by simp) hstart ha hpool
      · exact ⟨by simp, hf.session⟩

theorem FlowFilled.see (hf : FlowFilled (storeSize ctx) f) (a : SaArrival) :
    FlowFilled (storeSize ctx) (f.see a) := by
  refine ⟨?_, ?_⟩
  · intro p hp
    obtain ⟨q, hq, rfl⟩ := Option.map_eq_some_iff.1 hp
    exact hf.request q hq
  · intro x hx
    obtain ⟨y, hy, rfl⟩ := Option.map_eq_some_iff.1 hx
    exact hf.session y hy

theorem FlowFilled.handle (hf : FlowFilled (storeSize ctx) f) {l : SaFlowEvent}
    (hl : TaskEvent ctx l) : FlowFilled (storeSize ctx) (f.handle ctx l) := by
  cases l with
  | requestExpired => exact ⟨by simp [SaFlow.handle], hf.session⟩
  | sessionExpired => exact ⟨hf.request, by simp [SaFlow.handle]⟩
  | packet a pool requestOk sessionOk =>
    obtain ⟨ha, hpool⟩ := hl
    have hseen := hf.see a
    rw [SaFlow.handle, SaFlow.packetHandle]
    split
    case h_1 x hfound =>
      apply FlowFilled.dataProcess hseen.request _ ha hpool
      apply hseen.session
      split at hfound
      · cases hfound
      · exact hfound
    case h_2 => exact hseen.handshakeProcess ha hpool requestOk sessionOk

theorem FlowFilled.records (hf : FlowFilled (storeSize ctx) f) {l : SaFlowEvent}
    (hl : TaskEvent ctx l) : ∀ y ∈ f.records ctx l, StoresFilled (storeSize ctx) y := by
  have hwritten : ∀ {x : SaSession} {a : SaArrival}, StoresFilled (storeSize ctx) x → OfFrame a →
      ∀ y ∈ (SaWriting.dataProcess ctx a ⟨x, []⟩).written, StoresFilled (storeSize ctx) y :=
    fun hx ha => (SaWriting.dataProcess_filled ⟨hx, List.forall_mem_nil _⟩ ha).written
  cases l with
  | requestExpired => exact List.forall_mem_nil _
  | sessionExpired =>
    intro y hy
    obtain ⟨x, hx, rfl⟩ := Option.map_eq_some_iff.1 (Option.mem_toList.1 hy)
    exact hf.session x hx
  | packet a pool requestOk sessionOk =>
    obtain ⟨ha, hpool⟩ := hl
    rw [SaFlow.records]
    split
    case h_1 x request hfound =>
      apply hwritten _ ha
      apply StoresFilled.setPool _ hpool
      apply hf.session
      split at hfound
      · cases hfound
      · exact hfound
    case h_2 => exact List.forall_mem_nil _
    case h_3 p hfound hrequest =>
      have hp := hf.request p hrequest
      have hstep := saThreeWayHandshakeProcess_isIpv6 p.request p.entry a.pkt a.timestamp
      cases hfate : saThreeWayHandshakeProcess p.request p.entry a.pkt a.timestamp with
      | keep r e => exact List.forall_mem_nil _
      | reset => exact List.forall_mem_nil _
      | session r e =>
        rw [hfate] at hstep
        dsimp only
        split
        · have hstart := @saSessionEntryInit_filled pool r (hstep.trans hp) e p.seen
          rw [hpool] at hstart
          exact hwritten hstart ha
        · exact List.forall_mem_nil _

theorem Written.storesFilled {y : SaSession} (h : Written ctx y) :
    StoresFilled (storeSize ctx) y := by
  obtain ⟨k, history, f, hrun, htask, v, hv, hy⟩ := h
  have hinit : FlowFilled (storeSize ctx) ⟨none, none, []⟩ := ⟨by simp, by simp⟩
  have hstep : ∀ {s l s'}, FlowFilled (storeSize ctx) s → TaskEvent ctx l →
      SaFlowStep ctx k s l s' → FlowFilled (storeSize ctx) s' := by
    rintro s l s' hs hl ⟨-, rfl⟩
    exact hs.handle hl
  have hall := (Run.stateInvariant hinit hstep hrun (StepsOk.of_forall htask)).2
  exact (hall v hv).records (htask v hv) y hy

end Runs

open Shm Japi

structure RecordCall where
  sessionId : UInt64
  reqStartTime : UInt64
  resStartTime : UInt64
  isTimeout : UInt8
  timeoutTv : UInt16
  isClose : Bool

def addressBytes (addr : ℕ) : Shm.Ipv6Addr := ⟨littleEndian 16 addr, length_littleEndian 16 addr⟩

def SaSession.output (y : SaSession) (c : RecordCall) : SessionOutput where
  srcPort := UInt16.ofNat y.session.endpointReq.port
  dstPort := UInt16.ofNat y.session.endpointRes.port
  isIpv6 := if y.session.endpointReq.isIpv6 then 1 else 0
  srcIp := UInt32.ofNat y.session.endpointReq.ip
  dstIp := UInt32.ofNat y.session.endpointRes.ip
  srcAddr := addressBytes y.session.endpointReq.addr
  dstAddr := addressBytes y.session.endpointRes.addr
  sessionId := c.sessionId
  reqPackets := UInt64.ofNat y.req.packets
  resPackets := UInt64.ofNat y.res.packets
  reqBytes := UInt64.ofNat y.req.bytes
  resBytes := UInt64.ofNat y.res.bytes
  reqStartTime := c.reqStartTime
  reqLastTime := UInt64.ofNat y.req.lastTime
  resStartTime := c.resStartTime
  resLastTime := UInt64.ofNat y.res.lastTime
  reqDstore := y.req.dstore
  resDstore := y.res.dstore
  isTimeout := c.isTimeout
  timeoutTv := c.timeoutTv
  isClose := c.isClose

section Formats

variable {ctx : SaContext} {y z : SaSession}

theorem length_outData_le {cap : ℕ} {dstore : Option DataStore}
    (h : ∀ dst ∈ dstore, Filled cap dst) : (outData dstore).length ≤ cap := by
  cases dstore with
  | none => exact Nat.zero_le cap
  | some dst =>
    have hfits := dst.fits
    rw [(h dst rfl).2] at hfits
    exact hfits

theorem Written.metaDataSize_le (h : Written ctx y) (c : RecordCall) :
    (outData (y.output c).reqDstore).length ≤ 512 ∧
      (outData (y.output c).resDstore).length ≤ 512 := by
  have hstore := h.storesFilled.store
  have hcap := storeSize_le ctx
  exact ⟨(length_outData_le (hstore .req)).trans hcap, (length_outData_le (hstore .res)).trans hcap⟩

theorem Written.carried (h : Written ctx y) (c : RecordCall) : (y.output c).Carried := by
  obtain ⟨hreq, hres⟩ := h.metaDataSize_le c
  have hstores := h.storesFilled
  have hv4 : y.session.endpointReq.isIpv6 = false := hstores.isIpv6 .req
  have hsmall : (y.output c).metaDataSize % 2 ^ 16 =
      154 + (outData (y.output c).reqDstore).length + (outData (y.output c).resDstore).length := by
    rw [SessionOutput.metaDataSize, sessionTcpMetaSize]
    omega
  refine ⟨by simp [SaSession.output, hv4], ?_, ?_, by omega, fun _ => by omega⟩
  · exact fun dst hdst => (hstores.store .req dst hdst).1
  · exact fun dst hdst => (hstores.store .res dst hdst).1

theorem Written.recordAt (h : Written ctx y) (c : RecordCall) {buffer : List UInt8} {mem : Memory}
    {p : ℕ} (hmem : mem.read p (tcpSessionOut buffer (y.output c).record).2.length =
      (tcpSessionOut buffer (y.output c).record).2) :
    RecordAt mem p (tcpSessionOut buffer (y.output c).record) := by
  obtain ⟨hreq, hres⟩ := h.metaDataSize_le c
  refine ⟨?_, hmem⟩
  have haddr := addrSize_le (y.output c).record.toSessionPeers
  have hreqData : (y.output c).record.reqData = outData (y.output c).reqDstore := rfl
  have hresData : (y.output c).record.resData = outData (y.output c).resDstore := rfl
  rw [tcpSessionOut_data, length_tcpBytes, hreqData, hresData]
  omega

/-- The two readers get the same session from the two records of every session that the handler
writes, and two such sessions have the same msgpack record only if they have the same addresses and
payloads. -/
theorem written_formats_agree (buffer : List UInt8) (old : SessionPeers (Option ℕ)) :
    (∀ ctx y c mem p, Written ctx y →
      mem.read p (tcpSessionOut buffer (y.output c).record).2.length =
        (tcpSessionOut buffer (y.output c).record).2 →
      ∃ go, goTcpSession.run (tcpSessionStoreMsgpack (y.output c)) = some (go, []) ∧
        go.Agrees mem (readRecord mem p old (tcpSessionOut buffer (y.output c).record))) ∧
    (∀ ctx ctx' y z c c', Written ctx y → Written ctx' z →
      tcpSessionStoreMsgpack (y.output c) = tcpSessionStoreMsgpack (z.output c') →
      (y.output c).srcAddress = (z.output c').srcAddress ∧
        (y.output c).dstAddress = (z.output c').dstAddress ∧
        outData y.req.dstore = outData z.req.dstore ∧
        outData y.res.dstore = outData z.res.dstore) := by
  constructor
  · intro ctx y c mem p hy hmem
    have hwithin := readRecord_within (hy.recordAt c hmem) old
    exact (agrees_iff_carried hwithin).2 (hy.carried c)
  · intro ctx ctx' y z c c' hy hz hsame
    exact msgpack_injective (hy.carried c) (hz.carried c') hsame

end Formats

/-- A frame of a client 10.0.0.1 and a server 10.0.0.2. -/
def segment (fromClient : Bool) (flags seq ack : UInt8) (payload : List UInt8) : List UInt8 :=
  let ends : List UInt8 := if fromClient then [10, 0, 0, 1, 10, 0, 0, 2, 3, 232, 0, 80]
    else [10, 0, 0, 2, 10, 0, 0, 1, 0, 80, 3, 232]
  [2, 0, 0, 0, 0, 1, 2, 0, 0, 0, 0, 2, 0x08, 0x00, 0x45, 0, 0, UInt8.ofNat (40 + payload.length),
    0, 0, 0, 0, 64, 6, 0, 0] ++ ends ++
    [0, 0, 0, seq, 0, 0, 0, ack, 0x50, flags, 0, 0, 0, 0, 0, 0] ++ payload

/-- The handshake of a client whose sequence numbers begin at `isn`, and its request "GET". -/
def exchange (isn : UInt8) : List (List UInt8) :=
  [segment true thSyn isn 0 [], segment false (thSyn ||| thAck) 50 (isn + 1) [],
    segment true thAck (isn + 1) 51 [], segment true thAck (isn + 1) 51 [71, 69, 84]]

def segmentEvent (f : List UInt8) : SaFlowEvent :=
  .packet ⟨(Pkt.initPacket f).tcpPacket, 1, true, true, false⟩ ⟨10, 0, 10, 512, 10⟩ true true

def exchanged (isn : UInt8) : Option SaSession :=
  (flowRun ((exchange isn).map segmentEvent)).session.map (·.sa)

def Parsed (f : List UInt8) : Prop :=
  Pkt.packetParse ipv6Registered 1 f = some (.parseOk, Pkt.parsedPacket f) ∧
    (Pkt.parsedPacket f).pktType = .tcp ∧
    Pkt.packetTcpInitFromPkt Pkt.blankTcp (Pkt.parsedPacket f) = some (Pkt.initPacket f) ∧
    ∀ bytes ∈ (Pkt.initPacket f).pdata, (Pkt.initPacket f).payloadLen ≤ bytes.length

instance (f : List UInt8) : Decidable (Parsed f) := inferInstanceAs (Decidable (_ ∧ _ ∧ _ ∧ _))

theorem taskEvent_segment {f : List UInt8} (h : Parsed f) :
    TaskEvent flowContext (segmentEvent f) := by
  obtain ⟨hparse, htype, hinit, hbytes⟩ := h
  refine ⟨⟨Pkt.parsedPacket f, Pkt.initPacket f, [], ?_, ?_, hbytes⟩, rfl⟩
  · exact Pkt.tcpFrame_of_parse hparse htype hinit
  · simp [Pkt.PacketTcp.tcpPacket]

theorem written_of_exchanged {isn : UInt8} (hparsed : ∀ f ∈ exchange isn, Parsed f)
    (hflow : ∀ f ∈ exchange isn,
      SameFlow (Pkt.initPacket (segment true thSyn isn 0 [])).tcpPacket
        (Pkt.initPacket f).tcpPacket)
    {y : SaSession} (hy : y ∈ exchanged isn) : Written flowContext y := by
  set k := (Pkt.initPacket (segment true thSyn isn 0 [])).tcpPacket with hk
  set frames := (exchange isn).map segmentEvent with hframes
  have hof : ∀ l ∈ frames ++ [.sessionExpired], OfFlow k l ∧ TaskEvent flowContext l := by
    rw [hframes, List.forall_mem_append, List.forall_mem_map, List.forall_mem_singleton]
    exact ⟨fun f hf => ⟨hflow f hf, taskEvent_segment (hparsed f hf)⟩, trivial, trivial⟩
  have hrun : SaFlowRun flowContext k (flowTrace (frames ++ [.sessionExpired]))
      (flowRun (frames ++ [.sessionExpired])) :=
    Run.guardedTrace fun v hv => (hof v.2 (mem_of_mem_trace hv)).1
  refine ⟨k, _, _, hrun, fun v hv => (hof v.2 (mem_of_mem_trace hv)).2,
    (flowRun frames, .sessionExpired), ?_, Option.mem_toList.2 hy⟩
  rw [flowTrace, trace_append]
  simp [flowRun]

def timeoutCall : RecordCall := ⟨7, 1, 1, 1, 60, false⟩

theorem written_exchange {isn : UInt8} (hisn : isn = 10 ∨ isn = 20) {y : SaSession}
    (hy : y ∈ exchanged isn) : Written flowContext y := by
  obtain rfl | rfl := hisn
  · exact written_of_exchanged (by decide +kernel) (by decide +kernel) hy
  · exact written_of_exchanged (by decide +kernel) (by decide +kernel) hy

theorem written_formats_agree_exchanged :
    (exchanged 10).isSome ∧ (exchanged 20).isSome ∧ exchanged 10 ≠ exchanged 20 ∧
    ∀ y ∈ exchanged 10, ∀ z ∈ exchanged 20,
      (let out := tcpSessionOut [] (y.output timeoutCall).record
      ∃ go, goTcpSession.run (tcpSessionStoreMsgpack (y.output timeoutCall)) = some (go, []) ∧
        go.Agrees (recordMemory 4096 out) (readRecord (recordMemory 4096 out) 4096 noPeers out)) ∧
      outData y.req.dstore = outData z.req.dstore := by
  refine ⟨by decide +kernel, by decide +kernel, by decide +kernel, ?_⟩
  intro y hy z hz
  have hwritten := written_exchange (.inl rfl) hy
  have hsame : (exchanged 10).map (fun y => tcpSessionStoreMsgpack (y.output timeoutCall)) =
      (exchanged 20).map fun z => tcpSessionStoreMsgpack (z.output timeoutCall) := by
    decide +kernel
  rw [hy, hz, Option.map_some, Option.map_some, Option.some.injEq] at hsame
  refine ⟨?_, ?_⟩
  · exact (written_formats_agree [] noPeers).1 _ _ _ _ _ hwritten (Memory.read_write _ _ _)
  · exact ((written_formats_agree [] noPeers).2 _ _ _ _ _ _ hwritten
      (written_exchange (.inr rfl) hz) hsame).2.2.1

end CloudHands.Sa

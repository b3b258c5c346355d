import CloudHands.Sa.SessionHandler
import CloudHands.Udp.Endpoint

/-!
# The UDP sessions of the stream analysis

`ch_sa_udp_session_handler.c`: the packets of one flow from the one that creates the session
on. The packets of a session are kept with it for the statements only.
-/

namespace CloudHands.Sa

open CloudHands.Lib
open CloudHands.Tcp (SessionDirect)
open CloudHands.Pkt
open CloudHands.Udp

structure SaUdpSide where
  dstore : Option DataStore
  error : Bool
deriving DecidableEq, Repr

/-- `ch_sa_udp_session_t`. -/
structure SaUdpEntry where
  peers : SaUdpSession
  tallies : EndpointTallies
  req : SaUdpSide
  res : SaUdpSide
  seen : List UdpArrival

def SaUdpEntry.side (x : SaUdpEntry) : SessionDirect → SaUdpSide
  | .req => x.req
  | .res => x.res

def SaUdpEntry.setSide (x : SaUdpEntry) (d : SessionDirect) (side : SaUdpSide) : SaUdpEntry :=
  match d with
  | .req => { x with req := side }
  | .res => { x with res := side }

structure SaUdpDelivery where
  arrival : UdpArrival
  memory : SaUdpSession
  pool : DataStorePool
  mallocOk : Bool
  sessionOk : Bool

/-- `ch_sa_udp_session_init`. -/
def saUdpEntryInit (l : SaUdpDelivery) : SaUdpEntry where
  peers := saUdpSessionInit l.memory l.arrival.pkt
  tallies := endpointTalliesInit l.arrival
  req := ⟨none, false⟩
  res := ⟨none, false⟩
  seen := [l.arrival]

def udpDataWrite (ctx : SaContext) (l : SaUdpDelivery) (side : SaUdpSide) (data : List UInt8)
    (dlen : ℕ) : SaUdpSide :=
  let got :=
    match side.dstore with
    | some dst => some dst
    | none => (dataStoreGet l.mallocOk l.pool).1
  match got with
  | none => { side with error := true }
  | some dst =>
    let rwDlen := dst.data.length
    let rDlen :=
      if ctx.payloadDataSize < rwDlen + dlen then ctx.payloadDataSize - rwDlen else dlen
    { side with dstore := some (dataStoreWrite dst data rDlen) }

/-- `ch_sa_udp_session_packet_handle` from the endpoint on. -/
def saUdpEndpointHandle (ctx : SaContext) (l : SaUdpDelivery) (x : SaUdpEntry)
    (d : SessionDirect) : SaUdpEntry :=
  let rwDsize := dstoreSize (x.side d).dstore
  let x := { x with tallies := x.tallies.update d l.arrival }
  match l.arrival.pkt.pdata with
  | none => x
  | some data =>
    if 0 < l.arrival.pkt.payloadLen ∧ rwDsize < ctx.payloadDataSize ∧ (x.side d).error = false then
      x.setSide d (udpDataWrite ctx l (x.side d) data l.arrival.pkt.payloadLen)
    else x

/-- `ch_sa_udp_session_packet_handle` with the result of the lookup. -/
def saUdpSessionPacketHandle (ctx : SaContext) (l : SaUdpDelivery) :
    Option SaUdpEntry → Option SaUdpEntry
  | none => if l.sessionOk then some (saUdpEndpointHandle ctx l (saUdpEntryInit l) .req) else none
  | some x =>
    let x := { x with seen := x.seen ++ [l.arrival] }
    match udpEndpointGet x.peers l.arrival.pkt with
    | none => some x
    | some d => some (saUdpEndpointHandle ctx l x d)

/-- A packet of the flow, or the end of its session in a drain of the timeout ring. -/
inductive SaUdpEvent
  | packet (l : SaUdpDelivery)
  | expired

def saUdpHandle (ctx : SaContext) (x : Option SaUdpEntry) : SaUdpEvent → Option SaUdpEntry
  | .packet l => saUdpSessionPacketHandle ctx l x
  | .expired => none

def SaUdpStep (ctx : SaContext) (x : Option SaUdpEntry) (e : SaUdpEvent) (x' : Option SaUdpEntry) :
    Prop :=
  (match e with
    | .packet l => ∀ s ∈ x, saUdpSessionEntryEqual s.peers l.arrival.pkt = true
    | .expired => True) ∧ x' = saUdpHandle ctx x e

def SaUdpRun (ctx : SaContext) : List (Option SaUdpEntry × SaUdpEvent) → Option SaUdpEntry → Prop :=
  Run (SaUdpStep ctx) none

def payloadOf (a : UdpArrival) : List UInt8 := (a.pkt.pdata.getD []).take a.pkt.payloadLen

def payloadsOf (s : SaUdpSession) (seen : List UdpArrival) (d : SessionDirect) : List UInt8 :=
  (seen.filter fun a => udpEndpointGet s a.pkt = some d).flatMap payloadOf

def SaUdpEntry.stored (x : SaUdpEntry) (d : SessionDirect) : List UInt8 :=
  (x.side d).dstore.elim [] (·.data)

/-- The statistics of the session are those of its packets, and its stores hold their
payloads up to the configured size. -/
def SaUdpExact (ctx : SaContext) (x : SaUdpEntry) : Prop :=
  StatisticsExact x.peers x.tallies x.seen ∧
    ∀ d, x.stored d = (payloadsOf x.peers x.seen d).take ctx.payloadDataSize

theorem endpointGet_saUdpSessionInit (memory : SaUdpSession) (pkt : PacketUdp) :
    udpEndpointGet (saUdpSessionInit memory pkt) pkt = some .req := by
  unfold udpEndpointGet isUdpRequest saUdpSessionInit
  cases hfamily : pkt.isIpv6 <;> simp

theorem saUdpEndpointHandle_fields (ctx : SaContext) (l : SaUdpDelivery) (x : SaUdpEntry)
    (d : SessionDirect) :
    (saUdpEndpointHandle ctx l x d).tallies = x.tallies.update d l.arrival ∧
      (saUdpEndpointHandle ctx l x d).peers = x.peers ∧
      (saUdpEndpointHandle ctx l x d).seen = x.seen := by
  unfold saUdpEndpointHandle
  dsimp only
  split
  · exact ⟨rfl, rfl, rfl⟩
  · split <;> cases d <;> exact ⟨rfl, rfl, rfl⟩

@[simp] theorem saUdpEndpointHandle_tallies (ctx : SaContext) (l : SaUdpDelivery) (x : SaUdpEntry)
    (d : SessionDirect) :
    (saUdpEndpointHandle ctx l x d).tallies = x.tallies.update d l.arrival :=
  (saUdpEndpointHandle_fields ctx l x d).1

@[simp] theorem saUdpEndpointHandle_peers (ctx : SaContext) (l : SaUdpDelivery) (x : SaUdpEntry)
    (d : SessionDirect) : (saUdpEndpointHandle ctx l x d).peers = x.peers :=
  (saUdpEndpointHandle_fields ctx l x d).2.1

@[simp] theorem saUdpEndpointHandle_seen (ctx : SaContext) (l : SaUdpDelivery) (x : SaUdpEntry)
    (d : SessionDirect) : (saUdpEndpointHandle ctx l x d).seen = x.seen :=
  (saUdpEndpointHandle_fields ctx l x d).2.2

def SaUdpFirstTwice (x : Option SaUdpEntry) : Prop :=
  ∀ s ∈ x, FirstTwice s.peers s.tallies s.seen

theorem saUdpStep_firstTwice {ctx : SaContext} {x x' : Option SaUdpEntry} {e : SaUdpEvent}
    (hx : SaUdpFirstTwice x) (hstep : SaUdpStep ctx x e x') : SaUdpFirstTwice x' := by
  obtain ⟨hlookup, rfl⟩ := hstep
  cases e with
  | expired => exact fun s hs => absurd hs (by simp [saUdpHandle])
  | packet l =>
    intro s hs
    rw [saUdpHandle] at hs
    cases x with
    | none =>
      rw [saUdpSessionPacketHandle] at hs
      split at hs
      · obtain rfl := Option.some.inj hs
        rw [saUdpEndpointHandle_peers, saUdpEndpointHandle_tallies, saUdpEndpointHandle_seen]
        exact FirstTwice.init (endpointGet_saUdpSessionInit l.memory l.arrival.pkt)
      · cases hs
    | some y =>
      obtain ⟨d, hd⟩ := exists_endpointGet (hlookup y rfl)
      simp only [saUdpSessionPacketHandle, hd] at hs
      obtain rfl := Option.some.inj hs
      rw [saUdpEndpointHandle_peers, saUdpEndpointHandle_tallies, saUdpEndpointHandle_seen]
      exact (hx y rfl).update hd

/-- No session has exact statistics at any point of any run: its first packet is counted by
the initialiser and again by the update. -/
theorem saUdp_statistics_never_exact (ctx : SaContext)
    (history : List (Option SaUdpEntry × SaUdpEvent)) (x : Option SaUdpEntry)
    (hrun : SaUdpRun ctx history x) :
    (∀ s ∈ x, ¬ SaUdpExact ctx s) ∧ ∀ v ∈ history, ∀ s ∈ v.1, ¬ SaUdpExact ctx s := by
  have hinit : SaUdpFirstTwice none := by simp [SaUdpFirstTwice]
  have hkeep : ∀ {y e y'}, SaUdpFirstTwice y → True → SaUdpStep ctx y e y' → SaUdpFirstTwice y' :=
    fun hy _ hstep => saUdpStep_firstTwice hy hstep
  obtain ⟨hlast, hall⟩ := Run.stateInvariant hinit hkeep hrun (StepsOk.of_forall fun _ _ => trivial)
  exact ⟨fun s hs hexact => (hlast s hs).not_exact hexact.1,
    fun v hv s hs hexact => (hall v hv s hs).not_exact hexact.1⟩

/-- The store of an endpoint holds the first bytes of `bytes`. -/
structure SideHolds (max : ℕ) (side : SaUdpSide) (bytes : List UInt8) : Prop where
  error : side.error = false
  data : side.dstore.elim [] (·.data) = bytes.take max
  size : ∀ dst ∈ side.dstore, dst.dsize = max

def StoresOk (ctx : SaContext) : SaUdpEvent → Prop
  | .packet l => l.pool.dsize = ctx.payloadDataSize ∧ (dataStoreGet l.mallocOk l.pool).1.isSome
  | .expired => True

theorem take_append_room (bytes data : List UInt8) (dlen max : ℕ) :
    (bytes ++ data.take dlen).take max =
      bytes.take max ++ data.take (min dlen (max - (bytes.take max).length)) := by
  rw [List.take_append, List.take_take, List.length_take]
  congr 2
  omega

theorem dataStoreWrite_data {dst : DataStore} {ctx : SaContext}
    (hsize : dst.dsize = ctx.payloadDataSize)
    (data : List UInt8) (dlen : ℕ) :
    (dataStoreWrite dst data (if ctx.payloadDataSize < dst.data.length + dlen then
      ctx.payloadDataSize - dst.data.length else dlen)).data =
      dst.data ++ data.take (min dlen (ctx.payloadDataSize - dst.data.length)) := by
  have hroom : dataStoreRoom dst (if ctx.payloadDataSize < dst.data.length + dlen then
      ctx.payloadDataSize - dst.data.length else dlen) =
      min dlen (ctx.payloadDataSize - dst.data.length) := by
    unfold dataStoreRoom
    split_ifs <;> omega
  exact congrArg (fun r => dst.data ++ data.take r) hroom

theorem dataStoreGet_empty {mallocOk : Bool} {dsp : DataStorePool} {dst : DataStore}
    (h : (dataStoreGet mallocOk dsp).1 = some dst) : dst = .empty dsp.dsize := by
  unfold dataStoreGet at h
  split_ifs at h <;> simp_all

theorem SideHolds.write {ctx : SaContext} {l : SaUdpDelivery} {side : SaUdpSide}
    {bytes : List UInt8} (h : SideHolds ctx.payloadDataSize side bytes)
    (hl : StoresOk ctx (.packet l)) (data : List UInt8) (dlen : ℕ) :
    SideHolds ctx.payloadDataSize (udpDataWrite ctx l side data dlen) (bytes ++
      data.take dlen) := by
  have hstore : ∃ dst : DataStore, (match side.dstore with
      | some dst => some dst
      | none => (dataStoreGet l.mallocOk l.pool).1) = some dst ∧
      dst.dsize = ctx.payloadDataSize ∧ dst.data = bytes.take ctx.payloadDataSize := by
    have hdata := h.data
    cases hside : side.dstore with
    | some dst =>
      rw [hside] at hdata
      exact ⟨dst, rfl, h.size dst hside, hdata⟩
    | none =>
      rw [hside] at hdata
      obtain ⟨dst, hdst⟩ := Option.isSome_iff_exists.1 hl.2
      refine ⟨dst, hdst, ?_, ?_⟩
      · rw [dataStoreGet_empty hdst]
        exact hl.1
      · rw [dataStoreGet_empty hdst]
        exact hdata
  obtain ⟨dst, hgot, hsize, hdata⟩ := hstore
  unfold udpDataWrite
  simp only [hgot]
  refine ⟨h.error, ?_, ?_⟩
  · rw [Option.elim_some, dataStoreWrite_data hsize, take_append_room, hdata]
  · intro dst' hdst'
    obtain rfl := Option.some.inj hdst'
    exact hsize

theorem take_append_of_full {bytes : List UInt8} {max : ℕ} (h : max ≤ (bytes.take max).length)
    (more : List UInt8) : (bytes ++ more).take max = bytes.take max := by
  rw [List.length_take] at h
  exact List.take_append_of_le_length (by omega)

theorem SideHolds.handle {ctx : SaContext} {l : SaUdpDelivery} {x : SaUdpEntry}
    (hl : StoresOk ctx (.packet l)) {bytes : SessionDirect → List UInt8}
    (h : ∀ d, SideHolds ctx.payloadDataSize (x.side d) (bytes d)) (d d' : SessionDirect) :
    SideHolds ctx.payloadDataSize ((saUdpEndpointHandle ctx l x d).side d')
      (bytes d' ++ if d = d' then payloadOf l.arrival else []) := by
  have hother : d ≠ d' → SideHolds ctx.payloadDataSize
      ((saUdpEndpointHandle ctx l x d).side d') (bytes d' ++ []) := by
    intro hne
    have hsame : (saUdpEndpointHandle ctx l x d).side d' = x.side d' := by
      unfold saUdpEndpointHandle
      dsimp only
      split
      · cases d' <;> rfl
      · split <;> cases d <;> cases d' <;> first | rfl | exact absurd rfl hne
    rw [hsame, List.append_nil]
    exact h d'
  by_cases heq : d = d'
  · subst heq
    rw [if_pos rfl]
    have hd := h d
    unfold saUdpEndpointHandle payloadOf
    dsimp only
    cases hpdata : l.arrival.pkt.pdata with
    | none =>
      simp only [Option.getD_none, List.take_nil, List.append_nil]
      cases d <;> exact hd
    | some data =>
      simp only [Option.getD_some]
      split
      · have hwritten := hd.write hl data l.arrival.pkt.payloadLen
        cases d <;> exact hwritten
      case isFalse hskip =>
        have hside : ({ x with tallies := x.tallies.update d l.arrival } : SaUdpEntry).side d =
            x.side d := by
          cases d <;> rfl
        rw [hside] at hskip ⊢
        have hcases : l.arrival.pkt.payloadLen = 0 ∨
            ctx.payloadDataSize ≤ ((bytes d).take ctx.payloadDataSize).length := by
          rw [← hd.data]
          have hlen : dstoreSize (x.side d).dstore =
              ((x.side d).dstore.elim [] (·.data)).length := by
            cases (x.side d).dstore <;> rfl
          rw [← hlen]
          by_contra hno
          exact hskip ⟨by omega, by omega, hd.error⟩
        rcases hcases with hzero | hfull
        · rw [hzero, List.take_zero, List.append_nil]
          exact hd
        · exact ⟨hd.error, hd.data.trans (take_append_of_full hfull _).symm, hd.size⟩
  · rw [if_neg heq]
    exact hother heq

def SaUdpHolds (ctx : SaContext) (x : Option SaUdpEntry) : Prop :=
  ∀ s ∈ x, ∀ d, SideHolds ctx.payloadDataSize (s.side d) (payloadsOf s.peers s.seen d)

theorem payloadsOf_snoc (s : SaUdpSession) (seen : List UdpArrival) (a : UdpArrival)
    {d : SessionDirect} (hd : udpEndpointGet s a.pkt = some d) (d' : SessionDirect) :
    payloadsOf s (seen ++ [a]) d' =
      payloadsOf s seen d' ++ if d = d' then payloadOf a else [] := by
  unfold payloadsOf
  rw [List.filter_append, List.flatMap_append]
  by_cases h : d = d' <;> simp [hd, h]

theorem saUdpStep_holds {ctx : SaContext} {x x' : Option SaUdpEntry} {e : SaUdpEvent}
    (hx : SaUdpHolds ctx x) (he : StoresOk ctx e) (hstep : SaUdpStep ctx x e x') :
    SaUdpHolds ctx x' := by
  obtain ⟨hlookup, rfl⟩ := hstep
  cases e with
  | expired => exact fun s hs => absurd hs (by simp [saUdpHandle])
  | packet l =>
    intro s hs d'
    rw [saUdpHandle] at hs
    cases x with
    | none =>
      rw [saUdpSessionPacketHandle] at hs
      split at hs
      · obtain rfl := Option.some.inj hs
        have hget := endpointGet_saUdpSessionInit l.memory l.arrival.pkt
        have hempty : ∀ d, SideHolds ctx.payloadDataSize ((saUdpEntryInit l).side d) [] := by
          intro d
          cases d <;> constructor <;> simp [SaUdpEntry.side, saUdpEntryInit]
        rw [saUdpEndpointHandle_peers, saUdpEndpointHandle_seen]
        have hnew := payloadsOf_snoc (saUdpEntryInit l).peers [] l.arrival hget d'
        rw [show (saUdpEntryInit l).seen = [] ++ [l.arrival] from rfl, hnew]
        exact SideHolds.handle he hempty .req d'
      · cases hs
    | some y =>
      obtain ⟨d, hd⟩ := exists_endpointGet (hlookup y rfl)
      simp only [saUdpSessionPacketHandle, hd] at hs
      obtain rfl := Option.some.inj hs
      rw [saUdpEndpointHandle_peers, saUdpEndpointHandle_seen]
      dsimp only
      rw [payloadsOf_snoc y.peers y.seen l.arrival hd d']
      refine SideHolds.handle he (fun d => ?_) d d'
      cases d
      · exact hx y rfl .req
      · exact hx y rfl .res

theorem saUdp_stored_payload (ctx : SaContext) (history : List (Option SaUdpEntry × SaUdpEvent))
    (x : Option SaUdpEntry) (hrun : SaUdpRun ctx history x)
    (hstores : ∀ v ∈ history, StoresOk ctx v.2) :
    ∀ s ∈ x, ∀ d, s.stored d = (payloadsOf s.peers s.seen d).take ctx.payloadDataSize := by
  have hinit : SaUdpHolds ctx none := by simp [SaUdpHolds]
  have hkeep : ∀ {y e y'}, SaUdpHolds ctx y → StoresOk ctx e → SaUdpStep ctx y e y' →
      SaUdpHolds ctx y' :=
    fun hy he hstep => saUdpStep_holds hy he hstep
  have hall : StepsOk (fun _ _ e => StoresOk ctx e) history :=
    StepsOk.of_forall fun v hv => hstores v hv
  exact fun s hs d => ((Run.stateInvariant hinit hkeep hrun hall).1 s hs d).data

section OnePacket

def onePacket : SaUdpDelivery where
  arrival :=
    { pkt :=
        { ipDlen := 1, tthLen := 42, payloadLen := 1, pdata := some [65], isIpv6 := false
          srcIp := 1, dstIp := 2, srcAddr := 0, dstAddr := 0, srcPort := 1000, dstPort := 53 }
      timestamp := 7 }
  memory := ⟨false, 0, 0, 0, 0, 0, 0⟩
  pool := ⟨10, 0, 10, 128, 10⟩
  mallocOk := true
  sessionOk := true

def udpContext : SaContext := ⟨128, false⟩

theorem onePacket_run :
    SaUdpRun udpContext [(none, .packet onePacket)]
      (saUdpHandle udpContext none (.packet onePacket)) :=
  Run.snoc .nil ⟨by simp, rfl⟩

theorem saUdp_statistics_never_exact_onePacket :
    ∃ s ∈ saUdpHandle udpContext none (.packet onePacket),
      s.tallies.req.packets = 2 ∧ ¬ SaUdpExact udpContext s :=
  ⟨_, rfl, rfl, (saUdp_statistics_never_exact udpContext _ _ onePacket_run).1 _ rfl⟩

theorem onePacket_not_exact :
    ¬ ∀ (ctx : SaContext) (history : List (Option SaUdpEntry × SaUdpEvent)) (x : Option SaUdpEntry),
      SaUdpRun ctx history x → ∀ s ∈ x, SaUdpExact ctx s := by
  intro h
  have hexact := h udpContext _ _ onePacket_run _ rfl
  have hpackets := (hexact.1 .req).packets
  have htwo : (2 : ℕ) = 1 % 2 ^ 64 := hpackets
  omega

end OnePacket

end CloudHands.Sa

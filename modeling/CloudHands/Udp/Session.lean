import CloudHands.Lib.Run
import CloudHands.Udp.Endpoint

/-!
# The sessions of the udp process

`udp/session/ch_udp_session_request_handler.c` and `ch_udp_session_handler.c`, from a packet
to the session it belongs to. A session is created for a packet of an application that takes
packets at once, or for the packet with which the application is done with a pending request.
What the applications answer, and the pool of pending requests that they search, are part of
the label of a step; a pending request need not have the addresses of the session.
-/

namespace CloudHands.Udp

open CloudHands.Lib
open CloudHands.Tcp (SessionDirect)
open CloudHands.Pkt

/-- `ch_udp_session_t`, with its packets for the statements. -/
structure UdpSession where
  peers : SaUdpSession
  tallies : EndpointTallies
  seen : List UdpArrival

/-- The addresses in `ch_udp_session_init`: those of IPv4 are always copied. -/
def udpPeersInit (s : SaUdpSession) (pkt : PacketUdp) : SaUdpSession :=
  let s := { s with isIpv6 := pkt.isIpv6 }
  let s := if pkt.isIpv6 then { s with reqAddr := pkt.srcAddr, resAddr := pkt.dstAddr } else s
  { s with reqIp := pkt.srcIp, reqPort := pkt.srcPort, resIp := pkt.dstIp, resPort := pkt.dstPort }

def udpSessionInit (memory : SaUdpSession) (a : UdpArrival) : UdpSession :=
  ⟨udpPeersInit memory a.pkt, endpointTalliesInit a, [a]⟩

inductive ReqSessionRc
  | done
  | continue
  | error
deriving DecidableEq, Repr

inductive ProcessRc
  | continue
  | done
  | err
deriving DecidableEq, Repr

structure UdpDelivery where
  arrival : UdpArrival
  memory : SaUdpSession
  request : Option ReqSessionRc
  app : Option Bool
  sessionOk : Bool
  process : ProcessRc

/-- The session of a flow and the sessions of it that have ended. -/
structure UdpFlow where
  session : Option UdpSession
  ended : List UdpSession

/-- `_udp_app_pkt_handle`: unless the application goes on, the session is freed. -/
def UdpFlow.appPktHandle (f : UdpFlow) (s : UdpSession) : ProcessRc → UdpFlow
  | .continue => { f with session := some s }
  | .done | .err => { f with session := none, ended := f.ended ++ [s] }

/-- `ch_udp_session_packet_handle`. -/
def UdpFlow.packetHandle (f : UdpFlow) (s : UdpSession) (l : UdpDelivery) (isNewCreated : Bool) :
    UdpFlow :=
  match if isNewCreated then some .req else udpEndpointGet s.peers l.arrival.pkt with
  | none => { f with session := some s }
  | some d => f.appPktHandle { s with tallies := s.tallies.update d l.arrival } l.process

/-- `_create_udp_session_and_process`. -/
def UdpFlow.createAndProcess (f : UdpFlow) (l : UdpDelivery) : UdpFlow :=
  if l.sessionOk then f.packetHandle (udpSessionInit l.memory l.arrival) l true else f

/-- `ch_udp_session_request_packet_handle`. -/
def UdpFlow.requestPacketHandle (f : UdpFlow) (l : UdpDelivery) : UdpFlow :=
  match f.session with
  | some s => f.packetHandle { s with seen := s.seen ++ [l.arrival] } l false
  | none =>
    match l.request with
    | some .continue => f
    | some .done => f.createAndProcess l
    | some .error => f
    | none =>
      match l.app with
      | none => f
      | some true => f
      | some false => f.createAndProcess l

/-- A packet, or the end of the session in a drain of the timeout ring. -/
inductive UdpEvent
  | packet (l : UdpDelivery)
  | expired

def UdpFlow.handle (f : UdpFlow) : UdpEvent → UdpFlow
  | .packet l => f.requestPacketHandle l
  | .expired => { session := none, ended := f.ended ++ f.session.toList }

def UdpStep (f : UdpFlow) (e : UdpEvent) (f' : UdpFlow) : Prop :=
  (match e with
    | .packet l => ∀ s ∈ f.session, saUdpSessionEntryEqual s.peers l.arrival.pkt = true
    | .expired => True) ∧ f' = f.handle e

def UdpRun : List (UdpFlow × UdpEvent) → UdpFlow → Prop := Run UdpStep ⟨none, []⟩

def UdpFlow.sessions (f : UdpFlow) : List UdpSession := f.session.toList ++ f.ended

/-- Every packet that the lookup attributed to the session has one direction, and the counters
of each endpoint are those of the packets of its direction. -/
def EndpointsExact (s : UdpSession) : Prop :=
  (∀ a ∈ s.seen, ∃ d, udpEndpointGet s.peers a.pkt = some d) ∧
    StatisticsExact s.peers s.tallies s.seen

theorem endpointGet_udpPeersInit (memory : SaUdpSession) (pkt : PacketUdp) :
    udpEndpointGet (udpPeersInit memory pkt) pkt = some .req := by
  unfold udpEndpointGet isUdpRequest udpPeersInit
  cases hfamily : pkt.isIpv6 <;> simp

structure UdpSessionOk (s : UdpSession) : Prop where
  twice : FirstTwice s.peers s.tallies s.seen
  classified : ∀ a ∈ s.seen, ∃ d, udpEndpointGet s.peers a.pkt = some d

def UdpFlowOk (f : UdpFlow) : Prop := ∀ s ∈ f.sessions, UdpSessionOk s

theorem mem_sessions_appPktHandle {f : UdpFlow} {s s' : UdpSession} {rc : ProcessRc}
    (h : s' ∈ (f.appPktHandle s rc).sessions) : s' = s ∨ s' ∈ f.ended := by
  cases rc <;> simp only [UdpFlow.appPktHandle, UdpFlow.sessions, List.mem_append] at h <;>
    simp at h <;> tauto

theorem UdpFlowOk.createAndProcess {f : UdpFlow} (hf : UdpFlowOk f) (l : UdpDelivery) :
    UdpFlowOk (f.createAndProcess l) := by
  unfold UdpFlow.createAndProcess
  split
  · intro s hs
    rcases mem_sessions_appPktHandle hs with rfl | hended
    · have hget := endpointGet_udpPeersInit l.memory l.arrival.pkt
      refine ⟨FirstTwice.init hget, ?_⟩
      intro a ha
      rw [List.mem_singleton.1 ha]
      exact ⟨.req, hget⟩
    · exact hf s (List.mem_append_right _ hended)
  · exact hf

theorem UdpFlowOk.packet {f : UdpFlow} (hf : UdpFlowOk f) {l : UdpDelivery} {s : UdpSession}
    (hs : f.session = some s) (hlookup : saUdpSessionEntryEqual s.peers l.arrival.pkt = true) :
    UdpFlowOk (f.packetHandle { s with seen := s.seen ++ [l.arrival] } l false) := by
  obtain ⟨d, hd⟩ := exists_endpointGet hlookup
  have hok := hf s (List.mem_append_left _ (by simp [hs]))
  simp only [UdpFlow.packetHandle, Bool.false_eq_true, if_false, hd]
  intro s' hs'
  rcases mem_sessions_appPktHandle hs' with rfl | hended
  · refine ⟨hok.twice.update hd, ?_⟩
    intro a ha
    rcases List.mem_append.1 ha with hold | hlast
    · exact hok.classified a hold
    · rw [List.mem_singleton.1 hlast]
      exact ⟨d, hd⟩
  · exact hf s' (List.mem_append_right _ hended)

theorem udpStep_ok {f f' : UdpFlow} {e : UdpEvent} (hf : UdpFlowOk f) (hstep : UdpStep f e f') :
    UdpFlowOk f' := by
  obtain ⟨hlookup, rfl⟩ := hstep
  cases e with
  | expired =>
    intro s hs
    refine hf s ?_
    simp only [UdpFlow.handle, UdpFlow.sessions, List.mem_append] at hs ⊢
    simpa [or_comm] using hs
  | packet l =>
    rw [UdpFlow.handle, UdpFlow.requestPacketHandle]
    cases hsession : f.session with
    | some s => exact hf.packet hsession (hlookup s hsession)
    | none =>
      dsimp only
      split
      · exact hf
      · exact hf.createAndProcess l
      · exact hf
      · split
        · exact hf
        · exact hf
        · exact hf.createAndProcess l

theorem udpRun_ok {history : List (UdpFlow × UdpEvent)} {f : UdpFlow} (hrun : UdpRun history f) :
    UdpFlowOk f ∧ ∀ v ∈ history, UdpFlowOk v.1 := by
  have hinit : UdpFlowOk ⟨none, []⟩ := by simp [UdpFlowOk, UdpFlow.sessions]
  have hkeep : ∀ {g e g'}, UdpFlowOk g → True → UdpStep g e g' → UdpFlowOk g' :=
    fun hg _ hstep => udpStep_ok hg hstep
  exact Run.stateInvariant hinit hkeep hrun (StepsOk.of_forall fun _ _ => trivial)

/-- No session, live or ended, has exact endpoint statistics at any point of any run: on both
ways to create a session its first packet is counted by the initialiser and by the update. -/
theorem endpoint_statistics_never_exact (history : List (UdpFlow × UdpEvent)) (f : UdpFlow)
    (hrun : UdpRun history f) :
    (∀ s ∈ f.sessions, ¬ EndpointsExact s) ∧
      ∀ v ∈ history, ∀ s ∈ v.1.sessions, ¬ EndpointsExact s := by
  obtain ⟨hlast, hall⟩ := udpRun_ok hrun
  exact ⟨fun s hs hexact => (hlast s hs).twice.not_exact hexact.2,
    fun v hv s hs hexact => (hall v hv s hs).twice.not_exact hexact.2⟩

theorem packets_classified {history : List (UdpFlow × UdpEvent)} {f : UdpFlow}
    (hrun : UdpRun history f) :
    ∀ s ∈ f.sessions, ∀ a ∈ s.seen, ∃ d, udpEndpointGet s.peers a.pkt = some d :=
  fun s hs => ((udpRun_ok hrun).1 s hs).classified

section OneRequest

def oneRequest : UdpDelivery where
  arrival :=
    { pkt :=
        { ipDlen := 1, tthLen := 42, payloadLen := 1, pdata := some [65], isIpv6 := false
          srcIp := 1, dstIp := 2, srcAddr := 0, dstAddr := 0, srcPort := 1000, dstPort := 53 }
      timestamp := 7 }
  memory := ⟨false, 0, 0, 0, 0, 0, 0⟩
  request := none
  app := some false
  sessionOk := true
  process := .continue

def oneRequestFlow : UdpFlow := UdpFlow.handle ⟨none, []⟩ (.packet oneRequest)

theorem oneRequest_run : UdpRun [(⟨none, []⟩, .packet oneRequest)] oneRequestFlow :=
  Run.snoc .nil ⟨by simp, rfl⟩

theorem endpoint_statistics_never_exact_oneRequest :
    oneRequestFlow.sessions.map (fun s => s.tallies.req.packets) = [2] ∧
      ∀ s ∈ oneRequestFlow.sessions, ¬ EndpointsExact s :=
  ⟨by decide +kernel, (endpoint_statistics_never_exact _ _ oneRequest_run).1⟩

theorem oneRequest_not_exact :
    ¬ ∀ (history : List (UdpFlow × UdpEvent)) (f : UdpFlow), UdpRun history f →
      ∀ s ∈ f.sessions, EndpointsExact s := by
  intro h
  have hcounts : oneRequestFlow.sessions.map (fun s =>
      (s.tallies.req.packets, (observationsOf s.peers s.seen .req).length)) = [(2, 1)] := by
    decide +kernel
  obtain ⟨s, hs, hpair⟩ := List.mem_map.1 (hcounts ▸ List.mem_singleton_self (2, 1))
  have hpackets := ((h _ _ oneRequest_run s hs).2 .req).packets
  rw [Prod.mk.injEq] at hpair
  rw [hpair.2] at hpackets
  have htwo : (2 : ℕ) = 1 % 2 ^ 64 := hpair.1.symm.trans hpackets
  omega

end OneRequest

end CloudHands.Udp

import CloudHands.Lib.Tally
import CloudHands.Pkt.FlowHash

/-!
# The endpoints of a UDP session

The stream analysis and the udp process have the endpoints of a UDP session and the functions
on them in two copies (`StreamAnalyze/ch_sa_udp_session.h`, `udp/session/ch_udp_session.h`).
A new session is initialised with its first packet counted, and the handlers of both then
update it with the same packet.
-/

namespace CloudHands.Udp

open CloudHands.Word (add)
open CloudHands.Lib
open CloudHands.Tcp (SessionDirect)
open CloudHands.Pkt

structure UdpArrival where
  pkt : PacketUdp
  timestamp : ℕ
deriving DecidableEq

def UdpArrival.observation (a : UdpArrival) : Observation := ⟨a.pkt.payloadLen, a.timestamp⟩

/-- `ch_udp_session_endpoint_get` and its copy. -/
def udpEndpointGet (s : SaUdpSession) (pkt : PacketUdp) : Option SessionDirect :=
  if isUdpRequest s pkt then some .req
  else if isUdpResponse s pkt then some .res
  else none

structure EndpointTallies where
  req : Tally
  res : Tally
deriving DecidableEq, Repr

def EndpointTallies.get (t : EndpointTallies) : SessionDirect → Tally
  | .req => t.req
  | .res => t.res

def EndpointTallies.set (t : EndpointTallies) (d : SessionDirect) (tally : Tally) :
    EndpointTallies :=
  match d with
  | .req => { t with req := tally }
  | .res => { t with res := tally }

/-- The counters as `ch_udp_session_init` and its copy leave them. -/
def endpointTalliesInit (a : UdpArrival) : EndpointTallies where
  req := ⟨1, a.pkt.payloadLen, a.timestamp, a.timestamp⟩
  res := ⟨0, 0, a.timestamp, a.timestamp⟩

/-- `ch_udp_session_update` and its copy: the test for the first packet comes after the
packet has been counted. -/
def udpSessionUpdate (t : Tally) (a : UdpArrival) : Tally :=
  let packets := add 64 t.packets 1
  { packets := packets
    bytes := add 64 t.bytes a.pkt.payloadLen
    startTime := if packets = 0 then a.timestamp else t.startTime
    lastTime := a.timestamp }

def EndpointTallies.update (t : EndpointTallies) (d : SessionDirect) (a : UdpArrival) :
    EndpointTallies :=
  t.set d (udpSessionUpdate (t.get d) a)

def observationsOf (s : SaUdpSession) (seen : List UdpArrival) (d : SessionDirect) :
    List Observation :=
  (seen.filter fun a => udpEndpointGet s a.pkt = some d).map UdpArrival.observation

def StatisticsExact (s : SaUdpSession) (t : EndpointTallies) (seen : List UdpArrival) : Prop :=
  ∀ d, (t.get d).Counts (observationsOf s seen d)

theorem observationsOf_snoc (s : SaUdpSession) (seen : List UdpArrival) (a : UdpArrival)
    (d : SessionDirect) :
    observationsOf s (seen ++ [a]) d = observationsOf s seen d ++
      if udpEndpointGet s a.pkt = some d then [a.observation] else [] := by
  unfold observationsOf
  rw [List.filter_append, List.map_append]
  by_cases h : udpEndpointGet s a.pkt = some d <;> simp [h]

theorem exists_endpointGet {s : SaUdpSession} {pkt : PacketUdp}
    (h : saUdpSessionEntryEqual s pkt = true) : ∃ d, udpEndpointGet s pkt = some d := by
  rw [saUdpSessionEntryEqual, Bool.or_eq_true] at h
  unfold udpEndpointGet
  split
  · exact ⟨.req, rfl⟩
  case isFalse hnot =>
    rw [if_pos (h.resolve_left hnot)]
    exact ⟨.res, rfl⟩

/-- What the counters of an endpoint are: `n` packets and `b` bytes too many. -/
structure Overcounts (n b : ℕ) (t : Tally) (obs : List Observation) : Prop where
  packets : t.packets = (obs.length + n) % 2 ^ 64
  bytes : t.bytes = (Tally.total obs + b) % 2 ^ 64
  lastTime : ∀ o ∈ obs.getLast?, t.lastTime = o.time

theorem Overcounts.update {n b : ℕ} {t : Tally} {obs : List Observation}
    (h : Overcounts n b t obs) (a : UdpArrival) :
    Overcounts n b (udpSessionUpdate t a) (obs ++ [a.observation]) where
  packets := by
    simp only [udpSessionUpdate, add, h.packets, List.length_append, List.length_singleton,
      Nat.mod_add_mod]
    congr 1
    omega
  bytes := by
    simp only [udpSessionUpdate, add, h.bytes, Tally.total_append, Tally.total_singleton,
      Nat.mod_add_mod, UdpArrival.observation]
    congr 1
    omega
  lastTime o ho := by
    rw [List.getLast?_concat] at ho
    obtain rfl := Option.some.inj ho
    rfl

structure FirstTwice (s : SaUdpSession) (t : EndpointTallies) (seen : List UdpArrival) : Prop where
  first : ∃ a rest, seen = a :: rest ∧
    Overcounts 1 a.pkt.payloadLen t.req (observationsOf s seen .req)
  res : Overcounts 0 0 t.res (observationsOf s seen .res)

theorem FirstTwice.init {s : SaUdpSession} {a : UdpArrival}
    (h : udpEndpointGet s a.pkt = some .req) :
    FirstTwice s ((endpointTalliesInit a).update .req a) [a] where
  first := by
    refine ⟨a, [], rfl, ?_⟩
    constructor <;> simp [observationsOf, h, EndpointTallies.update, EndpointTallies.set,
      EndpointTallies.get, endpointTalliesInit, udpSessionUpdate, add, UdpArrival.observation]
  res := by
    constructor <;> simp [observationsOf, h, EndpointTallies.update, EndpointTallies.set,
      EndpointTallies.get, endpointTalliesInit]

theorem FirstTwice.update {s : SaUdpSession} {t : EndpointTallies} {seen : List UdpArrival}
    (h : FirstTwice s t seen) {a : UdpArrival} {d : SessionDirect}
    (hd : udpEndpointGet s a.pkt = some d) : FirstTwice s (t.update d a) (seen ++ [a]) := by
  obtain ⟨first, rest, hseen, hreq⟩ := h.first
  have hobs := observationsOf_snoc s seen a
  rw [hd] at hobs
  cases d with
  | req =>
    refine ⟨⟨first, rest ++ [a], by simp [hseen], ?_⟩, ?_⟩
    · rw [hobs, if_pos rfl]
      exact hreq.update a
    · rw [hobs, if_neg (by simp), List.append_nil]
      exact h.res
  | res =>
    refine ⟨⟨first, rest ++ [a], by simp [hseen], ?_⟩, ?_⟩
    · rw [hobs, if_neg (by simp), List.append_nil]
      exact hreq
    · rw [hobs, if_pos rfl]
      exact h.res.update a

theorem FirstTwice.not_exact {s : SaUdpSession} {t : EndpointTallies} {seen : List UdpArrival}
    (h : FirstTwice s t seen) : ¬ StatisticsExact s t seen := by
  intro hexact
  obtain ⟨a, rest, -, hreq⟩ := h.first
  have hone := hreq.packets
  have hcount := (hexact .req).packets
  simp only [EndpointTallies.get] at hcount
  omega

end CloudHands.Udp

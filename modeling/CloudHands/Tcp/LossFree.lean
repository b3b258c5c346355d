import CloudHands.Tcp.FourWay
import CloudHands.Tcp.Reassembly

/-!
# Connections without loss

Both directions of a connection as they pass the capture point: every segment lies
at or before the end of what was seen of its stream, behind the FIN once that was seen,
and every acknowledgement covers at most what was seen of the other stream, one more
once its FIN was seen.
The handler closes a session when the acknowledged offset of an endpoint is beyond
its received offset. It counts the slot of a FIN in the one and not in the other,
unless a FIN without data has frozen the acknowledged offset before.
-/

namespace CloudHands.Tcp

open CloudHands.Word (add sub)
open CloudHands.Lib
open CloudHands.Slice

variable {σ : Type*}

/-- The connection of a session request: two different sockets and a stream from each. -/
structure Conversation where
  sreq : TcpSessionRequest
  stream : SessionDirect → List UInt8
  distinct : (if sreq.isIpv6 then sreq.srcAddr ≠ sreq.dstAddr else sreq.reqIp ≠ sreq.resIp) ∨
    sreq.reqPort ≠ sreq.resPort

/-- What was seen of each direction: the length of the received prefix, and the FIN. -/
structure Progress where
  received : SessionDirect → ℕ
  finished : SessionDirect → Bool

def Progress.start : Progress := ⟨fun _ => 0, fun _ => false⟩

/-- The end of the sequence numbers seen, the slot of the FIN included. -/
def Progress.seen (p : Progress) (d : SessionDirect) : ℕ :=
  p.received d + if p.finished d then 1 else 0

/-- A packet of the connection as it passes the capture point. -/
structure Sighting where
  arrival : Arrival
  direct : SessionDirect
  offset : ℕ
  ack : ℕ

def Progress.see (p : Progress) (x : Sighting) : Progress where
  received := Function.update p.received x.direct
    (if isTcpDataPacket x.arrival.pkt
      then max (p.received x.direct) (x.offset + x.arrival.pkt.payloadLen)
      else p.received x.direct)
  finished := Function.update p.finished x.direct
    (p.finished x.direct || isTcpFinPacket x.arrival.pkt)

/-- The packet is addressed from the socket of `d` to the one of its peer. -/
def Addressed (sreq : TcpSessionRequest) (d : SessionDirect) (pkt : TcpPacket) : Prop :=
  pkt.isIpv6 = sreq.isIpv6 ∧
    match d with
    | .req => (if sreq.isIpv6 then pkt.srcAddr = sreq.srcAddr ∧ pkt.dstAddr = sreq.dstAddr
        else pkt.srcIp = sreq.reqIp ∧ pkt.dstIp = sreq.resIp) ∧
        pkt.srcPort = sreq.reqPort ∧ pkt.dstPort = sreq.resPort
    | .res => (if sreq.isIpv6 then pkt.srcAddr = sreq.dstAddr ∧ pkt.dstAddr = sreq.srcAddr
        else pkt.srcIp = sreq.resIp ∧ pkt.dstIp = sreq.reqIp) ∧
        pkt.srcPort = sreq.resPort ∧ pkt.dstPort = sreq.reqPort

instance (sreq : TcpSessionRequest) : (d : SessionDirect) → (pkt : TcpPacket) →
    Decidable (Addressed sreq d pkt)
  | .req, _ => inferInstanceAs (Decidable (_ ∧ _ ∧ _))
  | .res, _ => inferInstanceAs (Decidable (_ ∧ _ ∧ _))

structure InOrder (c : Conversation) (p : Progress) (x : Sighting) : Prop where
  addressed : Addressed c.sreq x.direct x.arrival.pkt
  seq : x.arrival.pkt.sentSeq = (sreqInitSeq c.sreq x.direct + x.offset) % 2 ^ 32
  bound : isTcpDataPacket x.arrival.pkt →
    x.offset + x.arrival.pkt.payloadLen ≤ (c.stream x.direct).length
  data : x.arrival.pkt.pdata = if x.arrival.pkt.payloadLen = 0 then none
    else some (slice (c.stream x.direct) x.offset (x.offset + x.arrival.pkt.payloadLen))
  noHole : x.offset ≤ p.seen x.direct
  fin : isTcpFinPacket x.arrival.pkt →
    x.offset + x.arrival.pkt.payloadLen = (c.stream x.direct).length
  ack : ¬ isTcpRstPacket x.arrival.pkt →
    x.arrival.pkt.recvAck = (sreqInitSeq c.sreq x.direct.peer + x.ack) % 2 ^ 32 ∧
      x.ack ≤ p.seen x.direct.peer

def LossFreeStep (app : TcpApp σ) (c : Conversation) (s : Handling σ × Progress) (x : Sighting)
    (s' : Handling σ × Progress) : Prop :=
  SessionStep app s.1 x.arrival s'.1 ∧ InOrder c s.2 x ∧ s'.2 = s.2.see x

def LossFreeRun (app : TcpApp σ) (c : Conversation) (sentry : σ) :
    List ((Handling σ × Progress) × Sighting) → Handling σ × Progress → Prop :=
  Run (LossFreeStep app c) (⟨tcpSessionInit c.sreq sentry, []⟩, Progress.start)

def preparedSession (s : TcpSession σ) (pkt : TcpPacket) : TcpSession σ :=
  if needUpdateLastAck (setTcpState s pkt) pkt then updateLastAck (setTcpState s pkt) pkt
  else setTcpState s pkt

/-- The packet closes the session because `last_ack` is beyond `last_offset`. -/
def Discards (app : TcpApp σ) (s : TcpSession σ) (a : Arrival) : Prop :=
  ¬ isNeedIgnore (preparedSession s a.pkt) a.pkt ∧ a.pkt.pdata.isSome ∧
    ∃ d, sender s a = some d ∧
      ackBeyondOffset ((processDataPacket app a.allocOk d a.pkt
        (Handling.entered ⟨preparedSession s a.pkt, [.access]⟩ d)).session.endpoint d)

/-- An acknowledgement of a FIN moves no counter: a FIN or reset without data came
before it, or it is one itself, or it acknowledges data only. -/
def FinAckFrozen (s : Handling σ × Progress) (x : Sighting) : Prop :=
  s.1.session.state = .fin ∨ s.1.session.state = .rst ∨ isTcpFinPacket x.arrival.pkt ∨
    isTcpRstPacket x.arrival.pkt ∨ x.ack ≤ s.2.received x.direct.peer

def endpointIdent (ep : TcpSessionEndpoint) : ℕ × ℕ × ℕ × Bool × ℕ :=
  (ep.ip, ep.port, ep.addr, ep.isIpv6, ep.initSeq)

theorem endpointGet_of_ident (c : Conversation) {s : TcpSession σ}
    (h : ∀ d, endpointIdent (s.endpoint d) = endpointIdent ((tcpSessionInit c.sreq ()).endpoint d))
    {d : SessionDirect} {pkt : TcpPacket} (ha : Addressed c.sreq d pkt) :
    tcpSessionEndpointGet s pkt = some d := by
  have hreq := h .req
  have hres := h .res
  have hdistinct := c.distinct
  cases d <;> cases hv : c.sreq.isIpv6 <;>
    simp_all [Addressed, tcpSessionEndpointGet, endpointIsRequest, endpointIsResponse,
      endpointIdent, TcpSession.endpoint, tcpSessionInit, tcpSessionEndpointInit,
      tcpSessionEndpointInitIpv6] <;>
    tauto

theorem sreqInitSeq_eq (sreq : TcpSessionRequest) (d : SessionDirect) :
    ((tcpSessionInit sreq ()).endpoint d).initSeq = sreqInitSeq sreq d := by
  cases d <;> cases hv : sreq.isIpv6 <;>
    simp [TcpSession.endpoint, tcpSessionInit, hv, tcpSessionEndpointInit,
      tcpSessionEndpointInitIpv6, sreqInitSeq]

/-- The endpoint `d` of a session that received `n` bytes and saw `k` acknowledged. -/
def endpointAt (sreq : TcpSessionRequest) (d : SessionDirect) (n k : ℕ) : TcpSessionEndpoint :=
  { (tcpSessionInit sreq ()).endpoint d with lastOffset := n, lastAck := k }

def Unfragmented (s : TcpSession σ) : Prop := ∀ d, (s.endpoint d).asFrag = []

/-- `t` is `s` with other bookkeeping: the endpoints are the same. -/
def SameEndpoints (s t : TcpSession σ) : Prop := ∀ d, t.endpoint d = s.endpoint d

theorem SameEndpoints.refl (s : TcpSession σ) : SameEndpoints s s := fun _ => rfl

theorem SameEndpoints.trans {s t u : TcpSession σ} (h : SameEndpoints s t)
    (h' : SameEndpoints t u) : SameEndpoints s u := fun d => (h' d).trans (h d)

theorem SameEndpoints.unfragmented {s t : TcpSession σ} (h : SameEndpoints s t)
    (hs : Unfragmented s) : Unfragmented t := fun d => by rw [h d, hs d]

theorem tcpSessionFin_same {s : TcpSession σ} (hs : Unfragmented s) :
    SameEndpoints s (tcpSessionFin s) := by
  intro d
  have h := hs d
  cases d <;> simp only [TcpSession.endpoint, tcpSessionFin] at h ⊢ <;> rw [← h]

theorem contentDataOutput_same (app : TcpApp σ) (h : Handling σ) (data : List UInt8) :
    SameEndpoints h.session (contentDataOutput app h data).2.session := by
  intro d
  simp only [contentDataOutput]
  split
  · cases d <;> rfl
  · rfl

theorem processPoppedData_same (app : TcpApp σ) (d : SessionDirect) {h : Handling σ}
    (hs : Unfragmented h.session) :
    SameEndpoints h.session (processPoppedData app d h).session := by
  have hfrag := hs d
  have hrun : (processPoppedData app d h).session =
      h.session.setEndpoint d { h.session.endpoint d with asFrag := [] } := by
    simp [processPoppedData, hfrag, assembleFragmentPop, dataFragmentsCoveredFree]
  rw [hrun]
  intro d'
  rw [← hfrag]
  cases d <;> cases d' <;> rfl

theorem processFlags_same (pkt : TcpPacket) {h : Handling σ} (hs : Unfragmented h.session) :
    SameEndpoints h.session (processFlags pkt h).session := by
  unfold processFlags
  split
  · simp only [processFinPacket]
    split <;> exact fun d => by cases d <;> rfl
  · split
    · exact tcpSessionFin_same hs
    · split
      · dsimp only
        split
        · exact fun d => by cases d <;> rfl
        · split
          · have hmark : SameEndpoints h.session { h.session with fourWayState := .fin2Ack } :=
              fun d => by cases d <;> rfl
            exact hmark.trans (tcpSessionFin_same (hmark.unfragmented hs))
          · exact SameEndpoints.refl _
      · exact SameEndpoints.refl _

theorem processDataPacket_inOrder (app : TcpApp σ) (allocOk : Bool) {d : SessionDirect}
    {pkt : TcpPacket} {h : Handling σ} (hs : Unfragmented h.session) {offset : ℕ}
    (hoffset : endpointOffsetGet (h.session.endpoint d) pkt.sentSeq = offset)
    (hbound : offset + pkt.payloadLen < 2 ^ 32)
    (hnoHole : offset ≤ (h.session.endpoint d).lastOffset) :
    SameEndpoints (h.session.setEndpoint d { h.session.endpoint d with
        lastOffset := max (h.session.endpoint d).lastOffset (offset + pkt.payloadLen) })
      (processDataPacket app allocOk d pkt h).session := by
  set ep := h.session.endpoint d with hep
  have hend : add 32 offset pkt.payloadLen = offset + pkt.payloadLen := Word.add_of_lt hbound
  by_cases hold : offset + pkt.payloadLen ≤ ep.lastOffset
  · have hrun : processDataPacket app allocOk d pkt h = h.emit .access := by
      simp only [processDataPacket, emit_session, ← hep, hoffset, hend, if_pos hold]
    rw [hrun, max_eq_left hold]
    intro d'
    cases d <;> cases d' <;> rfl
  · set h₁ := (h.emit .access).setEndpoint d { ep with lastOffset := offset + pkt.payloadLen }
      with hh₁
    obtain ⟨data, hrun⟩ : ∃ data, processDataPacket app allocOk d pkt h =
        if (contentDataOutput app h₁ data).1 = .parseBreak
        then tcpSessionClose (contentDataOutput app h₁ data).2
        else processPoppedData app d (contentDataOutput app h₁ data).2 := by
      refine ⟨(((pkt.pdata.getD []).drop (sub 32 ep.lastOffset offset)).take
        (sub 32 pkt.payloadLen (sub 32 ep.lastOffset offset))), ?_⟩
      simp only [processDataPacket, emit_session, ← hep, hoffset, hend, if_neg hold,
        if_neg (not_lt.mpr hnoHole)]
      rfl
    have hsame₁ : SameEndpoints (h.session.setEndpoint d { ep with
        lastOffset := max ep.lastOffset (offset + pkt.payloadLen) }) h₁.session := by
      rw [max_eq_right (by omega)]
      exact SameEndpoints.refl _
    have hfrag₁ : Unfragmented h₁.session := by
      intro d'
      have hs' := hs d
      have hs'' := hs d'
      rw [← hep] at hs'
      cases d <;> cases d' <;>
        simp_all [TcpSession.endpoint, TcpSession.setEndpoint]
    have hsame := hsame₁.trans (contentDataOutput_same app h₁ data)
    have hfrag := (contentDataOutput_same app h₁ data).unfragmented hfrag₁
    rw [hrun]
    split
    · exact hsame.trans (tcpSessionFin_same hfrag)
    · exact hsame.trans (processPoppedData_same app d hfrag)

structure Synced (c : Conversation) (p : Progress) (s : TcpSession σ) : Prop where
  endpoints : ∀ d, ∃ k ≤ p.received d, s.endpoint d = endpointAt c.sreq d (p.received d) k
  bound : ∀ d, p.received d ≤ (c.stream d).length
  finished : ∀ d, p.finished d → p.received d = (c.stream d).length

theorem Synced.unfragmented {c : Conversation} {p : Progress} {s : TcpSession σ}
    (h : Synced c p s) : Unfragmented s := by
  intro d
  obtain ⟨k, -, hep⟩ := h.endpoints d
  rw [hep]
  cases d <;> cases hv : c.sreq.isIpv6 <;>
    simp [endpointAt, TcpSession.endpoint, tcpSessionInit, hv, tcpSessionEndpointInit,
      tcpSessionEndpointInitIpv6]

theorem Synced.of_same {c : Conversation} {p : Progress} {s t : TcpSession σ} (h : Synced c p s)
    (hst : SameEndpoints s t) : Synced c p t :=
  ⟨fun d => by rw [hst d]; exact h.endpoints d, h.bound, h.finished⟩

theorem Synced.init (c : Conversation) (sentry : σ) :
    Synced c Progress.start (tcpSessionInit c.sreq sentry) := by
  refine ⟨fun d => ⟨0, le_rfl, ?_⟩, fun d => Nat.zero_le _, by simp [Progress.start]⟩
  cases d <;> cases hv : c.sreq.isIpv6 <;>
    simp [endpointAt, TcpSession.endpoint, tcpSessionInit, hv, tcpSessionEndpointInit,
      tcpSessionEndpointInitIpv6, Progress.start]

@[simp] theorem endpointAt_initSeq (sreq : TcpSessionRequest) (d : SessionDirect) (n k : ℕ) :
    (endpointAt sreq d n k).initSeq = sreqInitSeq sreq d := sreqInitSeq_eq sreq d

theorem Synced.endpointGet {c : Conversation} {p : Progress} {s : TcpSession σ}
    (h : Synced c p s) {d : SessionDirect} {pkt : TcpPacket} (ha : Addressed c.sreq d pkt) :
    tcpSessionEndpointGet s pkt = some d := by
  refine endpointGet_of_ident c (fun d => ?_) ha
  obtain ⟨k, -, hep⟩ := h.endpoints d
  rw [hep]
  rfl

theorem setTcpState_same (s : TcpSession σ) (pkt : TcpPacket) :
    SameEndpoints s (setTcpState s pkt) := by
  intro d
  unfold setTcpState
  split_ifs <;> cases d <;> rfl

theorem Synced.prepared {c : Conversation} {p : Progress} {h : Handling σ} {x : Sighting}
    (hs : Synced c p h.session) (hshort : ∀ d, (c.stream d).length < 2 ^ 32)
    (hx : InOrder c p x) (hfrozen : FinAckFrozen (h, p) x) :
    Synced c p (preparedSession h.session x.arrival.pkt) := by
  set pkt := x.arrival.pkt with hpkt
  have hstate := hs.of_same (setTcpState_same h.session pkt)
  unfold preparedSession
  split
  · rename_i hneed
    -- an acknowledgement that is taken in is none of a FIN
    have hack : x.ack ≤ p.received x.direct.peer := by
      simp only [needUpdateLastAck, Bool.and_eq_true, Bool.not_eq_true', Bool.or_eq_false_iff,
        decide_eq_false_iff_not] at hneed
      obtain ⟨⟨hnfin, hnrst⟩, hfin, hrst⟩ := hneed
      have hcases : h.session.state = .fin ∨ h.session.state = .rst ∨ isTcpFinPacket pkt ∨
          isTcpRstPacket pkt ∨ x.ack ≤ p.received x.direct.peer := hfrozen
      rcases hcases with hst | hst | hf | hr | hack
      · exact absurd (by simp [setTcpState, hst]) hnfin
      · exact absurd (by simp [setTcpState, hst]) hnrst
      · exact absurd hf (by simp [hfin])
      · exact absurd hr (by simp [hrst])
      · exact hack
    have hrst : ¬ isTcpRstPacket pkt := by
      simp only [needUpdateLastAck, Bool.and_eq_true, Bool.not_eq_true', Bool.or_eq_false_iff]
        at hneed
      simp [hneed.2.2]
    obtain ⟨hseq, -⟩ := hx.ack hrst
    have hget : tcpSessionPairEndpointGet (setTcpState h.session pkt) pkt = some x.direct.peer := by
      rw [tcpSessionPairEndpointGet, hstate.endpointGet hx.addressed]
      rfl
    obtain ⟨k, hk, hep⟩ := hstate.endpoints x.direct.peer
    have hbound := hs.bound x.direct.peer
    have hlen := hshort x.direct.peer
    have hoffset : endpointOffsetGet ((setTcpState h.session pkt).endpoint x.direct.peer)
        pkt.recvAck = x.ack := by
      rw [endpointOffsetGet, hep, endpointAt_initSeq, hseq]
      exact Word.sub_add_cancel (by omega)
    refine ⟨fun d => ?_, hs.bound, hs.finished⟩
    simp only [updateLastAck, hget, hoffset]
    by_cases hd : d = x.direct.peer
    · subst hd
      refine ⟨max k x.ack, max_le hk hack, ?_⟩
      rw [endpoint_setEndpoint, hep]
      rfl
    · obtain ⟨l, hl, hother⟩ := hstate.endpoints d
      refine ⟨l, hl, ?_⟩
      rw [← hother]
      cases d <;> cases hpeer : x.direct.peer <;> first | rfl | exact absurd hpeer.symm hd
  · exact hstate

theorem Progress.see_received_of_data (p : Progress) {x : Sighting}
    (h : isTcpDataPacket x.arrival.pkt) (d : SessionDirect) :
    (p.see x).received d = if d = x.direct
      then max (p.received x.direct) (x.offset + x.arrival.pkt.payloadLen) else p.received d := by
  simp only [Progress.see, Function.update_apply, h, if_true]

theorem Progress.see_received_of_empty (p : Progress) {x : Sighting}
    (h : ¬ isTcpDataPacket x.arrival.pkt) : (p.see x).received = p.received := by
  simp only [Progress.see, h, Bool.false_eq_true, if_false, Function.update_eq_self]

theorem Synced.offset_le {c : Conversation} {p : Progress} {s : TcpSession σ} {x : Sighting}
    (hs : Synced c p s) (hx : InOrder c p x) (hdata : isTcpDataPacket x.arrival.pkt) :
    x.offset ≤ p.received x.direct := by
  have hbound := hx.bound hdata
  have hnoHole := hx.noHole
  rw [Progress.seen] at hnoHole
  split at hnoHole
  · rename_i hfin
    have hall := hs.finished x.direct hfin
    omega
  · exact hnoHole

theorem Synced.see_finished {c : Conversation} {p : Progress} {s : TcpSession σ} {x : Sighting}
    (hs : Synced c p s) (hx : InOrder c p x) (d : SessionDirect) (hfin : (p.see x).finished d) :
    (p.see x).received d = (c.stream d).length := by
  have hbound := hs.bound d
  by_cases hd : d = x.direct
  · subst hd
    by_cases hold : p.finished x.direct
    · have hall := hs.finished x.direct hold
      by_cases hdata : isTcpDataPacket x.arrival.pkt
      · rw [p.see_received_of_data hdata, if_pos rfl, hall]
        exact max_eq_left (hx.bound hdata)
      · rw [p.see_received_of_empty hdata, hall]
    · have hpkt : isTcpFinPacket x.arrival.pkt := by
        simpa [Progress.see, hold] using hfin
      have hend := hx.fin hpkt
      by_cases hdata : isTcpDataPacket x.arrival.pkt
      · rw [p.see_received_of_data hdata, if_pos rfl, hend]
        exact max_eq_right hbound
      · rw [p.see_received_of_empty hdata]
        have hnoHole := hx.noHole
        rw [Progress.seen, if_neg hold] at hnoHole
        simp only [isTcpDataPacket, decide_eq_true_eq, not_lt, Nat.le_zero] at hdata
        omega
  · have hold : p.finished d := by
      simpa [Progress.see, Function.update_apply, hd] using hfin
    have hall := hs.finished d hold
    by_cases hdata : isTcpDataPacket x.arrival.pkt
    · rw [p.see_received_of_data hdata, if_neg hd, hall]
    · rw [p.see_received_of_empty hdata, hall]

theorem Synced.see_of_empty {c : Conversation} {p : Progress} {s : TcpSession σ} {x : Sighting}
    (hs : Synced c p s) (hx : InOrder c p x) (hempty : ¬ isTcpDataPacket x.arrival.pkt) :
    Synced c (p.see x) s := by
  have hrec := p.see_received_of_empty hempty
  exact ⟨by rw [hrec]; exact hs.endpoints, by rw [hrec]; exact hs.bound, hs.see_finished hx⟩

theorem Synced.dataStep {c : Conversation} {p : Progress} {h : Handling σ} {x : Sighting}
    (app : TcpApp σ) (hs : Synced c p h.session) (hshort : ∀ d, (c.stream d).length < 2 ^ 32)
    (hx : InOrder c p x) (hdata : isTcpDataPacket x.arrival.pkt) :
    Synced c (p.see x)
      (processDataPacket app x.arrival.allocOk x.direct x.arrival.pkt h).session := by
  have hbound := hx.bound hdata
  have hlen := hshort x.direct
  obtain ⟨k, hk, hep⟩ := hs.endpoints x.direct
  have hoffset : endpointOffsetGet (h.session.endpoint x.direct) x.arrival.pkt.sentSeq =
      x.offset := by
    rw [endpointOffsetGet, hep, endpointAt_initSeq, hx.seq]
    exact Word.sub_add_cancel (by omega)
  have hlast : (h.session.endpoint x.direct).lastOffset = p.received x.direct := by rw [hep]; rfl
  have hsame := processDataPacket_inOrder app x.arrival.allocOk hs.unfragmented hoffset
    (by omega) (hlast ▸ hs.offset_le hx hdata)
  refine Synced.of_same ⟨fun d => ?_, fun d => ?_, hs.see_finished hx⟩ hsame
  · rw [p.see_received_of_data hdata]
    by_cases hd : d = x.direct
    · subst hd
      refine ⟨k, le_trans hk (by simp), ?_⟩
      rw [endpoint_setEndpoint, hlast, hep, if_pos rfl]
      rfl
    · obtain ⟨l, hl, hother⟩ := hs.endpoints d
      rw [if_neg hd]
      refine ⟨l, hl, ?_⟩
      rw [← hother]
      cases d <;> cases hx' : x.direct <;> first | rfl | exact absurd hx'.symm hd
  · rw [p.see_received_of_data hdata]
    split
    · rename_i hd
      subst hd
      exact max_le (hs.bound _) hbound
    · exact hs.bound d

theorem Synced.not_ackBeyondOffset {c : Conversation} {p : Progress} {s : TcpSession σ}
    (hs : Synced c p s) (d : SessionDirect) : ¬ ackBeyondOffset (s.endpoint d) := by
  obtain ⟨k, hk, hep⟩ := hs.endpoints d
  simpa [ackBeyondOffset, hep, endpointAt] using hk

theorem InOrder.pdata_isSome {c : Conversation} {p : Progress} {x : Sighting} (hx : InOrder c p x) :
    x.arrival.pkt.pdata.isSome ↔ isTcpDataPacket x.arrival.pkt := by
  rw [hx.data, isTcpDataPacket, decide_eq_true_eq]
  split
  · simp [*]
  · simp [Nat.pos_of_ne_zero, *]

theorem Synced.entered {c : Conversation} {p : Progress} {h : Handling σ}
    (hs : Synced c p h.session)
    (d : SessionDirect) : Synced c p (h.entered d).session :=
  hs.of_same fun d' => entered_endpoint h d d'

theorem Synced.packetHandle {c : Conversation} {p : Progress} {h : Handling σ} {x : Sighting}
    (app : TcpApp σ) (hs : Synced c p h.session) (hshort : ∀ d, (c.stream d).length < 2 ^ 32)
    (hx : InOrder c p x) :
    Synced c (p.see x) (Tcp.packetHandle app x.arrival.allocOk x.arrival.pkt h).session := by
  have hget := hs.endpointGet hx.addressed
  by_cases hp : x.arrival.pkt.pdata.isSome
  · have hdata := (hs.entered x.direct).dataStep app hshort hx (hx.pdata_isSome.1 hp)
    rw [packetHandle_data app _ hget hp, if_neg (hdata.not_ackBeyondOffset x.direct)]
    exact hdata.of_same (processFlags_same _ hdata.unfragmented)
  · rw [packetHandle_no_data app _ hget hp]
    have hin := (hs.entered x.direct).see_of_empty hx (mt hx.pdata_isSome.2 hp)
    exact hin.of_same (processFlags_same _ hin.unfragmented)

theorem Synced.arrive {c : Conversation} {p : Progress} {h : Handling σ} {x : Sighting}
    (app : TcpApp σ) (hs : Synced c p h.session) (hshort : ∀ d, (c.stream d).length < 2 ^ 32)
    (hx : InOrder c p x) (hfrozen : FinAckFrozen (h, p) x) :
    Synced c (p.see x) (Tcp.arrive app h.session x.arrival).session := by
  have hprep := hs.prepared hshort hx hfrozen
  have harr : Tcp.arrive app h.session x.arrival =
      if isNeedIgnore (preparedSession h.session x.arrival.pkt) x.arrival.pkt
      then ⟨preparedSession h.session x.arrival.pkt, [.access]⟩
      else tcpSessionPacketHandle app x.arrival.allocOk x.arrival.inRing x.arrival.pkt
        ⟨preparedSession h.session x.arrival.pkt, [.access]⟩ := rfl
  rw [harr]
  split
  · rename_i hignore
    simp only [isNeedIgnore, Bool.and_eq_true, Bool.not_eq_true'] at hignore
    exact hprep.see_of_empty hx (by simp [hignore.1])
  · have hhandled := hprep.packetHandle (h := ⟨preparedSession h.session x.arrival.pkt, [.access]⟩)
      app hshort hx
    simp only [tcpSessionPacketHandle, entriesTimeoutFree]
    split
    · exact hhandled.of_same (tcpSessionFin_same hhandled.unfragmented)
    · exact hhandled

theorem Synced.not_discards {c : Conversation} {p : Progress} {h : Handling σ} {x : Sighting}
    (app : TcpApp σ) (hs : Synced c p h.session) (hshort : ∀ d, (c.stream d).length < 2 ^ 32)
    (hx : InOrder c p x) (hfrozen : FinAckFrozen (h, p) x) :
    ¬ Discards app h.session x.arrival := by
  rintro ⟨-, hp, d, hd, hbeyond⟩
  rw [sender, hs.endpointGet hx.addressed, Option.some.injEq] at hd
  subst hd
  have hprep := hs.prepared hshort hx hfrozen
  exact ((hprep.entered (h := ⟨_, [.access]⟩) x.direct).dataStep app hshort hx
    (hx.pdata_isSome.1 hp)).not_ackBeyondOffset x.direct hbeyond

/-- In a run without loss, the test of the acknowledged offset never closes the session
as long as the FINs that get acknowledged are frozen out. -/
theorem lossFree_not_discards (app : TcpApp σ) (c : Conversation) (sentry : σ)
    (hshort : ∀ d, (c.stream d).length < 2 ^ 32)
    {history : List ((Handling σ × Progress) × Sighting)} {s : Handling σ × Progress}
    (hrun : LossFreeRun app c sentry history s) (hok : ∀ v ∈ history, FinAckFrozen v.1 v.2) :
    ∀ v ∈ history, ¬ Discards app v.1.1.session v.2.arrival := by
  have hinv : Synced c s.2 s.1.session ∧
      ∀ v ∈ history, ¬ Discards app v.1.1.session v.2.arrival := by
    refine @Run.invariant _ _ _ _ _ (fun history s => Synced c s.2 s.1.session ∧
      ∀ v ∈ history, ¬ Discards app v.1.1.session v.2.arrival) ?_ ?_ _ _ hrun
        (StepsOk.of_forall hok)
    · exact ⟨Synced.init c sentry, by simp⟩
    · rintro history s x s' ⟨hs, hall⟩ hfrozen ⟨⟨-, harr⟩, hx, hsee⟩
      rw [harr, hsee]
      refine ⟨hs.arrive app hshort hx hfrozen, ?_⟩
      simp only [List.forall_mem_append, List.forall_mem_singleton]
      exact ⟨hall, hs.not_discards app hshort hx hfrozen⟩
  exact hinv.2

theorem firstRequest_distinct :
    (if firstRequest.isIpv6 then firstRequest.srcAddr ≠ firstRequest.dstAddr
      else firstRequest.reqIp ≠ firstRequest.resIp) ∨
      firstRequest.reqPort ≠ firstRequest.resPort := by
  decide

def oneByte : Conversation where
  sreq := firstRequest
  stream := fun
    | .req => [0]
    | .res => []
  distinct := firstRequest_distinct

def sighted (s : Handling Unit × Progress) (x : Sighting) : Handling Unit × Progress :=
  (arrive continuingApp s.1.session x.arrival, s.2.see x)

def sightedStart : Handling Unit × Progress :=
  (⟨tcpSessionInit firstRequest (), []⟩, Progress.start)

def sightings (xs : List Sighting) : List ((Handling Unit × Progress) × Sighting) :=
  trace sighted sightedStart xs

def oneByteData : Sighting := ⟨dataArrival, .req, 0, 0⟩

def plainFin : List Sighting :=
  [oneByteData, ⟨controlPacket .req (thFin ||| thAck) 102 501, .req, 1, 0⟩,
    ⟨controlPacket .res thAck 501 103, .res, 0, 2⟩,
    ⟨controlPacket .req thAck 103 501, .req, 2, 0⟩, oneByteData]

def oneByteFin : Sighting :=
  ⟨⟨{ firstDataPacket with tcpFlags := thFin ||| thAck }, true, false⟩, .req, 0, 0⟩

/-- Data with the FIN, the acknowledgement of both, and the segment once more. -/
def finWithData : List Sighting :=
  [oneByteFin, ⟨controlPacket .res thAck 501 103, .res, 0, 2⟩, oneByteFin]

theorem plainFin_not_discards :
    LossFreeRun continuingApp oneByte () (sightings plainFin)
        (plainFin.foldl sighted sightedStart) ∧
      ∀ v ∈ sightings plainFin, ¬ Discards continuingApp v.1.1.session v.2.arrival := by
  have hdata : ∀ p, InOrder oneByte p oneByteData := fun p =>
    ⟨by decide, by decide, by decide, by decide, Nat.zero_le _, fun hfin => absurd hfin (by decide),
      fun _ => ⟨by decide, Nat.zero_le _⟩⟩
  have hrun : LossFreeRun continuingApp oneByte () (sightings plainFin)
      (plainFin.foldl sighted sightedStart) :=
    ((((Run.nil.snoc ⟨⟨by decide, rfl⟩, hdata _, rfl⟩).snoc ⟨⟨by decide, rfl⟩,
      ⟨by decide, by decide, by decide, by decide, by decide, fun _ => by decide,
        fun _ => by decide⟩, rfl⟩).snoc ⟨⟨by decide, rfl⟩,
      ⟨by decide, by decide, by decide, by decide, by decide, fun hfin => absurd hfin (by decide),
        fun _ => by decide⟩, rfl⟩).snoc ⟨⟨by decide, rfl⟩,
      ⟨by decide, by decide, by decide, by decide, by decide, fun hfin => absurd hfin (by decide),
        fun _ => by decide⟩, rfl⟩).snoc ⟨⟨by decide, rfl⟩, hdata _, rfl⟩
  refine ⟨hrun, lossFree_not_discards continuingApp oneByte () (by decide) hrun ?_⟩
  intro v hv
  simp only [sightings, plainFin, trace, List.mem_cons, List.not_mem_nil, or_false] at hv
  rcases hv with rfl | rfl | rfl | rfl | rfl
  · exact .inr (.inr (.inr (.inr (by decide))))
  · exact .inr (.inr (.inl (by decide)))
  · exact .inl (by decide)
  · exact .inl (by decide)
  · exact .inl (by decide)

/-- The acknowledgement of a FIN with data counts one more than the data, and the
retransmission of the segment then closes the session. -/
theorem finWithData_discards :
    LossFreeRun continuingApp oneByte () (sightings finWithData)
        (finWithData.foldl sighted sightedStart) ∧
      ∃ v ∈ sightings finWithData, Discards continuingApp v.1.1.session v.2.arrival := by
  have hfin : ∀ p, InOrder oneByte p oneByteFin := fun p =>
    ⟨by decide, by decide, by decide, by decide, Nat.zero_le _, fun _ => by decide,
      fun _ => ⟨by decide, Nat.zero_le _⟩⟩
  have hrun : LossFreeRun continuingApp oneByte () (sightings finWithData)
      (finWithData.foldl sighted sightedStart) :=
    ((Run.nil.snoc ⟨⟨by decide, rfl⟩, hfin _, rfl⟩).snoc ⟨⟨by decide, rfl⟩,
      ⟨by decide, by decide, by decide, by decide, by decide, fun hfin => absurd hfin (by decide),
        fun _ => by decide⟩, rfl⟩).snoc ⟨⟨by decide, rfl⟩, hfin _, rfl⟩
  refine ⟨hrun, _, List.mem_cons_of_mem _ (List.mem_cons_of_mem _ List.mem_cons_self), ?_⟩
  exact ⟨by decide, by decide, .req, by decide, by decide⟩

end CloudHands.Tcp

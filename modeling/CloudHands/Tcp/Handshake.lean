import CloudHands.Tcp.FourWay

/-!
# Tracking the three-way handshake

`ch_tcp_session_request_handler.c`, from the first SYN to the session. The two pools
are the lists of their live entries. A lookup in a pool is part of the label of a
step, as are the outcomes of the allocations and the entries that the drains of the
timeout rings take out; all the tracker relies on is that a lookup finds a live entry
that the equality function of the pool accepts.

A slot of the request pool remembers the packets that were attributed to it since its
creation. The numbers of the slots and these packets are for the statements only.
-/

namespace CloudHands.Tcp

open CloudHands.Word (add sub)
open CloudHands.Lib

variable {σ : Type*}

def isTcpSynPacket (pkt : TcpPacket) : Bool := pkt.hasFlag thSyn && !pkt.hasFlag thAck

def isTcpSynAckPacket (pkt : TcpPacket) : Bool := pkt.hasFlag thSyn && pkt.hasFlag thAck

inductive ThreeWayState
  | init
  | syn
  | synAck
  | ackAck
deriving DecidableEq, Repr

/-- `ch_tcp_session_request_t`. -/
structure SessionRequest where
  sreq : TcpSessionRequest
  threeWayState : ThreeWayState
deriving DecidableEq, Repr

/-- `_is_request` and `_is_response` of the request pool. -/
def requestIsRequest (r : TcpSessionRequest) (pkt : TcpPacket) : Bool :=
  if pkt.isIpv6 then
    r.isIpv6 && decide (r.srcAddr = pkt.srcAddr) && decide (r.reqPort = pkt.srcPort) &&
      decide (r.dstAddr = pkt.dstAddr) && decide (r.resPort = pkt.dstPort)
  else
    decide (r.reqIp = pkt.srcIp) && decide (r.reqPort = pkt.srcPort) &&
      decide (r.resIp = pkt.dstIp) && decide (r.resPort = pkt.dstPort)

def requestIsResponse (r : TcpSessionRequest) (pkt : TcpPacket) : Bool :=
  if pkt.isIpv6 then
    r.isIpv6 && decide (r.srcAddr = pkt.dstAddr) && decide (r.reqPort = pkt.dstPort) &&
      decide (r.dstAddr = pkt.srcAddr) && decide (r.resPort = pkt.srcPort)
  else
    decide (r.reqIp = pkt.dstIp) && decide (r.reqPort = pkt.dstPort) &&
      decide (r.resIp = pkt.srcIp) && decide (r.resPort = pkt.srcPort)

def sessionRequestEntryEqual (r : TcpSessionRequest) (pkt : TcpPacket) : Bool :=
  requestIsRequest r pkt || requestIsResponse r pkt

def tcpSessionEntryEqual (s : TcpSession σ) (pkt : TcpPacket) : Bool :=
  endpointIsRequest s.endpointReq s.endpointRes pkt ||
    endpointIsResponse s.endpointReq s.endpointRes pkt

/-- `ch_tcp_session_request_create` and the lines that fill the new entry in. -/
def sessionRequestCreate (pkt : TcpPacket) : SessionRequest where
  sreq :=
    { isIpv6 := pkt.isIpv6
      reqIp := if pkt.isIpv6 then 0 else pkt.srcIp
      resIp := if pkt.isIpv6 then 0 else pkt.dstIp
      srcAddr := if pkt.isIpv6 then pkt.srcAddr else 0
      dstAddr := if pkt.isIpv6 then pkt.dstAddr else 0
      reqPort := pkt.srcPort
      resPort := pkt.dstPort
      reqSnInit := add 32 pkt.sentSeq 1
      resSnInit := 0 }
  threeWayState := .syn

def isTcpAckAckPacket (r : SessionRequest) (pkt : TcpPacket) : Bool :=
  pkt.hasFlag thAck && decide (r.threeWayState = .synAck) && decide (pkt.recvAck = r.sreq.resSnInit)

/-- What a call of `_three_way_handshake_process` does to the entry it found. -/
inductive RequestFate
  | keep (r : SessionRequest)
  | reset
  | session (r : SessionRequest)
deriving DecidableEq, Repr

/-- `_three_way_handshake_process` on an entry. -/
def threeWayHandshakeProcess (r : SessionRequest) (pkt : TcpPacket) : RequestFate :=
  if isTcpSynPacket pkt then
    -- taken for a retransmission, whatever its sequence number
    .keep r
  else if isTcpSynAckPacket pkt then
    if r.threeWayState = .syn then
      .keep ⟨{ r.sreq with resSnInit := add 32 pkt.sentSeq 1 }, .synAck⟩
    else .keep r
  else if isTcpAckAckPacket r pkt then
    if r.threeWayState = .synAck then
      if isTcpDataPacket pkt then .session ⟨r.sreq, .ackAck⟩ else .keep ⟨r.sreq, .ackAck⟩
    else .keep r
  else if isTcpRstPacket pkt then .reset
  else if isTcpDataPacket pkt then
    if r.threeWayState = .ackAck then .session r else .keep r
  else .keep r

structure RequestSlot where
  number : ℕ
  request : SessionRequest
  seen : List TcpPacket

structure SessionSlot (σ : Type*) where
  number : ℕ
  session : TcpSession σ

structure Tracker (σ : Type*) where
  requests : List RequestSlot
  sessions : List (SessionSlot σ)
  numbers : ℕ

/-- A packet with everything the call takes from its surroundings. -/
structure Delivery (σ : Type*) where
  pkt : TcpPacket
  app : Option (TcpApp σ)
  sessionFound : Option ℕ
  requestFound : Option ℕ
  requestOk : Bool
  sentry : Option σ
  sessionOk : Bool
  allocOk : Bool
  inRing : Bool
  requestsExpired : List ℕ
  sessionsExpired : List ℕ

structure LookupOk (t : Tracker σ) (l : Delivery σ) : Prop where
  session : ∀ n ∈ l.sessionFound,
    ∃ e ∈ t.sessions, e.number = n ∧ tcpSessionEntryEqual e.session l.pkt
  request : ∀ n ∈ l.requestFound,
    ∃ e ∈ t.requests, e.number = n ∧ sessionRequestEntryEqual e.request.sreq l.pkt

instance (t : Tracker σ) (l : Delivery σ) : Decidable (LookupOk t l) :=
  decidable_of_iff (_ ∧ _) ⟨fun h => ⟨h.1, h.2⟩, fun h => ⟨h.session, h.request⟩⟩

inductive TrackEvent (σ : Type*)
  | sessionCreated (request : ℕ) (session : TcpSession σ)
  | requestRemoved (request : ℕ)
deriving DecidableEq, Repr

inductive ProcessorRet
  | ok
  | drop
deriving DecidableEq, Repr

structure Tracking (σ : Type*) where
  tracker : Tracker σ
  events : List (TrackEvent σ)
  ret : ProcessorRet

/-- `_tcp_session_data_process` on the entry `number` of the session pool: a session that
the call ends leaves the pool. -/
def sessionsProcess (l : Delivery σ) (app : TcpApp σ) (number : ℕ)
    (sessions : List (SessionSlot σ)) : List (SessionSlot σ) :=
  sessions.filterMap fun e =>
    if e.number = number then
      let h := arrive app e.session ⟨l.pkt, l.allocOk, l.inRing⟩
      if h.ended then none else some ⟨e.number, h.session⟩
    else if e.number ∈ l.sessionsExpired then none
    else some e

/-- `_tcp_session_create`: the new session takes its first packet at once. -/
def sessionCreate (t : Tracker σ) (l : Delivery σ) (app : TcpApp σ) (request : ℕ)
    (r : SessionRequest) : Tracking σ :=
  match l.sentry with
  | none => ⟨t, [], .drop⟩
  | some sentry =>
    if l.sessionOk then
      let s := tcpSessionInit r.sreq sentry
      ⟨{ t with
          sessions := sessionsProcess l app t.numbers (⟨t.numbers, s⟩ :: t.sessions)
          numbers := t.numbers + 1 },
        [.sessionCreated request s], if handled s l.pkt then .ok else .drop⟩
    else ⟨t, [], .drop⟩

def Tracker.setRequest (t : Tracker σ) (slot : RequestSlot) : Tracker σ :=
  { t with requests := t.requests.map fun e => if e.number = slot.number then slot else e }

/-- `ch_tcp_session_request_free`. -/
def Tracker.freeRequest (t : Tracker σ) (number : ℕ) : Tracker σ :=
  { t with requests := t.requests.filter fun e => e.number ≠ number }

def requestOf (t : Tracker σ) (l : Delivery σ) : Option RequestSlot :=
  l.requestFound.bind fun n => t.requests.find? fun e => e.number = n

/-- `_three_way_handshake_process`. -/
def handshakeProcess (t : Tracker σ) (l : Delivery σ) (app : TcpApp σ) : Tracking σ :=
  match requestOf t l with
  | none =>
    if isTcpSynPacket l.pkt && l.requestOk then
      ⟨{ t with
          requests := ⟨t.numbers, sessionRequestCreate l.pkt, [l.pkt]⟩ :: t.requests
          numbers := t.numbers + 1 }, [], .drop⟩
    else ⟨t, [], .drop⟩
  | some slot =>
    match threeWayHandshakeProcess slot.request l.pkt with
    | .keep r => ⟨t.setRequest ⟨slot.number, r, slot.seen ++ [l.pkt]⟩, [], .drop⟩
    | .reset => ⟨t.freeRequest slot.number, [.requestRemoved slot.number], .drop⟩
    | .session r =>
      let c := sessionCreate t l app slot.number r
      ⟨c.tracker.freeRequest slot.number, c.events ++ [.requestRemoved slot.number], c.ret⟩

def requestsTimeoutFree (l : Delivery σ) (r : Tracking σ) : Tracking σ :=
  ⟨{ r.tracker with requests := r.tracker.requests.filter fun e => e.number ∉ l.requestsExpired },
    r.events ++ ((r.tracker.requests.filter fun e => e.number ∈ l.requestsExpired).map
      fun e => .requestRemoved e.number), r.ret⟩

def sessionOf (l : Delivery σ) : Option ℕ :=
  if isTcpSynPacket l.pkt || isTcpSynAckPacket l.pkt then none else l.sessionFound

/-- The `do … while(0)` of `ch_tcp_session_request_packet_handle`. -/
def requestPacketHandle (t : Tracker σ) (l : Delivery σ) : Tracking σ :=
  match l.app with
  | none => ⟨t, [], .drop⟩
  | some app =>
    match sessionOf l with
    | some n =>
      ⟨{ t with sessions := sessionsProcess l app n t.sessions }, [],
        if (t.sessions.find? fun e => e.number = n).any fun e => handled e.session l.pkt
        then .ok else .drop⟩
    | none => handshakeProcess t l app

def sessionRequestPacketHandle (t : Tracker σ) (l : Delivery σ) : Tracking σ :=
  requestsTimeoutFree l (requestPacketHandle t l)

def TrackStep (t : Tracker σ) (l : Delivery σ) (t' : Tracker σ) : Prop :=
  LookupOk t l ∧ t' = (sessionRequestPacketHandle t l).tracker

def TrackRun : List (Tracker σ × Delivery σ) → Tracker σ → Prop :=
  Run TrackStep ⟨[], [], 0⟩

/-- The first SYN-ACK of `pkts` is `synAck`, and `after` follows it. -/
def Answered (pkts : List TcpPacket) (synAck : TcpPacket) (after : List TcpPacket) : Prop :=
  ∃ before, pkts = before ++ synAck :: after ∧ isTcpSynAckPacket synAck ∧
    ∀ p ∈ before, ¬ isTcpSynAckPacket p

def Confirmed (synAck : TcpPacket) (after : List TcpPacket) : Prop :=
  ∃ ack ∈ after, ¬ ack.hasFlag thSyn ∧ ack.hasFlag thAck ∧ ack.recvAck = add 32 synAck.sentSeq 1

theorem Answered.snoc {pkts after : List TcpPacket} {synAck : TcpPacket}
    (h : Answered pkts synAck after) (pkt : TcpPacket) :
    Answered (pkts ++ [pkt]) synAck (after ++ [pkt]) := by
  obtain ⟨before, rfl, hsa, hno⟩ := h
  exact ⟨before, by simp, hsa, hno⟩

theorem Confirmed.snoc {after : List TcpPacket} {synAck : TcpPacket} (h : Confirmed synAck after)
    (pkt : TcpPacket) : Confirmed synAck (after ++ [pkt]) := by
  obtain ⟨ack, hmem, hack⟩ := h
  exact ⟨ack, by simp [hmem], hack⟩

def HandshakeAt (r : SessionRequest) (rest : List TcpPacket) : Prop :=
  match r.threeWayState with
  | .init => False
  | .syn => ∀ p ∈ rest, ¬ isTcpSynAckPacket p
  | .synAck => ∃ synAck after, Answered rest synAck after ∧
      r.sreq.resSnInit = add 32 synAck.sentSeq 1
  | .ackAck => ∃ synAck after, Answered rest synAck after ∧
      r.sreq.resSnInit = add 32 synAck.sentSeq 1 ∧ Confirmed synAck after

structure SlotOk (slot : RequestSlot) : Prop where
  tracks : ∃ syn rest, slot.seen = syn :: rest ∧ isTcpSynPacket syn ∧
    slot.request.sreq =
      { (sessionRequestCreate syn).sreq with resSnInit := slot.request.sreq.resSnInit } ∧
    HandshakeAt slot.request rest
  tuple : ∀ p ∈ slot.seen, sessionRequestEntryEqual slot.request.sreq p

/-- The packets `seen` by an entry hold the handshake of the session `s`. -/
def ThreeWay (seen : List TcpPacket) (s : TcpSession σ) : Prop :=
  ∃ syn rest synAck after sentry, seen = syn :: rest ∧ isTcpSynPacket syn ∧
    Answered rest synAck after ∧ Confirmed synAck after ∧
    s = tcpSessionInit { (sessionRequestCreate syn).sreq with
      resSnInit := add 32 synAck.sentSeq 1 } sentry ∧
    s.endpointReq.initSeq = add 32 syn.sentSeq 1 ∧
    s.endpointRes.initSeq = add 32 synAck.sentSeq 1 ∧
    ∀ p ∈ seen, tcpSessionEntryEqual s p

theorem not_syn_of_neither {pkt : TcpPacket} (hsyn : ¬ isTcpSynPacket pkt)
    (hsynAck : ¬ isTcpSynAckPacket pkt) : ¬ pkt.hasFlag thSyn := by
  simp only [isTcpSynPacket, isTcpSynAckPacket] at hsyn hsynAck
  cases hf : pkt.hasFlag thSyn <;> cases ha : pkt.hasFlag thAck <;> simp_all

def Completes (r : SessionRequest) (pkt : TcpPacket) : Prop :=
  ¬ pkt.hasFlag thSyn ∧ isTcpDataPacket pkt ∧
    (isTcpAckAckPacket r pkt ∨ (¬ isTcpRstPacket pkt ∧ r.threeWayState = .ackAck))

def Resets (r : SessionRequest) (pkt : TcpPacket) : Prop :=
  ¬ pkt.hasFlag thSyn ∧ isTcpRstPacket pkt ∧ ¬ isTcpAckAckPacket r pkt

instance (r : SessionRequest) (pkt : TcpPacket) : Decidable (Completes r pkt) :=
  inferInstanceAs (Decidable (_ ∧ _ ∧ _))

instance (r : SessionRequest) (pkt : TcpPacket) : Decidable (Resets r pkt) :=
  inferInstanceAs (Decidable (_ ∧ _ ∧ _))

theorem ackAck_state {r : SessionRequest} {pkt : TcpPacket} (h : isTcpAckAckPacket r pkt) :
    r.threeWayState = .synAck := by
  simp only [isTcpAckAckPacket, Bool.and_eq_true, decide_eq_true_eq] at h
  exact h.1.2

inductive FateCases (r : SessionRequest) (pkt : TcpPacket) : RequestFate → Prop
  | stay : (r.threeWayState = .syn → ¬ isTcpSynAckPacket pkt) → ¬ Completes r pkt →
      ¬ Resets r pkt → FateCases r pkt (.keep r)
  | answer : r.threeWayState = .syn → isTcpSynAckPacket pkt → ¬ Completes r pkt →
      ¬ Resets r pkt →
      FateCases r pkt (.keep ⟨{ r.sreq with resSnInit := add 32 pkt.sentSeq 1 }, .synAck⟩)
  | confirm : ¬ pkt.hasFlag thSyn → isTcpAckAckPacket r pkt → ¬ Completes r pkt →
      ¬ Resets r pkt → FateCases r pkt (.keep ⟨r.sreq, .ackAck⟩)
  | reset : Resets r pkt → FateCases r pkt .reset
  | session : Completes r pkt → FateCases r pkt (.session ⟨r.sreq, .ackAck⟩)

theorem threeWayHandshakeProcess_cases (r : SessionRequest) (pkt : TcpPacket) :
    FateCases r pkt (threeWayHandshakeProcess r pkt) := by
  unfold threeWayHandshakeProcess
  by_cases hsyn : isTcpSynPacket pkt
  · have hf : pkt.hasFlag thSyn := by
      simp only [isTcpSynPacket, Bool.and_eq_true] at hsyn
      exact hsyn.1
    have hno : ¬ isTcpSynAckPacket pkt := by
      simp only [isTcpSynPacket, isTcpSynAckPacket] at hsyn ⊢
      simp_all
    rw [if_pos hsyn]
    exact .stay (fun _ => hno) (fun hc => hc.1 hf) (fun hc => hc.1 hf)
  rw [if_neg hsyn]
  by_cases hsa : isTcpSynAckPacket pkt
  · have hf : pkt.hasFlag thSyn := by
      simp only [isTcpSynAckPacket, Bool.and_eq_true] at hsa
      exact hsa.1
    rw [if_pos hsa]
    split
    · rename_i hst
      exact .answer hst hsa (fun hc => hc.1 hf) (fun hc => hc.1 hf)
    · rename_i hst
      exact .stay (fun h => absurd h hst) (fun hc => hc.1 hf) (fun hc => hc.1 hf)
  rw [if_neg hsa]
  have hf := not_syn_of_neither hsyn hsa
  by_cases hack : isTcpAckAckPacket r pkt
  · rw [if_pos hack, if_pos (ackAck_state hack)]
    split
    · rename_i hdata
      exact .session ⟨hf, hdata, Or.inl hack⟩
    · rename_i hdata
      exact .confirm hf hack (fun hc => hdata hc.2.1) (fun hc => hc.2.2 hack)
  rw [if_neg hack]
  by_cases hrst : isTcpRstPacket pkt
  · rw [if_pos hrst]
    exact .reset ⟨hf, hrst, hack⟩
  rw [if_neg hrst]
  have hnoReset : ¬ Resets r pkt := fun hc => hrst hc.2.1
  by_cases hdata : isTcpDataPacket pkt
  · rw [if_pos hdata]
    by_cases hst : r.threeWayState = .ackAck
    · rw [if_pos hst]
      have hr : r = ⟨r.sreq, .ackAck⟩ := by
        cases r
        simp_all
      rw [hr]
      exact .session ⟨hf, hdata, Or.inr ⟨hrst, rfl⟩⟩
    · rw [if_neg hst]
      exact .stay (fun _ => hsa) (fun hc => hc.2.2.elim hack fun h => hst h.2) hnoReset
  · rw [if_neg hdata]
    exact .stay (fun _ => hsa) (fun hc => hdata hc.2.1) hnoReset

theorem HandshakeAt.stay {r : SessionRequest} {rest : List TcpPacket} {pkt : TcpPacket}
    (h : HandshakeAt r rest) (hno : r.threeWayState = .syn → ¬ isTcpSynAckPacket pkt) :
    HandshakeAt r (rest ++ [pkt]) := by
  unfold HandshakeAt at h ⊢
  cases hst : r.threeWayState with
  | init => simp [hst] at h
  | syn =>
    simp only [hst] at h
    simp only [List.forall_mem_append, List.forall_mem_singleton]
    exact ⟨h, hno hst⟩
  | synAck =>
    simp only [hst] at h
    obtain ⟨sa, after, hans, hseq⟩ := h
    exact ⟨sa, _, hans.snoc pkt, hseq⟩
  | ackAck =>
    simp only [hst] at h
    obtain ⟨sa, after, hans, hseq, hconf⟩ := h
    exact ⟨sa, _, hans.snoc pkt, hseq, hconf.snoc pkt⟩

theorem HandshakeAt.answer {r : SessionRequest} {rest : List TcpPacket} {pkt : TcpPacket}
    (h : HandshakeAt r rest) (hst : r.threeWayState = .syn) (hsa : isTcpSynAckPacket pkt) :
    HandshakeAt ⟨{ r.sreq with resSnInit := add 32 pkt.sentSeq 1 }, .synAck⟩ (rest ++ [pkt]) := by
  simp only [HandshakeAt, hst] at h
  exact ⟨pkt, [], ⟨rest, rfl, hsa, h⟩, rfl⟩

theorem HandshakeAt.confirm {r : SessionRequest} {rest : List TcpPacket} {pkt : TcpPacket}
    (h : HandshakeAt r rest) (hf : ¬ pkt.hasFlag thSyn) (hack : isTcpAckAckPacket r pkt) :
    ∃ synAck after, Answered (rest ++ [pkt]) synAck after ∧
      r.sreq.resSnInit = add 32 synAck.sentSeq 1 ∧ Confirmed synAck after := by
  simp only [HandshakeAt, ackAck_state hack] at h
  obtain ⟨sa, after, hans, hseq⟩ := h
  simp only [isTcpAckAckPacket, Bool.and_eq_true, decide_eq_true_eq] at hack
  exact ⟨sa, _, hans.snoc pkt, hseq, pkt, by simp, hf, hack.1.1, hack.2.trans hseq⟩

theorem HandshakeAt.completes {r : SessionRequest} {rest : List TcpPacket} {pkt : TcpPacket}
    (h : HandshakeAt r rest) (hc : Completes r pkt) :
    ∃ synAck after, Answered (rest ++ [pkt]) synAck after ∧
      r.sreq.resSnInit = add 32 synAck.sentSeq 1 ∧ Confirmed synAck after := by
  obtain ⟨hf, -, hack | ⟨-, hst⟩⟩ := hc
  · exact h.confirm hf hack
  · have hstay : HandshakeAt r (rest ++ [pkt]) := h.stay fun hsyn => by simp [hsyn] at hst
    simpa only [HandshakeAt, hst] using hstay

theorem SlotOk.create (number : ℕ) {pkt : TcpPacket} (hsyn : isTcpSynPacket pkt) :
    SlotOk ⟨number, sessionRequestCreate pkt, [pkt]⟩ where
  tracks := ⟨pkt, [], rfl, hsyn, rfl, by simp [HandshakeAt, sessionRequestCreate]⟩
  tuple p hp := by
    rw [List.mem_singleton] at hp
    subst hp
    cases hv : p.isIpv6 <;>
      simp [sessionRequestEntryEqual, requestIsRequest, sessionRequestCreate, hv]

theorem SlotOk.keep {slot : RequestSlot} {pkt : TcpPacket} {r : SessionRequest} (h : SlotOk slot)
    (heq : sessionRequestEntryEqual slot.request.sreq pkt)
    (hfate : threeWayHandshakeProcess slot.request pkt = .keep r) :
    SlotOk ⟨slot.number, r, slot.seen ++ [pkt]⟩ := by
  obtain ⟨syn, rest, hseen, hsyn, hsreq, hat⟩ := h.tracks
  have hcases := threeWayHandshakeProcess_cases slot.request pkt
  rw [hfate] at hcases
  have htuple : ∀ p ∈ slot.seen ++ [pkt], sessionRequestEntryEqual slot.request.sreq p := by
    simp only [List.forall_mem_append, List.forall_mem_singleton]
    exact ⟨h.tuple, heq⟩
  have hseen' : slot.seen ++ [pkt] = syn :: (rest ++ [pkt]) := by rw [hseen]; rfl
  cases hcases with
  | stay hno => exact ⟨⟨syn, _, hseen', hsyn, hsreq, hat.stay hno⟩, htuple⟩
  | answer hst hsa =>
    refine ⟨⟨syn, _, hseen', hsyn, ?_, hat.answer hst hsa⟩, htuple⟩
    change { slot.request.sreq with resSnInit := add 32 pkt.sentSeq 1 } = _
    rw [hsreq]
  | confirm hf hack => exact ⟨⟨syn, _, hseen', hsyn, hsreq, hat.confirm hf hack⟩, htuple⟩

theorem tcpSessionEntryEqual_init {r : TcpSessionRequest} (sentry : σ) (pkt : TcpPacket)
    (hzero : r.isIpv6 → r.reqIp = 0 ∧ r.resIp = 0) :
    tcpSessionEntryEqual (tcpSessionInit r sentry) pkt = sessionRequestEntryEqual r pkt := by
  cases hv : r.isIpv6 with
  | false =>
    simp [tcpSessionEntryEqual, sessionRequestEntryEqual, endpointIsRequest, endpointIsResponse,
      requestIsRequest, requestIsResponse, tcpSessionInit, hv, tcpSessionEndpointInit]
  | true =>
    obtain ⟨hreq, hres⟩ := hzero hv
    simp [tcpSessionEntryEqual, sessionRequestEntryEqual, endpointIsRequest, endpointIsResponse,
      requestIsRequest, requestIsResponse, tcpSessionInit, hv, tcpSessionEndpointInitIpv6, hreq,
      hres]

theorem tcpSessionInit_initSeq (r : TcpSessionRequest) (sentry : σ) :
    (tcpSessionInit r sentry).endpointReq.initSeq = r.reqSnInit ∧
      (tcpSessionInit r sentry).endpointRes.initSeq = r.resSnInit := by
  cases hv : r.isIpv6 <;>
    simp [tcpSessionInit, hv, tcpSessionEndpointInit, tcpSessionEndpointInitIpv6]

theorem SlotOk.session {slot : RequestSlot} {pkt : TcpPacket} {r : SessionRequest} (h : SlotOk slot)
    (heq : sessionRequestEntryEqual slot.request.sreq pkt)
    (hfate : threeWayHandshakeProcess slot.request pkt = .session r) (sentry : σ) :
    ThreeWay (slot.seen ++ [pkt]) (tcpSessionInit r.sreq sentry) := by
  obtain ⟨syn, rest, hseen, hsyn, hsreq, hat⟩ := h.tracks
  have hcases := threeWayHandshakeProcess_cases slot.request pkt
  rw [hfate] at hcases
  cases hcases with
  | session hc =>
    obtain ⟨sa, after, hans, hseq, hconf⟩ := hat.completes hc
    rw [hseq] at hsreq
    have hinit := tcpSessionInit_initSeq slot.request.sreq sentry
    refine ⟨syn, _, sa, after, sentry, by rw [hseen]; rfl, hsyn, hans, hconf, by rw [← hsreq],
      ?_, hinit.2.trans hseq, ?_⟩
    · rw [hinit.1, hsreq]
      rfl
    · intro p hp
      rw [tcpSessionEntryEqual_init sentry p]
      · simp only [List.mem_append, List.mem_singleton] at hp
        rcases hp with hp | rfl
        · exact h.tuple p hp
        · exact heq
      · intro hv
        rw [hsreq] at hv ⊢
        simp only [sessionRequestCreate] at hv ⊢
        simp [hv]

structure TrackerOk (t : Tracker σ) : Prop where
  slots : ∀ e ∈ t.requests, SlotOk e
  distinct : (t.requests.map RequestSlot.number).Nodup
  fresh : ∀ e ∈ t.requests, e.number < t.numbers

theorem requestOf_mem {t : Tracker σ} {l : Delivery σ} {slot : RequestSlot}
    (h : requestOf t l = some slot) : slot ∈ t.requests := by
  obtain ⟨n, -, hfind⟩ := Option.bind_eq_some_iff.1 h
  exact List.mem_of_find?_eq_some hfind

theorem TrackerOk.unique {t : Tracker σ} (h : TrackerOk t) {e f : RequestSlot}
    (he : e ∈ t.requests) (hf : f ∈ t.requests) (hn : e.number = f.number) : e = f :=
  List.inj_on_of_nodup_map h.distinct he hf hn

theorem TrackerOk.entryEqual {t : Tracker σ} {l : Delivery σ} {slot : RequestSlot}
    (h : TrackerOk t) (hl : LookupOk t l) (hslot : requestOf t l = some slot) :
    sessionRequestEntryEqual slot.request.sreq l.pkt := by
  obtain ⟨n, hn, hfind⟩ := Option.bind_eq_some_iff.1 hslot
  obtain ⟨e, he, hnum, heq⟩ := hl.request n hn
  have hsn : slot.number = n := by simpa using List.find?_some hfind
  rw [h.unique (requestOf_mem hslot) he (hsn.trans hnum.symm)]
  exact heq

theorem TrackerOk.init : TrackerOk (⟨[], [], 0⟩ : Tracker σ) := ⟨by simp, by simp, by simp⟩

theorem TrackerOk.of_sublist {t t' : Tracker σ} (h : TrackerOk t)
    (hreq : t'.requests.Sublist t.requests) (hnum : t.numbers ≤ t'.numbers) : TrackerOk t' where
  slots e he := h.slots e (hreq.subset he)
  distinct := (hreq.map _).nodup h.distinct
  fresh e he := lt_of_lt_of_le (h.fresh e (hreq.subset he)) hnum

theorem TrackerOk.create {t : Tracker σ} (h : TrackerOk t) {pkt : TcpPacket}
    (hsyn : isTcpSynPacket pkt) :
    TrackerOk { t with
      requests := ⟨t.numbers, sessionRequestCreate pkt, [pkt]⟩ :: t.requests
      numbers := t.numbers + 1 } where
  slots := by
    simp only [List.forall_mem_cons]
    exact ⟨SlotOk.create _ hsyn, h.slots⟩
  distinct := by
    simp only [List.map_cons, List.nodup_cons, List.mem_map, not_exists, not_and]
    exact ⟨fun e he hn => absurd (h.fresh e he) (by omega), h.distinct⟩
  fresh := by
    simp only [List.forall_mem_cons]
    exact ⟨Nat.lt_succ_self _, fun e he => Nat.lt_succ_of_lt (h.fresh e he)⟩

theorem setRequest_numbers (t : Tracker σ) (slot : RequestSlot) :
    (t.setRequest slot).requests.map RequestSlot.number = t.requests.map RequestSlot.number := by
  simp only [Tracker.setRequest, List.map_map]
  refine List.map_congr_left fun e _ => ?_
  simp only [Function.comp_apply]
  split
  · rename_i hn
    exact hn.symm
  · rfl

theorem TrackerOk.setRequest {t : Tracker σ} (h : TrackerOk t) {slot : RequestSlot}
    (hslot : SlotOk slot) : TrackerOk (t.setRequest slot) where
  slots e he := by
    obtain ⟨f, hf, rfl⟩ := List.mem_map.1 he
    split
    · exact hslot
    · exact h.slots f hf
  distinct := by
    rw [setRequest_numbers]
    exact h.distinct
  fresh e he := by
    have hmem : e.number ∈ t.requests.map RequestSlot.number := by
      rw [← setRequest_numbers t slot]
      exact List.mem_map_of_mem he
    obtain ⟨f, hf, hn⟩ := List.mem_map.1 hmem
    exact hn ▸ h.fresh f hf

theorem sessionCreate_requests (t : Tracker σ) (l : Delivery σ) (app : TcpApp σ) (request : ℕ)
    (r : SessionRequest) :
    (sessionCreate t l app request r).tracker.requests = t.requests ∧
      t.numbers ≤ (sessionCreate t l app request r).tracker.numbers := by
  unfold sessionCreate
  split
  · exact ⟨rfl, le_rfl⟩
  · split
    · exact ⟨rfl, Nat.le_succ _⟩
    · exact ⟨rfl, le_rfl⟩

theorem TrackerOk.handshakeProcess {t : Tracker σ} {l : Delivery σ} (h : TrackerOk t)
    (hl : LookupOk t l) (app : TcpApp σ) : TrackerOk (Tcp.handshakeProcess t l app).tracker := by
  unfold Tcp.handshakeProcess
  split
  · split
    · rename_i hsyn
      simp only [Bool.and_eq_true] at hsyn
      exact h.create hsyn.1
    · exact h
  · rename_i slot hslot
    split
    · rename_i r hfate
      exact h.setRequest ((h.slots slot (requestOf_mem hslot)).keep (h.entryEqual hl hslot) hfate)
    · exact h.of_sublist List.filter_sublist le_rfl
    · rename_i r hfate
      obtain ⟨hreq, hnum⟩ := sessionCreate_requests t l app slot.number r
      refine h.of_sublist ?_ hnum
      change (List.filter _ _).Sublist _
      rw [hreq]
      exact List.filter_sublist

theorem TrackerOk.requestPacketHandle {t : Tracker σ} {l : Delivery σ} (h : TrackerOk t)
    (hl : LookupOk t l) : TrackerOk (Tcp.requestPacketHandle t l).tracker := by
  unfold Tcp.requestPacketHandle
  split
  · exact h
  · split
    · exact h.of_sublist (List.Sublist.refl _) le_rfl
    · exact h.handshakeProcess hl _

theorem TrackerOk.step {t t' : Tracker σ} {l : Delivery σ} (h : TrackerOk t)
    (hs : TrackStep t l t') : TrackerOk t' := by
  obtain ⟨hl, rfl⟩ := hs
  exact (h.requestPacketHandle hl).of_sublist List.filter_sublist le_rfl

def attributed (t : Tracker σ) (l : Delivery σ) : Option RequestSlot :=
  if l.app.isSome ∧ sessionOf l = none then requestOf t l else none

theorem TrackerOk.created {t : Tracker σ} {l : Delivery σ} (h : TrackerOk t) (hl : LookupOk t l)
    {n : ℕ} {s : TcpSession σ}
    (hmem : .sessionCreated n s ∈ (sessionRequestPacketHandle t l).events) :
    ∃ slot ∈ t.requests, slot.number = n ∧ attributed t l = some slot ∧
      ThreeWay (slot.seen ++ [l.pkt]) s := by
  simp only [sessionRequestPacketHandle, requestsTimeoutFree, List.mem_append, List.mem_map,
    reduceCtorEq, and_false, exists_false, or_false] at hmem
  unfold Tcp.requestPacketHandle at hmem
  split at hmem
  · simp at hmem
  · rename_i app happ
    split at hmem
    · simp at hmem
    · rename_i hses
      unfold Tcp.handshakeProcess at hmem
      split at hmem
      · split at hmem <;> simp at hmem
      · rename_i slot hslot
        split at hmem
        · simp at hmem
        · simp at hmem
        · rename_i r hfate
          simp only [sessionCreate, List.mem_append, List.mem_singleton, reduceCtorEq,
            or_false] at hmem
          split at hmem
          · simp at hmem
          · rename_i sentry hsentry
            split at hmem
            · simp only [List.mem_singleton, TrackEvent.sessionCreated.injEq] at hmem
              obtain ⟨rfl, rfl⟩ := hmem
              have hmem := requestOf_mem hslot
              exact ⟨slot, hmem, rfl, by simp [attributed, happ, hses, hslot],
                (h.slots slot hmem).session (h.entryEqual hl hslot) hfate sentry⟩
            · simp at hmem

/-- The packet ends the entry: it brings the handshake to a session or resets it. -/
def Ends (t : Tracker σ) (l : Delivery σ) (slot : RequestSlot) : Prop :=
  attributed t l = some slot ∧ (Completes slot.request l.pkt ∨ Resets slot.request l.pkt)

theorem mem_freeRequest_numbers {t : Tracker σ} {n m : ℕ} :
    m ∈ (t.freeRequest n).requests.map RequestSlot.number ↔
      m ∈ t.requests.map RequestSlot.number ∧ m ≠ n := by
  simp only [Tracker.freeRequest, List.mem_map, List.mem_filter, decide_eq_true_eq]
  constructor
  · rintro ⟨e, ⟨he, hne⟩, rfl⟩
    exact ⟨⟨e, he, rfl⟩, hne⟩
  · rintro ⟨⟨e, he, rfl⟩, hne⟩
    exact ⟨e, ⟨he, hne⟩, rfl⟩

theorem TrackerOk.handshakeProcess_kept {t : Tracker σ} {l : Delivery σ} (h : TrackerOk t)
    (app : TcpApp σ) {slot : RequestSlot} (hslot : slot ∈ t.requests) :
    slot.number ∈ (Tcp.handshakeProcess t l app).tracker.requests.map RequestSlot.number ↔
      ¬ (requestOf t l = some slot ∧
        (Completes slot.request l.pkt ∨ Resets slot.request l.pkt)) := by
  have hin : slot.number ∈ t.requests.map RequestSlot.number := List.mem_map_of_mem hslot
  unfold Tcp.handshakeProcess
  split
  · rename_i hnone
    rw [hnone]
    split <;> simp [hin]
  · rename_i found hfound
    have hcases := threeWayHandshakeProcess_cases found.request l.pkt
    -- the number of another entry is another number
    have hother : slot ≠ found → slot.number ≠ found.number := fun hne hn =>
      hne (h.unique hslot (requestOf_mem hfound) hn)
    rw [hfound, Option.some.injEq]
    split
    · rename_i r hfate
      rw [hfate] at hcases
      simp only [setRequest_numbers, hin, true_iff, not_and, not_or]
      rintro rfl
      cases hcases <;> exact ⟨by assumption, by assumption⟩
    · rename_i hfate
      rw [hfate] at hcases
      cases hcases with
      | reset hr =>
        rw [mem_freeRequest_numbers]
        by_cases hs : slot = found
        · subst hs
          simp [hr]
        · simp [hin, hother hs, Ne.symm hs]
    · rename_i r hfate
      rw [hfate] at hcases
      cases hcases with
      | session hc =>
        rw [mem_freeRequest_numbers, (sessionCreate_requests t l app found.number _).1]
        by_cases hs : slot = found
        · subst hs
          simp [hc]
        · simp [hin, hother hs, Ne.symm hs]

theorem TrackerOk.removed_iff {t : Tracker σ} {l : Delivery σ} (h : TrackerOk t)
    {slot : RequestSlot} (hslot : slot ∈ t.requests) :
    (∀ e ∈ (sessionRequestPacketHandle t l).tracker.requests, e.number ≠ slot.number) ↔
      Ends t l slot ∨ slot.number ∈ l.requestsExpired := by
  have hkept : slot.number ∈ (Tcp.requestPacketHandle t l).tracker.requests.map
      RequestSlot.number ↔ ¬ Ends t l slot := by
    unfold Ends attributed Tcp.requestPacketHandle
    split
    · rename_i happ
      simpa [happ] using ⟨slot, hslot, rfl⟩
    · rename_i app happ
      split
      · rename_i n hses
        simpa [hses] using ⟨slot, hslot, rfl⟩
      · rename_i hses
        simpa [happ, hses] using h.handshakeProcess_kept app hslot
  rw [← not_iff_not, not_or, ← hkept]
  simp only [sessionRequestPacketHandle, requestsTimeoutFree, List.mem_filter, decide_eq_true_eq,
    List.mem_map, ne_eq, not_forall, not_not, exists_prop]
  constructor
  · rintro ⟨e, ⟨he, hne⟩, hn⟩
    exact ⟨⟨e, he, hn⟩, hn ▸ hne⟩
  · rintro ⟨⟨e, he, hn⟩, hne⟩
    exact ⟨e, ⟨he, hn ▸ hne⟩, hn⟩

/-- In every run, each session comes from a SYN, the first SYN-ACK after it and an
acknowledgement of that SYN-ACK among the packets of its request entry, and each entry
leaves the pool exactly when a session is made of it, when it is reset, or when it times
out. -/
theorem handshake_tracked {history : List (Tracker σ × Delivery σ)} {t : Tracker σ}
    (hrun : TrackRun history t) : ∀ v ∈ history,
      (∀ n s, .sessionCreated n s ∈ (sessionRequestPacketHandle v.1 v.2).events →
        ∃ slot ∈ v.1.requests, slot.number = n ∧ attributed v.1 v.2 = some slot ∧
          ThreeWay (slot.seen ++ [v.2.pkt]) s) ∧
      ∀ slot ∈ v.1.requests,
        (∀ e ∈ (sessionRequestPacketHandle v.1 v.2).tracker.requests, e.number ≠ slot.number) ↔
          Ends v.1 v.2 slot ∨ slot.number ∈ v.2.requestsExpired := by
  have hinv : TrackerOk t ∧ ∀ v ∈ history, TrackerOk v.1 ∧ LookupOk v.1 v.2 := by
    induction hrun with
    | nil => exact ⟨TrackerOk.init, by simp⟩
    | snoc _ hs ih =>
      refine ⟨ih.1.step hs, ?_⟩
      simp only [List.forall_mem_append, List.forall_mem_singleton]
      exact ⟨ih.2, ih.1, hs.1⟩
  intro v hv
  obtain ⟨hok, hl⟩ := hinv.2 v hv
  exact ⟨fun n s hmem => hok.created hl hmem, fun slot hslot => hok.removed_iff hslot⟩

/-- What one would ask of a handshake: the SYN-ACK comes from the other side and
acknowledges the SYN, the last packet comes from the initiator, and the session is
numbered by them. -/
def StrictThreeWay (seen : List TcpPacket) (s : TcpSession σ) : Prop :=
  ∃ syn synAck ack, [syn, synAck, ack].Sublist seen ∧ isTcpSynPacket syn ∧
    isTcpSynAckPacket synAck ∧ requestIsResponse (sessionRequestCreate syn).sreq synAck ∧
    synAck.recvAck = add 32 syn.sentSeq 1 ∧ ¬ ack.hasFlag thSyn ∧ ack.hasFlag thAck ∧
    requestIsRequest (sessionRequestCreate syn).sreq ack ∧
    ack.recvAck = add 32 synAck.sentSeq 1 ∧
    s.endpointReq.initSeq = add 32 syn.sentSeq 1 ∧ s.endpointRes.initSeq = add 32 synAck.sentSeq 1

def track (t : Tracker Unit) (l : Delivery Unit) : Tracker Unit :=
  (sessionRequestPacketHandle t l).tracker

def tracked (ls : List (Delivery Unit)) : List (Tracker Unit × Delivery Unit) :=
  trace track ⟨[], [], 0⟩ ls

theorem trackRun_of_lookups {ls : List (Delivery Unit)}
    (h : ∀ v ∈ tracked ls, LookupOk v.1 v.2) :
    TrackRun (tracked ls) (ls.foldl track ⟨[], [], 0⟩) := Run.guardedTrace h

/-- The requests all go to one entry, number zero; `expired` is what the drain takes. -/
def deliver (a : Arrival) (found : Option ℕ) (expired : List ℕ) : Delivery Unit :=
  { pkt := a.pkt, app := some continuingApp, sessionFound := none, requestFound := found
    requestOk := true, sentry := some (), sessionOk := true, allocOk := true, inRing := false
    requestsExpired := expired, sessionsExpired := [] }

def synDelivery (found : Option ℕ) (seq : ℕ) : Delivery Unit :=
  deliver (controlPacket .req thSyn seq 0) found []

def synAckDelivery (d : SessionDirect) (ack : ℕ) : Delivery Unit :=
  deliver (controlPacket d (thSyn ||| thAck) 500 ack) (some 0) []

def ackDelivery : Delivery Unit := deliver (controlPacket .req thAck 101 501) (some 0) []

def dataDelivery : Delivery Unit := deliver dataArrival (some 0) []

def orderlyHandshake : List (Delivery Unit) :=
  [synDelivery none 100, synAckDelivery .res 101, ackDelivery, dataDelivery]

/-- The session of `firstRequest` from its handshake and its first data packet. -/
theorem handshake_tracked_orderly :
    let t := [synDelivery none 100, synAckDelivery .res 101, ackDelivery].foldl track ⟨[], [], 0⟩
    TrackRun (tracked orderlyHandshake) (orderlyHandshake.foldl track ⟨[], [], 0⟩) ∧
      ∃ slot ∈ t.requests, slot.number = 0 ∧ attributed t dataDelivery = some slot ∧
        ThreeWay (slot.seen ++ [dataDelivery.pkt]) (tcpSessionInit firstRequest ()) := by
  intro t
  have hrun : TrackRun (tracked orderlyHandshake) (orderlyHandshake.foldl track ⟨[], [], 0⟩) :=
    trackRun_of_lookups (by decide)
  have hmem : (t, dataDelivery) ∈ tracked orderlyHandshake := by
    simp [tracked, orderlyHandshake, trace, t]
  have hcreated : .sessionCreated 0 (tcpSessionInit firstRequest ()) ∈
      (sessionRequestPacketHandle t dataDelivery).events := by decide
  exact ⟨hrun, (handshake_tracked hrun (t, dataDelivery) hmem).1 0 _ hcreated⟩

theorem not_strictThreeWay {seen : List TcpPacket} {s : TcpSession σ}
    (h : ∀ syn ∈ seen, ∀ synAck ∈ seen, isTcpSynPacket syn → isTcpSynAckPacket synAck →
      synAck.recvAck = add 32 syn.sentSeq 1 → s.endpointReq.initSeq ≠ add 32 syn.sentSeq 1) :
    ¬ StrictThreeWay seen s := by
  rintro ⟨syn, synAck, ack, hsub, hsyn, hsa, -, hack, -, -, -, -, hseq, -⟩
  exact h syn (hsub.subset (by simp)) synAck (hsub.subset (by simp)) hsyn hsa hack hseq

/-- The SYN-ACK comes from the client itself and acknowledges something else, and the
server acknowledges it with its first data. -/
def unmatchedHandshake : List (Delivery Unit) :=
  [synDelivery none 100, synAckDelivery .req 999,
    deliver ⟨{ firstDataPacket with
      srcIp := 2, dstIp := 1, srcPort := 80, dstPort := 1000, sentSeq := 700 }, true, false⟩
      (some 0) []]

/-- A second connection attempt from the same port, answered and acknowledged. -/
def reusedPort : List (Delivery Unit) :=
  [synDelivery none 100, synDelivery (some 0) 300, synAckDelivery .res 301, dataDelivery]

def expiredSyn : List (Delivery Unit) :=
  [synDelivery none 100, deliver (controlPacket .res thAck 7 7) none [0]]

/-- A session without a strict handshake, one numbered by an outdated SYN, and an entry
that leaves the pool on its own. -/
theorem loose_handshakes :
    (∃ v ∈ tracked unmatchedHandshake, ∃ slot ∈ v.1.requests, ∃ s,
      .sessionCreated slot.number s ∈ (sessionRequestPacketHandle v.1 v.2).events ∧
        ¬ StrictThreeWay (slot.seen ++ [v.2.pkt]) s) ∧
    (∃ v ∈ tracked reusedPort, ∃ slot ∈ v.1.requests, ∃ s,
      .sessionCreated slot.number s ∈ (sessionRequestPacketHandle v.1 v.2).events ∧
        ¬ StrictThreeWay (slot.seen ++ [v.2.pkt]) s) ∧
    (∃ v ∈ tracked expiredSyn, ∃ slot ∈ v.1.requests,
      slot.number ∉ (sessionRequestPacketHandle v.1 v.2).tracker.requests.map RequestSlot.number ∧
        ¬ Ends v.1 v.2 slot) ∧
    ∀ ls ∈ [unmatchedHandshake, reusedPort, expiredSyn],
      TrackRun (tracked ls) (ls.foldl track ⟨[], [], 0⟩) := by
  refine ⟨?_, ?_, ?_, fun ls hls => trackRun_of_lookups ?_⟩
  · exact ⟨_, .tail _ (.tail _ (.head _)), _, .head _, tcpSessionInit firstRequest (), by decide,
      not_strictThreeWay (by decide)⟩
  · exact ⟨_, .tail _ (.tail _ (.tail _ (.head _))), _, .head _, tcpSessionInit firstRequest (),
      by decide, not_strictThreeWay (by decide)⟩
  · refine ⟨_, .tail _ (.head _), _, .head _, by decide, fun hends => ?_⟩
    simpa [attributed, requestOf, deliver] using hends.1
  · revert ls
    decide

end CloudHands.Tcp

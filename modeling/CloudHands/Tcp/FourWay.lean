import CloudHands.Lib.Run
import CloudHands.Tcp.SessionClose

/-!
# The four-way close

Runs of an established session from its creation to its end. The handler keeps
one state and two sequence numbers for the closing handshake, and neither the
sender of a recorded FIN nor its payload. The property below is what the states
are meant to say; `StepOk` lists the packets the handler cannot tell apart, and
without them the property holds in every run.
-/

namespace CloudHands.Tcp

open CloudHands.Word (add sub)
open CloudHands.Lib

variable {σ : Type*}

/-- A packet of the session, with the outcome of its allocation and of the drain. -/
structure Arrival where
  pkt : TcpPacket
  allocOk : Bool
  inRing : Bool
deriving DecidableEq, Repr

def Handling.ended (h : Handling σ) : Prop := .close ∈ h.log ∨ .expire ∈ h.log

instance (h : Handling σ) : Decidable h.ended := inferInstanceAs (Decidable (_ ∨ _))

def arrive (app : TcpApp σ) (s : TcpSession σ) (a : Arrival) : Handling σ :=
  tcpSessionDataProcess app a.allocOk a.inRing a.pkt ⟨s, []⟩

def SessionStep (app : TcpApp σ) (h : Handling σ) (a : Arrival) (h' : Handling σ) : Prop :=
  ¬ h.ended ∧ h' = arrive app h.session a

def SessionRun (app : TcpApp σ) (sreq : TcpSessionRequest) (sentry : σ) :
    List (Handling σ × Arrival) → Handling σ → Prop :=
  Run (SessionStep app) ⟨tcpSessionInit sreq sentry, []⟩

def FourWayState.rank : FourWayState → ℕ
  | .init => 0
  | .fin1 => 1
  | .fin1Ack => 2
  | .fin2 => 3
  | .fin2Ack => 4

def sender (s : TcpSession σ) (a : Arrival) : Option SessionDirect := tcpSessionEndpointGet s a.pkt

/-- The step records the packet as the first FIN, sent by endpoint `d`. -/
def RecordsFin1 (app : TcpApp σ) (v : Handling σ × Arrival) (d : SessionDirect) : Prop :=
  v.1.session.fourWayState = .init ∧ (arrive app v.1.session v.2).session.fourWayState = .fin1 ∧
    sender v.1.session v.2 = some d

/-- The step records the packet as the second FIN, sent by endpoint `d`. -/
def RecordsFin2 (app : TcpApp σ) (v : Handling σ × Arrival) (d : SessionDirect) : Prop :=
  v.1.session.fourWayState ≠ .fin2 ∧ (arrive app v.1.session v.2).session.fourWayState = .fin2 ∧
    sender v.1.session v.2 = some d

instance (app : TcpApp σ) (v : Handling σ × Arrival) (d : SessionDirect) :
    Decidable (RecordsFin1 app v d) := inferInstanceAs (Decidable (_ ∧ _ ∧ _))

instance (app : TcpApp σ) (v : Handling σ × Arrival) (d : SessionDirect) :
    Decidable (RecordsFin2 app v d) := inferInstanceAs (Decidable (_ ∧ _ ∧ _))

def seqAfterFin (pkt : TcpPacket) : ℕ := add 32 (add 32 pkt.sentSeq pkt.payloadLen) 1

/-- The packet of the step comes from the peer of `d` and acknowledges `seq`. -/
def AcksSeq (v : Handling σ × Arrival) (d : SessionDirect) (seq : ℕ) : Prop :=
  sender v.1.session v.2 = some d.peer ∧ v.2.pkt.hasFlag thAck ∧ v.2.pkt.recvAck = seq

/-- The recorded FIN of `d` was acknowledged by the peer later in the history. -/
def FinAcked (app : TcpApp σ) (history : List (Handling σ × Arrival)) (d : SessionDirect) : Prop :=
  ∃ pre fin post, history = pre ++ fin :: post ∧
    (RecordsFin1 app fin d ∨ RecordsFin2 app fin d) ∧
    ∃ v ∈ post, AcksSeq v d (seqAfterFin fin.2.pkt)

def flagsReached (app : TcpApp σ) (s : TcpSession σ) (a : Arrival) : Option (Handling σ) :=
  let s := setTcpState s a.pkt
  let s := if needUpdateLastAck s a.pkt then updateLastAck s a.pkt else s
  if isNeedIgnore s a.pkt then none
  else
    match tcpSessionEndpointGet s a.pkt with
    | none => none
    | some d =>
      let h := Handling.entered ⟨s, [.access]⟩ d
      if a.pkt.pdata.isSome then
        let h := (processDataPacket app a.allocOk d a.pkt h).emit .access
        if ackBeyondOffset (h.session.endpoint d) then none else some h
      else some h

def ClosesByFin (app : TcpApp σ) (v : Handling σ × Arrival) : Prop :=
  ¬ isTcpRstPacket v.2.pkt ∧ ∃ h ∈ flagsReached app v.1.session v.2,
    h.log.count .close < (processFlags v.2.pkt h).log.count .close

/-- The closing handshake of a run: the two FINs come from different endpoints, the
state never moves backwards, and the FIN path closes the session, and reaches its last
state, only after both FINs were acknowledged. -/
structure FourWayClose (app : TcpApp σ) (history : List (Handling σ × Arrival))
    (h : Handling σ) : Prop where
  different : ∀ v ∈ history, ∀ w ∈ history, ∀ d d',
    RecordsFin1 app v d → RecordsFin2 app w d' → d ≠ d'
  monotone : ∀ v ∈ history,
    v.1.session.fourWayState.rank ≤ (arrive app v.1.session v.2).session.fourWayState.rank
  closed : StepsOk (fun pre h a => ClosesByFin app (h, a) →
    ∀ d, FinAcked app (pre ++ [(h, a)]) d) history
  acknowledged : h.session.fourWayState = .fin2Ack → ∀ d, FinAcked app history d

def handled (s : TcpSession σ) (pkt : TcpPacket) : Bool := !isNeedIgnore (setTcpState s pkt) pkt

@[simp] theorem setTcpState_fins (s : TcpSession σ) (pkt : TcpPacket) :
    (setTcpState s pkt).fins = s.fins := by
  unfold setTcpState
  split_ifs <;> rfl

@[simp] theorem updateLastAck_fins (s : TcpSession σ) (pkt : TcpPacket) :
    (updateLastAck s pkt).fins = s.fins := by
  unfold updateLastAck
  split <;> simp

@[simp] theorem updateLastAck_state (s : TcpSession σ) (pkt : TcpPacket) :
    (updateLastAck s pkt).state = s.state := by
  simp only [updateLastAck]
  split
  · rfl
  · rename_i d _
    cases d <;> rfl

@[simp] theorem endpointGet_setTcpState (s : TcpSession σ) (pkt : TcpPacket) :
    tcpSessionEndpointGet (setTcpState s pkt) pkt = tcpSessionEndpointGet s pkt := by
  unfold setTcpState
  split_ifs <;> rfl

@[simp] theorem endpointGet_updateLastAck (s : TcpSession σ) (pkt : TcpPacket) :
    tcpSessionEndpointGet (updateLastAck s pkt) pkt = tcpSessionEndpointGet s pkt := by
  simp only [updateLastAck]
  split
  · rfl
  · rename_i d _
    cases d <;> rfl

theorem isFin1Ack_congr {s s' : TcpSession σ} (pkt : TcpPacket) (h : s'.fins = s.fins) :
    isFin1Ack s' pkt = isFin1Ack s pkt := by
  simp only [TcpSession.fins, Prod.mk.injEq] at h
  simp [isFin1Ack, h.2.1]

theorem isFin2Ack_congr {s s' : TcpSession σ} (pkt : TcpPacket) (h : s'.fins = s.fins) :
    isFin2Ack s' pkt = isFin2Ack s pkt := by
  simp only [TcpSession.fins, Prod.mk.injEq] at h
  simp [isFin2Ack, h.2.2]

/-- What a packet does to the bookkeeping `(state, fin1, fin2)` of the handshake. -/
inductive FinMove (s : TcpSession σ) (pkt : TcpPacket) : FourWayState × ℕ × ℕ → Prop
  | stay : FinMove s pkt s.fins
  | fin1 : isTcpFinPacket pkt → s.fourWayState = .init →
      FinMove s pkt (.fin1, pkt.sentSeq, s.fin2Seq)
  | fin2 : isTcpFinPacket pkt → s.fourWayState = .fin1 ∨ s.fourWayState = .fin1Ack →
      FinMove s pkt (.fin2, s.fin1Seq, pkt.sentSeq)
  | ack1 : ¬ isTcpFinPacket pkt → ¬ isTcpRstPacket pkt → isFin1Ack s pkt →
      FinMove s pkt (.fin1Ack, s.fin1Seq, s.fin2Seq)
  | ack2 : ¬ isTcpFinPacket pkt → ¬ isTcpRstPacket pkt → ¬ isFin1Ack s pkt → isFin2Ack s pkt →
      FinMove s pkt (.fin2Ack, s.fin1Seq, s.fin2Seq)

theorem FinMove.congr {s s' : TcpSession σ} {pkt : TcpPacket} {r : FourWayState × ℕ × ℕ}
    (h : s'.fins = s.fins) (hm : FinMove s' pkt r) : FinMove s pkt r := by
  have h1 := isFin1Ack_congr pkt h
  have h2 := isFin2Ack_congr pkt h
  have hs := h
  simp only [TcpSession.fins, Prod.mk.injEq] at hs
  cases hm with
  | stay => exact h ▸ .stay
  | fin1 hfin hst => exact hs.2.2 ▸ .fin1 hfin (hs.1 ▸ hst)
  | fin2 hfin hst => exact hs.2.1 ▸ .fin2 hfin (hs.1 ▸ hst)
  | ack1 hfin hrst hack => exact hs.2.1 ▸ hs.2.2 ▸ .ack1 hfin hrst (h1 ▸ hack)
  | ack2 hfin hrst hack hack2 =>
    exact hs.2.1 ▸ hs.2.2 ▸ .ack2 hfin hrst (h1 ▸ hack) (h2 ▸ hack2)

theorem processFlags_move (pkt : TcpPacket) (h : Handling σ) :
    FinMove h.session pkt (processFlags pkt h).session.fins := by
  unfold processFlags
  split
  · rename_i hfin
    simp only [processFinPacket, emit_session]
    split
    · rename_i hst
      exact .fin1 hfin hst
    · rename_i hst
      exact .fin2 hfin (Or.inl hst)
    · rename_i hst
      exact .fin2 hfin (Or.inr hst)
    · exact .stay
    · exact .stay
  · rename_i hfin
    split
    · exact .stay
    · rename_i hrst
      split
      · dsimp only
        split
        · rename_i hack
          exact .ack1 hfin hrst hack
        · rename_i hack
          split
          · rename_i hack2
            exact .ack2 hfin hrst hack hack2
          · exact .stay
      · exact .stay

theorem packetHandle_move (app : TcpApp σ) (allocOk : Bool) (pkt : TcpPacket) (h : Handling σ)
    {d : SessionDirect} (hd : tcpSessionEndpointGet h.session pkt = some d) :
    FinMove h.session pkt (packetHandle app allocOk pkt h).session.fins := by
  by_cases hp : pkt.pdata.isSome
  · rw [packetHandle_data app allocOk hd hp]
    have hfins : (processDataPacket app allocOk d pkt (h.entered d)).session.fins =
        h.session.fins := by simp
    split
    · rw [tcpSessionClose_fins, emit_session, hfins]
      exact .stay
    · exact (processFlags_move pkt
        ((processDataPacket app allocOk d pkt (h.entered d)).emit .access)).congr hfins
  · rw [packetHandle_no_data app allocOk hd hp]
    exact (processFlags_move pkt _).congr (entered_fins h d)

theorem arrive_move (app : TcpApp σ) (s : TcpSession σ) (a : Arrival) :
    (arrive app s a).session.fins = s.fins ∨
      ∃ d, sender s a = some d ∧ handled s a.pkt ∧
        FinMove s a.pkt (arrive app s a).session.fins := by
  set s1 := if needUpdateLastAck (setTcpState s a.pkt) a.pkt
    then updateLastAck (setTcpState s a.pkt) a.pkt else setTcpState s a.pkt with hs1
  have hfins : s1.fins = s.fins := by
    rw [hs1]
    split <;> simp
  have hstate : s1.state = (setTcpState s a.pkt).state := by
    rw [hs1]
    split <;> simp
  have hget : tcpSessionEndpointGet s1 a.pkt = sender s a := by
    rw [hs1, sender]
    split <;> simp
  have hign : isNeedIgnore s1 a.pkt = isNeedIgnore (setTcpState s a.pkt) a.pkt := by
    simp [isNeedIgnore, hstate]
  have harr : arrive app s a =
      if isNeedIgnore s1 a.pkt then ⟨s1, [.access]⟩
      else tcpSessionPacketHandle app a.allocOk a.inRing a.pkt ⟨s1, [.access]⟩ := rfl
  rw [harr]
  by_cases hi : isNeedIgnore s1 a.pkt
  · exact Or.inl (by rw [if_pos hi]; exact hfins)
  rw [if_neg hi]
  have hdrain : (tcpSessionPacketHandle app a.allocOk a.inRing a.pkt ⟨s1, [.access]⟩).session.fins =
      (packetHandle app a.allocOk a.pkt ⟨s1, [.access]⟩).session.fins := by
    simp only [tcpSessionPacketHandle, entriesTimeoutFree]
    split <;> rfl
  rw [hdrain]
  cases hd : sender s a with
  | none =>
    refine Or.inl ?_
    rw [hd] at hget
    simp [packetHandle, hget, hfins]
  | some d =>
    rw [hd] at hget
    exact Or.inr ⟨d, rfl, by simpa [handled, ← hign] using hi,
      (packetHandle_move app a.allocOk a.pkt ⟨s1, [.access]⟩ hget).congr hfins⟩

theorem arrive_of_flagsReached {app : TcpApp σ} {s : TcpSession σ} {a : Arrival} {h : Handling σ}
    (hreach : h ∈ flagsReached app s a) :
    arrive app s a = entriesTimeoutFree a.inRing (processFlags a.pkt h) := by
  set s1 := if needUpdateLastAck (setTcpState s a.pkt) a.pkt
    then updateLastAck (setTcpState s a.pkt) a.pkt else setTcpState s a.pkt with hs1
  have harr : arrive app s a =
      if isNeedIgnore s1 a.pkt then ⟨s1, [.access]⟩
      else tcpSessionPacketHandle app a.allocOk a.inRing a.pkt ⟨s1, [.access]⟩ := rfl
  simp only [flagsReached, ← hs1] at hreach
  split at hreach
  · cases hreach
  rename_i hi
  rw [harr, if_neg hi, tcpSessionPacketHandle]
  cases hd : tcpSessionEndpointGet s1 a.pkt with
  | none =>
    rw [hd] at hreach
    cases hreach
  | some d =>
    simp only [hd] at hreach
    split at hreach
    · rename_i hp
      rw [packetHandle_data app a.allocOk (h := ⟨s1, [.access]⟩) hd hp]
      split at hreach
      · cases hreach
      · rename_i hb
        cases hreach
        exact congrArg _ (if_neg hb)
    · rename_i hp
      cases hreach
      rw [packetHandle_no_data app a.allocOk (h := ⟨s1, [.access]⟩) hd hp]

theorem processFlags_close {pkt : TcpPacket} {h : Handling σ} (hrst : ¬ isTcpRstPacket pkt)
    (hclose : h.log.count .close < (processFlags pkt h).log.count .close) :
    (processFlags pkt h).session.fourWayState = .fin2Ack := by
  have hno {h' : Handling σ} (hlog : h'.log.count .close = h.log.count .close)
      (heq : processFlags pkt h = h') : False := by
    rw [heq, hlog] at hclose
    exact lt_irrefl _ hclose
  by_cases hfin : isTcpFinPacket pkt
  · refine (hno ?_ (if_pos hfin)).elim
    simp only [processFinPacket]
    split <;> simp
  by_cases hack : pkt.hasFlag thAck
  · by_cases h1 : isFin1Ack h.session pkt
    · exact (@hno (processFin1AckPacket (h.emit .access)) (by simp [processFin1AckPacket])
        (by simp [processFlags, hfin, hrst, hack, h1])).elim
    by_cases h2 : isFin2Ack h.session pkt
    · have heq : processFlags pkt h = processFin2AckPacket (h.emit .access) := by
        simp [processFlags, hfin, hrst, hack, h1, h2]
      rw [heq]
      rfl
    · exact (@hno (h.emit .access) (by simp)
        (by simp [processFlags, hfin, hrst, hack, h1, h2])).elim
  · exact (@hno h rfl (by simp [processFlags, hfin, hrst, hack])).elim

theorem ClosesByFin.fin2Ack {app : TcpApp σ} {v : Handling σ × Arrival} (hc : ClosesByFin app v) :
    (arrive app v.1.session v.2).session.fourWayState = .fin2Ack := by
  obtain ⟨hrst, h, hreach, hclose⟩ := hc
  have hst := processFlags_close hrst hclose
  rw [arrive_of_flagsReached hreach, entriesTimeoutFree]
  split
  · exact hst
  · exact hst

/-- The packets the handler tells apart. A FIN after the first one is no
retransmission of it, and while the first FIN is unacknowledged it acknowledges it
(no simultaneous close). An acknowledgement of `fin1_seq + 1` comes before the
second FIN, and one of `fin2_seq + 1` after it; each comes from the peer of the FIN
it matches, and that FIN carried no data. -/
structure StepOk (app : TcpApp σ) (history : List (Handling σ × Arrival)) (h : Handling σ)
    (a : Arrival) : Prop where
  notRetransmitted : handled h.session a.pkt → isTcpFinPacket a.pkt →
    h.session.fourWayState = .fin1 ∨ h.session.fourWayState = .fin1Ack →
    ∀ v ∈ history, ∀ d, RecordsFin1 app v d → sender h.session a ≠ some d
  notSimultaneous : handled h.session a.pkt → isTcpFinPacket a.pkt →
    h.session.fourWayState = .fin1 → ∀ v ∈ history, ∀ d, RecordsFin1 app v d →
      a.pkt.hasFlag thAck ∧ a.pkt.recvAck = seqAfterFin v.2.pkt
  ack1 : handled h.session a.pkt → ¬ isTcpFinPacket a.pkt → ¬ isTcpRstPacket a.pkt →
    isFin1Ack h.session a.pkt →
    (h.session.fourWayState = .fin1 ∨ h.session.fourWayState = .fin1Ack) ∧
      ∀ v ∈ history, ∀ d, RecordsFin1 app v d →
        sender h.session a ≠ some d ∧ v.2.pkt.payloadLen = 0
  ack2 : handled h.session a.pkt → ¬ isTcpFinPacket a.pkt → ¬ isTcpRstPacket a.pkt →
    ¬ isFin1Ack h.session a.pkt → isFin2Ack h.session a.pkt →
    h.session.fourWayState = .fin2 ∧
      ∀ v ∈ history, ∀ d, RecordsFin2 app v d →
        sender h.session a ≠ some d ∧ v.2.pkt.payloadLen = 0

def AckedRecord (records : Handling σ × Arrival → SessionDirect → Prop)
    (history : List (Handling σ × Arrival)) (d : SessionDirect) : Prop :=
  ∃ pre fin post, history = pre ++ fin :: post ∧ records fin d ∧
    ∃ v ∈ post, AcksSeq v d (seqAfterFin fin.2.pkt)

theorem AckedRecord.snoc {records : Handling σ × Arrival → SessionDirect → Prop}
    {history : List (Handling σ × Arrival)} {d : SessionDirect} (h : AckedRecord records history d)
    (v : Handling σ × Arrival) : AckedRecord records (history ++ [v]) d := by
  obtain ⟨pre, fin, post, rfl, hrec, w, hw, hack⟩ := h
  exact ⟨pre, fin, post ++ [v], by simp, hrec, w, by simp [hw], hack⟩

theorem AckedRecord.of_mem {records : Handling σ × Arrival → SessionDirect → Prop}
    {history : List (Handling σ × Arrival)} {d : SessionDirect} {fin v : Handling σ × Arrival}
    (hmem : fin ∈ history) (hrec : records fin d) (hack : AcksSeq v d (seqAfterFin fin.2.pkt)) :
    AckedRecord records (history ++ [v]) d := by
  obtain ⟨pre, post, rfl⟩ := List.append_of_mem hmem
  exact ⟨pre, fin, post ++ [v], by simp, hrec, v, by simp, hack⟩

structure Handshake (app : TcpApp σ) (history : List (Handling σ × Arrival))
    (h : Handling σ) : Prop where
  seq1 : ∀ v ∈ history, ∀ d, RecordsFin1 app v d → h.session.fin1Seq = v.2.pkt.sentSeq
  seq2 : ∀ v ∈ history, ∀ d, RecordsFin2 app v d → h.session.fin2Seq = v.2.pkt.sentSeq
  none1 : h.session.fourWayState = .init → ∀ v ∈ history, ∀ d, ¬ RecordsFin1 app v d
  none2 : h.session.fourWayState.rank < 3 → ∀ v ∈ history, ∀ d, ¬ RecordsFin2 app v d
  some1 : h.session.fourWayState ≠ .init → ∃ v ∈ history, ∃ d, RecordsFin1 app v d
  some2 : 3 ≤ h.session.fourWayState.rank → ∃ v ∈ history, ∃ d, RecordsFin2 app v d
  acked1 : 2 ≤ h.session.fourWayState.rank → ∃ d, AckedRecord (RecordsFin1 app) history d
  acked2 : h.session.fourWayState = .fin2Ack → ∃ d, AckedRecord (RecordsFin2 app) history d
  different : ∀ v ∈ history, ∀ w ∈ history, ∀ d d',
    RecordsFin1 app v d → RecordsFin2 app w d' → d ≠ d'
  monotone : ∀ v ∈ history,
    v.1.session.fourWayState.rank ≤ (arrive app v.1.session v.2).session.fourWayState.rank

theorem Handshake.init (app : TcpApp σ) (sreq : TcpSessionRequest) (sentry : σ) :
    Handshake app [] ⟨tcpSessionInit sreq sentry, []⟩ := by
  constructor <;> simp [tcpSessionInit, FourWayState.rank]

theorem eq_peer_of_ne {s : TcpSession σ} {a : Arrival} {d d' : SessionDirect}
    (hd : sender s a = some d) (hne : sender s a ≠ some d') : sender s a = some d'.peer := by
  rw [hd] at hne ⊢
  cases d <;> cases d' <;> simp_all [SessionDirect.peer]

theorem seqAfterFin_of_no_data {pkt : TcpPacket} (h : pkt.payloadLen = 0) :
    seqAfterFin pkt = add 32 pkt.sentSeq 1 := by
  simp [seqAfterFin, h, add]

theorem fins_eq_iff {s : TcpSession σ} {st : FourWayState} {n m : ℕ} :
    s.fins = (st, n, m) ↔ s.fourWayState = st ∧ s.fin1Seq = n ∧ s.fin2Seq = m := by
  simp [TcpSession.fins]

/-- A step that records no FIN and moves the state within `fin1 … fin2Ack`, keeping
the sequence numbers, only has to account for the acknowledgements. -/
theorem Handshake.advance {app : TcpApp σ} {history : List (Handling σ × Arrival)} {h : Handling σ}
    {a : Arrival} (hv : Handshake app history h)
    (hseq1 : (arrive app h.session a).session.fin1Seq = h.session.fin1Seq)
    (hseq2 : (arrive app h.session a).session.fin2Seq = h.session.fin2Seq)
    (hno1 : ∀ d, ¬ RecordsFin1 app (h, a) d) (hno2 : ∀ d, ¬ RecordsFin2 app (h, a) d)
    (hinit : (arrive app h.session a).session.fourWayState = .init ↔
      h.session.fourWayState = .init)
    (hfin2 : (arrive app h.session a).session.fourWayState.rank < 3 ↔
      h.session.fourWayState.rank < 3)
    (hmono : h.session.fourWayState.rank ≤ (arrive app h.session a).session.fourWayState.rank)
    (hack1 : 2 ≤ (arrive app h.session a).session.fourWayState.rank →
      ∃ d, AckedRecord (RecordsFin1 app) (history ++ [(h, a)]) d)
    (hack2 : (arrive app h.session a).session.fourWayState = .fin2Ack →
      ∃ d, AckedRecord (RecordsFin2 app) (history ++ [(h, a)]) d) :
    Handshake app (history ++ [(h, a)]) (arrive app h.session a) where
  seq1 := by
    simp only [List.forall_mem_append, List.forall_mem_singleton, hseq1]
    exact ⟨hv.seq1, fun d hr => absurd hr (hno1 d)⟩
  seq2 := by
    simp only [List.forall_mem_append, List.forall_mem_singleton, hseq2]
    exact ⟨hv.seq2, fun d hr => absurd hr (hno2 d)⟩
  none1 hst := by
    simp only [List.forall_mem_append, List.forall_mem_singleton]
    exact ⟨hv.none1 (hinit.1 hst), hno1⟩
  none2 hst := by
    simp only [List.forall_mem_append, List.forall_mem_singleton]
    exact ⟨hv.none2 (hfin2.1 hst), hno2⟩
  some1 hst := by
    obtain ⟨v, hm, hr⟩ := hv.some1 (fun hc => hst (hinit.2 hc))
    exact ⟨v, List.mem_append_left _ hm, hr⟩
  some2 hst := by
    obtain ⟨v, hm, hr⟩ := hv.some2 (not_lt.1 fun hc => absurd (hfin2.2 hc) (not_lt.2 hst))
    exact ⟨v, List.mem_append_left _ hm, hr⟩
  acked1 := hack1
  acked2 := hack2
  different := by
    simp only [List.forall_mem_append, List.forall_mem_singleton]
    exact ⟨fun v hm => ⟨hv.different v hm, fun _ d' _ hr => absurd hr (hno2 d')⟩,
      fun w _ d _ hr => absurd hr (hno1 d), fun d _ hr => absurd hr (hno1 d)⟩
  monotone := by
    simp only [List.forall_mem_append, List.forall_mem_singleton]
    exact ⟨hv.monotone, hmono⟩

theorem Handshake.stay {app : TcpApp σ} {history : List (Handling σ × Arrival)} {h : Handling σ}
    {a : Arrival} (hv : Handshake app history h)
    (hfins : (arrive app h.session a).session.fins = h.session.fins) :
    Handshake app (history ++ [(h, a)]) (arrive app h.session a) := by
  obtain ⟨hst, hs1, hs2⟩ := fins_eq_iff.1 hfins
  refine hv.advance hs1 hs2 ?_ ?_ (by rw [hst]) (by rw [hst]) (by rw [hst]) ?_ ?_
  · rintro d ⟨hinit, hfin1, -⟩
    have hbad : FourWayState.init = .fin1 := hinit.symm.trans (hst.symm.trans hfin1)
    cases hbad
  · rintro d ⟨hne, hfin2, -⟩
    exact hne (hst ▸ hfin2)
  · rw [hst]
    intro hrank
    obtain ⟨d, hd⟩ := hv.acked1 hrank
    exact ⟨d, hd.snoc _⟩
  · rw [hst]
    intro hrank
    obtain ⟨d, hd⟩ := hv.acked2 hrank
    exact ⟨d, hd.snoc _⟩

theorem Handshake.fin1 {app : TcpApp σ} {history : List (Handling σ × Arrival)} {h : Handling σ}
    {a : Arrival} {d : SessionDirect} (hv : Handshake app history h)
    (hd : sender h.session a = some d) (hinit : h.session.fourWayState = .init)
    (hfins : (arrive app h.session a).session.fins = (.fin1, a.pkt.sentSeq, h.session.fin2Seq)) :
    Handshake app (history ++ [(h, a)]) (arrive app h.session a) := by
  obtain ⟨hst, hs1, -⟩ := fins_eq_iff.1 hfins
  have hrec : RecordsFin1 app (h, a) d := ⟨hinit, hst, hd⟩
  have hno2 : ∀ d', ¬ RecordsFin2 app (h, a) d' := by
    rintro d' ⟨-, hfin2, -⟩
    simp [hst] at hfin2
  have hhist1 := hv.none1 hinit
  have hhist2 := hv.none2 (by simp [hinit, FourWayState.rank])
  constructor
  · simp only [List.forall_mem_append, List.forall_mem_singleton]
    exact ⟨fun v hm d' hr => absurd hr (hhist1 v hm d'), fun _ _ => hs1⟩
  · simp only [List.forall_mem_append, List.forall_mem_singleton]
    exact ⟨fun v hm d' hr => absurd hr (hhist2 v hm d'), fun d' hr => absurd hr (hno2 d')⟩
  · simp [hst]
  · simp only [List.forall_mem_append, List.forall_mem_singleton]
    exact fun _ => ⟨hhist2, hno2⟩
  · exact fun _ => ⟨(h, a), by simp, d, hrec⟩
  · simp [hst, FourWayState.rank]
  · simp [hst, FourWayState.rank]
  · simp [hst]
  · simp only [List.forall_mem_append, List.forall_mem_singleton]
    exact ⟨fun v hm => ⟨hv.different v hm, fun d' _ hr => absurd hr (hhist1 v hm d')⟩,
      fun w hm _ d' _ hr => absurd hr (hhist2 w hm d'), fun _ d' _ hr => absurd hr (hno2 d')⟩
  · simp only [List.forall_mem_append, List.forall_mem_singleton]
    exact ⟨hv.monotone, by simp [hinit, FourWayState.rank]⟩

theorem Handshake.fin2 {app : TcpApp σ} {history : List (Handling σ × Arrival)} {h : Handling σ}
    {a : Arrival} {d : SessionDirect} (hv : Handshake app history h)
    (hok : StepOk app history h a) (hd : sender h.session a = some d)
    (hhandled : handled h.session a.pkt) (hfin : isTcpFinPacket a.pkt)
    (hpre : h.session.fourWayState = .fin1 ∨ h.session.fourWayState = .fin1Ack)
    (hfins : (arrive app h.session a).session.fins = (.fin2, h.session.fin1Seq, a.pkt.sentSeq)) :
    Handshake app (history ++ [(h, a)]) (arrive app h.session a) := by
  obtain ⟨hst, hs1, hs2⟩ := fins_eq_iff.1 hfins
  have hrec : RecordsFin2 app (h, a) d := ⟨by rcases hpre with hp | hp <;> simp [hp], hst, hd⟩
  have hno1 : ∀ d', ¬ RecordsFin1 app (h, a) d' := by
    rintro d' ⟨hinit, -⟩
    rcases hpre with hp | hp <;> simp [hp] at hinit
  have hother := hok.notRetransmitted hhandled hfin hpre
  have hhist2 := hv.none2 (by rcases hpre with hp | hp <;> simp [hp, FourWayState.rank])
  obtain ⟨f, hf, df, hrecf⟩ := hv.some1 (by rcases hpre with hp | hp <;> simp [hp])
  constructor
  · simp only [List.forall_mem_append, List.forall_mem_singleton, hs1]
    exact ⟨hv.seq1, fun d' hr => absurd hr (hno1 d')⟩
  · simp only [List.forall_mem_append, List.forall_mem_singleton, hs2]
    exact ⟨fun v hm d' hr => absurd hr (hhist2 v hm d'), fun _ _ => trivial⟩
  · simp [hst]
  · simp [hst, FourWayState.rank]
  · exact fun _ => ⟨f, List.mem_append_left _ hf, df, hrecf⟩
  · exact fun _ => ⟨(h, a), by simp, d, hrec⟩
  · intro _
    rcases hpre with hp | hp
    · -- the second FIN itself acknowledges the first
      obtain ⟨hack, hseq⟩ := hok.notSimultaneous hhandled hfin hp f hf df hrecf
      exact ⟨df, .of_mem hf hrecf ⟨eq_peer_of_ne hd (hother f hf df hrecf), hack, hseq⟩⟩
    · obtain ⟨d1, hd1⟩ := hv.acked1 (by simp [hp, FourWayState.rank])
      exact ⟨d1, hd1.snoc _⟩
  · simp [hst]
  · simp only [List.forall_mem_append, List.forall_mem_singleton]
    refine ⟨fun v hm => ⟨hv.different v hm, fun d1 d2 hr1 hr2 heq => ?_⟩,
      fun w _ d' _ hr => absurd hr (hno1 d'), fun d' _ hr => absurd hr (hno1 d')⟩
    exact hother v hm d1 hr1 (heq ▸ hr2.2.2)
  · simp only [List.forall_mem_append, List.forall_mem_singleton]
    refine ⟨hv.monotone, ?_⟩
    rcases hpre with hp | hp <;> simp [hp, hst, FourWayState.rank]

theorem Handshake.ack1 {app : TcpApp σ} {history : List (Handling σ × Arrival)} {h : Handling σ}
    {a : Arrival} {d : SessionDirect} (hv : Handshake app history h)
    (hok : StepOk app history h a) (hd : sender h.session a = some d)
    (hhandled : handled h.session a.pkt) (hfin : ¬ isTcpFinPacket a.pkt)
    (hrst : ¬ isTcpRstPacket a.pkt) (hack : isFin1Ack h.session a.pkt)
    (hfins : (arrive app h.session a).session.fins =
      (.fin1Ack, h.session.fin1Seq, h.session.fin2Seq)) :
    Handshake app (history ++ [(h, a)]) (arrive app h.session a) := by
  obtain ⟨hst, hs1, hs2⟩ := fins_eq_iff.1 hfins
  obtain ⟨hpre, hpeer⟩ := hok.ack1 hhandled hfin hrst hack
  have hne : h.session.fourWayState ≠ .init := by rcases hpre with hp | hp <;> simp [hp]
  refine hv.advance hs1 hs2 ?_ ?_ (by simp [hst, hne]) ?_ ?_ ?_ (by simp [hst])
  · rintro d' ⟨hinit, -⟩
    exact hne hinit
  · rintro d' ⟨-, hfin2, -⟩
    simp [hst] at hfin2
  · rcases hpre with hp | hp <;> simp [hp, hst, FourWayState.rank]
  · rcases hpre with hp | hp <;> simp [hp, hst, FourWayState.rank]
  · intro _
    obtain ⟨f, hf, df, hrecf⟩ := hv.some1 hne
    obtain ⟨hsend, hlen⟩ := hpeer f hf df hrecf
    simp only [isFin1Ack, isFinAck, Bool.and_eq_true, decide_eq_true_eq] at hack
    refine ⟨df, .of_mem hf hrecf ⟨eq_peer_of_ne hd hsend, hack.1, ?_⟩⟩
    rw [seqAfterFin_of_no_data hlen, ← hv.seq1 f hf df hrecf]
    exact hack.2

theorem Handshake.ack2 {app : TcpApp σ} {history : List (Handling σ × Arrival)} {h : Handling σ}
    {a : Arrival} {d : SessionDirect} (hv : Handshake app history h)
    (hok : StepOk app history h a) (hd : sender h.session a = some d)
    (hhandled : handled h.session a.pkt) (hfin : ¬ isTcpFinPacket a.pkt)
    (hrst : ¬ isTcpRstPacket a.pkt) (hack1 : ¬ isFin1Ack h.session a.pkt)
    (hack : isFin2Ack h.session a.pkt)
    (hfins : (arrive app h.session a).session.fins =
      (.fin2Ack, h.session.fin1Seq, h.session.fin2Seq)) :
    Handshake app (history ++ [(h, a)]) (arrive app h.session a) := by
  obtain ⟨hst, hs1, hs2⟩ := fins_eq_iff.1 hfins
  obtain ⟨hpre, hpeer⟩ := hok.ack2 hhandled hfin hrst hack1 hack
  refine hv.advance hs1 hs2 ?_ ?_ (by simp [hst, hpre]) ?_ ?_ ?_ ?_
  · rintro d' ⟨hinit, -⟩
    simp [hpre] at hinit
  · rintro d' ⟨-, hfin2, -⟩
    simp [hst] at hfin2
  · simp [hpre, hst, FourWayState.rank]
  · simp [hpre, hst, FourWayState.rank]
  · intro _
    obtain ⟨d1, hd1⟩ := hv.acked1 (by simp [hpre, FourWayState.rank])
    exact ⟨d1, hd1.snoc _⟩
  · intro _
    obtain ⟨f, hf, df, hrecf⟩ := hv.some2 (by simp [hpre, FourWayState.rank])
    obtain ⟨hsend, hlen⟩ := hpeer f hf df hrecf
    simp only [isFin2Ack, isFinAck, Bool.and_eq_true, decide_eq_true_eq] at hack
    refine ⟨df, .of_mem hf hrecf ⟨eq_peer_of_ne hd hsend, hack.1, ?_⟩⟩
    rw [seqAfterFin_of_no_data hlen, ← hv.seq2 f hf df hrecf]
    exact hack.2

theorem Handshake.step {app : TcpApp σ} {history : List (Handling σ × Arrival)} {h h' : Handling σ}
    {a : Arrival} (hv : Handshake app history h) (hok : StepOk app history h a)
    (hs : SessionStep app h a h') : Handshake app (history ++ [(h, a)]) h' := by
  obtain ⟨-, rfl⟩ := hs
  rcases arrive_move app h.session a with hstay | ⟨d, hd, hhandled, hmove⟩
  · exact hv.stay hstay
  generalize hr : (arrive app h.session a).session.fins = r at hmove
  cases hmove with
  | stay => exact hv.stay hr
  | fin1 hfin hinit => exact hv.fin1 hd hinit hr
  | fin2 hfin hpre => exact hv.fin2 hok hd hhandled hfin hpre hr
  | ack1 hfin hrst hack => exact hv.ack1 hok hd hhandled hfin hrst hack hr
  | ack2 hfin hrst hack1 hack => exact hv.ack2 hok hd hhandled hfin hrst hack1 hack hr

theorem Handshake.acknowledged {app : TcpApp σ} {history : List (Handling σ × Arrival)}
    {h : Handling σ} (hv : Handshake app history h) (hst : h.session.fourWayState = .fin2Ack)
    (d : SessionDirect) : FinAcked app history d := by
  obtain ⟨d1, pre1, f1, post1, rfl, hrec1, hack1⟩ := hv.acked1 (by simp [hst, FourWayState.rank])
  obtain ⟨d2, pre2, f2, post2, heq, hrec2, hack2⟩ := hv.acked2 hst
  have hne : d1 ≠ d2 := hv.different f1 (by simp) f2 (by simp [heq]) d1 d2 hrec1 hrec2
  by_cases h1 : d = d1
  · exact ⟨pre1, f1, post1, rfl, Or.inl (h1 ▸ hrec1), h1 ▸ hack1⟩
  · have h2 : d = d2 := by cases d <;> cases d1 <;> cases d2 <;> simp_all
    exact ⟨pre2, f2, post2, heq, Or.inr (h2 ▸ hrec2), h2 ▸ hack2⟩

theorem Handshake.fourWayClose_step {app : TcpApp σ} {history : List (Handling σ × Arrival)}
    {h h' : Handling σ} {a : Arrival} (hv : Handshake app history h ∧ FourWayClose app history h)
    (hok : StepOk app history h a) (hs : SessionStep app h a h') :
    Handshake app (history ++ [(h, a)]) h' ∧ FourWayClose app (history ++ [(h, a)]) h' := by
  have hv' := hv.1.step hok hs
  refine ⟨hv', hv'.different, hv'.monotone, hv.2.closed.snoc fun hc d => ?_, hv'.acknowledged⟩
  exact hv'.acknowledged (hs.2 ▸ hc.fin2Ack) d

/-- In every run without the packets that the handler confuses, the four-way close
is what its states say. -/
theorem fourWayClose_of_run (app : TcpApp σ) (sreq : TcpSessionRequest) (sentry : σ)
    (history : List (Handling σ × Arrival)) (h : Handling σ)
    (hrun : SessionRun app sreq sentry history h) (hok : StepsOk (StepOk app) history) :
    FourWayClose app history h := by
  have hinit : FourWayClose app [] ⟨tcpSessionInit sreq sentry, []⟩ :=
    ⟨by simp, by simp, .nil _, by simp [tcpSessionInit]⟩
  have hv : Handshake app history h ∧ FourWayClose app history h :=
    Run.invariant ⟨Handshake.init app sreq sentry, hinit⟩ Handshake.fourWayClose_step hrun hok
  exact hv.2

def continuingApp : TcpApp Unit where
  requestContentParse := some fun st _ => (.parseContinue, st)
  responseContentParse := some fun st _ => (.parseContinue, st)

/-- A packet without data of the connection of `firstRequest`. -/
def controlPacket (d : SessionDirect) (flags : UInt8) (seq ack : ℕ) : Arrival :=
  { pkt :=
      match d with
      | .req => { firstDataPacket with
          tcpFlags := flags, sentSeq := seq, recvAck := ack, payloadLen := 0, pdata := none }
      | .res => { firstDataPacket with
          srcIp := 2, dstIp := 1, srcPort := 80, dstPort := 1000
          tcpFlags := flags, sentSeq := seq, recvAck := ack, payloadLen := 0, pdata := none }
    allocOk := true
    inRing := false }

/-- The states of the session of `firstRequest` as the packets arrive. -/
def handshakeAfter (as : List Arrival) : Handling Unit :=
  as.foldl (fun h a => arrive continuingApp h.session a) ⟨tcpSessionInit firstRequest (), []⟩

def dataArrival : Arrival := ⟨firstDataPacket, true, false⟩

def orderlyClose : List (Handling Unit × Arrival) :=
  let fin := controlPacket .req (thFin ||| thAck) 102 501
  let finAck := controlPacket .res (thFin ||| thAck) 501 103
  let ack := controlPacket .req thAck 103 502
  [(handshakeAfter [], dataArrival), (handshakeAfter [dataArrival], fin),
    (handshakeAfter [dataArrival, fin], finAck), (handshakeAfter [dataArrival, fin, finAck], ack)]

def retransmittedFin : List (Handling Unit × Arrival) :=
  let fin := controlPacket .req (thFin ||| thAck) 102 501
  [(handshakeAfter [], dataArrival), (handshakeAfter [dataArrival], fin),
    (handshakeAfter [dataArrival, fin], fin)]

theorem fourWayClose_orderly :
    SessionRun continuingApp firstRequest () orderlyClose
      (handshakeAfter (orderlyClose.map Prod.snd)) ∧
    (handshakeAfter (orderlyClose.map Prod.snd)).session.fourWayState = .fin2Ack ∧
    (∃ v ∈ orderlyClose, ClosesByFin continuingApp v) ∧
    FourWayClose continuingApp orderlyClose (handshakeAfter (orderlyClose.map Prod.snd)) := by
  have hrun : SessionRun continuingApp firstRequest () orderlyClose
      (handshakeAfter (orderlyClose.map Prod.snd)) :=
    (((Run.nil.snoc ⟨by decide, rfl⟩).snoc ⟨by decide, rfl⟩).snoc ⟨by decide, rfl⟩).snoc
      ⟨by decide, rfl⟩
  have hok : StepsOk (StepOk continuingApp) orderlyClose :=
    ((((StepsOk.nil _).snoc ⟨by decide, by decide,
        fun _ _ _ hack => absurd hack (by decide), fun _ _ _ _ hack =>
          absurd hack (by decide)⟩).snoc
      ⟨by decide, by decide,
        fun _ hfin => absurd (by decide) hfin, fun _ hfin => absurd (by decide) hfin⟩).snoc
      ⟨by decide, by decide,
        fun _ hfin => absurd (by decide) hfin, fun _ hfin => absurd (by decide) hfin⟩).snoc
      ⟨by decide, by decide,
        fun _ _ _ hack => absurd hack (by decide), fun _ _ _ _ _ => ⟨by decide, by decide⟩⟩
  have hlast : ∃ v ∈ orderlyClose, ClosesByFin continuingApp v :=
    ⟨(handshakeAfter [dataArrival, controlPacket .req (thFin ||| thAck) 102 501,
        controlPacket .res (thFin ||| thAck) 501 103], controlPacket .req thAck 103 502),
      by simp [orderlyClose], by decide, _, rfl, by decide⟩
  exact ⟨hrun, by decide, hlast, fourWayClose_of_run _ _ _ _ _ hrun hok⟩

/-- The retransmission of the first FIN is recorded as the second one. -/
theorem retransmittedFin_not_fourWayClose :
    SessionRun continuingApp firstRequest () retransmittedFin
      (handshakeAfter (retransmittedFin.map Prod.snd)) ∧
    ¬ FourWayClose continuingApp retransmittedFin
      (handshakeAfter (retransmittedFin.map Prod.snd)) := by
  refine ⟨((Run.nil.snoc ⟨by decide, rfl⟩).snoc ⟨by decide, rfl⟩).snoc ⟨by decide, rfl⟩, ?_⟩
  intro hclose
  let fin := controlPacket .req (thFin ||| thAck) 102 501
  exact hclose.different (handshakeAfter [dataArrival], fin) (by simp [retransmittedFin, fin])
    (handshakeAfter [dataArrival, fin], fin) (by simp [retransmittedFin, fin]) .req .req
    (by decide) (by decide) rfl

end CloudHands.Tcp

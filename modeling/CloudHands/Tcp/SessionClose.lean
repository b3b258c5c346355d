import CloudHands.Tcp.SessionHandler

/-!
# Closing a session

A call of the packet handler can close the session in the data step, on an
acknowledgement beyond the received data, on a reset, and on the acknowledgement
of the second FIN. Only the last three end the call. This module says exactly for
which packets and session states the log of a call ends with its close.
-/

namespace CloudHands.Tcp

open CloudHands.Word (add sub)

variable {σ : Type*}

/-- The session is closed at most once, and nothing touches it after the close. -/
structure ClosedOnce (log : List Event) : Prop where
  atMostOnce : log.count .close ≤ 1
  nothingAfter : ∀ pre post, log = pre ++ .close :: post → post = []

theorem closedOnce_of_not_mem {log : List Event} (h : .close ∉ log) : ClosedOnce log where
  atMostOnce := by simp [List.count_eq_zero_of_not_mem h]
  nothingAfter pre post heq := absurd (by simp [heq]) h

theorem closedOnce_concat {log : List Event} (h : .close ∉ log) :
    ClosedOnce (log ++ [.close]) where
  atMostOnce := by simp [List.count_append, List.count_eq_zero_of_not_mem h]
  nothingAfter pre post heq := by
    rcases List.eq_nil_or_concat post with rfl | ⟨post', e, rfl⟩
    · rfl
    · have heq' : log ++ [.close] = (pre ++ .close :: post') ++ [e] := by simpa using heq
      have hlog : log = pre ++ .close :: post' := (List.append_inj' heq' rfl).1
      exact absurd (by simp [hlog]) h

theorem not_closedOnce_of_mem {log rest : List Event} (h : .close ∈ log) (hrest : rest ≠ []) :
    ¬ ClosedOnce (log ++ rest) := by
  intro hc
  obtain ⟨pre, post, rfl⟩ := List.append_of_mem h
  have hnil := hc.nothingAfter pre (post ++ rest) (by simp)
  exact hrest (List.append_eq_nil_iff.1 hnil).2

def contentVerdict (app : TcpApp σ) (d : SessionDirect) (sentry : Option σ) (data : List UInt8) :
    ParseStatus × Option σ :=
  match app.contentParse d, sentry with
  | some parse, some st => ((parse st data).1, some (parse st data).2)
  | _, _ => (.parseBreak, sentry)

def freshPayload (ep : TcpSessionEndpoint) (pkt : TcpPacket) : List UInt8 :=
  let diff := sub 32 ep.lastOffset (endpointOffsetGet ep pkt.sentSeq)
  ((pkt.pdata.getD []).drop diff).take (sub 32 pkt.payloadLen diff)

def endOffset (ep : TcpSessionEndpoint) (pkt : TcpPacket) : ℕ :=
  add 32 (endpointOffsetGet ep pkt.sentSeq) pkt.payloadLen

/-- The data step reaches one of its three closing branches: a failed push, or an
application that breaks on the payload or on the fragment continuing it. -/
def dataStepCloses (app : TcpApp σ) (allocOk : Bool) (d : SessionDirect) (pkt : TcpPacket)
    (s : TcpSession σ) : Prop :=
  let ep := s.endpoint d
  let offset := endpointOffsetGet ep pkt.sentSeq
  let verdict := contentVerdict app d s.sentry (freshPayload ep pkt)
  ep.lastOffset < endOffset ep pkt ∧
    if ep.lastOffset < offset then
      (tcpSessionEndpointDo allocOk ep (pkt.pdata.getD []) pkt.payloadLen offset).2 = false
    else
      verdict.1 = .parseBreak ∨
        ∃ df ∈ (assembleFragmentPop ep.asFrag (endOffset ep pkt)).1,
          (contentVerdict app d verdict.2 df.bytes).1 = .parseBreak

def offsetAfter (ep : TcpSessionEndpoint) (pkt : TcpPacket) : ℕ :=
  if endOffset ep pkt ≤ ep.lastOffset ∨ ep.lastOffset < endpointOffsetGet ep pkt.sentSeq then
    ep.lastOffset
  else (assembleFragmentPop ep.asFrag (endOffset ep pkt)).1.elim (endOffset ep pkt) (·.stop)

/-- The packet is a reset or acknowledges the second FIN. -/
def flagsClose (pkt : TcpPacket) (s : TcpSession σ) : Prop :=
  ¬ isTcpFinPacket pkt ∧ (isTcpRstPacket pkt ∨ (¬ isFin1Ack s pkt ∧ isFin2Ack s pkt))

def lateCloses (d : SessionDirect) (pkt : TcpPacket) (s : TcpSession σ) : Prop :=
  (pkt.pdata.isSome ∧ offsetAfter (s.endpoint d) pkt < (s.endpoint d).lastAck) ∨ flagsClose pkt s

@[simp] theorem emit_log (h : Handling σ) (e : Event) : (h.emit e).log = h.log ++ [e] := rfl

@[simp] theorem emit_session (h : Handling σ) (e : Event) : (h.emit e).session = h.session := rfl

@[simp] theorem handling_setEndpoint_log (h : Handling σ) (d : SessionDirect)
    (ep : TcpSessionEndpoint) : (h.setEndpoint d ep).log = h.log := rfl

@[simp] theorem handling_setEndpoint_session (h : Handling σ) (d : SessionDirect)
    (ep : TcpSessionEndpoint) : (h.setEndpoint d ep).session = h.session.setEndpoint d ep := rfl

@[simp] theorem tcpSessionClose_log (h : Handling σ) :
    (tcpSessionClose h).log = h.log ++ [.close] := rfl

@[simp] theorem sessionDirect_some (s : TcpSession σ) (d : SessionDirect) (h : s.curEp = some d) :
    sessionDirect s = d := by
  cases d <;> simp [sessionDirect, h]

theorem contentDataOutput_spec (app : TcpApp σ) {d : SessionDirect} (h : Handling σ)
    (data : List UInt8) (hcur : h.session.curEp = some d) (hopen : .close ∉ h.log) :
    (contentDataOutput app h data).1 = (contentVerdict app d h.session.sentry data).1 ∧
      (contentDataOutput app h data).2.session =
        { h.session with sentry := (contentVerdict app d h.session.sentry data).2 } ∧
      .close ∉ (contentDataOutput app h data).2.log := by
  have hd : sessionDirect (h.emit .access).session = d := sessionDirect_some _ _ hcur
  unfold contentDataOutput contentVerdict
  simp only [hd]
  cases hparse : app.contentParse d with
  | none => simpa using hopen
  | some parse =>
    cases hst : h.session.sentry with
    | none =>
        exact ⟨by simp [hst], by simp only [emit_session, hst]; rw [← hst], by simp [hst, hopen]⟩
    | some st => simp [hst, hopen]

def TcpSession.fins (s : TcpSession σ) : FourWayState × ℕ × ℕ :=
  (s.fourWayState, s.fin1Seq, s.fin2Seq)

@[simp] theorem setEndpoint_fins (s : TcpSession σ) (d : SessionDirect) (ep : TcpSessionEndpoint) :
    (s.setEndpoint d ep).fins = s.fins := by
  cases d <;> rfl

@[simp] theorem tcpSessionClose_fins (h : Handling σ) :
    (tcpSessionClose h).session.fins = h.session.fins := rfl

@[simp] theorem contentDataOutput_fins (app : TcpApp σ) (h : Handling σ) (data : List UInt8) :
    (contentDataOutput app h data).2.session.fins = h.session.fins := by
  simp only [contentDataOutput]
  split <;> rfl

@[simp] theorem processPoppedData_fins (app : TcpApp σ) (d : SessionDirect) (h : Handling σ) :
    (processPoppedData app d h).session.fins = h.session.fins := by
  simp only [processPoppedData]
  split
  · simp
  · split <;> simp

@[simp] theorem processDataPacket_fins (app : TcpApp σ) (allocOk : Bool) (d : SessionDirect)
    (pkt : TcpPacket) (h : Handling σ) :
    (processDataPacket app allocOk d pkt h).session.fins = h.session.fins := by
  simp only [processDataPacket]
  split
  · simp
  · split
    · split <;> simp
    · split <;> simp

theorem processPoppedData_of_none (app : TcpApp σ) {d : SessionDirect} {h : Handling σ}
    (hp : (assembleFragmentPop (h.session.endpoint d).asFrag
      (h.session.endpoint d).lastOffset).1 = none) :
    processPoppedData app d h = (h.emit .access).setEndpoint d
      { h.session.endpoint d with
        asFrag := (assembleFragmentPop (h.session.endpoint d).asFrag
          (h.session.endpoint d).lastOffset).2 } := by
  simp only [processPoppedData, emit_session, hp]

theorem processPoppedData_of_some (app : TcpApp σ) {d : SessionDirect} {h : Handling σ}
    {df : DataFragment} (hp : (assembleFragmentPop (h.session.endpoint d).asFrag
      (h.session.endpoint d).lastOffset).1 = some df) :
    processPoppedData app d h =
      let o := contentDataOutput app ((h.emit .access).setEndpoint d
        { h.session.endpoint d with
          asFrag := (assembleFragmentPop (h.session.endpoint d).asFrag
            (h.session.endpoint d).lastOffset).2 }) df.bytes
      (if o.1 = .parseBreak then tcpSessionClose o.2
        else (o.2.emit .access).setEndpoint d
          { o.2.session.endpoint d with lastOffset := df.stop }).emit .access := by
  simp only [processPoppedData, emit_session, hp]
  rfl

theorem processPoppedData_spec (app : TcpApp σ) (d : SessionDirect) (h : Handling σ)
    (hcur : h.session.curEp = some d) (hopen : .close ∉ h.log) :
    let ep := h.session.endpoint d
    let p := assembleFragmentPop ep.asFrag ep.lastOffset
    let r := processPoppedData app d h
    let breaks := ∃ df ∈ p.1, (contentVerdict app d h.session.sentry df.bytes).1 = .parseBreak
    (breaks → .close ∈ r.log) ∧
      (¬ breaks → .close ∉ r.log ∧
        (r.session.endpoint d).lastOffset = p.1.elim ep.lastOffset (·.stop) ∧
        (r.session.endpoint d).lastAck = ep.lastAck) := by
  intro ep p r breaks
  set h1 := (h.emit .access).setEndpoint d { ep with asFrag := p.2 } with hh1
  have hcur1 : h1.session.curEp = some d := by simp [hh1, hcur]
  have hopen1 : .close ∉ h1.log := by simp [hh1, hopen]
  cases hp : p.1 with
  | none =>
    have hr : r = h1 := processPoppedData_of_none app hp
    simp [breaks, hr, hp, hh1, hopen, ep]
  | some df =>
    obtain ⟨hv, hs, ho⟩ := contentDataOutput_spec app h1 df.bytes hcur1 hopen1
    set o := contentDataOutput app h1 df.bytes
    have hr : r = (if o.1 = .parseBreak then tcpSessionClose o.2
        else (o.2.emit .access).setEndpoint d
          { o.2.session.endpoint d with lastOffset := df.stop }).emit .access :=
      processPoppedData_of_some app hp
    have hsentry : h1.session.sentry = h.session.sentry := by simp [hh1]
    rw [hsentry] at hv
    by_cases hb : (contentVerdict app d h.session.sentry df.bytes).1 = .parseBreak
    · simp [breaks, hr, hp, hv, hb]
    · have hep : o.2.session.endpoint d = { ep with asFrag := p.2 } := by
        rw [hs]
        cases d <;> simp [hh1, TcpSession.endpoint, TcpSession.setEndpoint]
      simp [breaks, hr, hp, hv, hb, ho, hep]

/-- The data step either closes the session and then goes on with it, or leaves it
open with the offset `offsetAfter`. -/
theorem processDataPacket_spec (app : TcpApp σ) (allocOk : Bool) (d : SessionDirect)
    (pkt : TcpPacket) (h : Handling σ) (hcur : h.session.curEp = some d)
    (hopen : .close ∉ h.log) :
    let ep := h.session.endpoint d
    let r := processDataPacket app allocOk d pkt h
    (dataStepCloses app allocOk d pkt h.session → .close ∈ r.log) ∧
      (¬ dataStepCloses app allocOk d pkt h.session →
        .close ∉ r.log ∧ (r.session.endpoint d).lastOffset = offsetAfter ep pkt ∧
          (r.session.endpoint d).lastAck = ep.lastAck) := by
  intro ep r
  by_cases hold : endOffset ep pkt ≤ ep.lastOffset
  · have hr : r = h.emit .access := if_pos hold
    have hno : ¬ dataStepCloses app allocOk d pkt h.session := fun hc => absurd hc.1 (not_lt.2 hold)
    refine ⟨fun hc => absurd hc hno, fun _ => ?_⟩
    simp [hr, hopen, offsetAfter, hold, ep]
  by_cases hhole : ep.lastOffset < endpointOffsetGet ep pkt.sentSeq
  · set o := tcpSessionEndpointDo allocOk ep (pkt.pdata.getD []) pkt.payloadLen
      (endpointOffsetGet ep pkt.sentSeq)
    set h1 := (h.emit .access).setEndpoint d { ep with asFrag := o.1 } with hh1
    have hr : r = if o.2 then h1 else tcpSessionClose h1 := (if_neg hold).trans (if_pos hhole)
    have hiff : dataStepCloses app allocOk d pkt h.session ↔ o.2 = false := by
      simp only [dataStepCloses]
      rw [if_pos hhole]
      exact and_iff_right (not_le.1 hold)
    rw [hiff]
    refine ⟨fun hc => by simp [hr, hc], fun hc => ?_⟩
    simp [hr, hc, hh1, hopen, offsetAfter, hhole]
  · set h1 := (h.emit .access).setEndpoint d { ep with lastOffset := endOffset ep pkt } with hh1
    set o := contentDataOutput app h1 (freshPayload ep pkt)
    have hr : r = if o.1 = .parseBreak then tcpSessionClose o.2 else processPoppedData app d o.2 :=
      (if_neg hold).trans (if_neg hhole)
    have hcur1 : h1.session.curEp = some d := by simp [hh1, hcur]
    have hopen1 : .close ∉ h1.log := by simp [hh1, hopen]
    obtain ⟨hv, hs, ho⟩ : o.1 = (contentVerdict app d h1.session.sentry (freshPayload ep pkt)).1 ∧
        o.2.session = { h1.session with
          sentry := (contentVerdict app d h1.session.sentry (freshPayload ep pkt)).2 } ∧
        .close ∉ o.2.log := contentDataOutput_spec app h1 (freshPayload ep pkt) hcur1 hopen1
    have hsentry : h1.session.sentry = h.session.sentry := by simp [hh1]
    rw [hsentry] at hv hs
    have hep : o.2.session.endpoint d = { ep with lastOffset := endOffset ep pkt } := by
      rw [hs]
      cases d <;> simp [hh1, TcpSession.endpoint, TcpSession.setEndpoint]
    have hpop := processPoppedData_spec app d o.2 (by rw [hs]; exact hcur1) ho
    have hst : o.2.session.sentry =
        (contentVerdict app d h.session.sentry (freshPayload ep pkt)).2 := by rw [hs]
    simp only [hep, hst] at hpop
    simp only [dataStepCloses]
    rw [if_neg hhole, and_iff_right (not_le.1 hold)]
    by_cases hb : (contentVerdict app d h.session.sentry (freshPayload ep pkt)).1 = .parseBreak
    · simp [hr, hv, hb, ep]
    · rw [or_iff_right hb, hr, hv, if_neg hb, offsetAfter, if_neg (by simp [hold, hhole])]
      exact hpop

theorem processFlags_spec (pkt : TcpPacket) (h : Handling σ) (hopen : .close ∉ h.log) :
    (flagsClose pkt h.session →
      ∃ pre, .close ∉ pre ∧ (processFlags pkt h).log = pre ++ [.close]) ∧
    (¬ flagsClose pkt h.session → .close ∉ (processFlags pkt h).log) := by
  by_cases hfin : isTcpFinPacket pkt
  · have hlog : (processFlags pkt h).log = h.log ++ [.access] := by
      simp only [processFlags, hfin, if_true, processFinPacket]
      cases (h.emit .access).session.fourWayState <;> rfl
    simp [flagsClose, hfin, hlog, hopen]
  by_cases hrst : isTcpRstPacket pkt
  · refine ⟨fun _ => ⟨h.log, hopen, by simp [processFlags, hfin, hrst]⟩, fun hc => ?_⟩
    exact absurd ⟨hfin, Or.inl hrst⟩ hc
  have hiff : flagsClose pkt h.session ↔
      ¬ isFin1Ack h.session pkt ∧ isFin2Ack h.session pkt := by
    simp [flagsClose, hfin, hrst]
  rw [hiff]
  by_cases hack : pkt.hasFlag thAck
  · simp only [processFlags, hfin, hrst, hack, emit_session]
    by_cases h1 : isFin1Ack h.session pkt
    · simp [h1, processFin1AckPacket, hopen]
    by_cases h2 : isFin2Ack h.session pkt
    · refine ⟨fun _ => ⟨h.log ++ [.access] ++ [.access], by simp [hopen], ?_⟩, fun hc => ?_⟩
      · simp [h1, h2, processFin2AckPacket]
      · exact absurd ⟨h1, h2⟩ hc
    · simp [h1, h2, hopen]
  · simp [processFlags, hfin, hrst, hack, hopen, isFin1Ack, isFin2Ack, isFinAck]

theorem flagsClose_congr {s s' : TcpSession σ} (pkt : TcpPacket) (h : s'.fins = s.fins) :
    flagsClose pkt s' ↔ flagsClose pkt s := by
  simp only [TcpSession.fins, Prod.mk.injEq] at h
  simp [flagsClose, isFin1Ack, isFin2Ack, h.2.1, h.2.2]

theorem processFlags_log_prefix (pkt : TcpPacket) (h : Handling σ) :
    h.log <+: (processFlags pkt h).log := by
  simp only [processFlags, processFinPacket, processFin1AckPacket, processFin2AckPacket]
  split
  · cases (h.emit .access).session.fourWayState <;> exact List.prefix_append _ _
  · split_ifs <;> simp

def Handling.entered (h : Handling σ) (d : SessionDirect) : Handling σ :=
  ⟨{ h.session with curEp := some d }, h.log ++ [.access] ++ [.access]⟩

@[simp] theorem entered_fins (h : Handling σ) (d : SessionDirect) :
    (h.entered d).session.fins = h.session.fins := rfl

@[simp] theorem entered_endpoint (h : Handling σ) (d d' : SessionDirect) :
    (h.entered d).session.endpoint d' = h.session.endpoint d' := by
  cases d' <;> rfl

theorem packetHandle_data (app : TcpApp σ) (allocOk : Bool) {d : SessionDirect} {pkt : TcpPacket}
    {h : Handling σ} (hd : tcpSessionEndpointGet h.session pkt = some d)
    (hp : pkt.pdata.isSome) :
    packetHandle app allocOk pkt h =
      if ackBeyondOffset (((processDataPacket app allocOk d pkt (h.entered d)).session).endpoint d)
      then tcpSessionClose ((processDataPacket app allocOk d pkt (h.entered d)).emit .access)
      else processFlags pkt ((processDataPacket app allocOk d pkt (h.entered d)).emit .access) := by
  simp only [packetHandle, emit_session, hd, hp, if_true]
  rfl

theorem packetHandle_no_data (app : TcpApp σ) (allocOk : Bool) {d : SessionDirect}
    {pkt : TcpPacket} {h : Handling σ} (hd : tcpSessionEndpointGet h.session pkt = some d)
    (hp : ¬ pkt.pdata.isSome) :
    packetHandle app allocOk pkt h = processFlags pkt (h.entered d) := by
  simp only [packetHandle, emit_session, hd, hp]
  rfl

theorem packetHandle_open (app : TcpApp σ) (allocOk : Bool) {d : SessionDirect} (pkt : TcpPacket)
    (s : TcpSession σ) (hd : tcpSessionEndpointGet s pkt = some d)
    (hdata : ¬ (pkt.pdata.isSome ∧ dataStepCloses app allocOk d pkt s)) :
    (lateCloses d pkt s →
      ∃ pre, .close ∉ pre ∧ (packetHandle app allocOk pkt ⟨s, []⟩).log = pre ++ [.close]) ∧
    (¬ lateCloses d pkt s → .close ∉ (packetHandle app allocOk pkt ⟨s, []⟩).log) := by
  set h0 := Handling.entered ⟨s, []⟩ d
  have hopen0 : Event.close ∉ h0.log := by simp [h0, Handling.entered]
  by_cases hp : pkt.pdata.isSome
  · have hclose : ¬ dataStepCloses app allocOk d pkt h0.session := by
      have hnot : ¬ dataStepCloses app allocOk d pkt s := fun hc => hdata ⟨hp, hc⟩
      cases d <;> exact hnot
    set h1 := (processDataPacket app allocOk d pkt h0).emit .access with hh1
    have hr : packetHandle app allocOk pkt ⟨s, []⟩ =
        if ackBeyondOffset (h1.session.endpoint d) then tcpSessionClose h1
        else processFlags pkt h1 := packetHandle_data app allocOk hd hp
    obtain ⟨hopen, hoff, hack⟩ := (processDataPacket_spec app allocOk d pkt h0 rfl hopen0).2 hclose
    have hopen1 : .close ∉ h1.log := by simp [hh1, hopen]
    have hep : h0.session.endpoint d = s.endpoint d := entered_endpoint _ d d
    have hfins : h1.session.fins = s.fins := processDataPacket_fins app allocOk d pkt h0
    have hbeyond : ackBeyondOffset (h1.session.endpoint d) ↔
        offsetAfter (s.endpoint d) pkt < (s.endpoint d).lastAck := by
      simp [ackBeyondOffset, hh1, hoff, hack, hep]
    rw [hr]
    by_cases hb : ackBeyondOffset (h1.session.endpoint d)
    · refine ⟨fun _ => ⟨h1.log, hopen1, by simp [hb]⟩, fun hc => ?_⟩
      exact absurd (Or.inl ⟨hp, hbeyond.1 hb⟩) hc
    · have hiff : lateCloses d pkt s ↔ flagsClose pkt h1.session := by
        rw [lateCloses, flagsClose_congr pkt hfins, ← hbeyond]
        simp [hb]
      rw [hiff, if_neg hb]
      exact processFlags_spec pkt h1 hopen1
  · have hr : packetHandle app allocOk pkt ⟨s, []⟩ = processFlags pkt h0 :=
      packetHandle_no_data app allocOk hd hp
    have hiff : lateCloses d pkt s ↔ flagsClose pkt h0.session := by
      rw [lateCloses, flagsClose_congr pkt (entered_fins ⟨s, []⟩ d)]
      simp [hp]
    rw [hr, hiff]
    exact processFlags_spec pkt h0 hopen0

theorem packetHandle_closing (app : TcpApp σ) (allocOk : Bool) {d : SessionDirect}
    (pkt : TcpPacket) (s : TcpSession σ) (hd : tcpSessionEndpointGet s pkt = some d)
    (hp : pkt.pdata.isSome) (hdata : dataStepCloses app allocOk d pkt s) :
    ∃ pre post, .close ∈ pre ∧ post ≠ [] ∧
      (packetHandle app allocOk pkt ⟨s, []⟩).log = pre ++ post := by
  set h0 := Handling.entered ⟨s, []⟩ d
  have hclose : dataStepCloses app allocOk d pkt h0.session := by
    cases d <;> exact hdata
  have hmem := (processDataPacket_spec app allocOk d pkt h0 rfl
    (by simp [h0, Handling.entered])).1 hclose
  set h1 := (processDataPacket app allocOk d pkt h0).emit .access with hh1
  have hr : packetHandle app allocOk pkt ⟨s, []⟩ =
      if ackBeyondOffset (h1.session.endpoint d) then tcpSessionClose h1
      else processFlags pkt h1 := packetHandle_data app allocOk hd hp
  have hgrow : h1.log <+: (packetHandle app allocOk pkt ⟨s, []⟩).log := by
    rw [hr]
    split
    · exact List.prefix_append _ _
    · exact processFlags_log_prefix pkt h1
  obtain ⟨rest, hrest⟩ := hgrow
  refine ⟨(processDataPacket app allocOk d pkt h0).log, .access :: rest, hmem, by simp, ?_⟩
  rw [← hrest, hh1]
  simp

/-- A call closes the session at most once and leaves it alone afterwards exactly
when the data step of the packet does not close it and a session closed later in
the call is not waiting in the timeout ring. -/
theorem packetHandle_closedOnce_iff (app : TcpApp σ) (allocOk inRing : Bool) (pkt : TcpPacket)
    (s : TcpSession σ) :
    ClosedOnce (tcpSessionPacketHandle app allocOk inRing pkt ⟨s, []⟩).log ↔
      ∀ d, tcpSessionEndpointGet s pkt = some d →
        ¬ (pkt.pdata.isSome ∧ dataStepCloses app allocOk d pkt s) ∧
          ¬ (inRing ∧ lateCloses d pkt s) := by
  cases hd : tcpSessionEndpointGet s pkt with
  | none =>
    have hr : packetHandle app allocOk pkt ⟨s, []⟩ = ⟨s, [.access]⟩ := by
      simp [packetHandle, hd, Handling.emit]
    refine ⟨fun _ d hd' => by simp at hd', fun _ => closedOnce_of_not_mem ?_⟩
    cases inRing <;> simp [tcpSessionPacketHandle, entriesTimeoutFree, hr]
  | some d =>
    have hforall : ∀ P : SessionDirect → Prop, (∀ d', some d = some d' → P d') ↔ P d := by
      intro P
      simp
    rw [hforall]
    by_cases hdata : pkt.pdata.isSome ∧ dataStepCloses app allocOk d pkt s
    · obtain ⟨pre, post, hpre, hpost, hlog⟩ :=
        packetHandle_closing app allocOk pkt s hd hdata.1 hdata.2
      refine iff_of_false ?_ (fun hc => hc.1 hdata)
      cases inRing
      · rw [tcpSessionPacketHandle, entriesTimeoutFree, if_neg (by simp), hlog]
        exact not_closedOnce_of_mem hpre hpost
      · rw [tcpSessionPacketHandle, entriesTimeoutFree, if_pos rfl, emit_log, hlog,
          List.append_assoc]
        exact not_closedOnce_of_mem hpre (by simp)
    · obtain ⟨hlate, hopen⟩ := packetHandle_open app allocOk pkt s hd hdata
      rw [and_iff_right hdata]
      by_cases hc : lateCloses d pkt s
      · obtain ⟨pre, hpre, hlog⟩ := hlate hc
        cases inRing
        · rw [tcpSessionPacketHandle, entriesTimeoutFree, if_neg (by simp), hlog]
          exact iff_of_true (closedOnce_concat hpre) (by simp)
        · rw [tcpSessionPacketHandle, entriesTimeoutFree, if_pos rfl, emit_log, hlog]
          exact iff_of_false (not_closedOnce_of_mem (by simp) (by simp)) (by simp [hc])
      · have hno := hopen hc
        refine iff_of_true (closedOnce_of_not_mem ?_) (by simp [hc])
        cases inRing <;> simp [tcpSessionPacketHandle, entriesTimeoutFree, hno]

/-- The application of the session below: it breaks on the first request data, as a
parser does that meets a malformed request line. -/
def breakingApp : TcpApp Unit where
  requestContentParse := some fun st _ => (.parseBreak, st)
  responseContentParse := some fun st _ => (.parseContinue, st)

def firstRequest : TcpSessionRequest :=
  { isIpv6 := false, reqIp := 1, resIp := 2, srcAddr := 0, dstAddr := 0, reqPort := 1000
    resPort := 80, reqSnInit := 101, resSnInit := 501 }

def firstDataPacket : TcpPacket :=
  { isIpv6 := false, srcIp := 1, dstIp := 2, srcAddr := 0, dstAddr := 0, srcPort := 1000
    dstPort := 80, tcpFlags := thAck, sentSeq := 101, recvAck := 501, payloadLen := 1
    pdata := some [0] }

/-- The first data packet of a new session, refused by the application: the session
is closed and then accessed twice. -/
theorem first_packet_not_closedOnce :
    (tcpSessionPacketHandle breakingApp true false firstDataPacket
      ⟨tcpSessionInit firstRequest (), []⟩).log =
        [.access, .access, .access, .access, .output .req [0], .close, .access, .access] ∧
      ¬ ClosedOnce (tcpSessionPacketHandle breakingApp true false firstDataPacket
        ⟨tcpSessionInit firstRequest (), []⟩).log := by
  have hlog : (tcpSessionPacketHandle breakingApp true false firstDataPacket
      ⟨tcpSessionInit firstRequest (), []⟩).log =
        [.access, .access, .access, .access, .output .req [0], .close, .access, .access] := by
    decide
  refine ⟨hlog, fun hc => ?_⟩
  have hnil := hc.nothingAfter [.access, .access, .access, .access, .output .req [0]]
    [.access, .access] hlog
  simp at hnil

end CloudHands.Tcp

import CloudHands.Http.Parse

/-!
# The sessions that the parser builds

A session is built from a fresh one by the passes over its phases that do not fail. Every
session that a connection stores is built, and its status code is one of three digits.
-/

namespace CloudHands.Http

open Lib

inductive Built (app : App) : HttpSession → Prop
  | created : Built app {}
  | step {dir : Dir} {s s' : HttpSession} {din rest : List UInt8} (hs : Built app s)
      (h : phaseStep app dir s din = some (.more s' rest)) : Built app s'

theorem scan_invariant {S L : Type} {step : ℕ → UInt8 → S → L → Scan S L} (inv : S → L → Prop)
    (post : L → Prop)
    (hnext : ∀ {p ch state line state' line'}, inv state line →
      step p ch state line = .next state' line' → inv state' line')
    (hdone : ∀ {p ch state line line'}, inv state line → step p ch state line = .done line' →
      post line')
    {p : ℕ} {state : S} {line line' : L} {raw : List UInt8} (hs : inv state line)
    (h : scan step p state line raw = some line') : post line' := by
  induction raw generalizing p state line with
  | nil => cases h
  | cons ch rest ih =>
    rw [scan] at h
    cases hstep : step p ch state line with
    | next state₁ line₁ =>
      rw [hstep] at h
      exact ih (hnext hs hstep) h
    | done line₁ =>
      rw [hstep] at h
      obtain rfl := Option.some.inj h
      exact hdone hs hstep
    | invalid =>
      rw [hstep] at h
      cases h

def StatusRoom (state : StatusState) (status : StatusLine) : Prop :=
  match state with
  | .spaceAfterStatus | .statusText | .almostDone => status.code < 1000
  | _ => status.count ≤ 2 ∧ status.code < 10 ^ status.count

theorem digitValue_lt {ch : UInt8} (h : isDigit ch = true) : digitValue ch < 10 := by
  simp only [isDigit, Bool.and_eq_true, decide_eq_true_eq] at h
  have hle : ch.toNat ≤ 57 := UInt8.le_iff_toNat_le.1 h.2
  simp only [digitValue]
  omega

theorem statusDigit_room {status : StatusLine} {ch : UInt8} (hch : isDigit ch = true)
    (h : status.count ≤ 2 ∧ status.code < 10 ^ status.count) :
    status.code * 10 + digitValue ch < 10 ^ (status.count + 1) := by
  have hdigit := digitValue_lt hch
  rw [pow_succ]
  omega

theorem statusStep_next {ch : UInt8} {state state' : StatusState} {status status' : StatusLine}
    (hroom : StatusRoom state status) (h : statusStep ch state status = .next state' status') :
    StatusRoom state' status' := by
  cases state with
  | status =>
    simp only [statusStep] at h
    split at h
    · obtain ⟨rfl, rfl⟩ := Scan.next.inj h
      exact hroom
    · split at h
      · cases h
      · rename_i _ hch
        have hisDigit : isDigit ch = true := by simpa using hch
        have hdigit := statusDigit_room hisDigit hroom
        split at h
        · rename_i hcount
          obtain ⟨rfl, rfl⟩ := Scan.next.inj h
          rw [show status.count + 1 = 3 from hcount] at hdigit
          exact hdigit
        · rename_i hcount
          obtain ⟨rfl, rfl⟩ := Scan.next.inj h
          have hle : status.count ≤ 2 := hroom.1
          have hne : status.count + 1 ≠ 3 := hcount
          exact ⟨show status.count + 1 ≤ 2 by omega, hdigit⟩
  | _ =>
    simp only [statusStep, expect] at h
    repeat' split at h
    all_goals cases h
    all_goals exact hroom

theorem statusStep_done {ch : UInt8} {state : StatusState} {status status' : StatusLine}
    (hroom : StatusRoom state status) (h : statusStep ch state status = .done status') :
    status'.code < 1000 := by
  cases state with
  | spaceAfterStatus | statusText | almostDone =>
    simp only [statusStep] at h
    repeat' split at h
    all_goals cases h
    all_goals exact hroom
  | _ =>
    simp only [statusStep, expect] at h
    repeat' split at h
    all_goals cases h

theorem statusLineParse_code_lt {raw : List UInt8} {status : StatusLine}
    (h : statusLineParse raw = some status) : status.code < 1000 := by
  have hstart : StatusRoom .start {} := ⟨by decide, by decide⟩
  exact scan_invariant StatusRoom (fun status => status.code < 1000) statusStep_next statusStep_done
    hstart h

@[simp] theorem statusCode_setBody (s : HttpSession) (b : Body) (dir : Dir) :
    (s.setBody b dir).statusCode = s.statusCode := by
  cases dir <;> rfl

@[simp] theorem statusCode_setHeaders (s : HttpSession) (h : Headers) (dir : Dir) :
    (s.setHeaders h dir).statusCode = s.statusCode := by
  cases dir <;> rfl

theorem statusCode_headerAdd (s : HttpSession) (raw : List UInt8) (header : HeaderLine)
    (dir : Dir) :
    (headerAdd s raw header dir).statusCode = s.statusCode := by
  cases dir with
  | request =>
    simp only [headerAdd, requestHeaderIndexSet]
    split
    · simp
    · split
      · simp
      · simp
  | response => simp [headerAdd]

theorem statusCode_lineHandle {app : App} {dir : Dir} {s s' : HttpSession} {raw : List UInt8}
    (hs : s.statusCode < 1000) (h : lineHandle app dir s raw = .ok s') : s'.statusCode < 1000 := by
  unfold lineHandle at h
  split at h
  · cases dir with
    | request =>
      simp only [requestLineHandle] at h
      split at h
      · cases h
      · obtain rfl := LineResult.ok.inj h
        exact hs
    | response =>
      simp only [statusLineHandle] at h
      split at h
      · cases h
      · obtain rfl := LineResult.ok.inj h
        exact statusLineParse_code_lt ‹_›
  · simp only [headerLineHandle] at h
    split at h
    · split at h
      · obtain rfl := LineResult.ok.inj h
        exact hs
      · cases h
    · split at h
      · cases h
      · obtain rfl := LineResult.ok.inj h
        rw [statusCode_headerAdd]
        exact hs

theorem statusCode_bodyDirectAppend (s : HttpSession) (dir : Dir) (din : List UInt8) :
    (bodyDirectAppend s dir din).statusCode = s.statusCode := by
  simp only [bodyDirectAppend]
  split
  · exact statusCode_setBody s _ dir
  · exact statusCode_setBody s _ dir

theorem statusCode_setSink (s : HttpSession) (dir : Dir) (sink : ChunkSink) :
    (setSink s dir sink).statusCode = s.statusCode := by
  simp [setSink]

theorem statusCode_chunkedEnd {s s' : HttpSession} {dir : Dir} {e : SinkEnd} {rest : List UInt8}
    (h : chunkedEnd s dir e = .more s' rest) : s'.statusCode = s.statusCode := by
  cases e with
  | again sink =>
    obtain ⟨rfl, -⟩ := StepResult.more.inj h
    exact statusCode_setSink s dir sink
  | done sink rest₁ =>
    obtain ⟨rfl, -⟩ := StepResult.more.inj h
    exact statusCode_setSink s dir sink
  | invalid content n => cases h

theorem statusCode_bodyParse {s s' : HttpSession} {dir : Dir} {din rest : List UInt8}
    (h : bodyParse s dir din = some (.more s' rest)) : s'.statusCode = s.statusCode := by
  unfold bodyParse at h
  split at h
  · obtain ⟨e, -, he⟩ := Option.map_eq_some_iff.1 h
    exact statusCode_chunkedEnd he
  · obtain ⟨rfl, -⟩ := StepResult.more.inj (Option.some.inj h)
    exact statusCode_bodyDirectAppend s dir din

theorem statusCode_phaseStep {app : App} {dir : Dir} {s s' : HttpSession} {din rest : List UInt8}
    (hs : s.statusCode < 1000) (h : phaseStep app dir s din = some (.more s' rest)) :
    s'.statusCode < 1000 := by
  unfold phaseStep at h
  split at h
  · rw [statusCode_bodyParse h]
    exact hs
  · split at h
    · cases h
    · split at h
      · obtain ⟨rfl, -⟩ := StepResult.more.inj (Option.some.inj h)
        exact statusCode_lineHandle hs ‹_›
      · cases h

theorem Built.statusCode_lt {app : App} {s : HttpSession} (h : Built app s) :
    s.statusCode < 1000 := by
  induction h with
  | created => decide
  | step hs hstep ih => exact statusCode_phaseStep ih hstep

section Stored

variable {app : App}

def Entry.Built (app : App) (e : Entry) : Prop :=
  (∀ s ∈ e.reqs, Http.Built app s) ∧ (∀ s, e.curReq = some s → Http.Built app s) ∧
    ∀ s ∈ e.stored, Http.Built app s

theorem sessionStore_built {stored : List HttpSession} {s : HttpSession}
    (hstored : ∀ x ∈ stored, Built app x) (hs : Built app s) :
    ∀ x ∈ sessionStore stored s, Built app x := by
  unfold sessionStore
  split
  · exact hstored
  · rw [List.forall_mem_append, List.forall_mem_singleton]
    exact ⟨hstored, hs⟩

theorem append_built {reqs : List HttpSession} {s : HttpSession} (hreqs : ∀ x ∈ reqs, Built app x)
    (hs : Built app s) : ∀ x ∈ reqs ++ [s], Built app x := by
  rw [List.forall_mem_append, List.forall_mem_singleton]
  exact ⟨hreqs, hs⟩

def ReqLoop.Built (app : App) (st : ReqLoop) : Prop :=
  (∀ s ∈ st.reqs, Http.Built app s) ∧ Http.Built app st.session

/-- A request that fails is not built, and the connection breaks off with it. -/
def ReqEnd.Built (app : App) (r : ReqEnd) : Prop :=
  (∀ s ∈ r.reqs, Http.Built app s) ∧
    (r.verdict = .break ∨ ∀ s, r.curReq = some s → Http.Built app s)

theorem requestIter_built (st : ReqLoop) (hst : st.Built app) :
    (requestIter app st).All (ReqLoop.Built app) (ReqEnd.Built app) := by
  obtain ⟨hreqs, hs⟩ := hst
  have hsession : ∀ s, some st.session = some s → Built app s := by
    rintro s ⟨⟩
    exact hs
  unfold requestIter
  split
  · split
    · exact ⟨append_built hreqs hs, .inr (by simp)⟩
    · exact ⟨hreqs, .inr hsession⟩
  · split
    · exact ⟨append_built hreqs hs, .created⟩
    · split
      · exact ⟨hreqs, hs⟩
      · exact ⟨hreqs, .inr hsession⟩
      · exact ⟨hreqs, .inl rfl⟩
      · rename_i hstep
        exact ⟨hreqs, .step hs hstep⟩

def ResLoop.Built (app : App) (st : ResLoop) : Prop :=
  (∀ s ∈ st.reqs, Http.Built app s) ∧ ∀ s ∈ st.stored, Http.Built app s

def ResEnd.Built (app : App) (r : ResEnd) : Prop :=
  (∀ s ∈ r.stored, Http.Built app s) ∧ (r.verdict = .break ∨ ∀ s ∈ r.reqs, Http.Built app s)

theorem responseStep_built {s : HttpSession} {pending stored : List HttpSession} {din : List UInt8}
    (hs : Built app s) (hpending : ∀ x ∈ pending, Built app x)
    (hstored : ∀ x ∈ stored, Built app x) :
    Iter.All (ResLoop.Built app) (ResEnd.Built app)
      (match phaseStep app .response s din with
      | none => .next ⟨s :: pending, stored, din⟩
      | some .wait => .leave ⟨.continue, s :: pending, stored, din⟩
      | some (.fail s') => .leave ⟨.break, s' :: pending, stored, []⟩
      | some (.more s' rest) => .next ⟨s' :: pending, stored, rest⟩) := by
  have hreqs : ∀ x ∈ s :: pending, Built app x := List.forall_mem_cons.2 ⟨hs, hpending⟩
  split
  · exact ⟨hreqs, hstored⟩
  · exact ⟨hstored, .inr hreqs⟩
  · exact ⟨hstored, .inl rfl⟩
  · rename_i hstep
    exact ⟨List.forall_mem_cons.2 ⟨.step hs hstep, hpending⟩, hstored⟩

theorem responseIter_built (st : ResLoop) (hst : st.Built app) :
    (responseIter app st).All (ResLoop.Built app) (ResEnd.Built app) := by
  obtain ⟨reqs, stored, din⟩ := st
  obtain ⟨hreqs, hstored⟩ := hst
  cases reqs with
  | nil => exact ⟨hstored, .inl rfl⟩
  | cons s pending =>
    obtain ⟨hs, hpending⟩ := List.forall_mem_cons.1 hreqs
    simp only [responseIter]
    split
    · split
      · exact ⟨sessionStore_built hstored hs, .inr hpending⟩
      · exact ⟨hstored, .inr hreqs⟩
    · split
      · exact ⟨hpending, sessionStore_built hstored hs⟩
      · exact responseStep_built hs hpending hstored
      · exact responseStep_built hs hpending hstored
      · exact responseStep_built hs hpending hstored
      · exact ⟨hreqs, hstored⟩

/-- What a connection holds is built, unless it broke off; what it stored is. -/
def Conn.Built (app : App) : Conn → Prop
  | .running e _ _ => e.Built app
  | .closed _ stored => ∀ s ∈ stored, Http.Built app s

theorem feed_built {c c' : Conn} {piece : Piece} (hc : c.Built app)
    (h : feed app c piece = some c') : c'.Built app := by
  cases c with
  | closed n stored =>
    obtain rfl := Option.some.inj h
    exact hc
  | running e u v =>
    obtain ⟨hreqs, hcur, hstored⟩ := hc
    simp only [feed] at h
    split at h
    · obtain ⟨out, hparse, rfl⟩ := Option.map_eq_some_iff.1 h
      obtain ⟨r, hr, rfl⟩ := Option.map_eq_some_iff.1 hparse
      have hsession : Built app (e.curReq.getD {}) := by
        cases hreq : e.curReq with
        | none => exact .created
        | some s => exact hcur s hreq
      have hend : r.Built app := loop_all requestIter_built ⟨hreqs, hsession⟩ hr
      split
      · exact hstored
      · exact ⟨hend.1, hend.2.resolve_left ‹_›, hstored⟩
    · obtain ⟨out, hparse, rfl⟩ := Option.map_eq_some_iff.1 h
      obtain ⟨r, hr, rfl⟩ := Option.map_eq_some_iff.1 hparse
      have hend : r.Built app := loop_all responseIter_built ⟨hreqs, hstored⟩ hr
      split
      · exact hend.1
      · exact ⟨hend.2.resolve_left ‹_›, hcur, hend.1⟩

theorem foldlM_feed_built {pieces : List Piece} {c c' : Conn} (hc : c.Built app)
    (h : pieces.foldlM (feed app) c = some c') : c'.Built app := by
  induction pieces generalizing c with
  | nil =>
    obtain rfl := Option.some.inj h
    exact hc
  | cons piece pieces ih =>
    rw [List.foldlM_cons] at h
    obtain ⟨c₁, hfeed, hrest⟩ := Option.bind_eq_some_iff.1 h
    exact ih (feed_built hc hfeed) hrest

theorem stored_built {pieces : List Piece} {c : Conn} (h : run app pieces = some c) :
    ∀ s ∈ c.stored, Built app s := by
  have hinit : Conn.init.Built app := ⟨by simp, by simp, by simp⟩
  have hc := foldlM_feed_built hinit h
  cases c with
  | running e u v => exact hc.2.2
  | closed n stored => exact hc

end Stored

end CloudHands.Http

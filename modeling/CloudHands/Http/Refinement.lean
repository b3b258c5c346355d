import CloudHands.Http.Bytewise

/-!
# The parsers refine the bytewise machine

One pass of a parser's loop does what the bytes it reads do; the loops end, and the
connection they leave is the one the bytes of the piece lead to. The condition is on the
passes of the loop: a pass that comes to a body of fixed length has no more input than the
body has room for.
-/

namespace CloudHands.Http

open Lib

variable {app : App}

def requestConn (e : Entry) (v : Verdict) (r : ReqEnd) : Conn :=
  let e' := { e with reqs := r.reqs, curReq := r.curReq, reqRemain := r.remain }
  if r.verdict = .break then .close e' else .running e' r.verdict v

theorem feed_request (e : Entry) (u v : Verdict) (piece : Piece) (hdir : piece.dir = .request) :
    feed app (.running e u v) piece =
      (loop (requestIter app) (requestFuel (requestStart e piece.data))
        (requestStart e piece.data)).map (requestConn e v) := by
  simp only [feed, hdir, requestParse, Option.map_map]
  rfl

def RequestPost (app : App) (e : Entry) (v : Verdict) (st : ReqLoop) (r : ReqEnd) : Prop :=
  bytesFeed app (.running (requestPlace { e with reqs := st.reqs } st.session []) .continue v)
    .request st.din = requestConn e v r

def RequestInv (st : ReqLoop) : Prop := SessionOk st.session ∧ Cursor .request st.session []

def requestFits (st : ReqLoop) : Bool := directFits .request st.session st.din

def requestMeasure (st : ReqLoop) : ℕ :=
  2 * st.din.length + if requestDone st.session then 1 else 0

theorem bytesFeed_request_fresh (e : Entry) (u v : Verdict) {data : List UInt8} (hne : data ≠ []) :
    bytesFeed app (.running { e with curReq := none } u v) .request data =
      bytesFeed app (.running { e with curReq := some {} } u v) .request data := by
  cases data with
  | nil => exact absurd rfl hne
  | cons b data =>
    rw [bytesFeed_cons, bytesFeed_cons]
    rfl

theorem inMessage_fresh : inMessage .request {} := .inl rfl

theorem requestPost_done {e : Entry} {v : Verdict} {st : ReqLoop} {r : ReqEnd}
    (hne : st.din ≠ []) (hdone : requestDone st.session = true)
    (h : RequestPost app e v ⟨st.reqs ++ [st.session], {}, st.din⟩ r) :
    RequestPost app e v st r := by
  have hfresh : requestDone {} = false := rfl
  have hdone' : requestPlace { e with reqs := st.reqs } st.session [] =
      { e with reqs := st.reqs ++ [st.session], curReq := none, reqRemain := [] } := by
    simp [requestPlace, hdone]
  rw [RequestPost, requestPlace_open hfresh] at h
  rw [RequestPost, hdone']
  exact (bytesFeed_request_fresh
    { e with reqs := st.reqs ++ [st.session], reqRemain := [] } .continue v hne).trans h

theorem requestIter_next {e : Entry} {v : Verdict} {st st' : ReqLoop} (hinv : RequestInv st)
    (hfits : requestFits st = true) (h : requestIter app st = .next st') :
    RequestInv st' ∧ requestMeasure st' < requestMeasure st ∧
      ∀ r, RequestPost app e v st' r → RequestPost app e v st r := by
  unfold requestIter at h
  split at h
  · split at h <;> simp at h
  · rename_i hne
    split at h
    · rename_i hdone
      simp only [Iter.next.injEq] at h
      subst h
      refine ⟨⟨.fresh, .nil (.inl inMessage_fresh)⟩, ?_, fun r => requestPost_done hne hdone⟩
      have hfresh : requestDone {} = false := rfl
      simp [requestMeasure, hdone, hfresh]
    · rename_i hopen
      have hopen' : messageDone .request st.session = false := by simpa [messageDone] using hopen
      obtain ⟨res, hres, hmatch⟩ :=
        stepMatches_phaseStep hopen' (hinv.1.chunk .request) hne hfits
      rw [hres] at h
      cases res with
      | wait => simp at h
      | fail s => simp at h
      | more s rest =>
        simp only [Iter.next.injEq] at h
        subst h
        obtain ⟨u, hdin, hu, heats⟩ := hmatch
        refine ⟨heats.keeps hinv.1 hinv.2, ?_, fun r hr => ?_⟩
        · have hlen := List.length_pos_of_ne_nil hu
          simp only [requestMeasure, hdin, List.length_append, if_neg hopen]
          split <;> omega
        · rw [RequestPost, hdin, bytesFeed_append, bytesFeed_request heats]
          exact hr

theorem requestIter_leave {e : Entry} {v : Verdict} {st : ReqLoop} {r : ReqEnd}
    (hinv : RequestInv st) (hfits : requestFits st = true)
    (h : requestIter app st = .leave r) : RequestPost app e v st r := by
  unfold requestIter at h
  split at h
  · rename_i hnil
    split at h
    · rename_i hdone
      simp only [Iter.leave.injEq] at h
      subst h
      simp [RequestPost, hnil, bytesFeed, requestPlace, hdone, requestConn]
    · rename_i hopen
      simp only [Iter.leave.injEq] at h
      subst h
      simp [RequestPost, hnil, bytesFeed, requestPlace, hopen, requestConn]
  · rename_i hne
    split at h
    · simp at h
    · rename_i hopen
      have hopen' : messageDone .request st.session = false := by simpa [messageDone] using hopen
      obtain ⟨res, hres, hmatch⟩ :=
        stepMatches_phaseStep hopen' (hinv.1.chunk .request) hne hfits
      rw [hres] at h
      cases res with
      | wait =>
        simp only [Iter.leave.injEq] at h
        subst h
        rw [RequestPost, bytesFeed_request hmatch, requestPlace_open hopen']
        rfl
      | fail s =>
        simp only [Iter.leave.injEq] at h
        subst h
        obtain ⟨u, b, rest, s₁, r₁, hdin, heats, hopen₁, hfail⟩ := hmatch
        rw [RequestPost, hdin, bytesFeed_append, bytesFeed_request heats, bytesFeed_cons,
          byteFeed_request_fail hopen₁ hfail, Conn.close, bytesFeed_closed]
        rfl
      | more s rest => simp at h

def responseConn (e : Entry) (u : Verdict) (r : ResEnd) : Conn :=
  let e' := { e with reqs := r.reqs, stored := r.stored, resRemain := r.remain }
  if r.verdict = .break then .close e' else .running e' u r.verdict

theorem feed_response (e : Entry) (u v : Verdict) (piece : Piece) (hdir : piece.dir = .response) :
    feed app (.running e u v) piece =
      (loop (responseIter app) (responseFuel (responseStart e piece.data))
        (responseStart e piece.data)).map (responseConn e u) := by
  simp only [feed, hdir, responseParse, Option.map_map]
  rfl

/-- The connection of a loop state in which the first pending session is `s`. -/
def responseState (e : Entry) (u : Verdict) (st : ResLoop) : Conn :=
  match st.reqs with
  | [] => .running { e with reqs := [], stored := st.stored, resRemain := [] } u .continue
  | s :: pending =>
    .running (responsePlace { e with stored := st.stored } s pending []) u (responseVerdict s)

def ResponsePost (app : App) (e : Entry) (u : Verdict) (st : ResLoop) (r : ResEnd) : Prop :=
  bytesFeed app (responseState e u st) .response st.din = responseConn e u r

def ResponseInv (st : ResLoop) : Prop :=
  match st.reqs with
  | [] => st.din ≠ []
  | s :: pending => SessionOk s ∧ Cursor .response s [] ∧
      ∀ s ∈ pending, SessionOk s ∧ inMessage .response s

def responseFits (st : ResLoop) : Bool :=
  match st.reqs with
  | [] => true
  | s :: _ => directFits .response s st.din

def responseMeasure (st : ResLoop) : ℕ := st.din.length + st.reqs.length

theorem bytesFeed_response_verdict (e : Entry) (u v v' : Verdict) {data : List UInt8}
    (hne : data ≠ []) :
    bytesFeed app (.running e u v) .response data =
      bytesFeed app (.running e u v') .response data := by
  cases data with
  | nil => exact absurd rfl hne
  | cons b data => rfl

theorem responsePost_done {e : Entry} {u : Verdict} {s : HttpSession}
    {pending stored : List HttpSession} {din : List UInt8} {r : ResEnd} (hne : din ≠ [])
    (hdone : s.parsePhase = .done) (hpending : ∀ s ∈ pending, inMessage .response s)
    (h : ResponsePost app e u ⟨pending, sessionStore stored s, din⟩ r) :
    ResponsePost app e u ⟨s :: pending, stored, din⟩ r := by
  have hplace : responsePlace { e with stored := stored } s pending [] =
      { e with reqs := pending, stored := sessionStore stored s, resRemain := [] } := by
    simp [responsePlace, hdone]
  simp only [ResponsePost, responseState]
  rw [hplace]
  cases pending with
  | nil => exact (bytesFeed_response_verdict _ u _ _ hne).trans h
  | cons s' pending =>
    have hopen := messageDone_of_inMessage (hpending s' List.mem_cons_self)
    simp only [ResponsePost, responseState] at h
    rw [responsePlace_open hopen] at h
    exact (bytesFeed_response_verdict _ u _ _ hne).trans h

theorem responseIter_step {s : HttpSession} {pending stored : List HttpSession}
    {din : List UInt8} (hne : din ≠ []) (hs : inMessage .response s) :
    responseIter app ⟨s :: pending, stored, din⟩ =
      match phaseStep app .response s din with
      | none => .next ⟨s :: pending, stored, din⟩
      | some .wait => .leave ⟨.continue, s :: pending, stored, din⟩
      | some (.fail s') => .leave ⟨.break, s' :: pending, stored, []⟩
      | some (.more s' rest) => .next ⟨s' :: pending, stored, rest⟩ := by
  unfold responseIter
  dsimp only
  rw [if_neg hne]
  obtain h | h | h := hs
  · have hphase : s.parsePhase = .statusLine := h
    rewrite [hphase]
    rfl
  · have hphase : s.parsePhase = .resHeader := h
    rewrite [hphase]
    rfl
  · have hphase : s.parsePhase = .resBody := h
    rewrite [hphase]
    rfl

theorem responseIter_done {s : HttpSession} {pending stored : List HttpSession}
    {din : List UInt8} (hne : din ≠ []) (hs : s.parsePhase = .done) :
    responseIter app ⟨s :: pending, stored, din⟩ = .next ⟨pending, sessionStore stored s, din⟩ := by
  simp [responseIter, hne, hs]

theorem responseIter_next {e : Entry} {u : Verdict} {st st' : ResLoop} (hinv : ResponseInv st)
    (hfits : responseFits st = true) (h : responseIter app st = .next st') :
    ResponseInv st' ∧ responseMeasure st' < responseMeasure st ∧
      ∀ r, ResponsePost app e u st' r → ResponsePost app e u st r := by
  obtain ⟨reqs, stored, din⟩ := st
  cases reqs with
  | nil => simp [responseIter] at h
  | cons s pending =>
    obtain ⟨hok, hcur, hpending⟩ := hinv
    by_cases hne : din = []
    · simp only [responseIter, if_pos hne] at h
      split at h <;> simp at h
    · rcases hcur.phase with hs | hs
      · obtain ⟨res, hres, hmatch⟩ :=
          stepMatches_phaseStep (messageDone_of_inMessage hs) (hok.chunk .response) hne hfits
        rw [responseIter_step hne hs, hres] at h
        cases res with
        | wait => simp at h
        | fail s' => simp at h
        | more s' rest =>
          simp only [Iter.next.injEq] at h
          subst h
          obtain ⟨w, hdin, hw, heats⟩ := hmatch
          obtain ⟨hok', hcur'⟩ := heats.keeps hok hcur
          refine ⟨⟨hok', hcur', hpending⟩, ?_, fun r hr => ?_⟩
          · have hlen := List.length_pos_of_ne_nil hw
            simp only [responseMeasure, hdin, List.length_append, List.length_cons]
            omega
          · simp only [ResponsePost, responseState, hdin]
            rw [bytesFeed_append, bytesFeed_response heats]
            exact hr
      · rw [responseIter_done hne hs, Iter.next.injEq] at h
        subst h
        refine ⟨?_, by simp [responseMeasure], fun r =>
          responsePost_done hne hs fun s' hs' => (hpending s' hs').2⟩
        cases pending with
        | nil => exact hne
        | cons s' pending =>
          obtain ⟨⟨hok', hin⟩, hrest⟩ := List.forall_mem_cons.1 hpending
          exact ⟨hok', .nil (.inl hin), hrest⟩

theorem responseIter_leave {e : Entry} {u : Verdict} {st : ResLoop} {r : ResEnd}
    (hinv : ResponseInv st) (hfits : responseFits st = true)
    (h : responseIter app st = .leave r) : ResponsePost app e u st r := by
  obtain ⟨reqs, stored, din⟩ := st
  cases reqs with
  | nil =>
    simp only [responseIter, Iter.leave.injEq] at h
    subst h
    cases din with
    | nil => exact absurd rfl hinv
    | cons b din =>
      rw [ResponsePost, bytesFeed_cons]
      simp [responseState, byteFeed, responseByte, responseConn, Conn.close]
  | cons s pending =>
    obtain ⟨hok, hcur, hpending⟩ := hinv
    by_cases hne : din = []
    · subst hne
      simp only [responseIter, if_true] at h
      split at h
      · rename_i hdone
        simp only [Iter.leave.injEq] at h
        subst h
        cases hkeep : isKeepalive s <;>
          simp [ResponsePost, responseState, bytesFeed, responsePlace, responseVerdict, hdone,
            responseConn, hkeep]
      · rename_i hopen
        simp only [Iter.leave.injEq] at h
        subst h
        simp [ResponsePost, responseState, bytesFeed, responsePlace, responseVerdict, hopen,
          responseConn]
    · rcases hcur.phase with hs | hs
      · have hopen := messageDone_of_inMessage hs
        obtain ⟨res, hres, hmatch⟩ := stepMatches_phaseStep hopen (hok.chunk .response) hne hfits
        rw [responseIter_step hne hs, hres] at h
        cases res with
        | wait =>
          simp only [Iter.leave.injEq] at h
          subst h
          have hphase : s.parsePhase ≠ .done := by simpa [messageDone] using hopen
          simp only [ResponsePost, responseState]
          rw [bytesFeed_response hmatch, responsePlace_open hopen]
          simp [responseConn, responseVerdict, hphase]
        | fail s' =>
          simp only [Iter.leave.injEq] at h
          subst h
          obtain ⟨w, b, rest, s₁, r₁, hdin, heats, hopen₁, hfail⟩ := hmatch
          simp only [ResponsePost, responseState, hdin]
          rw [bytesFeed_append, bytesFeed_response heats, bytesFeed_cons,
            byteFeed_response_fail hopen₁ hfail, Conn.close, bytesFeed_closed]
          simp [responseConn, Conn.close]
        | more s' rest => simp at h
      · rw [responseIter_done hne hs] at h
        simp at h

structure Entry.Inv (e : Entry) : Prop where
  curReq : ∀ s, e.curReq = some s →
    SessionOk s ∧ Cursor .request s e.reqRemain ∧ messageDone .request s = false
  noCurReq : e.curReq = none → e.reqRemain = []
  pending : ∀ s ∈ e.reqs, SessionOk s ∧ inMessage .response s
  first : ∀ s pending, e.reqs = s :: pending → Cursor .response s e.resRemain
  noReqs : e.reqs = [] → e.resRemain = []

theorem Entry.Inv.current {e : Entry} (h : e.Inv) :
    SessionOk (e.curReq.getD {}) ∧ Cursor .request (e.curReq.getD {}) e.reqRemain ∧
      messageDone .request (e.curReq.getD {}) = false := by
  cases hcur : e.curReq with
  | none =>
    rw [h.noCurReq hcur]
    exact ⟨.fresh, .nil (.inl inMessage_fresh), rfl⟩
  | some s => exact h.curReq s hcur

theorem Cursor.remain_of_done {dir : Dir} {s : HttpSession} {remain : List UInt8}
    (h : Cursor dir s remain) (hdone : messageDone dir s = true) :
    passed dir s ∧ remain = [] := by
  rcases h.phase with hin | hpass
  · simp [messageDone_of_inMessage hin] at hdone
  · exact ⟨hpass, h.done hpass⟩

theorem Entry.Inv.requestByte {e e' : Entry} {b : UInt8} (h : e.Inv)
    (hb : requestByte app e b = some e') : e'.Inv := by
  obtain ⟨hok, hcur, hopen⟩ := h.current
  unfold Http.requestByte at hb
  cases hbyte : sessionByte app .request (e.curReq.getD {}) e.reqRemain b with
  | none => simp [hbyte] at hb
  | some p =>
    obtain ⟨s, remain⟩ := p
    obtain ⟨hok', hcur'⟩ := sessionByte_keeps hok hcur hopen hbyte
    simp only [hbyte, Option.some.injEq] at hb
    subst hb
    cases hdone : requestDone s with
    | false =>
      rw [requestPlace_open hdone]
      refine ⟨?_, by simp, h.pending, h.first, h.noReqs⟩
      intro s' hs'
      obtain rfl : s = s' := by simpa using hs'
      exact ⟨hok', hcur', hdone⟩
    | true =>
      obtain ⟨hpass, rfl⟩ := hcur'.remain_of_done hdone
      simp only [requestPlace, hdone, if_true]
      refine ⟨by simp, fun _ => rfl, ?_, ?_, by simp⟩
      · simp only [List.forall_mem_append, List.forall_mem_singleton]
        exact ⟨h.pending, hok', hpass⟩
      · intro s' pending heq
        cases hreqs : e.reqs with
        | nil =>
          obtain ⟨rfl, -⟩ : s = s' ∧ [] = pending := by simpa [hreqs] using heq
          rw [h.noReqs hreqs]
          exact .nil (.inl hpass)
        | cons s₀ pending₀ =>
          obtain ⟨rfl, -⟩ : s₀ = s' ∧ pending₀ ++ [s] = pending := by simpa [hreqs] using heq
          exact h.first s₀ pending₀ hreqs

theorem Entry.Inv.responseByte {e e' : Entry} {b : UInt8} {v : Verdict} (h : e.Inv)
    (hb : responseByte app e b = some (e', v)) : e'.Inv := by
  unfold Http.responseByte at hb
  cases hreqs : e.reqs with
  | nil => simp [hreqs] at hb
  | cons s pending =>
    have hpending := h.pending
    rw [hreqs, List.forall_mem_cons] at hpending
    obtain ⟨⟨hok, hin⟩, hrest⟩ := hpending
    have hcur := h.first s pending hreqs
    simp only [hreqs] at hb
    cases hbyte : sessionByte app .response s e.resRemain b with
    | none => simp [hbyte] at hb
    | some p =>
      obtain ⟨s', remain⟩ := p
      obtain ⟨hok', hcur'⟩ := sessionByte_keeps hok hcur (messageDone_of_inMessage hin) hbyte
      simp only [hbyte, Option.some.injEq, Prod.mk.injEq] at hb
      obtain ⟨rfl, -⟩ := hb
      cases hdone : messageDone .response s' with
      | false =>
        rw [responsePlace_open hdone]
        refine ⟨h.curReq, h.noCurReq, ?_, ?_, by simp⟩
        · exact List.forall_mem_cons.2 ⟨⟨hok', hcur'.inMessage hdone⟩, hrest⟩
        · intro s₀ pending₀ heq
          obtain ⟨rfl, -⟩ : s' = s₀ ∧ pending = pending₀ := by simpa using heq
          exact hcur'
      | true =>
        obtain ⟨hpass, rfl⟩ := hcur'.remain_of_done hdone
        have hphase : s'.parsePhase = .done := hpass
        simp only [responsePlace, hphase, if_true]
        refine ⟨h.curReq, h.noCurReq, hrest, ?_, fun _ => rfl⟩
        rintro s₀ pending₀ rfl
        exact .nil (.inl (hrest s₀ List.mem_cons_self).2)

def Conn.Inv : Conn → Prop
  | .running e u _ => e.Inv ∧ u = .continue
  | .closed _ _ => True

theorem Conn.Inv.init : Conn.init.Inv :=
  ⟨⟨by simp, fun _ => rfl, by simp, by simp, fun _ => rfl⟩, rfl⟩

theorem Conn.Inv.byteFeed {c : Conn} (h : c.Inv) (event : Dir × UInt8) :
    (byteFeed app c event).Inv := by
  obtain ⟨dir, b⟩ := event
  cases c with
  | closed n stored => exact trivial
  | running e u v =>
    cases dir with
    | request =>
      simp only [Http.byteFeed]
      cases hb : Http.requestByte app e b with
      | none => exact trivial
      | some e' => exact ⟨h.1.requestByte hb, rfl⟩
    | response =>
      simp only [Http.byteFeed]
      cases hb : Http.responseByte app e b with
      | none => exact trivial
      | some p => exact ⟨h.1.responseByte hb, h.2⟩

theorem Conn.Inv.foldl {c : Conn} (h : c.Inv) (events : List (Dir × UInt8)) :
    (events.foldl (Http.byteFeed app) c).Inv := by
  induction events generalizing c with
  | nil => exact h
  | cons event events ih => exact ih (h.byteFeed event)

theorem Cursor.eats_remain {dir : Dir} {s : HttpSession} {remain : List UInt8}
    (h : Cursor dir s remain) (hopen : messageDone dir s = false) :
    Eats app dir s [] remain s remain := by
  by_cases hphase : s.parsePhase = bodyPhase dir
  · rw [h.body hphase]
    exact .nil s []
  · have heats : Eats app dir s [] remain s ([] ++ remain) := eats_text hopen hphase h.text []
    exact heats

theorem Entry.Inv.resume_request {e : Entry} (h : e.Inv) (v : Verdict) {data : List UInt8}
    (hne : data ≠ []) :
    bytesFeed app (.running (requestPlace e (e.curReq.getD {}) []) .continue v) .request
      (e.reqRemain ++ data) = bytesFeed app (.running e .continue v) .request data := by
  obtain ⟨-, hcur, hopen⟩ := h.current
  rw [bytesFeed_append, bytesFeed_request (hcur.eats_remain hopen), requestPlace_open hopen]
  cases hsome : e.curReq with
  | none =>
    have he : { e with curReq := none } = e := by rw [← hsome]
    rw [Option.getD_none, ← bytesFeed_request_fresh e .continue v hne, he]
  | some s =>
    have he : { e with curReq := some s } = e := by rw [← hsome]
    rw [Option.getD_some, he]

theorem Entry.Inv.resume_response {e : Entry} (h : e.Inv) (u v : Verdict) {data : List UInt8}
    (hne : data ≠ []) :
    bytesFeed app (responseState e u (responseStart e data)) .response (e.resRemain ++ data) =
      bytesFeed app (.running e u v) .response data := by
  cases hreqs : e.reqs with
  | nil =>
    have hremain := h.noReqs hreqs
    have he : { e with reqs := [], resRemain := [] } = e := by rw [← hreqs, ← hremain]
    simp only [responseState, responseStart, hreqs, hremain, List.nil_append]
    rw [he]
    exact bytesFeed_response_verdict e u _ v hne
  | cons s pending =>
    have hin := (h.pending s (by simp [hreqs])).2
    have hopen := messageDone_of_inMessage hin
    have hcur := h.first s pending hreqs
    have he : { e with reqs := s :: pending } = e := by rw [← hreqs]
    simp only [responseState, responseStart, hreqs]
    rw [bytesFeed_append, bytesFeed_response (hcur.eats_remain hopen), responsePlace_open hopen, he]
    exact bytesFeed_response_verdict e u _ v hne

def pieceFits (app : App) (c : Conn) (piece : Piece) : Bool :=
  match c with
  | .closed _ _ => true
  | .running e _ _ =>
    match piece.dir with
    | .request =>
      loopAll (requestIter app) requestFits (requestFuel (requestStart e piece.data))
        (requestStart e piece.data)
    | .response =>
      loopAll (responseIter app) responseFits (responseFuel (responseStart e piece.data))
        (responseStart e piece.data)

theorem feed_eq_bytesFeed {c : Conn} (h : c.Inv) {piece : Piece}
    (hfits : pieceFits app c piece = true) :
    feed app c piece = some (bytesFeed app c piece.dir piece.data) := by
  cases c with
  | closed n stored => simp [feed]
  | running e u v =>
    obtain ⟨hinv, rfl⟩ := h
    cases hdir : piece.dir with
    | request =>
      simp only [pieceFits, hdir] at hfits
      obtain ⟨hok, hcur, hopen⟩ := hinv.current
      have hstart : RequestInv (requestStart e piece.data) :=
        ⟨hok, .nil (.inl (hcur.inMessage hopen))⟩
      have hfuel : requestMeasure (requestStart e piece.data) <
          requestFuel (requestStart e piece.data) := by
        simp only [requestMeasure, requestFuel]
        split <;> omega
      obtain ⟨r, hr, hpost⟩ := loop_spec requestMeasure RequestInv (RequestPost app e v)
        requestIter_next requestIter_leave hstart hfuel hfits
      have hresume : RequestPost app e v (requestStart e piece.data) r := hpost
      rw [feed_request e .continue v piece hdir, hr, Option.map_some, ← hresume]
      exact congrArg some (hinv.resume_request v piece.nonempty)
    | response =>
      simp only [pieceFits, hdir] at hfits
      have hne : readPrefare e.resRemain piece.data ≠ [] := by
        simp [readPrefare, piece.nonempty]
      have hstart : ResponseInv (responseStart e piece.data) := by
        simp only [ResponseInv, responseStart]
        cases hreqs : e.reqs with
        | nil => exact hne
        | cons s pending =>
          have hpending := hinv.pending
          rw [hreqs, List.forall_mem_cons] at hpending
          exact ⟨hpending.1.1, .nil (.inl hpending.1.2), hpending.2⟩
      have hfuel : responseMeasure (responseStart e piece.data) <
          responseFuel (responseStart e piece.data) := Nat.lt_succ_self _
      obtain ⟨r, hr, hpost⟩ := loop_spec responseMeasure ResponseInv (ResponsePost app e .continue)
        responseIter_next responseIter_leave hstart hfuel hfits
      rw [feed_response e .continue v piece hdir, hr, Option.map_some, ← hpost]
      exact congrArg some (hinv.resume_response .continue v piece.nonempty)

def runFits (app : App) (c : Conn) : List Piece → Bool
  | [] => true
  | piece :: pieces =>
    pieceFits app c piece &&
      match feed app c piece with
      | none => false
      | some c' => runFits app c' pieces

def events (pieces : List Piece) : List (Dir × UInt8) :=
  pieces.flatMap fun piece => piece.data.map (Prod.mk piece.dir)

theorem foldlM_feed_eq {c : Conn} (h : c.Inv) {pieces : List Piece}
    (hfits : runFits app c pieces = true) :
    pieces.foldlM (feed app) c = some ((events pieces).foldl (byteFeed app) c) := by
  induction pieces generalizing c with
  | nil => rfl
  | cons piece pieces ih =>
    rw [runFits, Bool.and_eq_true] at hfits
    obtain ⟨hpiece, hrest⟩ := hfits
    have hfeed := feed_eq_bytesFeed h hpiece
    rw [hfeed] at hrest
    have hinv : (bytesFeed app c piece.dir piece.data).Inv := h.foldl _
    rw [List.foldlM_cons, hfeed]
    simp only [events, List.flatMap_cons, List.foldl_append]
    exact ih hinv hrest

theorem run_eq_bytes {pieces : List Piece} (hfits : runFits app .init pieces = true) :
    run app pieces = some ((events pieces).foldl (byteFeed app) .init) :=
  foldlM_feed_eq .init hfits

end CloudHands.Http

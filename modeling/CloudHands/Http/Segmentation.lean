import CloudHands.Http.Refinement

/-!
# Independence of the segmentation

The request stream alone decides which requests the connection carries, and these together
with the response stream decide what is stored: byte by byte, the two streams meet only in
the list of pending requests, which one side extends and the other one takes from the
front. So the order in which the bytes of the two streams arrive matters for nothing but
the point at which a broken connection stops.
-/

namespace CloudHands.Http

open Lib

variable {app : App}

def bytesIn (dir : Dir) (es : List (Dir × UInt8)) : List UInt8 :=
  (es.filter fun event => event.1 = dir).map Prod.snd

@[simp] theorem bytesIn_append (dir : Dir) (es fs : List (Dir × UInt8)) :
    bytesIn dir (es ++ fs) = bytesIn dir es ++ bytesIn dir fs := by
  simp [bytesIn]

@[simp] theorem bytesIn_same (dir : Dir) (b : UInt8) : bytesIn dir [(dir, b)] = [b] := by
  simp [bytesIn]

theorem bytesIn_other {dir dir' : Dir} (h : dir' ≠ dir) (b : UInt8) :
    bytesIn dir [(dir', b)] = [] := by
  simp [bytesIn, h]

def requestMove (app : App) (curReq : Option HttpSession) (remain : List UInt8) (b : UInt8) :
    Option (List HttpSession × Option HttpSession × List UInt8) :=
  match sessionByte app .request (curReq.getD {}) remain b with
  | none => none
  | some (s, remain') =>
    if requestDone s then some ([s], none, remain') else some ([], some s, remain')

theorem requestByte_eq (e : Entry) (b : UInt8) :
    requestByte app e b = (requestMove app e.curReq e.reqRemain b).map fun m =>
      { e with reqs := e.reqs ++ m.1, curReq := m.2.1, reqRemain := m.2.2 } := by
  unfold requestByte requestMove
  cases sessionByte app .request (e.curReq.getD {}) e.reqRemain b with
  | none => rfl
  | some p => cases hdone : requestDone p.1 <;> simp [requestPlace, hdone]

def merge (eR eS : Entry) : Entry :=
  { eS with curReq := eR.curReq, reqRemain := eR.reqRemain }

theorem responseByte_merge (eR eS : Entry) (b : UInt8) :
    responseByte app (merge eR eS) b =
      (responseByte app eS b).map fun p => (merge eR p.1, p.2) := by
  obtain ⟨reqs, curReq, reqRemain, resRemain, stored⟩ := eS
  cases reqs with
  | nil => rfl
  | cons s pending =>
    simp only [responseByte, merge]
    cases sessionByte app .response s resRemain b with
    | none => rfl
    | some p => by_cases hdone : p.1.parsePhase = .done <;> simp [responsePlace, hdone]

def extend (e : Entry) (more : List HttpSession) : Entry := { e with reqs := e.reqs ++ more }

theorem responseByte_extend {e e' : Entry} {b : UInt8} {v : Verdict}
    (h : responseByte app e b = some (e', v)) (more : List HttpSession) :
    responseByte app (extend e more) b = some (extend e' more, v) := by
  obtain ⟨reqs, curReq, reqRemain, resRemain, stored⟩ := e
  cases reqs with
  | nil => simp [responseByte] at h
  | cons s pending =>
    simp only [responseByte, extend, List.cons_append] at h ⊢
    cases hbyte : sessionByte app .response s resRemain b with
    | none => simp [hbyte] at h
    | some p =>
      simp only [hbyte, Option.some.injEq, Prod.mk.injEq] at h ⊢
      obtain ⟨rfl, rfl⟩ := h
      by_cases hdone : p.1.parsePhase = .done <;> simp [responsePlace, hdone]

def requestRun (app : App) (u : List UInt8) : Option Entry :=
  u.foldlM (requestByte app) {}

def responseRun (app : App) (reqs : List HttpSession) (v : List UInt8) :
    Option (Entry × Verdict) :=
  v.foldlM (responseStep app) ({ reqs := reqs }, .continue)

theorem requestRun_snoc (u : List UInt8) (b : UInt8) :
    requestRun app (u ++ [b]) = (requestRun app u).bind fun e => requestByte app e b := by
  simp [requestRun]

theorem responseRun_snoc (reqs : List HttpSession) (v : List UInt8) (b : UInt8) :
    responseRun app reqs (v ++ [b]) =
      (responseRun app reqs v).bind fun st => responseByte app st.1 b := by
  simp [responseRun, responseStep]

theorem responseRun_extend {reqs : List HttpSession} {v : List UInt8} {e : Entry} {w : Verdict}
    (h : responseRun app reqs v = some (e, w)) (more : List HttpSession) :
    responseRun app (reqs ++ more) v = some (extend e more, w) := by
  induction v using List.reverseRecOn generalizing e w with
  | nil =>
    obtain ⟨rfl, rfl⟩ : { reqs := reqs } = e ∧ .continue = w := by simpa [responseRun] using h
    rfl
  | append_singleton v b ih =>
    rw [responseRun_snoc] at h ⊢
    obtain ⟨⟨e₀, w₀⟩, hprev, hbyte⟩ := Option.bind_eq_some_iff.1 h
    rw [ih hprev]
    exact responseByte_extend hbyte more

theorem requestRun_mono {u u' : List UInt8} (h : u <+: u') {e' : Entry}
    (he' : requestRun app u' = some e') :
    ∃ e, requestRun app u = some e ∧ e.reqs <+: e'.reqs := by
  obtain ⟨t, rfl⟩ := h
  induction t using List.reverseRecOn generalizing e' with
  | nil => exact ⟨e', by simpa using he', List.prefix_rfl⟩
  | append_singleton t b ih =>
    rw [← List.append_assoc, requestRun_snoc] at he'
    obtain ⟨e₀, hprev, hbyte⟩ := Option.bind_eq_some_iff.1 he'
    obtain ⟨e, he, hpre⟩ := ih hprev
    rw [requestByte_eq, Option.map_eq_some_iff] at hbyte
    obtain ⟨m, -, rfl⟩ := hbyte
    exact ⟨e, he, hpre.trans (List.prefix_append _ _)⟩

theorem stored_responseByte {e e' : Entry} {b : UInt8} {v : Verdict}
    (h : responseByte app e b = some (e', v)) : e.stored <+: e'.stored := by
  unfold responseByte at h
  split at h
  · simp at h
  · split at h
    · simp at h
    · simp only [Option.some.injEq, Prod.mk.injEq] at h
      obtain ⟨rfl, -⟩ := h
      unfold responsePlace sessionStore
      split
      · split
        · exact List.prefix_rfl
        · exact List.prefix_append _ _
      · exact List.prefix_rfl

theorem responseRun_mono {reqs : List HttpSession} {v v' : List UInt8} (h : v <+: v')
    {e' : Entry} {w' : Verdict} (he' : responseRun app reqs v' = some (e', w')) :
    ∃ e w, responseRun app reqs v = some (e, w) ∧ e.stored <+: e'.stored := by
  obtain ⟨t, rfl⟩ := h
  induction t using List.reverseRecOn generalizing e' w' with
  | nil => exact ⟨e', w', by simpa using he', List.prefix_rfl⟩
  | append_singleton t b ih =>
    rw [← List.append_assoc, responseRun_snoc] at he'
    obtain ⟨⟨e₀, w₀⟩, hprev, hbyte⟩ := Option.bind_eq_some_iff.1 he'
    obtain ⟨e, w, he, hpre⟩ := ih hprev
    exact ⟨e, w, he, hpre.trans (stored_responseByte hbyte)⟩

/-- The streams `u` and `v` read so far have led to the entry `e` and the verdict `w`; every
complete request is pending or stored. -/
def Denotes (app : App) (u v : List UInt8) (e : Entry) (w : Verdict) : Prop :=
  ∃ eR eS, requestRun app u = some eR ∧ responseRun app eR.reqs v = some (eS, w) ∧
    e = merge eR eS ∧ eR.reqs.length = e.reqs.length + e.stored.length

theorem Denotes.init : Denotes app [] [] {} .continue := ⟨{}, {}, rfl, rfl, rfl, rfl⟩

theorem Denotes.request {u v : List UInt8} {e e' : Entry} {w : Verdict} {b : UInt8}
    (h : Denotes app u v e w) (hb : requestByte app e b = some e') :
    Denotes app (u ++ [b]) v e' w := by
  obtain ⟨eR, eS, hR, hS, rfl, hcount⟩ := h
  rw [requestByte_eq, Option.map_eq_some_iff] at hb
  obtain ⟨m, hm, rfl⟩ := hb
  have hR' : requestRun app (u ++ [b]) =
      some { eR with reqs := eR.reqs ++ m.1, curReq := m.2.1, reqRemain := m.2.2 } := by
    have hm' : requestMove app eR.curReq eR.reqRemain b = some m := hm
    rw [requestRun_snoc, hR, Option.bind_some, requestByte_eq, hm', Option.map_some]
  refine ⟨_, _, hR', responseRun_extend hS m.1, rfl, ?_⟩
  simp only [List.length_append, merge] at hcount ⊢
  omega

theorem Denotes.request_fail {u v : List UInt8} {e : Entry} {w : Verdict} {b : UInt8}
    (h : Denotes app u v e w) (hb : requestByte app e b = none) :
    requestRun app (u ++ [b]) = none := by
  obtain ⟨eR, eS, hR, -, rfl, -⟩ := h
  rw [requestByte_eq, Option.map_eq_none_iff] at hb
  have hm : requestMove app eR.curReq eR.reqRemain b = none := hb
  rw [requestRun_snoc, hR, Option.bind_some, requestByte_eq, hm, Option.map_none]

theorem responseByte_count {e e' : Entry} {b : UInt8} {v : Verdict} (hinv : e.Inv)
    (h : responseByte app e b = some (e', v)) :
    e'.reqs.length + e'.stored.length = e.reqs.length + e.stored.length ∧
      e.stored.length ≤ e'.stored.length := by
  unfold responseByte at h
  cases hreqs : e.reqs with
  | nil => simp [hreqs] at h
  | cons s pending =>
    obtain ⟨hok, hin⟩ := hinv.pending s (by simp [hreqs])
    simp only [hreqs] at h
    cases hbyte : sessionByte app .response s e.resRemain b with
    | none => simp [hbyte] at h
    | some p =>
      have hpass := (sessionByte_keeps hok (hinv.first s pending hreqs)
        (messageDone_of_inMessage hin) hbyte).1.notPass
      simp only [hbyte, Option.some.injEq, Prod.mk.injEq] at h
      obtain ⟨rfl, -⟩ := h
      by_cases hdone : p.1.parsePhase = .done
      · simp only [responsePlace, hdone, if_true, sessionStore, hpass, Bool.false_eq_true,
          if_false, List.length_append, List.length_cons, List.length_nil]
        omega
      · simp [responsePlace, hdone]

theorem Denotes.response {u v : List UInt8} {e e' : Entry} {w w' : Verdict} {b : UInt8}
    (h : Denotes app u v e w) (hinv : e.Inv) (hb : responseByte app e b = some (e', w')) :
    Denotes app u (v ++ [b]) e' w' := by
  have hcount' := (responseByte_count hinv hb).1
  obtain ⟨eR, eS, hR, hS, rfl, hcount⟩ := h
  rw [responseByte_merge, Option.map_eq_some_iff] at hb
  obtain ⟨⟨eS', w₁⟩, hbyte, heq⟩ := hb
  obtain ⟨rfl, rfl⟩ : merge eR eS' = e' ∧ w₁ = w' := by simpa using heq
  refine ⟨eR, eS', hR, ?_, rfl, hcount.trans hcount'.symm⟩
  rw [responseRun_snoc, hS, Option.bind_some, hbyte]

theorem Denotes.response_fail {u v : List UInt8} {e : Entry} {w : Verdict} {b : UInt8}
    (h : Denotes app u v e w) (hb : responseByte app e b = none) {eR : Entry}
    (hR : requestRun app u = some eR) : responseRun app eR.reqs (v ++ [b]) = none := by
  obtain ⟨eR', eS, hR', hS, rfl, -⟩ := h
  obtain rfl : eR' = eR := by simpa [hR'] using hR
  rw [responseByte_merge, Option.map_eq_none_iff] at hb
  rw [responseRun_snoc, hS, Option.bind_some, hb]

theorem Denotes.unique {u v : List UInt8} {e e' : Entry} {w w' : Verdict}
    (h : Denotes app u v e w) (h' : Denotes app u v e' w') : e = e' ∧ w = w' := by
  obtain ⟨eR, eS, hR, hS, rfl, -⟩ := h
  obtain ⟨eR', eS', hR', hS', rfl, -⟩ := h'
  obtain rfl : eR = eR' := by simpa [hR] using hR'
  obtain ⟨rfl, rfl⟩ : eS = eS' ∧ w = w' := by simpa [hS] using hS'
  exact ⟨rfl, rfl⟩

/-- A connection closed at the byte `event` behind the bytes `pre`. -/
structure Broken (app : App) (es : List (Dir × UInt8)) (requests : ℕ) (stored : List HttpSession)
    (pre : List (Dir × UInt8)) (event : Dir × UInt8) (e : Entry) (w : Verdict) : Prop where
  isPrefix : pre ++ [event] <+: es
  reached : Denotes app (bytesIn .request pre) (bytesIn .response pre) e w
  requests_eq : requests = e.reqs.length + e.stored.length
  stored_eq : stored = e.stored
  stops : event.1 = .request ∧ requestRun app (bytesIn .request pre ++ [event.2]) = none ∨
    event.1 = .response ∧ ∀ eR, requestRun app (bytesIn .request pre) = some eR →
      responseRun app eR.reqs (bytesIn .response pre ++ [event.2]) = none

def Outcome (app : App) (es : List (Dir × UInt8)) : Conn → Prop
  | .running e reqVerdict w =>
    reqVerdict = .continue ∧ Denotes app (bytesIn .request es) (bytesIn .response es) e w
  | .closed requests stored => ∃ pre event e w, Broken app es requests stored pre event e w

theorem outcome_foldl (es : List (Dir × UInt8)) :
    Outcome app es (es.foldl (byteFeed app) .init) := by
  induction es using List.reverseRecOn with
  | nil => exact ⟨rfl, .init⟩
  | append_singleton es event ih =>
    have hinv : (es.foldl (byteFeed app) .init).Inv := Conn.Inv.init.foldl es
    rw [List.foldl_append, List.foldl_cons, List.foldl_nil]
    revert ih hinv
    cases es.foldl (byteFeed app) .init with
    | closed n stored =>
      rintro ⟨pre, event', e, w, hb⟩ -
      exact ⟨pre, event', e, w, hb.isPrefix.trans (List.prefix_append _ _), hb.reached,
        hb.requests_eq, hb.stored_eq, hb.stops⟩
    | running e reqVerdict w =>
      rintro ⟨rfl, hden⟩ ⟨hinv, -⟩
      obtain ⟨dir, b⟩ := event
      cases dir with
      | request =>
        simp only [byteFeed]
        cases hb : requestByte app e b with
        | some e' =>
          refine ⟨rfl, ?_⟩
          rw [bytesIn_append, bytesIn_append, bytesIn_same, bytesIn_other (by simp),
            List.append_nil]
          exact hden.request hb
        | none =>
          exact ⟨es, _, e, w, List.prefix_rfl, hden, rfl, rfl, .inl ⟨rfl, hden.request_fail hb⟩⟩
      | response =>
        simp only [byteFeed]
        cases hb : responseByte app e b with
        | some p =>
          refine ⟨rfl, ?_⟩
          rw [bytesIn_append, bytesIn_append, bytesIn_same, bytesIn_other (by simp),
            List.append_nil]
          exact hden.response hinv hb
        | none =>
          exact ⟨es, _, e, w, List.prefix_rfl, hden, rfl, rfl,
            .inr ⟨rfl, fun eR hR => hden.response_fail hb hR⟩⟩

theorem bytesIn_mono (dir : Dir) {es fs : List (Dir × UInt8)} (h : es <+: fs) :
    bytesIn dir es <+: bytesIn dir fs := by
  obtain ⟨t, rfl⟩ := h
  rw [bytesIn_append]
  exact List.prefix_append _ _

theorem Broken.bytesIn_mono {es pre : List (Dir × UInt8)} {requests : ℕ}
    {stored : List HttpSession} {event : Dir × UInt8} {e : Entry} {w : Verdict}
    (h : Broken app es requests stored pre event e w) (dir : Dir) :
    bytesIn dir pre <+: bytesIn dir es :=
  (Http.bytesIn_mono dir (List.prefix_append pre [event])).trans
    (Http.bytesIn_mono dir h.isPrefix)

theorem Broken.snoc_mono {es pre : List (Dir × UInt8)} {requests : ℕ}
    {stored : List HttpSession} {event : Dir × UInt8} {e : Entry} {w : Verdict}
    (h : Broken app es requests stored pre event e w) :
    bytesIn event.1 pre ++ [event.2] <+: bytesIn event.1 es := by
  have hpre := Http.bytesIn_mono event.1 h.isPrefix
  rwa [bytesIn_append, bytesIn_same] at hpre

structure Reading where
  entry : Entry
  malformed : Bool

def Reading.read (byte : Entry → UInt8 → Option Entry) (r : Reading) (b : UInt8) : Reading :=
  if r.malformed then r
  else
    match byte r.entry b with
    | none => { r with malformed := true }
    | some e => { r with entry := e }

structure Streams where
  request : Reading
  response : Reading

/-- The response stream is read with all requests of the request stream pending. -/
def Streams.start (reqs : List HttpSession) : Streams := ⟨⟨{}, false⟩, ⟨{ reqs := reqs }, false⟩⟩

def responseEntry (app : App) (e : Entry) (b : UInt8) : Option Entry :=
  (responseByte app e b).map Prod.fst

def Streams.read (app : App) (s : Streams) (event : Dir × UInt8) : Streams :=
  match event.1 with
  | .request => { s with request := s.request.read (requestByte app) event.2 }
  | .response => { s with response := s.response.read (responseEntry app) event.2 }

def Streams.complete (s : Streams) : Dir → ℕ
  | .request => s.request.entry.reqs.length
  | .response => s.response.entry.stored.length

def requestReading (app : App) (u : List UInt8) : Reading :=
  u.foldl (Reading.read (requestByte app)) ⟨{}, false⟩

def streamsOf (app : App) (es : List (Dir × UInt8)) : Streams :=
  .start (requestReading app (bytesIn .request es)).entry.reqs

def orderFrom (app : App) (s : Streams) : List (Dir × UInt8) → List Dir
  | [] => []
  | event :: es =>
    let s' := s.read app event
    List.replicate (s'.complete event.1 - s.complete event.1) event.1 ++ orderFrom app s' es

def inTurnFrom (app : App) (s : Streams) : List (Dir × UInt8) → Bool
  | [] => true
  | event :: es =>
    let s' := s.read app event
    (decide (event.1 = .request) || s.request.malformed || s'.response.malformed ||
      decide (s.complete .response < s.complete .request)) && inTurnFrom app s' es

def answeredFrom (app : App) (s : Streams) : List (Dir × UInt8) → ℕ
  | [] => s.complete .response
  | event :: es =>
    let s' := s.read app event
    if s'.request.malformed then s.complete .response else answeredFrom app s' es

section Streams

variable {s : Streams} {es pre : List (Dir × UInt8)}

theorem Reading.read_malformed {byte : Entry → UInt8 → Option Entry} {r : Reading}
    (h : r.malformed = true) (b : UInt8) : r.read byte b = r := by
  rw [Reading.read, if_pos h]

theorem Reading.entry_of_malformed {byte : Entry → UInt8 → Option Entry} {r : Reading} {b : UInt8}
    (h : (r.read byte b).malformed = true) : (r.read byte b).entry = r.entry := by
  unfold Reading.read at h ⊢
  split
  · rfl
  · rename_i hopen
    rw [if_neg hopen] at h
    cases hb : byte r.entry b with
    | none => rfl
    | some e =>
      rw [hb] at h
      exact absurd h hopen

theorem Reading.foldl_read {byte : Entry → UInt8 → Option Entry} {u : List UInt8} {e : Entry} :
    match u.foldlM byte e with
    | some e' => u.foldl (Reading.read byte) ⟨e, false⟩ = ⟨e', false⟩
    | none => (u.foldl (Reading.read byte) ⟨e, false⟩).malformed = true := by
  induction u using List.reverseRecOn with
  | nil => rfl
  | append_singleton u b ih =>
    rw [List.foldlM_append, List.foldl_append]
    simp only [List.foldlM_cons, List.foldlM_nil, bind_pure, List.foldl_cons, List.foldl_nil]
    cases hu : u.foldlM byte e with
    | none =>
      rw [hu] at ih
      dsimp only at ih
      rw [Reading.read_malformed ih]
      exact ih
    | some e' =>
      rw [hu] at ih
      dsimp only at ih
      rw [ih, Option.bind_eq_bind, Option.bind_some]
      cases hb : byte e' b with
      | none => simp [Reading.read, hb]
      | some e'' => simp [Reading.read, hb]

theorem Streams.foldl_request (es : List (Dir × UInt8)) :
    (es.foldl (Streams.read app) s).request =
      (bytesIn .request es).foldl (Reading.read (requestByte app)) s.request := by
  induction es using List.reverseRecOn with
  | nil => rfl
  | append_singleton es event ih =>
    obtain ⟨dir, b⟩ := event
    rw [List.foldl_append, List.foldl_cons, List.foldl_nil, bytesIn_append]
    cases dir with
    | request =>
      rw [bytesIn_same, List.foldl_append, ← ih]
      rfl
    | response =>
      rw [bytesIn_other (by simp), List.append_nil, ← ih]
      rfl

theorem Streams.foldl_response (es : List (Dir × UInt8)) :
    (es.foldl (Streams.read app) s).response =
      (bytesIn .response es).foldl (Reading.read (responseEntry app)) s.response := by
  induction es using List.reverseRecOn with
  | nil => rfl
  | append_singleton es event ih =>
    obtain ⟨dir, b⟩ := event
    rw [List.foldl_append, List.foldl_cons, List.foldl_nil, bytesIn_append]
    cases dir with
    | request =>
      rw [bytesIn_other (by simp), List.append_nil, ← ih]
      rfl
    | response =>
      rw [bytesIn_same, List.foldl_append, ← ih]
      rfl

theorem foldlM_responseEntry (reqs : List HttpSession) (v : List UInt8) :
    v.foldlM (responseEntry app) { reqs := reqs } = (responseRun app reqs v).map Prod.fst := by
  induction v using List.reverseRecOn with
  | nil => rfl
  | append_singleton v b ih =>
    rw [List.foldlM_append, ih, responseRun_snoc]
    cases responseRun app reqs v with
    | none => rfl
    | some st => simp [responseEntry]

theorem Streams.request_some {reqs : List HttpSession} {e : Entry}
    (h : requestRun app (bytesIn .request pre) = some e) :
    (pre.foldl (Streams.read app) (.start reqs)).request = ⟨e, false⟩ := by
  have hfold := @Reading.foldl_read (requestByte app) (bytesIn .request pre) {}
  have hrun : (bytesIn .request pre).foldlM (requestByte app) {} = some e := h
  rw [hrun] at hfold
  rw [Streams.foldl_request]
  exact hfold

theorem Streams.response_some {reqs : List HttpSession} {e : Entry} {w : Verdict}
    (h : responseRun app reqs (bytesIn .response pre) = some (e, w)) :
    (pre.foldl (Streams.read app) (.start reqs)).response = ⟨e, false⟩ := by
  have hfold := @Reading.foldl_read (responseEntry app) (bytesIn .response pre) { reqs := reqs }
  rw [foldlM_responseEntry, h] at hfold
  rw [Streams.foldl_response]
  exact hfold

theorem Streams.response_none {reqs : List HttpSession}
    (h : responseRun app reqs (bytesIn .response pre) = none) :
    (pre.foldl (Streams.read app) (.start reqs)).response.malformed = true := by
  have hfold := @Reading.foldl_read (responseEntry app) (bytesIn .response pre) { reqs := reqs }
  rw [foldlM_responseEntry, h] at hfold
  rw [Streams.foldl_response]
  exact hfold

theorem Streams.request_none {reqs : List HttpSession}
    (h : requestRun app (bytesIn .request pre) = none) :
    (pre.foldl (Streams.read app) (.start reqs)).request.malformed = true := by
  have hfold := @Reading.foldl_read (requestByte app) (bytesIn .request pre) {}
  have hrun : (bytesIn .request pre).foldlM (requestByte app) {} = none := h
  rw [hrun] at hfold
  rw [Streams.foldl_request]
  exact hfold

theorem inTurn_response {post : List (Dir × UInt8)} {b : UInt8}
    (h : inTurnFrom app s (pre ++ (.response, b) :: post) = true) :
    let t := pre.foldl (Streams.read app) s
    t.request.malformed = true ∨ (t.read app (.response, b)).response.malformed = true ∨
      t.complete .response < t.complete .request := by
  induction pre generalizing s with
  | nil =>
    rw [List.nil_append, inTurnFrom, Bool.and_eq_true] at h
    simpa [or_assoc] using h.1
  | cons event pre ih =>
    rw [List.cons_append, inTurnFrom, Bool.and_eq_true] at h
    exact ih h.2

theorem request_malformed_of_foldl (es : List (Dir × UInt8))
    (h : (es.foldl (Streams.read app) s).request.malformed = false) :
    s.request.malformed = false := by
  rw [Streams.foldl_request] at h
  rw [Bool.eq_false_iff] at h ⊢
  intro hs
  apply h
  have hstay : ∀ u : List UInt8,
      (u.foldl (Reading.read (requestByte app)) s.request).malformed = true := by
    intro u
    induction u using List.reverseRecOn with
    | nil => exact hs
    | append_singleton u b ih =>
      rw [List.foldl_append, List.foldl_cons, List.foldl_nil, Reading.read_malformed ih]
      exact ih
  exact hstay _

theorem answered_append (h : (pre.foldl (Streams.read app) s).request.malformed = false) :
    answeredFrom app s (pre ++ es) = answeredFrom app (pre.foldl (Streams.read app) s) es := by
  induction pre generalizing s with
  | nil => rfl
  | cons event pre ih =>
    have hfirst : (s.read app event).request.malformed = false := request_malformed_of_foldl pre h
    rw [List.cons_append, answeredFrom]
    simp only [hfirst, Bool.false_eq_true, if_false]
    exact ih h

theorem answered_malformed (h : s.response.malformed = true) :
    answeredFrom app s es = s.complete .response := by
  induction es generalizing s with
  | nil => rfl
  | cons event es ih =>
    obtain ⟨dir, b⟩ := event
    have hsame : (s.read app (dir, b)).response = s.response := by
      cases dir with
      | request => rfl
      | response => exact Reading.read_malformed h b
    rw [answeredFrom]
    split
    · rfl
    · rw [ih (by rw [hsame, h]), Streams.complete, Streams.complete, hsame]

end Streams

theorem stored_mono {u₁ u₂ v₁ v₂ : List UInt8} {e₁ e₂ : Entry} {w₁ w₂ : Verdict}
    (h₁ : Denotes app u₁ v₁ e₁ w₁) (h₂ : Denotes app u₂ v₂ e₂ w₂)
    (hu : u₁ <+: u₂ ∨ u₂ <+: u₁) (hv : v₁ <+: v₂) : e₁.stored <+: e₂.stored := by
  obtain ⟨eR₁, eS₁, hR₁, hS₁, rfl, -⟩ := h₁
  obtain ⟨eR₂, eS₂, hR₂, hS₂, rfl, -⟩ := h₂
  rcases hu with hu | hu
  · obtain ⟨e', he', more, hmore⟩ := requestRun_mono hu hR₂
    obtain rfl : eR₁ = e' := by simpa [hR₁] using he'
    have hext := responseRun_extend hS₁ more
    rw [hmore] at hext
    obtain ⟨e'', w'', hsome, hpre⟩ := responseRun_mono hv hS₂
    obtain ⟨rfl, -⟩ : extend eS₁ more = e'' ∧ w₁ = w'' := by simpa [hext] using hsome
    exact hpre
  · obtain ⟨e', he', more, hmore⟩ := requestRun_mono hu hR₁
    obtain rfl : eR₂ = e' := by simpa [hR₂] using he'
    have hext := responseRun_extend hS₂ more
    rw [hmore] at hext
    obtain ⟨e'', w'', hsome, hpre⟩ := responseRun_mono hv hext
    obtain ⟨rfl, -⟩ : eS₁ = e'' ∧ w₁ = w'' := by simpa [hS₁] using hsome
    exact hpre

theorem stored_eq_of_broken {es fs : List (Dir × UInt8)} {n n' : ℕ}
    {stored stored' : List HttpSession} (hstream : ∀ dir, bytesIn dir es = bytesIn dir fs)
    (h : Outcome app es (.closed n stored)) (h' : Outcome app fs (.closed n' stored'))
    (hlen : stored.length = stored'.length) : stored = stored' := by
  obtain ⟨pre₁, event₁, e₁, w₁, hb₁⟩ := h
  obtain ⟨pre₂, event₂, e₂, w₂, hb₂⟩ := h'
  have hcompare : ∀ dir, bytesIn dir pre₁ <+: bytesIn dir pre₂ ∨
      bytesIn dir pre₂ <+: bytesIn dir pre₁ := fun dir =>
    List.prefix_or_prefix_of_prefix (hb₁.bytesIn_mono dir)
      ((hstream dir).symm ▸ hb₂.bytesIn_mono dir)
  rw [hb₁.stored_eq, hb₂.stored_eq] at hlen ⊢
  rcases hcompare .response with hv | hv
  · exact (stored_mono hb₁.reached hb₂.reached (hcompare .request) hv).eq_of_length
      hlen
  · exact ((stored_mono hb₂.reached hb₁.reached (hcompare .request).symm
      hv).eq_of_length hlen.symm).symm

theorem requestReading_prefix {u u' : List UInt8} (h : u <+: u') {e : Entry}
    (he : requestRun app u = some e) : e.reqs <+: (requestReading app u').entry.reqs := by
  obtain ⟨t, rfl⟩ := h
  have hfold := @Reading.foldl_read (requestByte app) u {}
  have hrun : u.foldlM (requestByte app) {} = some e := he
  rw [hrun] at hfold
  rw [requestReading, List.foldl_append, hfold]
  induction t using List.reverseRecOn with
  | nil => exact List.prefix_rfl
  | append_singleton t b ih =>
    rw [List.foldl_append, List.foldl_cons, List.foldl_nil]
    refine ih.trans ?_
    generalize t.foldl (Reading.read (requestByte app)) ⟨e, false⟩ = r
    unfold Reading.read
    split
    · exact List.prefix_rfl
    · cases hb : requestByte app r.entry b with
      | none => exact List.prefix_rfl
      | some e' =>
        rw [requestByte_eq, Option.map_eq_some_iff] at hb
        obtain ⟨m, -, rfl⟩ := hb
        exact List.prefix_append _ _

theorem requestReading_eq {u : List UInt8} {e : Entry} (he : requestRun app u = some e) :
    (requestReading app u).entry.reqs = e.reqs := by
  have hfold := @Reading.foldl_read (requestByte app) u {}
  have hrun : u.foldlM (requestByte app) {} = some e := he
  rw [hrun] at hfold
  rw [requestReading, hfold]

theorem responseByte_extend_none {e : Entry} {b : UInt8} (hpending : e.reqs ≠ [])
    (h : responseByte app e b = none) (more : List HttpSession) :
    responseByte app (extend e more) b = none := by
  obtain ⟨reqs, curReq, reqRemain, resRemain, stored⟩ := e
  cases reqs with
  | nil => exact absurd rfl hpending
  | cons s pending =>
    simp only [responseByte, extend, List.cons_append] at h ⊢
    cases hbyte : sessionByte app .response s resRemain b with
    | none => rfl
    | some p => simp [hbyte] at h

section Stops

variable {es pre : List (Dir × UInt8)} {requests : ℕ} {stored : List HttpSession}
  {event : Dir × UInt8} {e : Entry} {w : Verdict}

theorem Broken.streams (h : Broken app es requests stored pre event e w) :
    let t := pre.foldl (Streams.read app) (streamsOf app es)
    t.request.malformed = false ∧ t.complete .response = stored.length ∧
      t.complete .request = requests := by
  intro t
  obtain ⟨eR, eS, hR, hS, he, hcount⟩ := h.reached
  obtain ⟨more, hmore⟩ := requestReading_prefix (h.bytesIn_mono .request) hR
  have hS' := responseRun_extend hS more
  rw [hmore] at hS'
  have hreq : t.request = ⟨eR, false⟩ := Streams.request_some hR
  have hres : t.response = ⟨extend eS more, false⟩ := Streams.response_some hS'
  rw [Streams.complete, Streams.complete, hreq, hres, h.stored_eq, h.requests_eq, ← hcount, he]
  exact ⟨rfl, rfl, rfl⟩

theorem Broken.response_malformed {b : UInt8}
    (h : Broken app es requests stored pre (.response, b) e w)
    (hturn : inTurnFrom app (streamsOf app es) es = true) :
    responseRun app (requestReading app (bytesIn .request es)).entry.reqs
      (bytesIn .response pre ++ [b]) = none := by
  obtain ⟨hmal, hcomplete, hrequests⟩ := h.streams
  obtain ⟨eR, eS, hR, hS, he, hcount⟩ := h.reached
  obtain ⟨post, hes⟩ := h.isPrefix
  have hstop : responseRun app eR.reqs (bytesIn .response pre ++ [b]) = none := by
    obtain ⟨hdir, -⟩ | ⟨-, hnone⟩ := h.stops
    · cases hdir
    · exact hnone eR hR
  obtain ⟨more, hmore⟩ := requestReading_prefix (h.bytesIn_mono .request) hR
  have hS' := responseRun_extend hS more
  rw [hmore] at hS'
  rw [responseRun_snoc, hS, Option.bind_some] at hstop
  rw [responseRun_snoc, hS', Option.bind_some]
  by_contra hreads
  have hsplit : es = pre ++ (.response, b) :: post := by simpa using hes.symm
  have hinturn : inTurnFrom app (streamsOf app es) (pre ++ (.response, b) :: post) = true := by
    rw [← hsplit]
    exact hturn
  obtain hbad | hbad | hless := inTurn_response hinturn
  · rw [hmal] at hbad
    cases hbad
  · obtain ⟨p, hp⟩ := Option.ne_none_iff_exists'.1 hreads
    have hnext : (pre ++ [(Dir.response, b)]).foldl (Streams.read app) (streamsOf app es) =
        (pre.foldl (Streams.read app) (streamsOf app es)).read app (.response, b) := by
      simp
    have hrun : responseRun app (requestReading app (bytesIn .request es)).entry.reqs
        (bytesIn .response (pre ++ [(.response, b)])) = some (p.1, p.2) := by
      rw [bytesIn_append, bytesIn_same, responseRun_snoc, hS', Option.bind_some]
      exact hp
    rw [← hnext, streamsOf, Streams.response_some hrun] at hbad
    cases hbad
  · rw [hcomplete, hrequests, h.requests_eq, h.stored_eq] at hless
    have hpending : eS.reqs ≠ [] := by
      intro hnil
      have hempty : e.reqs = [] := by rw [he]; exact hnil
      rw [hempty] at hless
      simp at hless
    exact hreads (responseByte_extend_none hpending hstop more)

theorem Broken.stored_length (h : Broken app es requests stored pre event e w)
    (hturn : inTurnFrom app (streamsOf app es) es = true) :
    stored.length = answeredFrom app (streamsOf app es) es := by
  obtain ⟨hmal, hcomplete, -⟩ := h.streams
  obtain ⟨post, hes⟩ := h.isPrefix
  have hsplit : es = pre ++ event :: post := by simpa using hes.symm
  have hanswered : answeredFrom app (streamsOf app es) es =
      answeredFrom app (pre.foldl (Streams.read app) (streamsOf app es)) (event :: post) := by
    conv_lhs => arg 3; rw [hsplit]
    exact answered_append hmal
  rw [hanswered, ← hcomplete]
  have hnext : (pre ++ [event]).foldl (Streams.read app) (streamsOf app es) =
      (pre.foldl (Streams.read app) (streamsOf app es)).read app event := by
    simp
  obtain ⟨dir, b⟩ := event
  cases dir with
  | request =>
    have hnone : requestRun app (bytesIn .request (pre ++ [(.request, b)])) = none := by
      obtain ⟨-, hnone⟩ | ⟨hdir, -⟩ := h.stops
      · rw [bytesIn_append, bytesIn_same]
        exact hnone
      · cases hdir
    have hstops := @Streams.request_none app _ (requestReading app (bytesIn .request es)).entry.reqs
      hnone
    rw [← streamsOf, hnext] at hstops
    rw [answeredFrom]
    simp only [hstops, if_true]
  | response =>
    have hnone := h.response_malformed hturn
    rw [← bytesIn_same .response b, ← bytesIn_append] at hnone
    have hstops := Streams.response_none hnone
    rw [← streamsOf, hnext] at hstops
    have hsame :
        ((pre.foldl (Streams.read app) (streamsOf app es)).read app (.response, b)).complete
        .response = (pre.foldl (Streams.read app) (streamsOf app es)).complete .response := by
      exact congrArg (·.stored.length) (Reading.entry_of_malformed hstops)
    rw [answeredFrom]
    split
    · rfl
    · rw [answered_malformed hstops, hsame]

end Stops

theorem not_running_of_broken {es fs : List (Dir × UInt8)} {requests : ℕ}
    {stored : List HttpSession} {e : Entry} {w : Verdict}
    (hstream : ∀ dir, bytesIn dir es = bytesIn dir fs)
    (hrun : Denotes app (bytesIn .request es) (bytesIn .response es) e w)
    (hclosed : Outcome app fs (.closed requests stored))
    (hturn : inTurnFrom app (streamsOf app fs) fs = true) : False := by
  obtain ⟨pre, ⟨dir, b⟩, e₁, w₁, hb⟩ := hclosed
  obtain ⟨eR, eS, hR, hS, -, -⟩ := hrun
  have hsnoc := hb.snoc_mono
  cases dir with
  | request =>
    have hnone : requestRun app (bytesIn .request pre ++ [b]) = none := by
      obtain ⟨-, hnone⟩ | ⟨hdir, -⟩ := hb.stops
      · exact hnone
      · cases hdir
    rw [← hstream .request] at hsnoc
    obtain ⟨e', he', -⟩ := requestRun_mono hsnoc hR
    simp [hnone] at he'
  | response =>
    have hnone := hb.response_malformed hturn
    rw [← hstream .request, requestReading_eq hR] at hnone
    rw [← hstream .response] at hsnoc
    obtain ⟨e', w', he', -⟩ := responseRun_mono hsnoc hS
    simp [hnone] at he'

theorem outcome_agree {es fs : List (Dir × UInt8)} {c d : Conn}
    (hstream : ∀ dir, bytesIn dir es = bytesIn dir fs) (hc : Outcome app es c)
    (hd : Outcome app fs d) (hturn : inTurnFrom app (streamsOf app es) es = true)
    (hturn' : inTurnFrom app (streamsOf app fs) fs = true)
    (hanswered : answeredFrom app (streamsOf app es) es = answeredFrom app (streamsOf app fs) fs) :
    c.stored = d.stored ∧ ∀ dir, c.verdict dir = d.verdict dir := by
  cases c with
  | running e x w =>
    obtain ⟨rfl, he⟩ := hc
    cases d with
    | running e' x' w' =>
      obtain ⟨rfl, he'⟩ := hd
      rw [← hstream, ← hstream] at he'
      obtain ⟨rfl, rfl⟩ := he.unique he'
      exact ⟨rfl, fun _ => rfl⟩
    | closed n stored => exact (not_running_of_broken hstream he hd hturn').elim
  | closed n stored =>
    cases d with
    | running e' x' w' =>
      exact (not_running_of_broken (fun dir => (hstream dir).symm) hd.2 hc hturn).elim
    | closed n' stored' =>
      refine ⟨stored_eq_of_broken hstream hc hd ?_, fun _ => rfl⟩
      obtain ⟨_, _, _, _, hb⟩ := hc
      obtain ⟨_, _, _, _, hb'⟩ := hd
      exact (hb.stored_length hturn).trans (hanswered.trans (hb'.stored_length hturn').symm)

def stream (dir : Dir) (pieces : List Piece) : List UInt8 := bytesIn dir (events pieces)

/-- Both schedules are parsed to the end, with the same stored sessions and the same final
verdict of each parser. -/
def SameOutcome (app : App) (pieces pieces' : List Piece) : Prop :=
  ∃ c d, run app pieces = some c ∧ run app pieces' = some d ∧ c.stored = d.stored ∧
    ∀ dir, c.verdict dir = d.verdict dir

/-- The directions of the complete messages of the two streams, in the order in which they
arrive. -/
def order (app : App) (pieces : List Piece) : List Dir :=
  orderFrom app (streamsOf app (events pieces)) (events pieces)

def inTurn (app : App) (pieces : List Piece) : Bool :=
  inTurnFrom app (streamsOf app (events pieces)) (events pieces)

/-- The number of responses that are complete when the request stream turns out not to be one of
messages, and of all responses where it is one. -/
def answered (app : App) (pieces : List Piece) : ℕ :=
  answeredFrom app (streamsOf app (events pieces)) (events pieces)

theorem answered_of_reads {app : App} {pieces pieces' : List Piece}
    (hstream : ∀ dir, stream dir pieces = stream dir pieces')
    (hreads : requestRun app (stream .request pieces) ≠ none) :
    answered app pieces = answered app pieces' := by
  obtain ⟨e, he⟩ := Option.ne_none_iff_exists'.1 hreads
  have hall : ∀ es, requestRun app (bytesIn .request es) = some e →
      answeredFrom app (streamsOf app es) es =
        (es.foldl (Streams.read app) (streamsOf app es)).complete .response := by
    intro es hes
    have hopen : (es.foldl (Streams.read app) (streamsOf app es)).request = ⟨e, false⟩ :=
      Streams.request_some hes
    have happend := @answered_append app (streamsOf app es) [] es (by rw [hopen])
    rw [List.append_nil] at happend
    exact happend
  have he' : requestRun app (stream .request pieces') = some e := by
    rw [← hstream]
    exact he
  have hstart : streamsOf app (events pieces) = streamsOf app (events pieces') :=
    congrArg (fun u => Streams.start (requestReading app u).entry.reqs) (hstream .request)
  rw [answered, answered, hall _ he, hall _ he', Streams.complete, Streams.complete,
    Streams.foldl_response, Streams.foldl_response, hstart]
  exact congrArg (fun v => (v.foldl (Reading.read (responseEntry app))
    (streamsOf app (events pieces')).response).entry.stored.length) (hstream .response)

def acceptAll : App := ⟨fun _ _ => true⟩

def postRequest : String := "POST / HTTP/1.1\r\nContent-Length: 1\r\n\r\n"

def plainResponse : String := "HTTP/1.1 200 OK\r\n\r\n"

def chunkedResponse : String :=
  "HTTP/1.1 200 OK\r\nTransfer-Encoding: chunked\r\n\r\n3\r\nabc\r\n0\r\n\r\n"

def wholePieces : List Piece :=
  [⟨.request, bytesOf (postRequest ++ "a"), by decide +kernel⟩,
    ⟨.response, bytesOf chunkedResponse, by decide +kernel⟩]

def cutPieces : List Piece :=
  [⟨.request, (bytesOf postRequest).take 20, by decide +kernel⟩,
    ⟨.request, (bytesOf postRequest).drop 20, by decide +kernel⟩,
    ⟨.request, bytesOf "a", by decide +kernel⟩,
    ⟨.response, (bytesOf chunkedResponse).take 52, by decide +kernel⟩,
    ⟨.response, (bytesOf chunkedResponse).drop 52, by decide +kernel⟩]

def overrunPieces : List Piece :=
  [⟨.request, bytesOf (postRequest ++ "aG"), by decide +kernel⟩,
    ⟨.response, bytesOf plainResponse, by decide +kernel⟩]

def overrunCutPieces : List Piece :=
  [⟨.request, bytesOf (postRequest ++ "a"), by decide +kernel⟩,
    ⟨.request, bytesOf "G", by decide +kernel⟩,
    ⟨.response, bytesOf plainResponse, by decide +kernel⟩]

end CloudHands.Http

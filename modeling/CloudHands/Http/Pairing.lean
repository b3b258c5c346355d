import CloudHands.Http.Message
import CloudHands.Http.Segmentation

/-!
# Pairing of requests and responses

The two streams of a connection as sequences of messages. While every response arrives
behind the request it answers, the pending list hands the requests to the responses in
order, whatever the interleaving, and each stored session is one request with its response.
-/

namespace CloudHands.Http

variable {app : App}

/-- A final response and the interim responses sent before it. -/
structure Reply where
  interim : List Message
  final : Message
deriving DecidableEq

def Reply.wire (reply : Reply) : List UInt8 :=
  reply.interim.flatMap Message.wire ++ reply.final.wire

def Message.isInterim (m : Message) : Bool :=
  m.payload = .empty &&
    match statusLineParse (rawLine m.startLine) with
    | none => false
    | some status => 100 ≤ status.code && status.code < 200

def exchange (request response : Message) : Option HttpSession :=
  (request.read .request {}).bind fun q => response.read .response q

/-- How many messages of these lengths have a byte among the first `k`. -/
def begun : List ℕ → ℕ → ℕ
  | [], _ => 0
  | n :: ns, k => if k = 0 then 0 else 1 + begun ns (k - n)

/-- How many of the messages have the given part of theirs among the first `k` bytes. -/
def arrived (part : Message → ℕ) : List Message → ℕ → ℕ
  | [], _ => 0
  | m :: ms, k => if part m ≤ k then 1 + arrived part ms (k - m.wire.length) else 0

/-- No byte of a reply arrives before the given part of its request. `u` and `v` count the
bytes that have arrived in the two directions. -/
def repliesWait (part : Message → ℕ) (requests : List Message) (replies : List Reply) (u v : ℕ) :
    List (Dir × UInt8) → Bool
  | [] => true
  | (.request, _) :: es => repliesWait part requests replies (u + 1) v es
  | (.response, _) :: es =>
    decide (begun (replies.map fun reply => reply.wire.length) (v + 1) ≤ arrived part requests u) &&
      repliesWait part requests replies u (v + 1) es

/-- The streams of the schedule are these requests and replies, each one delimited by its
own headers. -/
structure Carries (pieces : List Piece) (requests : List Message) (replies : List Reply) :
    Prop where
  requestStream : stream .request pieces = requests.flatMap Message.wire
  replyStream : stream .response pieces = replies.flatMap Reply.wire
  readable : ∀ r ∈ requests, (r.read .request {}).isSome
  exchanges : ∀ p ∈ requests.zip replies, (exchange p.1 p.2.final).isSome
  interims : ∀ reply ∈ replies, ∀ m ∈ reply.interim, m.isInterim
  count : replies.length ≤ requests.length

structure AllAccepted (app : App) (requests : List Message) (replies : List Reply) : Prop where
  ofRequests : ∀ r ∈ requests, r.accepted app .request {}
  ofReplies : ∀ p ∈ requests.zip replies, ∀ q, p.1.read .request {} = some q →
    p.2.final.accepted app .response q

/-- The stored sessions are the requests with their final responses, in order; a connection
that the filter breaks off stores the first ones of them. -/
def PairsFifo (app : App) (pieces : List Piece) (requests : List Message) (replies : List Reply) :
    Prop :=
  ∃ c xs, run app pieces = some c ∧
    List.Forall₂ (fun p x => exchange p.1 p.2.final = some x) (requests.zip replies) xs ∧
    c.stored <+: xs ∧ (AllAccepted app requests replies → c.stored = xs)

theorem Eats.split {dir : Dir} {s s' : HttpSession} {r r' u v : List UInt8}
    (h : Eats app dir s r (u ++ v) s' r') :
    ∃ s₁ r₁, Eats app dir s r u s₁ r₁ ∧ Eats app dir s₁ r₁ v s' r' := by
  induction u generalizing s r with
  | nil => exact ⟨s, r, .nil s r, h⟩
  | cons b u ih =>
    cases h with
    | cons hopen hb hrest =>
      obtain ⟨s₁, r₁, hu, hv⟩ := ih hrest
      exact ⟨s₁, r₁, .cons hopen hb hu, hv⟩

theorem Eats.open_of_ne_nil {dir : Dir} {s s' : HttpSession} {r r' u : List UInt8}
    (h : Eats app dir s r u s' r') (hne : u ≠ []) : messageDone dir s = false := by
  cases h with
  | nil => exact absurd rfl hne
  | cons hopen _ _ => exact hopen

theorem Message.wire_ne_nil (m : Message) : m.wire ≠ [] := by
  simp [Message.wire, Message.headWire, rawLine]

theorem Message.read_request {m : Message} {q : HttpSession} (h : m.read .request {} = some q) :
    q.parsePhase = startPhase .response ∧ q.body .response = none := by
  obtain ⟨hd, hhead, hpayload⟩ := Option.bind_eq_some_iff.1 h
  simp only [Option.ite_none_right_eq_some, Option.some.injEq] at hpayload
  obtain ⟨-, rfl⟩ := hpayload
  have hbody := (@eats_head acceptAll .request {} hd m rfl hhead rfl).1 .response
  cases m.payload with
  | empty => exact ⟨rfl, hbody⟩
  | fixed content => exact ⟨rfl, hbody⟩
  | chunked body => exact ⟨rfl, hbody⟩

theorem foldlM_requestByte_fresh (e : Entry) {u : List UInt8} (hne : u ≠ []) :
    u.foldlM (requestByte app) { e with curReq := none } =
      u.foldlM (requestByte app) { e with curReq := some {} } := by
  cases u with
  | nil => exact absurd rfl hne
  | cons b u => rfl

theorem foldlM_requests {requests : List Message} {qs : List HttpSession}
    (hread : List.Forall₂ (fun r q => Message.read .request {} r = some q) requests qs)
    (haccept : ∀ r ∈ requests, r.accepted app .request {}) {u : List UInt8}
    (hu : u <+: requests.flatMap Message.wire) (pending : List HttpSession) :
    ∃ e, u.foldlM (requestByte app) { reqs := pending } = some e ∧
      e.reqs = pending ++ qs.take (arrived (fun r => r.wire.length) requests u.length) := by
  induction hread generalizing u pending with
  | nil =>
    obtain rfl : u = [] := by simpa using hu
    exact ⟨{ reqs := pending }, rfl, by simp⟩
  | @cons r q requests qs hq _ ih =>
    obtain ⟨hacc, haccs⟩ := List.forall_mem_cons.1 haccept
    have heats : Eats app .request {} [] r.wire q [] := r.eats rfl rfl hq hacc
    have hopen : requestDone {} = false := rfl
    have hstart : ∀ v : List UInt8, v ≠ [] → v.foldlM (requestByte app) { reqs := pending } =
        v.foldlM (requestByte app) (requestPlace { reqs := pending } {} []) := by
      intro v hv
      rw [requestPlace_open hopen]
      exact foldlM_requestByte_fresh { reqs := pending } hv
    rw [List.flatMap_cons] at hu
    by_cases hlen : r.wire.length ≤ u.length
    · obtain ⟨v, rfl⟩ := List.prefix_of_prefix_length_le (List.prefix_append _ _) hu hlen
      have hv : v <+: requests.flatMap Message.wire := (List.prefix_append_right_inj _).1 hu
      obtain ⟨e, he, hreqs⟩ := ih haccs hv (pending ++ [q])
      have hdone : requestDone q = true := by
        simp [requestDone, (Message.read_request hq).1, startPhase]
      have hfirst : r.wire.foldlM (requestByte app) { reqs := pending } =
          some { reqs := pending ++ [q] } := by
        rw [hstart _ r.wire_ne_nil, foldlM_requestByte heats]
        simp [requestPlace, hdone]
      refine ⟨e, ?_, ?_⟩
      · rw [List.foldlM_append, hfirst]
        exact he
      · rw [hreqs, arrived, if_pos (by simp), List.length_append, Nat.add_sub_cancel_left,
          Nat.add_comm 1, List.take_succ_cons]
        simp
    · obtain ⟨t, ht⟩ := List.prefix_of_prefix_length_le hu (List.prefix_append _ _) (by omega)
      have htne : t ≠ [] := by
        rintro rfl
        simp [← ht] at hlen
      rw [← ht] at heats
      obtain ⟨s₁, r₁, hpart, hrest⟩ := heats.split
      have harrived : arrived (fun r => r.wire.length) (r :: requests) u.length = 0 := by
        simp only [arrived, if_neg hlen]
      rw [harrived, List.take_zero, List.append_nil]
      by_cases hnil : u = []
      · subst hnil
        exact ⟨{ reqs := pending }, rfl, rfl⟩
      · refine ⟨requestPlace { reqs := pending } s₁ r₁, ?_, ?_⟩
        · rw [hstart _ hnil, foldlM_requestByte hpart]
        · rw [requestPlace_open (hrest.open_of_ne_nil htne)]

/-- The responses `ms` to the pending sessions `qs` complete them to `xs`. -/
inductive Answers (app : App) : List HttpSession → List Message → List HttpSession → Prop
  | nil (qs : List HttpSession) : Answers app qs [] []
  | cons {q x : HttpSession} {qs xs : List HttpSession} {m : Message} {ms : List Message} :
      SessionOk q → q.parsePhase = startPhase .response → q.body .response = none →
        m.read .response q = some x → m.accepted app .response q → Answers app qs ms xs →
          Answers app (q :: qs) (m :: ms) (x :: xs)

theorem Answers.length_eq {qs xs : List HttpSession} {ms : List Message}
    (h : Answers app qs ms xs) : ms.length = xs.length := by
  induction h with
  | nil => rfl
  | cons _ _ _ _ _ _ ih => rw [List.length_cons, List.length_cons, ih]

theorem Message.read_response {m : Message} {q x : HttpSession} (h : m.read .response q = some x) :
    x.parsePhase = .done := by
  obtain ⟨hd, -, hpayload⟩ := Option.bind_eq_some_iff.1 h
  simp only [Option.ite_none_right_eq_some, Option.some.injEq] at hpayload
  obtain ⟨-, rfl⟩ := hpayload
  cases m.payload <;> rfl

theorem foldlM_responseStep_first {q : HttpSession} (hq : q.parsePhase = startPhase .response)
    (pending stored : List HttpSession) (w : Verdict) {u : List UInt8} (hne : u ≠ []) :
    u.foldlM (responseStep app) ({ reqs := q :: pending, stored := stored }, w) =
      u.foldlM (responseStep app)
        (responsePlace { stored := stored } q pending [], responseVerdict q) := by
  have hopen : messageDone .response q = false := messageDone_of_inMessage (.inl hq)
  rw [responsePlace_open hopen]
  cases u with
  | nil => exact absurd rfl hne
  | cons b u => rfl

theorem foldlM_responses {qs xs : List HttpSession} {ms : List Message} (h : Answers app qs ms xs)
    {v : List UInt8} (hv : v <+: ms.flatMap Message.wire) {pending : List HttpSession}
    (hpending : pending <+: qs)
    (hbegun : begun (ms.map fun m => m.wire.length) v.length ≤ pending.length)
    (stored : List HttpSession) (w : Verdict) :
    ∃ st, v.foldlM (responseStep app) ({ reqs := pending, stored := stored }, w) = some st := by
  induction h generalizing v pending stored w with
  | nil qs =>
    obtain rfl : v = [] := by simpa using hv
    exact ⟨_, rfl⟩
  | @cons q x qs xs m ms hok hq hbody hread haccept _ ih =>
    by_cases hnil : v = []
    · subst hnil
      exact ⟨_, rfl⟩
    · have hvlen := List.length_pos_of_ne_nil hnil
      simp only [List.map_cons, begun, if_neg hvlen.ne'] at hbegun
      cases pending with
      | nil =>
        simp only [List.length_nil] at hbegun
        omega
      | cons q' pending =>
        obtain ⟨rfl, hpending'⟩ := List.cons_prefix_cons.1 hpending
        have heats : Eats app .response q' [] m.wire x [] := m.eats hq hbody hread haccept
        rw [List.flatMap_cons] at hv
        rw [foldlM_responseStep_first hq pending stored w hnil]
        by_cases hlen : m.wire.length ≤ v.length
        · obtain ⟨v', rfl⟩ := List.prefix_of_prefix_length_le (List.prefix_append _ _) hv hlen
          have hv' : v' <+: ms.flatMap Message.wire := (List.prefix_append_right_inj _).1 hv
          simp only [List.length_append, List.length_cons, Nat.add_sub_cancel_left] at hbegun
          rw [List.foldlM_append, foldlM_responseStep heats]
          simp only [responsePlace, Message.read_response hread, if_true]
          exact ih hv' hpending' (by omega) _ _
        · obtain ⟨t, ht⟩ := List.prefix_of_prefix_length_le hv (List.prefix_append _ _) (by omega)
          rw [← ht] at heats
          obtain ⟨s₁, r₁, hpart, -⟩ := heats.split
          exact ⟨_, foldlM_responseStep hpart _ _⟩

theorem foldlM_all_responses {qs xs : List HttpSession} {ms : List Message}
    (h : Answers app qs ms xs) (stored : List HttpSession) (w : Verdict) :
    ∃ w', (ms.flatMap Message.wire).foldlM (responseStep app)
      ({ reqs := qs, stored := stored }, w) =
        some ({ reqs := qs.drop ms.length, stored := stored ++ xs }, w') := by
  induction h generalizing stored w with
  | nil qs => exact ⟨w, by simp⟩
  | @cons q x qs xs m ms hok hq hbody hread haccept _ ih =>
    have heats : Eats app .response q [] m.wire x [] := m.eats hq hbody hread haccept
    have hpass := (heats.keeps hok (.nil (.inl (.inl hq)))).1.notPass
    obtain ⟨w', hrest⟩ := ih (stored ++ [x]) (responseVerdict x)
    refine ⟨w', ?_⟩
    rw [List.flatMap_cons, List.foldlM_append,
      foldlM_responseStep_first hq qs stored w m.wire_ne_nil, foldlM_responseStep heats]
    simp only [responsePlace, Message.read_response hread, if_true, sessionStore, hpass,
      Bool.false_eq_true, if_false]
    simpa using hrest

theorem exists_forall₂_of_isSome {α β : Type*} {f : α → Option β} {l : List α}
    (h : ∀ a ∈ l, (f a).isSome) : ∃ bs, List.Forall₂ (fun a b => f a = some b) l bs := by
  induction l with
  | nil => exact ⟨[], .nil⟩
  | cons a l ih =>
    obtain ⟨ha, hl⟩ := List.forall_mem_cons.1 h
    obtain ⟨b, hb⟩ := Option.isSome_iff_exists.1 ha
    obtain ⟨bs, hbs⟩ := ih hl
    exact ⟨b :: bs, .cons hb hbs⟩

theorem answers_of_exchanges {requests : List Message} {replies : List Reply}
    {qs xs : List HttpSession}
    (hread : List.Forall₂ (fun r q => Message.read .request {} r = some q) requests qs)
    (hxs : List.Forall₂ (fun p x => exchange p.1 p.2.final = some x) (requests.zip replies) xs)
    (hcount : replies.length ≤ requests.length) (haccept : AllAccepted app requests replies) :
    Answers app qs (replies.map Reply.final) xs := by
  induction hread generalizing replies xs with
  | nil =>
    obtain rfl : replies = [] := by simpa using hcount
    cases hxs
    exact .nil []
  | @cons r q requests qs hq _ ih =>
    cases replies with
    | nil =>
      cases hxs
      exact .nil _
    | cons reply replies =>
      rw [List.zip_cons_cons] at hxs
      obtain ⟨haccept, hreplies⟩ := haccept
      rw [List.zip_cons_cons] at hreplies
      obtain ⟨hreply, hreplies⟩ := List.forall_mem_cons.1 hreplies
      obtain ⟨hr, hrs⟩ := List.forall_mem_cons.1 haccept
      cases hxs with
      | @cons _ x _ xs hx hxs =>
        have heats : Eats app .request {} [] r.wire q [] := r.eats rfl rfl hq hr
        have hok := (heats.keeps .fresh (.nil (.inl inMessage_fresh))).1
        obtain ⟨hphase, hbody⟩ := Message.read_request hq
        have hanswer : reply.final.read .response q = some x := by
          simpa [exchange, hq] using hx
        exact .cons hok hphase hbody hanswer (hreply q hq)
          (ih hxs (by simpa using hcount) ⟨hrs, hreplies⟩)

theorem arrived_all (requests : List Message) :
    arrived (fun r => r.wire.length) requests (requests.flatMap Message.wire).length =
      requests.length := by
  induction requests with
  | nil => rfl
  | cons r requests ih =>
    rw [arrived, if_pos (by simp), List.flatMap_cons, List.length_append,
      Nat.add_sub_cancel_left, ih, List.length_cons, Nat.add_comm]

theorem arrived_le (part : Message → ℕ) (requests : List Message) (k : ℕ) :
    arrived part requests k ≤ requests.length := by
  induction requests generalizing k with
  | nil => exact le_rfl
  | cons r requests ih =>
    rw [arrived, List.length_cons]
    split
    · have := ih (k - r.wire.length)
      omega
    · omega

theorem begun_le_of_repliesWait {part : Message → ℕ} {requests : List Message}
    {replies : List Reply} {u v : ℕ} {es pre : List (Dir × UInt8)} {b : UInt8}
    (h : repliesWait part requests replies u v es = true) (hpre : pre ++ [(.response, b)] <+: es) :
    begun (replies.map fun reply => reply.wire.length) (v + (bytesIn .response pre).length + 1) ≤
      arrived part requests (u + (bytesIn .request pre).length) := by
  induction pre generalizing u v es with
  | nil =>
    obtain ⟨t, rfl⟩ := hpre
    simp only [List.nil_append, List.singleton_append, repliesWait, Bool.and_eq_true,
      decide_eq_true_eq] at h
    exact h.1
  | cons event pre ih =>
    cases es with
    | nil => simp at hpre
    | cons event' es =>
      obtain ⟨rfl, hpre'⟩ := List.cons_prefix_cons.1 hpre
      obtain ⟨dir, b'⟩ := event
      cases dir with
      | request =>
        have hrest := ih (u := u + 1) h hpre'
        have hreq : bytesIn .request ((.request, b') :: pre) = b' :: bytesIn .request pre := rfl
        have hres : bytesIn .response ((.request, b') :: pre) = bytesIn .response pre := rfl
        rw [hreq, hres, List.length_cons, Nat.add_comm (bytesIn .request pre).length,
          ← Nat.add_assoc u 1]
        exact hrest
      | response =>
        rw [repliesWait, Bool.and_eq_true] at h
        have hrest := ih (v := v + 1) h.2 hpre'
        have hreq : bytesIn .request ((.response, b') :: pre) = bytesIn .request pre := rfl
        have hres : bytesIn .response ((.response, b') :: pre) = b' :: bytesIn .response pre := rfl
        rw [hreq, hres, List.length_cons, Nat.add_comm (bytesIn .response pre).length,
          ← Nat.add_assoc v 1]
        exact hrest

structure Accepted (app : App) (requests ms : List Message) (qs xs : List HttpSession) : Prop where
  read : List.Forall₂ (fun r q => Message.read .request {} r = some q) requests qs
  accepted : ∀ r ∈ requests, r.accepted app .request {}
  answers : Answers app qs ms xs

theorem Accepted.requestRun {requests ms : List Message} {qs xs : List HttpSession}
    (h : Accepted app requests ms qs xs) {u : List UInt8}
    (hu : u <+: requests.flatMap Message.wire) :
    ∃ e, requestRun app u = some e ∧
      e.reqs = qs.take (arrived (fun r => r.wire.length) requests u.length) := by
  obtain ⟨e, he, hreqs⟩ := foldlM_requests h.read h.accepted hu []
  exact ⟨e, he, by simpa using hreqs⟩

theorem Accepted.requestRun_all {requests ms : List Message} {qs xs : List HttpSession}
    (h : Accepted app requests ms qs xs) :
    ∃ e, Http.requestRun app (requests.flatMap Message.wire) = some e ∧ e.reqs = qs := by
  obtain ⟨e, he, hreqs⟩ := h.requestRun List.prefix_rfl
  rw [arrived_all, h.read.length_eq, List.take_length] at hreqs
  exact ⟨e, he, hreqs⟩

theorem Accepted.denotes {requests ms : List Message} {qs xs : List HttpSession}
    (h : Accepted app requests ms qs xs) (hcount : ms.length ≤ requests.length) :
    ∃ e w, Denotes app (requests.flatMap Message.wire) (ms.flatMap Message.wire) e w ∧
      e.stored = xs := by
  obtain ⟨eR, hR, hreqs⟩ := h.requestRun_all
  obtain ⟨w, hS⟩ := foldlM_all_responses h.answers [] .continue
  rw [List.nil_append] at hS
  have hlen := h.answers.length_eq
  refine ⟨_, w, ⟨eR, _, hR, hreqs.symm ▸ hS, rfl, ?_⟩, rfl⟩
  have hqs := h.read.length_eq
  simp only [merge, List.length_drop, hreqs]
  omega

theorem Accepted.stored_eq {requests ms : List Message} {qs xs : List HttpSession}
    (h : Accepted app requests ms qs xs) (hcount : ms.length ≤ requests.length)
    {es : List (Dir × UInt8)} (hreq : bytesIn .request es = requests.flatMap Message.wire)
    (hres : bytesIn .response es = ms.flatMap Message.wire)
    (hwait : ∀ pre b, pre ++ [(.response, b)] <+: es →
      begun (ms.map fun m => m.wire.length) ((bytesIn .response pre).length + 1) ≤
        arrived (fun r => r.wire.length) requests (bytesIn .request pre).length) :
    (es.foldl (byteFeed app) .init).stored = xs := by
  have hout : Outcome app es (es.foldl (byteFeed app) .init) := outcome_foldl es
  revert hout
  cases es.foldl (byteFeed app) .init with
  | running e v w =>
    rintro ⟨-, hden⟩
    obtain ⟨e', w', hden', hstored⟩ := h.denotes hcount
    rw [hreq, hres] at hden
    rw [Conn.stored, (hden.unique hden').1, hstored]
  | closed n stored =>
    rintro ⟨pre, ⟨dir, b⟩, e, w, hb⟩
    exfalso
    have hsnoc := hb.snoc_mono
    rcases hb.stops with ⟨rfl, hnone⟩ | ⟨rfl, hnone⟩
    · rw [hreq] at hsnoc
      obtain ⟨e', he', -⟩ := h.requestRun hsnoc
      simp [hnone] at he'
    · rw [hres] at hsnoc
      obtain ⟨eR, hR, hreqs⟩ := h.requestRun (hreq ▸ hb.bytesIn_mono .request)
      have hbegun := hwait pre b hb.isPrefix
      have hle := arrived_le (fun r => r.wire.length) requests (bytesIn .request pre).length
      have hqs := h.read.length_eq
      have hpending : begun (ms.map fun m => m.wire.length)
          (bytesIn .response pre ++ [b]).length ≤ eR.reqs.length := by
        rw [hreqs, List.length_take, List.length_append, List.length_singleton]
        omega
      obtain ⟨st, hst⟩ := foldlM_responses h.answers hsnoc (hreqs ▸ List.take_prefix _ qs)
        hpending [] .continue
      have hnone' := hnone eR hR
      rw [responseRun, hst] at hnone'
      simp at hnone'

theorem lineHandle_acceptAll {dir : Dir} {s s' : HttpSession} {raw : List UInt8}
    (h : lineHandle app dir s raw = .ok s') : lineHandle acceptAll dir s raw = .ok s' := by
  by_cases hstart : s.parsePhase = startPhase dir
  · simp only [lineHandle, if_pos hstart] at h ⊢
    exact h
  · by_cases hblank : lineLen raw = 0
    · simp only [lineHandle, if_neg hstart, headerLineHandle, if_pos hblank] at h ⊢
      split at h
      · exact h
      · simp at h
    · simp only [lineHandle, if_neg hstart, headerLineHandle, if_neg hblank] at h ⊢
      exact h

theorem sessionByte_acceptAll {dir : Dir} {s : HttpSession} {r : List UInt8} {b : UInt8}
    {p : HttpSession × List UInt8} (h : sessionByte app dir s r b = some p) :
    sessionByte acceptAll dir s r b = some p := by
  unfold sessionByte at h ⊢
  by_cases hphase : s.parsePhase = bodyPhase dir
  · rw [if_pos hphase] at h ⊢
    exact h
  · rw [if_neg hphase] at h ⊢
    by_cases hb : b = LF
    · rw [if_pos hb] at h ⊢
      cases hline : lineHandle app dir s (r ++ [b]) with
      | fail s' => simp [hline] at h
      | ok s' =>
        rw [hline] at h
        rw [lineHandle_acceptAll hline]
        exact h
    · rw [if_neg hb] at h ⊢
      exact h

theorem requestRun_acceptAll {u : List UInt8} {e : Entry} (h : requestRun app u = some e) :
    requestRun acceptAll u = some e := by
  induction u using List.reverseRecOn generalizing e with
  | nil => exact h
  | append_singleton u b ih =>
    rw [requestRun_snoc] at h ⊢
    obtain ⟨e₀, hprev, hbyte⟩ := Option.bind_eq_some_iff.1 h
    rw [ih hprev, Option.bind_some]
    unfold requestByte at hbyte ⊢
    cases hs : sessionByte app .request (e₀.curReq.getD {}) e₀.reqRemain b with
    | none => simp [hs] at hbyte
    | some p =>
      rw [hs] at hbyte
      rw [sessionByte_acceptAll hs]
      exact hbyte

theorem responseRun_acceptAll {reqs : List HttpSession} {v : List UInt8} {st : Entry × Verdict}
    (h : responseRun app reqs v = some st) : responseRun acceptAll reqs v = some st := by
  induction v using List.reverseRecOn generalizing st with
  | nil => exact h
  | append_singleton v b ih =>
    rw [responseRun_snoc] at h ⊢
    obtain ⟨st₀, hprev, hbyte⟩ := Option.bind_eq_some_iff.1 h
    rw [ih hprev, Option.bind_some]
    unfold responseByte at hbyte ⊢
    cases hreqs : st₀.1.reqs with
    | nil => simp [hreqs] at hbyte
    | cons s pending =>
      simp only [hreqs] at hbyte ⊢
      cases hs : sessionByte app .response s st₀.1.resRemain b with
      | none => simp [hs] at hbyte
      | some p =>
        rw [hs] at hbyte
        rw [sessionByte_acceptAll hs]
        exact hbyte

theorem Denotes.acceptAll {u v : List UInt8} {e : Entry} {w : Verdict} (h : Denotes app u v e w) :
    Denotes Http.acceptAll u v e w := by
  obtain ⟨eR, eS, hR, hS, he, hcount⟩ := h
  exact ⟨eR, eS, requestRun_acceptAll hR, responseRun_acceptAll hS, he, hcount⟩

theorem stored_prefix_of_outcome {es : List (Dir × UInt8)} {c : Conn} {e : Entry} {w : Verdict}
    (hc : Outcome app es c)
    (h : Denotes acceptAll (bytesIn .request es) (bytesIn .response es) e w) :
    c.stored <+: e.stored := by
  cases c with
  | running e' v w' =>
    obtain ⟨-, hden⟩ := hc
    rw [Conn.stored, (hden.acceptAll.unique h).1]
  | closed n stored =>
    obtain ⟨pre, event, e₁, w₁, hb⟩ := hc
    rw [Conn.stored, hb.stored_eq]
    exact stored_mono hb.reached.acceptAll h (.inl (hb.bytesIn_mono .request))
      (hb.bytesIn_mono .response)

theorem Message.accepted_acceptAll {dir : Dir} {s : HttpSession} {m : Message}
    (h : (m.read dir s).isSome) : m.accepted acceptAll dir s := by
  obtain ⟨s', hs'⟩ := Option.isSome_iff_exists.1 h
  obtain ⟨hd, hhead, -⟩ := Option.bind_eq_some_iff.1 hs'
  simp [Message.accepted, hhead, Http.acceptAll]

theorem Carries.allAccepted_acceptAll {pieces : List Piece} {requests : List Message}
    {replies : List Reply} (h : Carries pieces requests replies) :
    AllAccepted acceptAll requests replies := by
  refine ⟨fun r hr => Message.accepted_acceptAll (h.readable r hr), fun p hp q hq => ?_⟩
  apply Message.accepted_acceptAll
  simpa [exchange, hq] using h.exchanges p hp

theorem flatMap_wire_of_no_interim {replies : List Reply}
    (h : ∀ reply ∈ replies, reply.interim = []) :
    replies.flatMap Reply.wire = (replies.map Reply.final).flatMap Message.wire := by
  rw [List.flatMap_map]
  exact List.flatMap_congr fun reply hr => by simp [Reply.wire, h reply hr]

def postMessage : Message :=
  ⟨bytesOf "POST /a HTTP/1.1\r", [bytesOf "Content-Length: 1\r"], [CR], .fixed (bytesOf "x")⟩

def getMessage : Message := ⟨bytesOf "GET /b HTTP/1.1\r", [], [CR], .empty⟩

def chunkedMessage : Message :=
  ⟨bytesOf "HTTP/1.1 200 OK\r", [bytesOf "Transfer-Encoding: chunked\r"], [CR],
    .chunked ⟨[⟨bytesOf "3", [], bytesOf "abc"⟩], bytesOf "0", [], []⟩⟩

def okMessage : Message := ⟨bytesOf "HTTP/1.1 200 OK\r", [], [CR], .empty⟩

def pipelined : List Piece :=
  [⟨.request, postMessage.wire, by decide +kernel⟩,
    ⟨.response, chunkedMessage.wire.take 20, by decide +kernel⟩,
    ⟨.request, getMessage.wire, by decide +kernel⟩,
    ⟨.response, chunkedMessage.wire.drop 20 ++ okMessage.wire, by decide +kernel⟩]

def continueMessage : Message := ⟨bytesOf "HTTP/1.1 100 Continue\r", [], [CR], .empty⟩

end CloudHands.Http

import CloudHands.Dns.Parse
import CloudHands.Msgpack.Store

/-!
# DNS sessions in the msgpack format

`ch_dns_session_store` and the writers below it. The writers of questions and records put a
key before their map wherever they are called, also as elements of an array, where there is
no place for a key: the array is announced with its elements and holds twice as many values.
-/

namespace CloudHands.Dns

open Lib Msgpack

def dnsNameStore (n : DnsName) : List Token :=
  mapStart "name" 2 ++ (writeUint16 "labels" n.labels ++ writeStrWlen "name" n.ndata)

def dnsQuestionStore (q : DnsQuestion) : List Token :=
  mapStart "question" 3 ++ (dnsNameStore q.qname ++
    (writeUint16 "qtype" q.qtype ++ writeUint16 "qclass" q.qclass))

def dnsRdataStore (r : DnsRdata) : List Token :=
  mapStart "rdata" 6 ++ (dnsNameStore r.name ++ (writeUint16 "type" r.type ++
    (writeUint16 "dclass" r.dclass ++ (writeUint32 "ttl" r.ttl ++ (writeUint16 "pos" r.pos ++
      writeBinKv "rdata" r.data)))))

def dnsHeaderStore (h : DnsHeader) : List Token :=
  mapStart "header" 6 ++ (writeUint16 "id" h.id ++ (writeUint16 "flags" h.flags ++
    (writeUint16 "qc" h.qcount ++ (writeUint16 "anc" h.ancount ++ (writeUint16 "auc" h.aucount ++
      writeUint16 "adc" h.adcount)))))

def questionsStore (qs : List DnsQuestion) : List Token :=
  arrayStart "questions" (count16 qs) ++ qs.flatMap dnsQuestionStore

def rdataListStore (name : String) (rs : List DnsRdata) : List Token :=
  mapStart name 1 ++ (arrayStart "rdatas" (count16 rs) ++ rs.flatMap dnsRdataStore)

def dnsRequestStore (r : DnsRequest) : List Token :=
  mapStart "req" 2 ++ (dnsHeaderStore r.hdr ++ questionsStore r.questions)

def dnsResponseStore (r : DnsResponse) : List Token :=
  mapStart "res" 5 ++ (dnsHeaderStore r.hdr ++ (questionsStore r.qlist ++
    (rdataListStore "alist" r.alist ++ (rdataListStore "aulist" r.aulist ++
      rdataListStore "adlist" r.adlist))))

def partStore {α : Type} (store : α → List Token) : Option α → List Token
  | none => []
  | some a => store a

def dnsSessionStore (s : DnsSession) : List Token :=
  if s.dnsReq.isNone ∧ s.dnsRes.isNone then []
  else
    mapStart "dns" (if s.dnsReq.isSome ∧ s.dnsRes.isSome then 4 else 3) ++
      (writeUint8 "hasReq" (if s.dnsReq.isSome then 1 else 0) ++
        (writeUint8 "hasRes" (if s.dnsRes.isSome then 1 else 0) ++
          (partStore dnsRequestStore s.dnsReq ++ partStore dnsResponseStore s.dnsRes)))

def elements (s : DnsSession) : ℕ :=
  (s.dnsReq.elim 0 fun r => r.questions.length) +
    s.dnsRes.elim 0 fun r => r.qlist.length + r.alist.length + r.aulist.length + r.adlist.length

theorem balance_name (n : DnsName) : balance (dnsNameStore n) = 2 := by
  simp [dnsNameStore, mapStart, writeUint16, writeStrWlen, withKey, text, Token.announced]

theorem balance_question (q : DnsQuestion) : balance (dnsQuestionStore q) = 2 := by
  simp [dnsQuestionStore, balance_name, mapStart, writeUint16, withKey, text, Token.announced]

theorem balance_rdata (r : DnsRdata) : balance (dnsRdataStore r) = 2 := by
  simp [dnsRdataStore, balance_name, mapStart, writeUint16, writeUint32, writeBinKv, withKey, text,
    Token.announced]

theorem balance_header (h : DnsHeader) : balance (dnsHeaderStore h) = 2 := by
  simp [dnsHeaderStore, mapStart, writeUint16, withKey, text, Token.announced]

theorem count16_of_lt {α : Type} {xs : List α} (h : xs.length < 1000) : count16 xs = xs.length :=
  Nat.mod_eq_of_lt (by omega)

theorem balance_questions {qs : List DnsQuestion} (h : qs.length < 1000) :
    balance (questionsStore qs) = 2 + qs.length := by
  rw [questionsStore, count16_of_lt h, balance_append, balance_flatMap fun q _ =>
    balance_question q]
  simp [arrayStart, withKey, text, Token.announced]
  ring

theorem balance_rdataList {name : String} (hname : name.isEmpty = false) {rs : List DnsRdata}
    (h : rs.length < 1000) : balance (rdataListStore name rs) = 2 + rs.length := by
  rw [rdataListStore, count16_of_lt h, balance_append, balance_append,
    balance_flatMap fun r _ => balance_rdata r, mapStart, withKey_of_ne hname]
  simp [arrayStart, withKey, text, Token.announced]
  ring

theorem balance_request {r : DnsRequest} (h : RequestAccepted r) :
    balance (dnsRequestStore r) = 2 + r.questions.length := by
  obtain ⟨hle, hlt⟩ := h.questions_le
  rw [dnsRequestStore, balance_append, balance_append, balance_header, balance_questions (by omega)]
  simp [mapStart, withKey, text, Token.announced]

theorem balance_response {r : DnsResponse} (h : ResponseAccepted r) :
    balance (dnsResponseStore r) =
      2 + (r.qlist.length + r.alist.length + r.aulist.length + r.adlist.length : ℕ) := by
  obtain ⟨⟨hq, hq'⟩, ⟨han, han'⟩, ⟨hau, hau'⟩, ⟨had, had'⟩, -⟩ := h.shape
  simp only [dnsResponseStore, balance_append]
  rw [balance_header, balance_questions (by omega), balance_rdataList rfl (by omega),
    balance_rdataList rfl (by omega), balance_rdataList rfl (by omega)]
  simp [mapStart, withKey, text, Token.announced]
  ring

theorem balance_session {s : DnsSession} (h : SessionAccepted s) :
    balance (dnsSessionStore s) = 2 + elements s := by
  obtain ⟨⟨hreq, hres⟩, hsome⟩ := h
  obtain ⟨req, res⟩ := s
  cases req with
  | none =>
    cases res with
    | none => simp at hsome
    | some res =>
      have hbal := balance_response (hres res rfl)
      simp [dnsSessionStore, partStore, elements, hbal, mapStart, writeUint8, withKey, text,
        Token.announced]
      ring
  | some req =>
    have hbalReq := balance_request (hreq req rfl)
    cases res with
    | none =>
      simp [dnsSessionStore, partStore, elements, hbalReq, mapStart, writeUint8, withKey, text,
        Token.announced]
      ring
    | some res =>
      have hbal := balance_response (hres res rfl)
      simp [dnsSessionStore, partStore, elements, hbal, hbalReq, mapStart, writeUint8, withKey,
        text,
        Token.announced]
      ring

theorem values_kv (k : String) {t : Token} (h : t.announced = 0) : Values 2 [text k, t] :=
  (Values.scalar rfl).append (Values.scalar h)

theorem values_keyed (k : String) {t : Token} {ts : List Token} (h : Values t.announced ts) :
    Values 2 ([text k, t] ++ ts) :=
  (Values.scalar rfl : Values 1 [text k]).append h.header

theorem values_header (h : DnsHeader) : Values 2 (dnsHeaderStore h) :=
  values_keyed "header" <| (values_kv "id" rfl).append <| (values_kv "flags" rfl).append <|
    (values_kv "qc" rfl).append <| (values_kv "anc" rfl).append <| (values_kv "auc" rfl).append <|
    values_kv "adc" rfl

theorem values_questions_nil : Values 2 (questionsStore []) :=
  values_keyed "questions" .nil

theorem values_rdataList_nil {name : String} (hname : name.isEmpty = false) :
    Values 2 (rdataListStore name []) := by
  rw [rdataListStore, mapStart, withKey_of_ne hname]
  exact values_keyed name (values_keyed "rdatas" .nil)

theorem values_request {r : DnsRequest} (h : r.questions = []) : Values 2 (dnsRequestStore r) := by
  rw [dnsRequestStore, h]
  exact values_keyed "req" ((values_header r.hdr).append values_questions_nil)

theorem values_response {r : DnsResponse} (hq : r.qlist = []) (han : r.alist = [])
    (hau : r.aulist = []) (had : r.adlist = []) : Values 2 (dnsResponseStore r) := by
  rw [dnsResponseStore, hq, han, hau, had]
  exact values_keyed "res" <| (values_header r.hdr).append <| values_questions_nil.append <|
    (values_rdataList_nil rfl).append <| (values_rdataList_nil rfl).append <|
    values_rdataList_nil rfl

/-- There is no question and no record in any part of the session. -/
def NoElements (s : DnsSession) : Prop :=
  (∀ r ∈ s.dnsReq, r.questions = []) ∧
    ∀ r ∈ s.dnsRes, r.qlist = [] ∧ r.alist = [] ∧ r.aulist = [] ∧ r.adlist = []

theorem elements_eq_zero_iff {s : DnsSession} : elements s = 0 ↔ NoElements s := by
  obtain ⟨req, res⟩ := s
  cases req <;> cases res <;> simp [elements, NoElements, and_assoc]

def StoreComplete (s : DnsSession) : Prop :=
  ∃ value, dnsSessionStore s = text "dns" :: value ∧ Values 1 value

theorem storeComplete_of_noElements {s : DnsSession} (hsome : s.dnsReq.isSome ∨ s.dnsRes.isSome)
    (h : NoElements s) : StoreComplete s := by
  obtain ⟨req, res⟩ := s
  have hflags : ∀ a b : UInt8, Values 4 (writeUint8 "hasReq" a ++ writeUint8 "hasRes" b) :=
    fun a b => (values_kv "hasReq" rfl).append (values_kv "hasRes" rfl)
  cases req with
  | none =>
    cases res with
    | none => simp at hsome
    | some res =>
      obtain ⟨hq, han, hau, had⟩ := h.2 res rfl
      exact ⟨_, rfl, Values.header ((hflags 0 1).append (values_response hq han hau had))⟩
  | some req =>
    have hreq := values_request (h.1 req rfl)
    cases res with
    | none =>
      have hall := (hflags 1 0).append hreq
      rw [← List.append_nil (dnsRequestStore req)] at hall
      exact ⟨_, rfl, Values.header hall⟩
    | some res =>
      obtain ⟨hq, han, hau, had⟩ := h.2 res rfl
      exact ⟨_, rfl,
        Values.header ((hflags 1 1).append (hreq.append (values_response hq han hau had)))⟩

/-- The session is stored as one complete value exactly when its arrays are all empty. -/
theorem dns_store_complete_iff (s : DnsSession) (haccepted : SessionAccepted s) :
    StoreComplete s ↔ NoElements s := by
  constructor
  · rintro ⟨value, hstore, hvalue⟩
    have hbalance := balance_session haccepted
    rw [hstore, balance_cons, hvalue.balance_eq] at hbalance
    have hkey : (text "dns").announced = 0 := rfl
    rw [hkey] at hbalance
    exact elements_eq_zero_iff.1 (by push_cast at hbalance; omega)
  · exact storeComplete_of_noElements haccepted.2

theorem dns_store_complete_bare : StoreComplete bareSession := by
  refine (dns_store_complete_iff bareSession bareSession_accepted).2 ⟨fun r hr =>
    ?_, by simp [bareSession]⟩
  obtain rfl := Option.some.inj hr
  rfl

/-- With one question the array of one element holds two values. -/
theorem dns_store_query_incomplete : ¬ ∀ s : DnsSession, SessionAccepted s → StoreComplete s := by
  intro h
  obtain ⟨value, hstore, hvalue⟩ := h querySession querySession_accepted
  have hbalance := balance_session querySession_accepted
  rw [hstore, balance_cons, hvalue.balance_eq] at hbalance
  exact absurd hbalance (by decide)

end CloudHands.Dns

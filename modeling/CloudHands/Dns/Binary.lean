import CloudHands.Dns.Parse
import CloudHands.Japi.Text

/-!
# DNS sessions in the binary format

The writers of `udp/app/sdns` and the readers `DNSRequst.read`, `DNSResponse.read` and
`RDNSRecord(DataInput)` of the Java side. The writers put out what was parsed; the readers
loop on the counts of the header, and the reader of a record does not read the position
that the writer puts before the data.
-/

namespace CloudHands.Dns

open Lib Lib.TokenReader Word Japi Japi.DataInput

def uint16Bytes (v : UInt16) : List UInt8 := bigEndian 2 v.toNat

def string16Bytes (str : List UInt8) : List UInt8 := bigEndian 2 str.length ++ str

def dnsNameWrite (n : DnsName) : List UInt8 := uint16Bytes n.labels ++ string16Bytes n.ndata

def dnsQuestionWrite (q : DnsQuestion) : List UInt8 :=
  dnsNameWrite q.qname ++ (uint16Bytes q.qtype ++ uint16Bytes q.qclass)

def dnsRdataWrite (r : DnsRdata) : List UInt8 :=
  dnsNameWrite r.name ++ (uint16Bytes r.type ++ (uint16Bytes r.dclass ++
    (bigEndian 4 r.ttl.toNat ++ (uint16Bytes r.pos ++ string16Bytes r.data))))

def dnsHeaderWrite (h : DnsHeader) : List UInt8 :=
  uint16Bytes h.id ++ (uint16Bytes h.flags ++ (uint16Bytes h.qcount ++ (uint16Bytes h.ancount ++
    (uint16Bytes h.aucount ++ uint16Bytes h.adcount))))

def dnsRequestWrite (r : DnsRequest) : List UInt8 :=
  dnsHeaderWrite r.hdr ++ r.questions.flatMap dnsQuestionWrite

def dnsResponseWrite (r : DnsResponse) : List UInt8 :=
  dnsHeaderWrite r.hdr ++ (r.qlist.flatMap dnsQuestionWrite ++ (r.alist.flatMap dnsRdataWrite ++
    (r.aulist.flatMap dnsRdataWrite ++ r.adlist.flatMap dnsRdataWrite)))

def partBytes {α : Type} (write : α → List UInt8) : Option α → List UInt8
  | none => []
  | some a => write a

def dnsSessionWrite (s : DnsSession) : List UInt8 :=
  if s.dnsReq.isNone ∧ s.dnsRes.isNone then []
  else
    bigEndian 1 (if s.dnsReq.isSome then 1 else 0) ++
      (bigEndian 1 (if s.dnsRes.isSome then 1 else 0) ++
      (partBytes dnsRequestWrite s.dnsReq ++ partBytes dnsResponseWrite s.dnsRes))

structure Name where
  labels : ℕ
  name : String

structure DNSQuestion where
  name : Name
  type : ℕ
  dclass : ℕ

structure RDNSRecord where
  name : Name
  type : ℕ
  dclass : ℕ
  ttl : ℤ
  pos : ℤ
  rdata : List UInt8

structure Header where
  id : ℕ
  flags : ℕ
  counts : Fin 4 → ℕ

structure DNSRequst where
  header : Header
  questions : List DNSQuestion

structure DNSResponse where
  header : Header
  questions : List DNSQuestion
  answers : List RDNSRecord
  authorities : List RDNSRecord
  additionals : List RDNSRecord

structure DNSSession where
  dnsRequst : Option DNSRequst
  dnsResponse : Option DNSResponse

section Readers

variable (replaced : List UInt8 → String)

def readName : DataInput Name := do
  let labels ← readUnsignedShort
  let name ← readString16 replaced
  pure ⟨labels, name⟩

def readQuestion : DataInput DNSQuestion := do
  let name ← readName replaced
  let type ← readUnsignedShort
  let dclass ← readUnsignedShort
  pure ⟨name, type, dclass⟩

/-- The field `pos` keeps its default. -/
def readRecord : DataInput RDNSRecord := do
  let name ← readName replaced
  let type ← readUnsignedShort
  let dclass ← readUnsignedShort
  let ttl ← readInt
  let dlen ← readUnsignedShort
  let rdata ← take dlen
  pure ⟨name, type, dclass, ttl, 0, rdata⟩

def readHeader : DataInput Header := do
  let id ← readUnsignedShort
  let flags ← readUnsignedShort
  let qd ← readUnsignedShort
  let an ← readUnsignedShort
  let au ← readUnsignedShort
  let ad ← readUnsignedShort
  pure ⟨id, flags, ![qd, an, au, ad]⟩

def readRequest : DataInput DNSRequst := do
  let header ← readHeader
  let questions ← times (readQuestion replaced) (header.counts 0)
  pure ⟨header, questions⟩

def readResponse : DataInput DNSResponse := do
  let header ← readHeader
  let questions ← times (readQuestion replaced) (header.counts 0)
  let answers ← times (readRecord replaced) (header.counts 1)
  let authorities ← times (readRecord replaced) (header.counts 2)
  let additionals ← times (readRecord replaced) (header.counts 3)
  pure ⟨header, questions, answers, authorities, additionals⟩

def readPart {α : Type} (has : Bool) (read : DataInput α) : DataInput (Option α) :=
  if has then some <$> read else pure none

/-- `DNSSession(DataInput)` behind the fields of the session entry. -/
def readSession : DataInput DNSSession := do
  let hasReq ← readUnsignedByte
  let hasRes ← readUnsignedByte
  let dnsRequst ← readPart (hasReq == 1) (readRequest replaced)
  let dnsResponse ← readPart (hasRes == 1) (readResponse replaced)
  pure ⟨dnsRequst, dnsResponse⟩

end Readers

def Name.Same (got : Name) (n : DnsName) : Prop :=
  got.labels = n.labels.toNat ∧ utf8Bytes got.name = n.ndata

def DNSQuestion.Same (got : DNSQuestion) (q : DnsQuestion) : Prop :=
  got.name.Same q.qname ∧ got.type = q.qtype.toNat ∧ got.dclass = q.qclass.toNat

structure RDNSRecord.Same (got : RDNSRecord) (r : DnsRdata) : Prop where
  name : got.name.Same r.name
  type : got.type = r.type.toNat
  dclass : got.dclass = r.dclass.toNat
  ttl : got.ttl = r.ttl.toNat
  pos : got.pos = r.pos.toNat
  rdata : got.rdata = r.data

def headerOf (h : DnsHeader) : Header :=
  ⟨h.id.toNat, h.flags.toNat,
    ![h.qcount.toNat, h.ancount.toNat, h.aucount.toNat, h.adcount.toNat]⟩

def DNSRequst.Same (got : DNSRequst) (r : DnsRequest) : Prop :=
  got.header = headerOf r.hdr ∧ List.Forall₂ DNSQuestion.Same got.questions r.questions

structure DNSResponse.Same (got : DNSResponse) (r : DnsResponse) : Prop where
  header : got.header = headerOf r.hdr
  questions : List.Forall₂ DNSQuestion.Same got.questions r.qlist
  answers : List.Forall₂ RDNSRecord.Same got.answers r.alist
  authorities : List.Forall₂ RDNSRecord.Same got.authorities r.aulist
  additionals : List.Forall₂ RDNSRecord.Same got.additionals r.adlist

def DNSSession.Same (got : DNSSession) (s : DnsSession) : Prop :=
  Option.Rel DNSRequst.Same got.dnsRequst s.dnsReq ∧
    Option.Rel DNSResponse.Same got.dnsResponse s.dnsRes

/-- The reader gets the session back and consumes all bytes. -/
def BinaryAgrees (replaced : List UInt8 → String) (s : DnsSession) : Prop :=
  ∃ v, (readSession replaced).run (dnsSessionWrite s) = some (v, []) ∧ v.Same s

def QuestionsReadable (hdr : DnsHeader) (questions : List DnsQuestion) : Prop :=
  questions.length = hdr.qcount.toNat ∧ ∀ q ∈ questions, IsUtf8 q.qname.ndata

def NoRecords (hdr : DnsHeader) : Prop := hdr.ancount = 0 ∧ hdr.aucount = 0 ∧ hdr.adcount = 0

section Parts

variable {replaced : List UInt8 → String}

def nameOf (replaced : List UInt8 → String) (n : DnsName) : Name :=
  ⟨n.labels.toNat, decodeText replaced n.ndata⟩

def questionOf (replaced : List UInt8 → String) (q : DnsQuestion) : DNSQuestion :=
  ⟨nameOf replaced q.qname, q.qtype.toNat, q.qclass.toNat⟩

def requestOf (replaced : List UInt8 → String) (r : DnsRequest) : DNSRequst :=
  ⟨headerOf r.hdr, r.questions.map (questionOf replaced)⟩

def responseOf (replaced : List UInt8 → String) (r : DnsResponse) : DNSResponse :=
  ⟨headerOf r.hdr, r.qlist.map (questionOf replaced), [], [], []⟩

theorem nameOf_same_iff {n : DnsName} : (nameOf replaced n).Same n ↔ IsUtf8 n.ndata := by
  rw [Name.Same, nameOf, utf8Bytes_decodeText_iff]
  exact and_iff_right rfl

theorem questionOf_same_iff {q : DnsQuestion} :
    (questionOf replaced q).Same q ↔ IsUtf8 q.qname.ndata := by
  rw [DNSQuestion.Same, questionOf, nameOf_same_iff]
  exact and_iff_left ⟨rfl, rfl⟩

theorem yields_name (n : DnsName) :
    Yields (readName replaced) (dnsNameWrite n) (nameOf replaced n) :=
  (yields_uint16 n.labels).bind ((yields_string16 replaced n.short).bind_pure (yields_pure _))

theorem yields_question (q : DnsQuestion) :
    Yields (readQuestion replaced) (dnsQuestionWrite q) (questionOf replaced q) :=
  (yields_name q.qname).bind <| (yields_uint16 q.qtype).bind <|
    (yields_uint16 q.qclass).bind_pure (yields_pure _)

theorem yields_header (h : DnsHeader) : Yields readHeader (dnsHeaderWrite h) (headerOf h) :=
  (yields_uint16 h.id).bind <| (yields_uint16 h.flags).bind <| (yields_uint16 h.qcount).bind <|
    (yields_uint16 h.ancount).bind <| (yields_uint16 h.aucount).bind <|
    (yields_uint16 h.adcount).bind_pure (yields_pure _)

theorem yields_questions {hdr : DnsHeader} {qs : List DnsQuestion}
    (h : qs.length = hdr.qcount.toNat) :
    Yields (times (readQuestion replaced) ((headerOf hdr).counts 0)) (qs.flatMap dnsQuestionWrite)
      (qs.map (questionOf replaced)) := by
  have hcount : (headerOf hdr).counts 0 = qs.length := h.symm
  rw [hcount]
  exact yields_times fun q _ => yields_question q

theorem questionsOf_same_iff {qs : List DnsQuestion} :
    List.Forall₂ DNSQuestion.Same (qs.map (questionOf replaced)) qs ↔
      ∀ q ∈ qs, IsUtf8 q.qname.ndata := by
  rw [List.forall₂_map_left_iff, List.forall₂_same]
  exact forall₂_congr fun q _ => questionOf_same_iff

theorem questionsReadable_of_same {hdr : DnsHeader} {qs : List DnsQuestion} {got : List DNSQuestion}
    {rest rest' : List UInt8}
    (hrun : (times (readQuestion replaced) ((headerOf hdr).counts 0)).run
      (qs.flatMap dnsQuestionWrite ++ rest) = some (got, rest'))
    (hsame : List.Forall₂ DNSQuestion.Same got qs) : QuestionsReadable hdr qs ∧ rest' = rest := by
  have hlen : qs.length = hdr.qcount.toNat := by
    rw [← hsame.length_eq]
    exact (guarantees_times (guarantees_true _) _ hrun).1
  rw [yields_questions hlen rest] at hrun
  obtain ⟨rfl, rfl⟩ := Prod.mk.inj (Option.some.inj hrun)
  exact ⟨⟨hlen, questionsOf_same_iff.1 hsame⟩, rfl⟩

theorem guarantees_record : Guarantees (readRecord replaced) fun r => r.pos = 0 :=
  (guarantees_true _).bind fun _ _ => (guarantees_true _).bind fun _ _ =>
    (guarantees_true _).bind fun _ _ => (guarantees_true _).bind fun _ _ =>
    (guarantees_true _).bind fun _ _ => (guarantees_true _).bind fun _ _ => guarantees_pure rfl

theorem records_eq_nil_of_same {n : ℕ} {rs : List DnsRdata} {got : List RDNSRecord}
    {bytes rest : List UInt8} (hpos : ∀ r ∈ rs, r.pos ≠ 0)
    (hrun : (times (readRecord replaced) n).run bytes = some (got, rest))
    (hsame : List.Forall₂ RDNSRecord.Same got rs) : n = 0 := by
  obtain ⟨hlen, hzero⟩ := guarantees_times guarantees_record n hrun
  cases hsame with
  | nil => exact hlen.symm
  | @cons g r gs rs hhead _ =>
    have hgot := hzero g (by simp)
    rw [hhead.pos] at hgot
    have hr : r.pos = 0 := UInt16.toNat_inj.1 (by simpa using hgot)
    exact absurd hr (hpos r (by simp))

theorem yields_request {r : DnsRequest} (h : QuestionsReadable r.hdr r.questions) :
    Yields (readRequest replaced) (dnsRequestWrite r) (requestOf replaced r) :=
  (yields_header r.hdr).bind ((yields_questions h.1).bind_pure (yields_pure _))

theorem request_of_same {r : DnsRequest} {got : DNSRequst} {rest rest' : List UInt8}
    (hrun : (readRequest replaced).run (dnsRequestWrite r ++ rest) = some (got, rest'))
    (hsame : got.Same r) : QuestionsReadable r.hdr r.questions ∧ rest' = rest := by
  rw [readRequest, dnsRequestWrite, List.append_assoc, (yields_header _).bind_run] at hrun
  obtain ⟨questions, mid, hquestions, hrun⟩ := run_bind_eq_some.1 hrun
  obtain ⟨rfl, rfl⟩ := Prod.mk.inj (Option.some.inj hrun)
  exact questionsReadable_of_same hquestions hsame.2

theorem lists_eq_nil {r : DnsResponse} (hshape : ResponseShape r) (hno : NoRecords r.hdr) :
    r.alist = [] ∧ r.aulist = [] ∧ r.adlist = [] := by
  obtain ⟨han, hau, had⟩ := hno
  have halist := hshape.ancount.1
  have haulist := hshape.aucount.1
  have hadlist := hshape.adcount.1
  simp only [han, hau, had, UInt16.toNat_zero, Nat.le_zero, List.length_eq_zero_iff] at *
  exact ⟨halist, haulist, hadlist⟩

theorem yields_response {r : DnsResponse} (hshape : ResponseShape r)
    (h : QuestionsReadable r.hdr r.qlist) (hno : NoRecords r.hdr) :
    Yields (readResponse replaced) (dnsResponseWrite r) (responseOf replaced r) := by
  obtain ⟨halist, haulist, hadlist⟩ := lists_eq_nil hshape hno
  obtain ⟨han, hau, had⟩ := hno
  have hnone : ∀ i : Fin 4, i ≠ 0 → (headerOf r.hdr).counts i = 0 := by
    intro i hi
    fin_cases i
    · exact absurd rfl hi
    · simp [headerOf, han]
    · simp [headerOf, hau]
    · simp [headerOf, had]
  rw [dnsResponseWrite, halist, haulist, hadlist]
  refine (yields_header r.hdr).bind ((yields_questions h.1).bind ?_)
  rw [hnone 1 (by decide), hnone 2 (by decide), hnone 3 (by decide)]
  exact yields_pure _

theorem response_of_same {r : DnsResponse} (hshape : ResponseShape r) {got : DNSResponse}
    {rest rest' : List UInt8}
    (hrun : (readResponse replaced).run (dnsResponseWrite r ++ rest) = some (got, rest'))
    (hsame : got.Same r) :
    (QuestionsReadable r.hdr r.qlist ∧ NoRecords r.hdr) ∧ rest' = rest := by
  have hall := hrun
  rw [readResponse, dnsResponseWrite, List.append_assoc, (yields_header _).bind_run] at hrun
  obtain ⟨questions, mid, hquestions, hrun⟩ := run_bind_eq_some.1 hrun
  obtain ⟨answers, mid₁, hanswers, hrun⟩ := run_bind_eq_some.1 hrun
  obtain ⟨authorities, mid₂, hauthorities, hrun⟩ := run_bind_eq_some.1 hrun
  obtain ⟨additionals, mid₃, hadditionals, hrun⟩ := run_bind_eq_some.1 hrun
  obtain ⟨rfl, rfl⟩ := Prod.mk.inj (Option.some.inj hrun)
  rw [List.append_assoc] at hquestions
  have hpos := hshape.pos
  have han := records_eq_nil_of_same (fun x hx => hpos x (by simp [hx])) hanswers hsame.answers
  have hau := records_eq_nil_of_same (fun x hx => hpos x (by simp [hx])) hauthorities
    hsame.authorities
  have had := records_eq_nil_of_same (fun x hx => hpos x (by simp [hx])) hadditionals
    hsame.additionals
  have hno : NoRecords r.hdr :=
    ⟨UInt16.toNat_inj.1 han, UInt16.toNat_inj.1 hau, UInt16.toNat_inj.1 had⟩
  have hq := (questionsReadable_of_same hquestions hsame.questions).1
  rw [yields_response hshape hq hno rest] at hall
  exact ⟨⟨hq, hno⟩, (Prod.mk.inj (Option.some.inj hall)).2.symm⟩

theorem yields_part {α β : Type} {read : DataInput α} {write : β → List UInt8} {dec : β → α}
    {part : Option β} (h : ∀ b ∈ part, Yields read (write b) (dec b)) :
    Yields (readPart part.isSome read) (partBytes write part) (part.map dec) := by
  cases part with
  | none => exact yields_pure none
  | some b => exact (h b rfl).map some

theorem part_of_same {α β : Type} {read : DataInput α} {write : β → List UInt8}
    {Same : α → β → Prop} {P : β → Prop} {part : Option β} {got : Option α}
    {rest rest' : List UInt8}
    (hread : ∀ {b a}, part = some b → read.run (write b ++ rest) = some (a, rest') → Same a b →
      P b ∧ rest' = rest)
    (hrun : (readPart part.isSome read).run (partBytes write part ++ rest) = some (got, rest'))
    (hsame : Option.Rel Same got part) : (∀ b ∈ part, P b) ∧ rest' = rest := by
  cases hsame with
  | none =>
    obtain ⟨-, rfl⟩ := Prod.mk.inj (Option.some.inj hrun)
    exact ⟨by simp, rfl⟩
  | @some a b hab =>
    obtain ⟨a', ha', hsome⟩ := run_map_eq_some.1 hrun
    obtain rfl := Option.some.inj hsome
    obtain ⟨hP, hrest⟩ := hread rfl ha' hab
    exact ⟨by simpa using hP, hrest⟩

theorem run_readSession {s : DnsSession} (h : s.dnsReq.isSome ∨ s.dnsRes.isSome) :
    (readSession replaced).run (dnsSessionWrite s) =
      (do
        let dnsRequst ← readPart s.dnsReq.isSome (readRequest replaced)
        let dnsResponse ← readPart s.dnsRes.isSome (readResponse replaced)
        pure ⟨dnsRequst, dnsResponse⟩ : DataInput DNSSession).run
        (partBytes dnsRequestWrite s.dnsReq ++ partBytes dnsResponseWrite s.dnsRes) := by
  have hflag : ∀ b : Bool, Yields readUnsignedByte (bigEndian 1 (if b then 1 else 0))
      (if b then 1 else 0) := by
    intro b
    refine yields_unsigned ?_
    split <;> omega
  rw [dnsSessionWrite, if_neg (not_bothNone h), readSession, (hflag _).bind_run, (hflag _).bind_run,
    flag_beq_one, flag_beq_one]

end Parts

/-- What the Java side reads of a session: all announced questions are there under names that
are UTF-8, and no record is announced. -/
def SessionReadable (s : DnsSession) : Prop :=
  (∀ r ∈ s.dnsReq, QuestionsReadable r.hdr r.questions) ∧
    ∀ r ∈ s.dnsRes, QuestionsReadable r.hdr r.qlist ∧ NoRecords r.hdr

theorem requestOf_same {replaced : List UInt8 → String} {r : DnsRequest}
    (h : QuestionsReadable r.hdr r.questions) :
    (requestOf replaced r).Same r :=
  ⟨rfl, questionsOf_same_iff.2 h.2⟩

theorem responseOf_same {replaced : List UInt8 → String} {r : DnsResponse}
    (hshape : ResponseShape r) (h : QuestionsReadable r.hdr r.qlist) (hno : NoRecords r.hdr) :
    (responseOf replaced r).Same r := by
  obtain ⟨halist, haulist, hadlist⟩ := lists_eq_nil hshape hno
  refine ⟨rfl, questionsOf_same_iff.2 h.2, ?_, ?_, ?_⟩
  · rw [halist]
    exact .nil
  · rw [haulist]
    exact .nil
  · rw [hadlist]
    exact .nil

/-- The Java side gets an accepted session back exactly when it is readable in this sense. -/
theorem dns_binary_agrees_iff (replaced : List UInt8 → String) (s : DnsSession)
    (haccepted : SessionAccepted s) : BinaryAgrees replaced s ↔ SessionReadable s := by
  obtain ⟨⟨-, hres⟩, hsome⟩ := haccepted
  rw [BinaryAgrees, run_readSession hsome]
  constructor
  · rintro ⟨v, hrun, hreqSame, hresSame⟩
    obtain ⟨req, mid, hreq, hrun⟩ := run_bind_eq_some.1 hrun
    obtain ⟨res, mid', hresRun, hrun⟩ := run_bind_eq_some.1 hrun
    obtain ⟨rfl, rfl⟩ := Prod.mk.inj (Option.some.inj hrun)
    obtain ⟨hreqReadable, rfl⟩ := part_of_same (fun _ => request_of_same) hreq hreqSame
    have hend : partBytes dnsResponseWrite s.dnsRes =
        partBytes dnsResponseWrite s.dnsRes ++ [] := by
      simp
    rw [hend] at hresRun
    have hresReadable := part_of_same
      (fun hr => response_of_same (hres _ (by simp [hr])).shape) hresRun hresSame
    exact ⟨hreqReadable, hresReadable.1⟩
  · rintro ⟨hreqReadable, hresReadable⟩
    have hreqYields : Yields (readPart s.dnsReq.isSome (readRequest replaced))
        (partBytes dnsRequestWrite s.dnsReq) (s.dnsReq.map (requestOf replaced)) :=
      yields_part fun r hr => yields_request (hreqReadable r hr)
    have hresYields : Yields (readPart s.dnsRes.isSome (readResponse replaced))
        (partBytes dnsResponseWrite s.dnsRes) (s.dnsRes.map (responseOf replaced)) :=
      yields_part fun r hr => yields_response (hres r hr).shape (hresReadable r hr).1
        (hresReadable r hr).2
    refine ⟨⟨s.dnsReq.map (requestOf replaced), s.dnsRes.map (responseOf replaced)⟩,
      Yields.run (hreqYields.bind (hresYields.bind_pure (yields_pure _))), ?_, ?_⟩
    · cases hr : s.dnsReq with
      | none => exact .none
      | some r => exact .some (requestOf_same (hreqReadable r hr))
    · cases hr : s.dnsRes with
      | none => exact .none
      | some r =>
        obtain ⟨hq, hno⟩ := hresReadable r hr
        exact .some (responseOf_same (hres r hr).shape hq hno)

theorem dns_binary_agrees_query : BinaryAgrees (fun _ => "") querySession := by
  refine (dns_binary_agrees_iff _ querySession querySession_accepted).2 ⟨fun r hr =>
    ?_, by simp [querySession]⟩
  obtain rfl := Option.some.inj hr
  exact ⟨rfl, by decide +kernel⟩

/-- The position 30 is taken for the length of the data, which is not there. -/
theorem dns_binary_answer_differs :
    ¬ ∀ (replaced : List UInt8 → String) (s : DnsSession),
      SessionAccepted s → BinaryAgrees replaced s := by
  intro h
  obtain ⟨v, hrun, -⟩ := h (fun _ => "") answerSession answerSession_accepted
  have hfails : ((readSession fun _ => "").run (dnsSessionWrite answerSession)).isNone = true := by
    decide +kernel
  rw [hrun] at hfails
  cases hfails

end CloudHands.Dns

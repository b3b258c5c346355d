import CloudHands.Dns.NameDecoding

/-!
# What an accepted DNS response says of the message

The lists of an accepted response are read from the message one entry behind the other, from
the end of the header on. A list is shorter than the header announces only where the message
ends. A record is the one that stands there when ten bytes are left behind its name; the
parser looks for these ten bytes in front of the name.
-/

namespace CloudHands.Dns

open Lib DnsDataInput

/-- The number in the `width` bytes from `p` on. -/
def wireField (payload : List UInt8) (p width : ℕ) : ℕ := ofBigEndian ((payload.drop p).take width)

structure HeaderAt (payload : List UInt8) (hdr : DnsHeader) : Prop where
  inside : 12 ≤ payload.length
  id : hdr.id.toNat = wireField payload 0 2
  flags : hdr.flags.toNat = wireField payload 2 2
  qcount : hdr.qcount.toNat = wireField payload 4 2
  ancount : hdr.ancount.toNat = wireField payload 6 2
  aucount : hdr.aucount.toNat = wireField payload 8 2
  adcount : hdr.adcount.toNat = wireField payload 10 2

/-- The question at `p`, which ends at `q`. -/
def QuestionAt (payload : List UInt8) (p : ℕ) (question : DnsQuestion) (q : ℕ) : Prop :=
  ∃ labels own, LabelsAt payload p p labels own ∧ q = p + own + 4 ∧ q ≤ payload.length ∧
    question.qtype.toNat = wireField payload (p + own) 2 ∧
    question.qclass.toNat = wireField payload (p + own + 2) 2

/-- The fixed fields of a record from `b` on, its data behind them, and its end `q`. -/
structure FixedAt (payload : List UInt8) (b : ℕ) (rdata : DnsRdata) (q : ℕ) : Prop where
  type : rdata.type.toNat = wireField payload b 2
  dclass : rdata.dclass.toNat = wireField payload (b + 2) 2
  ttl : rdata.ttl.toNat = wireField payload (b + 4) 4
  dlen : rdata.data.length = wireField payload (b + 8) 2
  data : rdata.data = (payload.drop (b + 10)).take rdata.data.length
  pos : rdata.pos.toNat = b + 9
  next : q = b + 10 + rdata.data.length

/-- The record at `p`, which ends at `q`; its fields are those of the message when they are
all inside it. -/
def RecordAt (payload : List UInt8) (p : ℕ) (rdata : DnsRdata) (q : ℕ) : Prop :=
  ∃ labels own, LabelsAt payload p p labels own ∧ p ≤ q ∧ q ≤ payload.length ∧
    (p + own + 10 ≤ payload.length → FixedAt payload (p + own) rdata q)

inductive Contiguous {α : Type} (item : ℕ → α → ℕ → Prop) : ℕ → List α → ℕ → Prop
  | nil (p : ℕ) : Contiguous item p [] p
  | cons {p q end' : ℕ} {a : α} {as : List α} (first : item p a q)
      (rest : Contiguous item q as end') : Contiguous item p (a :: as) end'

/-- The `n` entries of a section from `p` to `q`; there are fewer where the message ends. -/
def SectionAt {α : Type} (payload : List UInt8) (item : ℕ → α → ℕ → Prop) (n : ℕ) (p : ℕ)
    (as : List α) (q : ℕ) : Prop :=
  Contiguous item p as q ∧ (as.length = n ∨ as.length < n ∧ q = payload.length)

def ResponseAt (payload : List UInt8) (r : DnsResponse) : Prop :=
  HeaderAt payload r.hdr ∧ ∃ p₁ p₂ p₃ p₄,
    SectionAt payload (QuestionAt payload) r.hdr.qcount.toNat 12 r.qlist p₁ ∧
    SectionAt payload (RecordAt payload) r.hdr.ancount.toNat p₁ r.alist p₂ ∧
    SectionAt payload (RecordAt payload) r.hdr.aucount.toNat p₂ r.aulist p₃ ∧
    SectionAt payload (RecordAt payload) r.hdr.adcount.toNat p₃ r.adlist p₄

variable {payload : List UInt8} {p : ℕ}

theorem wireField_lt (payload : List UInt8) (p width : ℕ) :
    wireField payload p width < 256 ^ width := by
  have hlt := ofBigEndian_lt ((payload.drop p).take width)
  have hle : ((payload.drop p).take width).length ≤ width := List.length_take_le _ _
  exact hlt.trans_le (Nat.pow_le_pow_right (by decide) hle)

theorem uint16Read_inside (h : p + 2 ≤ payload.length) :
    DnsDataInput.uint16Read ⟨payload, p⟩ = ((wireField payload p 2).toUInt16,
      ⟨payload, p + 2⟩) := by
  simp only [DnsDataInput.uint16Read, valueRead]
  rw [if_neg (by omega)]
  rfl

theorem uint32Read_inside (h : p + 4 ≤ payload.length) :
    DnsDataInput.uint32Read ⟨payload, p⟩ = ((wireField payload p 4).toUInt32,
      ⟨payload, p + 4⟩) := by
  simp only [DnsDataInput.uint32Read, valueRead]
  rw [if_neg (by omega)]
  rfl

theorem toNat_wireField₁₆ (payload : List UInt8) (p : ℕ) :
    (wireField payload p 2).toUInt16.toNat = wireField payload p 2 := by
  have hlt := wireField_lt payload p 2
  simp
  omega

theorem toNat_wireField₃₂ (payload : List UInt8) (p : ℕ) :
    (wireField payload p 4).toUInt32.toNat = wireField payload p 4 := by
  have hlt := wireField_lt payload p 4
  simp
  omega

theorem labelsAt_of_parse {residue : ℕ → ℕ → UInt8} {name : DnsName} {din : DnsDataInput}
    (h : dnsNameParse residue ⟨payload, p⟩ = some (name, din)) :
    ∃ labels own, LabelsAt payload p p labels own ∧ din = ⟨payload, p + own⟩ := by
  rcases dnsNameParse_outcome residue payload p with ⟨labels, own, name', hparse, hlabels, -⟩ |
    ⟨hnone, -⟩
  · rw [hparse] at h
    obtain ⟨-, rfl⟩ := Prod.mk.inj (Option.some.inj h)
    exact ⟨labels, own, hlabels, rfl⟩
  · rw [hnone] at h
    cases h

theorem dnsQuestionParse_reads {residue : ℕ → ℕ → UInt8} {question : DnsQuestion}
    {din : DnsDataInput}
    (h : dnsQuestionParse residue ⟨payload, p⟩ = some (question, din)) :
    ∃ q, din = ⟨payload, q⟩ ∧ QuestionAt payload p question q := by
  obtain ⟨⟨name, din₁⟩, hname, h⟩ := Option.bind_eq_some_iff.1 h
  obtain ⟨labels, own, hlabels, rfl⟩ := labelsAt_of_parse hname
  dsimp only at h
  split at h
  · cases h
  rename_i hleft
  simp only [rdlen] at hleft
  rw [uint16Read_inside (by omega)] at h
  dsimp only at h
  rw [uint16Read_inside (by omega)] at h
  obtain ⟨rfl, rfl⟩ := Prod.mk.inj (Option.some.inj h)
  exact ⟨_, rfl, labels, own, hlabels, by omega, by omega, toNat_wireField₁₆ _ _,
    toNat_wireField₁₆ _ _⟩

theorem dnsRdataParse_reads {residue : ℕ → ℕ → UInt8} {rdata : DnsRdata} {din : DnsDataInput}
    (hsize : payload.length ≤ 512) (hp : p ≤ payload.length)
    (h : dnsRdataParse residue ⟨payload, p⟩ = some (rdata, din)) :
    ∃ q, din = ⟨payload, q⟩ ∧ RecordAt payload p rdata q := by
  obtain ⟨⟨hbase, hle, hlast⟩, -⟩ := moved_rdata hp h
  obtain ⟨base, q⟩ := din
  obtain rfl : payload = base := hbase.symm
  rw [dnsRdataParse] at h
  split at h
  · cases h
  obtain ⟨⟨name, din₁⟩, hname, h⟩ := Option.bind_eq_some_iff.1 h
  obtain ⟨labels, own, hlabels, rfl⟩ := labelsAt_of_parse hname
  refine ⟨q, rfl, labels, own, hlabels, hle, hlast, fun hten => ?_⟩
  dsimp only at h
  rw [uint16Read_inside (p := p + own) (by omega)] at h
  dsimp only at h
  rw [uint16Read_inside (p := p + own + 2) (by omega)] at h
  dsimp only at h
  rw [uint32Read_inside (p := p + own + 2 + 2) (by omega)] at h
  dsimp only at h
  rw [uint16Read_inside (p := p + own + 2 + 2 + 4) (by omega)] at h
  dsimp only at h
  have hdlen := toNat_wireField₁₆ payload (p + own + 2 + 2 + 4)
  generalize (wireField payload (p + own + 2 + 2 + 4) 2).toUInt16 = dlen at h hdlen
  split at h
  · cases h
  rename_i hleft
  simp only [rdlen] at hleft
  obtain ⟨rfl, hend⟩ := Prod.mk.inj (Option.some.inj h)
  obtain rfl := (DnsDataInput.mk.inj hend).2
  have hlength : ((payload.drop (p + own + 10)).take dlen.toNat).length = dlen.toNat := by
    rw [List.length_take, List.length_drop]
    omega
  refine ⟨toNat_wireField₁₆ _ _, toNat_wireField₁₆ _ _, toNat_wireField₃₂ _ _, hlength.trans hdlen,
    ?_, ?_, ?_⟩
  · exact (congrArg (fun n => (payload.drop (p + own + 10)).take n) hlength).symm
  · dsimp only
    rw [if_pos (by omega)]
    simp
    omega
  · exact congrArg (fun n => p + own + 10 + n) hlength.symm

theorem dnsListParse_reads {α : Type} {parse : DnsDataInput → Option (α × DnsDataInput)}
    {item : ℕ → α → ℕ → Prop}
    (hparse : ∀ {p a din}, p ≤ payload.length → parse ⟨payload, p⟩ = some (a, din) →
      ∃ q ≤ payload.length, din = ⟨payload, q⟩ ∧ item p a q)
    {n : ℕ} {as : List α} {din : DnsDataInput} (hp : p ≤ payload.length)
    (h : dnsListParse parse n ⟨payload, p⟩ = some (as, din)) :
    ∃ q ≤ payload.length, din = ⟨payload, q⟩ ∧ SectionAt payload item n p as q := by
  induction n generalizing p as with
  | zero =>
    obtain ⟨rfl, rfl⟩ := Prod.mk.inj (Option.some.inj h)
    exact ⟨p, hp, rfl, .nil p, .inl rfl⟩
  | succ n ih =>
    rw [dnsListParse] at h
    split at h
    next hempty =>
      obtain ⟨rfl, rfl⟩ := Prod.mk.inj (Option.some.inj h)
      simp only [DnsDataInput.empty, decide_eq_true_eq] at hempty
      exact ⟨p, hp, rfl, .nil p, .inr ⟨Nat.succ_pos n, le_antisymm hp hempty⟩⟩
    next =>
      obtain ⟨⟨a, din₁⟩, ha, h⟩ := Option.bind_eq_some_iff.1 h
      obtain ⟨q₁, hq₁, rfl, hitem⟩ := hparse hp ha
      obtain ⟨⟨bs, din₂⟩, hbs, h⟩ := Option.bind_eq_some_iff.1 h
      obtain ⟨rfl, rfl⟩ := Prod.mk.inj (Option.some.inj h)
      obtain ⟨q, hq, rfl, hrest, hcount⟩ := ih hq₁ hbs
      refine ⟨q, hq, rfl, .cons hitem hrest, ?_⟩
      simpa using hcount

theorem dnsHeaderParse_reads {hdr : DnsHeader} {din : DnsDataInput}
    (h : dnsHeaderParse ⟨payload, 0⟩ = some (hdr, din)) : HeaderAt payload hdr := by
  obtain ⟨-, hinside, -⟩ := dnsHeaderParse_eq h
  rw [dnsHeaderParse] at h
  split at h
  · cases h
  rw [uint16Read_inside (by omega)] at h
  dsimp only at h
  rw [uint16Read_inside (by omega)] at h
  dsimp only at h
  split at h
  · cases h
  iterate 4
    rw [uint16Read_inside (by omega)] at h
    dsimp only at h
  split at h
  · obtain ⟨rfl, -⟩ := Prod.mk.inj (Option.some.inj h)
    exact ⟨hinside, toNat_wireField₁₆ _ _, toNat_wireField₁₆ _ _, toNat_wireField₁₆ _ _,
      toNat_wireField₁₆ _ _, toNat_wireField₁₆ _ _, toNat_wireField₁₆ _ _⟩
  · cases h

/-- An accepted response is read from the message from the header to where its last list ends. -/
theorem dnsResponseParse_reads {residue : ℕ → ℕ → UInt8} {r : DnsResponse}
    (hsize : payload.length ≤ 512) (h : dnsResponseParse residue ⟨payload, 0⟩ = some r) :
    ResponseAt payload r := by
  obtain ⟨⟨hdr, din⟩, hhdr, h⟩ := Option.bind_eq_some_iff.1 h
  obtain ⟨⟨qlist, din₁⟩, hq, h⟩ := Option.bind_eq_some_iff.1 h
  obtain ⟨⟨alist, din₂⟩, han, h⟩ := Option.bind_eq_some_iff.1 h
  obtain ⟨⟨aulist, din₃⟩, hau, h⟩ := Option.bind_eq_some_iff.1 h
  obtain ⟨⟨adlist, din₄⟩, had, h⟩ := Option.bind_eq_some_iff.1 h
  obtain rfl := Option.some.inj h
  have hheader := dnsHeaderParse_reads hhdr
  obtain ⟨rfl, -⟩ := dnsHeaderParse_eq hhdr
  have hquestion : ∀ {p question din}, p ≤ payload.length →
      dnsQuestionParse residue ⟨payload, p⟩ = some (question, din) →
      ∃ q ≤ payload.length, din = ⟨payload, q⟩ ∧ QuestionAt payload p question q := by
    intro p question din _ hparse
    obtain ⟨q, rfl, hat⟩ := dnsQuestionParse_reads hparse
    have hinside : q ≤ payload.length := by
      obtain ⟨-, -, -, -, hle, -⟩ := hat
      exact hle
    exact ⟨q, hinside, rfl, hat⟩
  have hrecord : ∀ {p rdata din}, p ≤ payload.length →
      dnsRdataParse residue ⟨payload, p⟩ = some (rdata, din) →
      ∃ q ≤ payload.length, din = ⟨payload, q⟩ ∧ RecordAt payload p rdata q := by
    intro p rdata din hp hparse
    obtain ⟨q, rfl, hat⟩ := dnsRdataParse_reads hsize hp hparse
    have hinside : q ≤ payload.length := by
      obtain ⟨-, -, -, -, hle, -⟩ := hat
      exact hle
    exact ⟨q, hinside, rfl, hat⟩
  obtain ⟨p₁, hp₁, rfl, hqlist⟩ := dnsListParse_reads hquestion hheader.inside hq
  obtain ⟨p₂, hp₂, rfl, halist⟩ := dnsListParse_reads hrecord hp₁ han
  obtain ⟨p₃, hp₃, rfl, haulist⟩ := dnsListParse_reads hrecord hp₂ hau
  obtain ⟨p₄, -, rfl, hadlist⟩ := dnsListParse_reads hrecord hp₃ had
  exact ⟨hheader, p₁, p₂, p₃, p₄, hqlist, halist, haulist, hadlist⟩

theorem dnsResponseParse_reads_answer :
    ∃ r, answerSession.dnsRes = some r ∧ ResponseAt answerPayload r := by
  have haccepted : dnsResponseParse (fun _ _ => 0) ⟨answerPayload, 0⟩ = answerSession.dnsRes := by
    decide +kernel
  exact ⟨_, rfl, dnsResponseParse_reads (by decide) haccepted⟩

def bareAnswer : List UInt8 := [0, 1, 129, 128, 0, 0, 0, 1, 0, 0, 0, 0]

theorem announced_not_counted :
    ¬ ∀ residue payload r, payload.length ≤ 512 →
      dnsResponseParse residue ⟨payload, 0⟩ = some r → r.alist.length = r.hdr.ancount.toNat := by
  intro h
  have haccepted : dnsResponseParse (fun _ _ => 0) ⟨bareAnswer, 0⟩
      = some ⟨⟨1, 33152, 0, 1, 0, 0⟩, [], [], [], []⟩ := by decide +kernel
  exact absurd (h _ _ _ (by decide) haccepted) (by decide)

end CloudHands.Dns

import CloudHands.Lib.BigEndian
import CloudHands.Lib.Loop
import CloudHands.Lib.Slice

/-!
# The DNS parser

`udp/app/sdns`: a packet is parsed into a header, questions and records. The lists hold
what the packet really contains, which can be less than the header announces, because
every loop stops at the end of the packet.
-/

namespace CloudHands.Dns

open Lib

structure DnsHeader where
  id : UInt16
  flags : UInt16
  qcount : UInt16
  ancount : UInt16
  aucount : UInt16
  adcount : UInt16
deriving DecidableEq

/-- `ch_dns_name_t`, with the `length` bytes that stand at `ndata`. -/
structure DnsName where
  ndata : List UInt8
  labels : UInt16
  short : ndata.length < 2 ^ 16
deriving DecidableEq

structure DnsQuestion where
  qname : DnsName
  qtype : UInt16
  qclass : UInt16
deriving DecidableEq

/-- `ch_dns_rdata_t`; `data` has the length `dlen`. -/
structure DnsRdata where
  name : DnsName
  type : UInt16
  dclass : UInt16
  ttl : UInt32
  pos : UInt16
  data : List UInt8
  short : data.length < 2 ^ 16
deriving DecidableEq

structure DnsRequest where
  hdr : DnsHeader
  questions : List DnsQuestion
deriving DecidableEq

structure DnsResponse where
  hdr : DnsHeader
  qlist : List DnsQuestion
  alist : List DnsRdata
  aulist : List DnsRdata
  adlist : List DnsRdata
deriving DecidableEq

structure DnsSession where
  dnsReq : Option DnsRequest
  dnsRes : Option DnsResponse

/-- The packet from `base` to `last`, and the offset of `pos` in it. -/
structure DnsDataInput where
  base : List UInt8
  pos : ℕ

namespace DnsDataInput

def rdlen (din : DnsDataInput) : ℕ := din.base.length - din.pos

def empty (din : DnsDataInput) : Bool := din.base.length ≤ din.pos

def posUpdate (din : DnsDataInput) (n : ℕ) : DnsDataInput := { din with pos := din.pos + n }

def valueRead (width : ℕ) (din : DnsDataInput) : ℕ × DnsDataInput :=
  if din.base.length < din.pos + width then (0, din)
  else (ofBigEndian ((din.base.drop din.pos).take width), din.posUpdate width)

def uint16Read (din : DnsDataInput) : UInt16 × DnsDataInput :=
  ((din.valueRead 2).1.toUInt16, (din.valueRead 2).2)

def uint32Read (din : DnsDataInput) : UInt32 × DnsDataInput :=
  ((din.valueRead 4).1.toUInt32, (din.valueRead 4).2)

end DnsDataInput

open DnsDataInput

def DNS_NAME_MAXLEN : ℕ := 255

inductive FwState
  | start
  | ordinary
  | newcurrent
deriving DecidableEq

/-- The variables of `ch_dns_name_parse`; `cdata` is always `base + current`. -/
structure NameState where
  ndata : List UInt8
  cused : ℕ
  nused : ℕ
  labels : ℕ
  n : ℕ
  len : ℕ
  current : ℕ
  newCurrent : ℕ
  biggestPointer : ℕ
  done : Bool
  seenPointer : Bool
  state : FwState

def nameInit (pos : ℕ) : NameState := ⟨[], 0, 0, 0, 0, 0, pos, 0, pos, false, false, .start⟩

/-- The label length or pointer byte `c`. -/
def nameStart (nmax : ℕ) (s : NameState) (c : ℕ) : Iter NameState (Option NameState) :=
  if c < 64 then
    let labels := if c ≠ 0 then s.labels + 1 else s.labels
    if nmax < s.nused + c + 1 then .leave none
    else
      let dot := labels ≠ 1 ∧ c ≠ 0
      .next { s with
        labels
        nused := s.nused + c + 1
        ndata := if dot then s.ndata ++ [46] else s.ndata
        len := s.len + c + if dot then 1 else 0
        done := c = 0
        n := c
        state := .ordinary }
  else if 128 ≤ c ∧ c < 192 then .leave none
  else if 192 ≤ c then .next { s with newCurrent := c % 64, state := .newcurrent }
  else .leave none

def nameTake (s : NameState) : NameState :=
  { s with
    current := s.current + 1
    cused := if s.seenPointer then s.cused else s.cused + 1 }

/-- The `switch` on the state, for the byte `b`. -/
def nameByte (nmax : ℕ) (s : NameState) (b : UInt8) : Iter NameState (Option NameState) :=
  match s.state with
  | .start => nameStart nmax s b.toNat
  | .ordinary =>
    .next { s with
      ndata := s.ndata ++ [b]
      n := s.n - 1
      state := if s.n - 1 = 0 then .start else .ordinary }
  | .newcurrent =>
    let target := s.newCurrent * 256 + b.toNat
    if s.biggestPointer ≤ target then .leave none
    else
      .next { s with
        newCurrent := target
        biggestPointer := target
        current := target
        seenPointer := true
        state := .start }

def nameIter (base : List UInt8) (nmax : ℕ) (s : NameState) : Iter NameState (Option NameState) :=
  if s.done then .leave (some s)
  else
    match base[s.current]? with
    | none => .leave (some s)
    | some b => nameByte nmax (nameTake s) b

def nameMeasure (base : List UInt8) (s : NameState) : ℕ :=
  s.biggestPointer * (base.length + 1) + (base.length - s.current)

def nameFuel (base : List UInt8) (pos : ℕ) : ℕ := pos * (base.length + 1) + base.length + 1

/-- The C string that `ch_psprintf` copies, its end, and behind it the other bytes of the
pool up to the length. -/
def cstrBytes (residue : ℕ → UInt8) (text : List UInt8) (length : ℕ) : List UInt8 :=
  let cstr := text.takeWhile (· ≠ 0)
  (cstr ++ 0 :: (List.range length).map residue).take length

theorem length_cstrBytes (residue : ℕ → UInt8) (text : List UInt8) (length : ℕ) :
    (cstrBytes residue text length).length = length := by
  simp [cstrBytes]
  omega

/-- `residue` is what the pool holds behind the copy of the name at an offset. -/
def dnsNameParse (residue : ℕ → ℕ → UInt8) (din : DnsDataInput) : Option (DnsName × DnsDataInput) :=
  let nmax := min din.base.length DNS_NAME_MAXLEN
  match loop (nameIter din.base nmax) (nameFuel din.base din.pos) (nameInit din.pos) with
  | some (some s) =>
    if s.done then
      some (⟨cstrBytes (residue din.pos) s.ndata (s.len % 2 ^ 16), s.labels.toUInt16,
        by rw [length_cstrBytes]; omega⟩, din.posUpdate s.cused)
    else none
  | _ => none

def dnsQuestionParse (residue : ℕ → ℕ → UInt8) (din : DnsDataInput) :
    Option (DnsQuestion × DnsDataInput) := do
  let (qname, din) ← dnsNameParse residue din
  if din.rdlen < 4 then none
  else
    let (qtype, din) := din.uint16Read
    let (qclass, din) := din.uint16Read
    some (⟨qname, qtype, qclass⟩, din)

def dnsRdataParse (residue : ℕ → ℕ → UInt8) (din : DnsDataInput) :
    Option (DnsRdata × DnsDataInput) :=
  if din.rdlen < 10 then none
  else do
    let (name, din) ← dnsNameParse residue din
    let (type, din) := din.uint16Read
    let (dclass, din) := din.uint16Read
    let (ttl, din) := din.uint32Read
    let (dlen, din) := din.uint16Read
    if din.rdlen < dlen.toNat then none
    else
      let data := (din.base.drop din.pos).take dlen.toNat
      let pos := if 0 < din.pos then (din.pos - 1).toUInt16 else 0
      have hdata : data.length < 2 ^ 16 := by
        have hdlen := dlen.toNat_lt
        simp only [data, List.length_take]
        omega
      some (⟨name, type, dclass, ttl, pos, data, hdata⟩, din.posUpdate dlen.toNat)

def dnsListParse {α : Type} (parse : DnsDataInput → Option (α × DnsDataInput)) :
    ℕ → DnsDataInput → Option (List α × DnsDataInput)
  | 0, din => some ([], din)
  | n + 1, din =>
    if din.empty then some ([], din)
    else do
      let (a, din) ← parse din
      let (as, din) ← dnsListParse parse n din
      some (a :: as, din)

def checkIntv (v : UInt16) : Bool := v.toNat < 1000

def dnsHeaderParse (din : DnsDataInput) : Option (DnsHeader × DnsDataInput) :=
  if din.rdlen < 12 then none
  else
    let (id, din) := din.uint16Read
    let (flags, din) := din.uint16Read
    if 5 < flags.toNat % 16 then none
    else
      let (qcount, din) := din.uint16Read
      let (ancount, din) := din.uint16Read
      let (aucount, din) := din.uint16Read
      let (adcount, din) := din.uint16Read
      if checkIntv qcount ∧ checkIntv ancount ∧ checkIntv aucount ∧ checkIntv adcount then
        some (⟨id, flags, qcount, ancount, aucount, adcount⟩, din)
      else none

def dnsRequestParse (residue : ℕ → ℕ → UInt8) (din : DnsDataInput) : Option DnsRequest := do
  let (hdr, din) ← dnsHeaderParse din
  let (questions, _) ← dnsListParse (dnsQuestionParse residue) hdr.qcount.toNat din
  some ⟨hdr, questions⟩

def dnsResponseParse (residue : ℕ → ℕ → UInt8) (din : DnsDataInput) : Option DnsResponse := do
  let (hdr, din) ← dnsHeaderParse din
  let (qlist, din) ← dnsListParse (dnsQuestionParse residue) hdr.qcount.toNat din
  let (alist, din) ← dnsListParse (dnsRdataParse residue) hdr.ancount.toNat din
  let (aulist, din) ← dnsListParse (dnsRdataParse residue) hdr.aucount.toNat din
  let (adlist, _) ← dnsListParse (dnsRdataParse residue) hdr.adcount.toNat din
  some ⟨hdr, qlist, alist, aulist, adlist⟩

inductive ProcessResult
  | processContinue
  | processDone
  | processErr
deriving DecidableEq

/-- `_dns_req_pkt_process`; only the first request of a session is kept. -/
def dnsReqPktProcess (residue : ℕ → ℕ → UInt8) (s : DnsSession) (payload : List UInt8) :
    DnsSession × ProcessResult :=
  if s.dnsReq.isSome ∨ payload = [] then (s, .processContinue)
  else if 512 < payload.length then (s, .processErr)
  else
    match dnsRequestParse residue ⟨payload, 0⟩ with
    | some r => ({ s with dnsReq := some r }, .processContinue)
    | none => (s, .processErr)

def dnsResPktProcess (residue : ℕ → ℕ → UInt8) (s : DnsSession) (payload : List UInt8) :
    DnsSession × ProcessResult :=
  if s.dnsRes.isSome then (s, .processDone)
  else if payload = [] then (s, .processContinue)
  else if 512 < payload.length then (s, .processErr)
  else
    match dnsResponseParse residue ⟨payload, 0⟩ with
    | some r => ({ s with dnsRes := some r }, .processDone)
    | none => (s, .processErr)

theorem nameStart_next {nmax c : ℕ} {s s' : NameState} (h : nameStart nmax s c = .next s') :
    s'.current = s.current ∧ s'.cused = s.cused ∧ s'.biggestPointer = s.biggestPointer ∧
      s'.seenPointer = s.seenPointer := by
  rw [nameStart] at h
  split_ifs at h
  all_goals
    obtain rfl := Iter.next.inj h
    exact ⟨rfl, rfl, rfl, rfl⟩

theorem nameByte_next {nmax : ℕ} {b : UInt8} {s s' : NameState} (h : nameByte nmax s b = .next s') :
    s'.cused = s.cused ∧
      (s'.current = s.current ∧ s'.biggestPointer = s.biggestPointer ∧
          s'.seenPointer = s.seenPointer ∨
        s'.biggestPointer < s.biggestPointer ∧ s'.seenPointer = true) := by
  rw [nameByte] at h
  split at h
  · obtain ⟨hcurrent, hcused, hpointer, hseen⟩ := nameStart_next h
    exact ⟨hcused, .inl ⟨hcurrent, hpointer, hseen⟩⟩
  · obtain rfl := Iter.next.inj h
    exact ⟨rfl, .inl ⟨rfl, rfl, rfl⟩⟩
  · dsimp only at h
    split at h
    · cases h
    rename_i hlt
    obtain rfl := Iter.next.inj h
    exact ⟨rfl, .inr ⟨not_le.1 hlt, rfl⟩⟩

theorem nameByte_leave {nmax : ℕ} {b : UInt8} {s : NameState} {r : Option NameState}
    (h : nameByte nmax s b = .leave r) : r = none := by
  rw [nameByte] at h
  split at h
  · rw [nameStart] at h
    split_ifs at h
    all_goals exact (Iter.leave.inj h).symm
  · cases h
  · dsimp only at h
    split at h
    · exact (Iter.leave.inj h).symm
    · cases h

theorem nameIter_next {base : List UInt8} {nmax : ℕ} {s s' : NameState}
    (h : nameIter base nmax s = .next s') :
    s.current < base.length ∧ ∃ b, nameByte nmax (nameTake s) b = .next s' := by
  rw [nameIter] at h
  split at h
  · cases h
  split at h
  · cases h
  rename_i b hb
  exact ⟨(List.getElem?_eq_some_iff.1 hb).1, b, h⟩

theorem nameIter_leave {base : List UInt8} {nmax : ℕ} {s : NameState} {r : Option NameState}
    (h : nameIter base nmax s = .leave r) : r = some s ∨ r = none := by
  rw [nameIter] at h
  split at h
  · exact .inl (Iter.leave.inj h).symm
  split at h
  · exact .inl (Iter.leave.inj h).symm
  · exact .inr (nameByte_leave h)

theorem nameMeasure_lt {base : List UInt8} {nmax : ℕ} {s s' : NameState}
    (h : nameIter base nmax s = .next s') : nameMeasure base s' < nameMeasure base s := by
  obtain ⟨hcurrent, b, hbyte⟩ := nameIter_next h
  obtain ⟨-, ⟨hnext, hsame, -⟩ | ⟨hlt, -⟩⟩ := nameByte_next hbyte
  · rw [nameMeasure, nameMeasure, hnext, hsame]
    simp only [nameTake]
    omega
  · have hmul : (s'.biggestPointer + 1) * (base.length + 1) ≤
        s.biggestPointer * (base.length + 1) :=
      Nat.mul_le_mul_right _ hlt
    rw [Nat.add_mul] at hmul
    rw [nameMeasure, nameMeasure]
    omega

theorem nameLoop_ends (base : List UInt8) (nmax pos : ℕ) :
    ∃ r, loop (nameIter base nmax) (nameFuel base pos) (nameInit pos) = some r := by
  have hfuel : nameMeasure base (nameInit pos) < nameFuel base pos := by
    simp only [nameMeasure, nameInit, nameFuel]
    omega
  obtain ⟨r, hr, -⟩ := loop_spec (nameMeasure base) (fun _ => True) (fun _ _ => True)
    (fun _ _ h => ⟨trivial, nameMeasure_lt h, fun _ _ => trivial⟩)
    (fun _ _ _ => trivial) trivial hfuel (loopAll_true _ _ _)
  exact ⟨r, hr⟩

def NameAt (base : List UInt8) (pos : ℕ) (s : NameState) : Prop :=
  (s.seenPointer = false → s.current = pos + s.cused) ∧ pos + s.cused ≤ base.length

theorem nameIter_at {base : List UInt8} {nmax pos : ℕ} {s s' : NameState} (hs : NameAt base pos s)
    (h : nameIter base nmax s = .next s') : NameAt base pos s' := by
  obtain ⟨hcurrent, b, hbyte⟩ := nameIter_next h
  obtain ⟨hpassed, hused⟩ := hs
  have htaken : NameAt base pos (nameTake s) := by
    rw [NameAt, nameTake]
    cases hseen : s.seenPointer with
    | false =>
      have hat := hpassed hseen
      exact ⟨fun _ => by simp [hat, Nat.add_assoc], by simp; omega⟩
    | true => exact ⟨nofun, by simpa using hused⟩
  obtain ⟨hcused, ⟨hsame, -, hseen⟩ | ⟨-, hjump⟩⟩ := nameByte_next hbyte
  · rw [NameAt, hcused, hsame, hseen]
    exact htaken
  · rw [NameAt, hcused, hjump]
    exact ⟨nofun, htaken.2⟩

def Moved (din din' : DnsDataInput) : Prop :=
  din'.base = din.base ∧ din.pos ≤ din'.pos ∧ din'.pos ≤ din.base.length

theorem Moved.trans {din din' din'' : DnsDataInput} (h : Moved din din') (h' : Moved din' din'') :
    Moved din din'' := by
  obtain ⟨hbase, hle, -⟩ := h
  obtain ⟨hbase', hle', hlast⟩ := h'
  exact ⟨hbase'.trans hbase, hle.trans hle', hbase ▸ hlast⟩

theorem Moved.refl {din : DnsDataInput} (h : din.pos ≤ din.base.length) : Moved din din :=
  ⟨rfl, le_rfl, h⟩

theorem Moved.last {din din' : DnsDataInput} (h : Moved din din') :
    din'.pos ≤ din'.base.length := by
  rw [h.1]
  exact h.2.2

theorem moved_valueRead {din : DnsDataInput} (h : din.pos ≤ din.base.length) (width : ℕ) :
    Moved din (din.valueRead width).2 := by
  rw [valueRead]
  split
  · exact Moved.refl h
  · exact ⟨rfl, by simp [posUpdate], by simp [posUpdate]; omega⟩

theorem moved_uint16 {din : DnsDataInput} (h : din.pos ≤ din.base.length) :
    Moved din din.uint16Read.2 := moved_valueRead h 2

theorem moved_uint32 {din : DnsDataInput} (h : din.pos ≤ din.base.length) :
    Moved din din.uint32Read.2 := moved_valueRead h 4

theorem moved_name {residue : ℕ → ℕ → UInt8} {din din' : DnsDataInput} {name : DnsName}
    (hlast : din.pos ≤ din.base.length) (h : dnsNameParse residue din = some (name, din')) :
    Moved din din' := by
  rw [dnsNameParse] at h
  split at h
  · rename_i s hloop
    have hinit : NameAt din.base din.pos (nameInit din.pos) := ⟨fun _ => rfl, hlast⟩
    have hend : ∀ t ∈ (some s : Option NameState), NameAt din.base din.pos t := by
      refine loop_invariant (NameAt din.base din.pos)
        (fun r => ∀ t ∈ r, NameAt din.base din.pos t) nameIter_at ?_ hinit hloop
      intro u r hu hleave
      rcases nameIter_leave hleave with rfl | rfl
      · simpa using hu
      · simp
    split at h
    · obtain ⟨-, rfl⟩ := Prod.mk.inj (Option.some.inj h)
      exact ⟨rfl, by simp [posUpdate], (hend s rfl).2⟩
    · cases h
  · cases h

theorem moved_question {residue : ℕ → ℕ → UInt8} {din din' : DnsDataInput} {q : DnsQuestion}
    (hlast : din.pos ≤ din.base.length) (h : dnsQuestionParse residue din = some (q, din')) :
    Moved din din' := by
  obtain ⟨⟨name, din₁⟩, hname, h⟩ := Option.bind_eq_some_iff.1 h
  have hmoved := moved_name hlast hname
  dsimp only at h
  split at h
  · cases h
  have hread := moved_uint16 hmoved.last
  obtain ⟨-, rfl⟩ := Prod.mk.inj (Option.some.inj h)
  exact hmoved.trans (hread.trans (moved_uint16 hread.last))

theorem moved_rdata {residue : ℕ → ℕ → UInt8} {din din' : DnsDataInput} {r : DnsRdata}
    (hlast : din.pos ≤ din.base.length) (h : dnsRdataParse residue din = some (r, din')) :
    Moved din din' ∧ ∃ din₁, Moved din din₁ ∧
      r.pos = if 0 < din₁.pos then (din₁.pos - 1).toUInt16 else 0 := by
  rw [dnsRdataParse] at h
  split at h
  · cases h
  obtain ⟨⟨name, din₁⟩, hname, h⟩ := Option.bind_eq_some_iff.1 h
  have hmoved := moved_name hlast hname
  have hread₁ := moved_uint16 hmoved.last
  have hread₂ := hread₁.trans (moved_uint16 hread₁.last)
  have hread₃ := hread₂.trans (moved_uint32 hread₂.last)
  have hread₄ := hread₃.trans (moved_uint16 hread₃.last)
  have hall := hmoved.trans hread₄
  dsimp only at h
  generalize din₁.uint16Read.2.uint16Read.2.uint32Read.2.uint16Read = last at h hall
  split at h
  · cases h
  rename_i hdlen
  obtain ⟨rfl, rfl⟩ := Prod.mk.inj (Option.some.inj h)
  have hend := hall.last
  rw [rdlen, not_lt] at hdlen
  exact ⟨hall.trans ⟨rfl, by simp [posUpdate], by simp only [posUpdate]; omega⟩, last.2, hall, rfl⟩

theorem moved_list {α : Type} {parse : DnsDataInput → Option (α × DnsDataInput)} {P : α → Prop}
    {start : DnsDataInput}
    (hparse : ∀ {din a din'}, Moved start din → parse din = some (a, din') → Moved din din' ∧ P a)
    {n : ℕ} {din din' : DnsDataInput} {as : List α} (hstart : Moved start din)
    (h : dnsListParse parse n din = some (as, din')) :
    Moved start din' ∧ as.length ≤ n ∧ ∀ a ∈ as, P a := by
  induction n generalizing din as with
  | zero =>
    obtain ⟨rfl, rfl⟩ := Prod.mk.inj (Option.some.inj h)
    exact ⟨hstart, le_rfl, by simp⟩
  | succ n ih =>
    rw [dnsListParse] at h
    split at h
    · obtain ⟨rfl, rfl⟩ := Prod.mk.inj (Option.some.inj h)
      exact ⟨hstart, by simp, by simp⟩
    obtain ⟨⟨a, din₁⟩, ha, h⟩ := Option.bind_eq_some_iff.1 h
    obtain ⟨⟨bs, din₂⟩, hbs, h⟩ := Option.bind_eq_some_iff.1 h
    obtain ⟨rfl, rfl⟩ := Prod.mk.inj (Option.some.inj h)
    obtain ⟨hmoved, hP⟩ := hparse hstart ha
    obtain ⟨hend, hlen, hall⟩ := ih (hstart.trans hmoved) hbs
    exact ⟨hend, by simpa using hlen, List.forall_mem_cons.2 ⟨hP, hall⟩⟩

theorem dnsHeaderParse_eq {payload : List UInt8} {hdr : DnsHeader} {din : DnsDataInput}
    (h : dnsHeaderParse ⟨payload, 0⟩ = some (hdr, din)) :
    din = ⟨payload, 12⟩ ∧ 12 ≤ payload.length ∧ hdr.qcount.toNat < 1000 ∧ hdr.ancount.toNat < 1000 ∧
      hdr.aucount.toNat < 1000 ∧ hdr.adcount.toNat < 1000 := by
  rw [dnsHeaderParse] at h
  split at h
  · cases h
  rename_i hlen
  simp only [rdlen, Nat.sub_zero, not_lt] at hlen
  have hmove : ∀ pos, pos + 2 ≤ 12 →
      (uint16Read ⟨payload, pos⟩).2 = ⟨payload, pos + 2⟩ := by
    intro pos hpos
    simp only [uint16Read, valueRead]
    rw [if_neg (by omega)]
    rfl
  dsimp only at h
  split at h
  · cases h
  split at h
  · rename_i hcheck
    simp only [checkIntv, decide_eq_true_eq] at hcheck
    obtain ⟨rfl, rfl⟩ := Prod.mk.inj (Option.some.inj h)
    refine ⟨?_, hlen, hcheck⟩
    rw [hmove 0 (by omega), hmove 2 (by omega), hmove 4 (by omega), hmove 6 (by omega),
      hmove 8 (by omega), hmove 10 (by omega)]
  · cases h

def RequestAccepted (r : DnsRequest) : Prop :=
  ∃ residue payload, payload.length ≤ 512 ∧ dnsRequestParse residue ⟨payload, 0⟩ = some r

def ResponseAccepted (r : DnsResponse) : Prop :=
  ∃ residue payload, payload.length ≤ 512 ∧ dnsResponseParse residue ⟨payload, 0⟩ = some r

def PartsAccepted (s : DnsSession) : Prop :=
  (∀ r ∈ s.dnsReq, RequestAccepted r) ∧ ∀ r ∈ s.dnsRes, ResponseAccepted r

/-- A session that can be written: it has a request or a response. -/
def SessionAccepted (s : DnsSession) : Prop :=
  PartsAccepted s ∧ (s.dnsReq.isSome ∨ s.dnsRes.isSome)

theorem not_bothNone {s : DnsSession} (h : s.dnsReq.isSome ∨ s.dnsRes.isSome) :
    ¬ (s.dnsReq.isNone ∧ s.dnsRes.isNone) := by
  rintro ⟨hreq, hres⟩
  rcases h with h | h
  · simp [Option.isNone_iff_eq_none.1 hreq] at h
  · simp [Option.isNone_iff_eq_none.1 hres] at h

theorem dnsReqPktProcess_accepted {s : DnsSession} (hs : PartsAccepted s) (residue : ℕ → ℕ → UInt8)
    (payload : List UInt8) : PartsAccepted (dnsReqPktProcess residue s payload).1 := by
  rw [dnsReqPktProcess]
  split_ifs with hkeep hlong
  · exact hs
  · exact hs
  · cases hparse : dnsRequestParse residue ⟨payload, 0⟩ with
    | none => exact hs
    | some r =>
      refine ⟨fun r' hr' => ?_, hs.2⟩
      obtain rfl := Option.some.inj hr'
      exact ⟨residue, payload, not_lt.1 hlong, hparse⟩

theorem dnsResPktProcess_accepted {s : DnsSession} (hs : PartsAccepted s) (residue : ℕ → ℕ → UInt8)
    (payload : List UInt8) : PartsAccepted (dnsResPktProcess residue s payload).1 := by
  rw [dnsResPktProcess]
  split_ifs with hkeep hnil hlong
  · exact hs
  · exact hs
  · exact hs
  · cases hparse : dnsResponseParse residue ⟨payload, 0⟩ with
    | none => exact hs
    | some r =>
      refine ⟨hs.1, fun r' hr' => ?_⟩
      obtain rfl := Option.some.inj hr'
      exact ⟨residue, payload, not_lt.1 hlong, hparse⟩

structure DnsPacket where
  isReq : Bool
  residue : ℕ → ℕ → UInt8
  payload : List UInt8

def dnsPktProcess (s : DnsSession) (pkt : DnsPacket) : DnsSession :=
  if pkt.isReq then (dnsReqPktProcess pkt.residue s pkt.payload).1
  else (dnsResPktProcess pkt.residue s pkt.payload).1

theorem partsAccepted_of_packets (pkts : List DnsPacket) :
    PartsAccepted (pkts.foldl dnsPktProcess ⟨none, none⟩) := by
  have hkeep : ∀ s : DnsSession, PartsAccepted s → PartsAccepted (pkts.foldl dnsPktProcess s) := by
    induction pkts with
    | nil => exact fun s hs => hs
    | cons pkt pkts ih =>
      intro s hs
      refine ih _ ?_
      rw [dnsPktProcess]
      split
      · exact dnsReqPktProcess_accepted hs _ _
      · exact dnsResPktProcess_accepted hs _ _
  exact hkeep _ ⟨by simp, by simp⟩

theorem RequestAccepted.questions_le {r : DnsRequest} (h : RequestAccepted r) :
    r.questions.length ≤ r.hdr.qcount.toNat ∧ r.hdr.qcount.toNat < 1000 := by
  obtain ⟨residue, payload, -, h⟩ := h
  obtain ⟨⟨hdr, din⟩, hhdr, h⟩ := Option.bind_eq_some_iff.1 h
  obtain ⟨⟨questions, din'⟩, hquestions, h⟩ := Option.bind_eq_some_iff.1 h
  obtain rfl := Option.some.inj h
  obtain ⟨rfl, hlen, hq, -⟩ := dnsHeaderParse_eq hhdr
  have hlist := moved_list (P := fun _ => True)
    (fun hstart hq => ⟨moved_question hstart.last hq, trivial⟩) (Moved.refl hlen) hquestions
  exact ⟨hlist.2.1, hq⟩

structure ResponseShape (r : DnsResponse) : Prop where
  qcount : r.qlist.length ≤ r.hdr.qcount.toNat ∧ r.hdr.qcount.toNat < 1000
  ancount : r.alist.length ≤ r.hdr.ancount.toNat ∧ r.hdr.ancount.toNat < 1000
  aucount : r.aulist.length ≤ r.hdr.aucount.toNat ∧ r.hdr.aucount.toNat < 1000
  adcount : r.adlist.length ≤ r.hdr.adcount.toNat ∧ r.hdr.adcount.toNat < 1000
  pos : ∀ rdata ∈ r.alist ++ r.aulist ++ r.adlist, rdata.pos ≠ 0

theorem rdata_pos_ne_zero {payload : List UInt8} {din : DnsDataInput} {pos : UInt16}
    (hlen : payload.length ≤ 512) (hmoved : Moved ⟨payload, 12⟩ din)
    (hpos : pos = if 0 < din.pos then (din.pos - 1).toUInt16 else 0) : pos ≠ 0 := by
  obtain ⟨-, hfrom, hlast⟩ := hmoved
  simp only at hfrom hlast
  rw [if_pos (by omega)] at hpos
  rw [hpos, ne_eq, ← UInt16.toNat_inj]
  simp
  omega

theorem ResponseAccepted.shape {r : DnsResponse} (h : ResponseAccepted r) : ResponseShape r := by
  obtain ⟨residue, payload, hsize, h⟩ := h
  obtain ⟨⟨hdr, din⟩, hhdr, h⟩ := Option.bind_eq_some_iff.1 h
  obtain ⟨⟨qlist, din₁⟩, hq, h⟩ := Option.bind_eq_some_iff.1 h
  obtain ⟨⟨alist, din₂⟩, han, h⟩ := Option.bind_eq_some_iff.1 h
  obtain ⟨⟨aulist, din₃⟩, hau, h⟩ := Option.bind_eq_some_iff.1 h
  obtain ⟨⟨adlist, din₄⟩, had, h⟩ := Option.bind_eq_some_iff.1 h
  obtain rfl := Option.some.inj h
  obtain ⟨rfl, hlen, hqc, hanc, hauc, hadc⟩ := dnsHeaderParse_eq hhdr
  have hrdata : ∀ {din rdata din'}, Moved ⟨payload, 12⟩ din →
      dnsRdataParse residue din = some (rdata, din') → Moved din din' ∧ rdata.pos ≠ 0 := by
    intro din rdata din' hstart hparse
    obtain ⟨hmoved, din₀, hdata, hpos⟩ := moved_rdata hstart.last hparse
    exact ⟨hmoved, rdata_pos_ne_zero hsize (hstart.trans hdata) hpos⟩
  obtain ⟨hmoved₁, hqlen, -⟩ := moved_list (P := fun _ => True)
    (fun hstart hq => ⟨moved_question hstart.last hq, trivial⟩) (Moved.refl hlen) hq
  obtain ⟨hmoved₂, hanlen, hanpos⟩ := moved_list hrdata hmoved₁ han
  obtain ⟨hmoved₃, haulen, haupos⟩ := moved_list hrdata hmoved₂ hau
  obtain ⟨-, hadlen, hadpos⟩ := moved_list hrdata hmoved₃ had
  refine ⟨⟨hqlen, hqc⟩, ⟨hanlen, hanc⟩, ⟨haulen, hauc⟩, ⟨hadlen, hadc⟩, ?_⟩
  intro rdata hmem
  rcases List.mem_append.1 hmem with hmem | hmem
  · rcases List.mem_append.1 hmem with hmem | hmem
    exacts [hanpos rdata hmem, haupos rdata hmem]
  · exact hadpos rdata hmem

section Packets

/-- A query for the name `a`. -/
def queryPayload : List UInt8 := [0, 1, 1, 0, 0, 1, 0, 0, 0, 0, 0, 0, 1, 97, 0, 0, 1, 0, 1]

def answerPayload : List UInt8 :=
  [0, 1, 129, 128, 0, 1, 0, 1, 0, 0, 0, 0, 1, 97, 0, 0, 1, 0, 1,
    192, 12, 0, 1, 0, 1, 0, 0, 0, 60, 0, 4, 1, 2, 3, 4]

def nameA : DnsName := ⟨[97], 1, by decide⟩

def querySession : DnsSession := ⟨some ⟨⟨1, 256, 1, 0, 0, 0⟩, [⟨nameA, 1, 1⟩]⟩, none⟩

def answerSession : DnsSession :=
  ⟨none, some ⟨⟨1, 33152, 1, 1, 0, 0⟩, [⟨nameA, 1, 1⟩],
    [⟨nameA, 1, 1, 60, 30, [1, 2, 3, 4], by decide⟩],
    [], []⟩⟩

def bareSession : DnsSession := ⟨some ⟨⟨1, 256, 0, 0, 0, 0⟩, []⟩, none⟩

theorem bareSession_accepted : SessionAccepted bareSession := by
  refine ⟨⟨fun r hr => ?_, by simp [bareSession]⟩, .inl rfl⟩
  obtain rfl := Option.some.inj hr
  exact ⟨fun _ _ => 0, [0, 1, 1, 0, 0, 0, 0, 0, 0, 0, 0, 0], by decide, by decide +kernel⟩

theorem querySession_accepted : SessionAccepted querySession := by
  refine ⟨⟨fun r hr => ?_, by simp [querySession]⟩, .inl rfl⟩
  obtain rfl := Option.some.inj hr
  exact ⟨fun _ _ => 0, queryPayload, by decide, by decide +kernel⟩

theorem answerSession_accepted : SessionAccepted answerSession := by
  refine ⟨⟨by simp [answerSession], fun r hr => ?_⟩, .inr rfl⟩
  obtain rfl := Option.some.inj hr
  exact ⟨fun _ _ => 0, answerPayload, by decide, by decide +kernel⟩

end Packets

end CloudHands.Dns

import CloudHands.Http.Session
import CloudHands.Lib.Word
import CloudHands.Udp.Session

/-!
# The content of monitored sessions

`tcp/app/smon/do_smon_parse.c` and `udp/app/smon/ch_smon_app.c`. The payload of a direction is
appended to a file until the direction has its limit. The two applications differ in that only the
one for TCP counts what it stores.
-/

namespace CloudHands.Smon

open Http (Dir)
open Udp (ProcessRc)
open CloudHands.Word (add)

/-- The fields `max_req_size` and `max_res_size` of the contexts. -/
structure SmonContext where
  maxReqSize : ℕ
  maxResSize : ℕ

def SmonContext.maxSize (ctx : SmonContext) : Dir → ℕ
  | .request => ctx.maxReqSize
  | .response => ctx.maxResSize

structure SmonBody where
  file : Option (List UInt8)
  curSize : ℕ
deriving DecidableEq, Repr

/-- `ch_smon_session_entry_t` and `ch_smon_session_t`. -/
structure SmonEntry where
  req : SmonBody
  res : SmonBody
deriving DecidableEq, Repr

def SmonEntry.init : SmonEntry := ⟨⟨none, 0⟩, ⟨none, 0⟩⟩

def SmonEntry.body (e : SmonEntry) : Dir → SmonBody
  | .request => e.req
  | .response => e.res

def SmonEntry.setBody (e : SmonEntry) (b : SmonBody) : Dir → SmonEntry
  | .request => { e with req := b }
  | .response => { e with res := b }

/-- A payload; `bodyStore` and `opens` tell whether the store for bodies is found, which the udp
process does not need, and whether a file can be opened. -/
structure SmonPiece where
  dir : Dir
  data : List UInt8
  bodyStore : Bool
  opens : Bool
deriving DecidableEq

/-- `is_over_size`. -/
def isOverSize (max curSize : ℕ) : Bool := 0 < max && max ≤ curSize

/-- `_is_parse_ok`. -/
def isParseOk (ctx : SmonContext) (e : SmonEntry) : Bool :=
  isOverSize ctx.maxReqSize e.req.curSize && isOverSize ctx.maxResSize e.res.curSize

/-- What the two functions `_do_content_process` have in common; none is an error. -/
def contentProcess (counts : Bool) (ctx : SmonContext) (e : SmonEntry) (p : SmonPiece) :
    Option SmonEntry :=
  let b := e.body p.dir
  if isOverSize (ctx.maxSize p.dir) b.curSize then some e
  else if b.file = none ∧ ¬ p.opens then none
  else
    let curSize := if counts then add 64 b.curSize p.data.length else b.curSize
    some (e.setBody ⟨some (b.file.getD [] ++ p.data), curSize⟩ p.dir)

def tcpContentProcess (ctx : SmonContext) (e : SmonEntry) (p : SmonPiece) : Option SmonEntry :=
  if p.bodyStore then contentProcess true ctx e p else none

def udpContentProcess (ctx : SmonContext) (e : SmonEntry) (p : SmonPiece) : Option SmonEntry :=
  contentProcess false ctx e p

inductive ParseRc
  | done
  | continue
  | break
deriving DecidableEq, Repr

/-- `do_smon_request_parse` and `do_smon_response_parse`. -/
def smonParse (ctx : SmonContext) (e : SmonEntry) (p : SmonPiece) : ParseRc × SmonEntry :=
  match tcpContentProcess ctx e p with
  | none => (.break, e)
  | some e => (if isParseOk ctx e then .done else .continue, e)

/-- `_smon_req_pkt_process` and `_smon_res_pkt_process`. -/
def smonPktProcess (ctx : SmonContext) (e : SmonEntry) (p : SmonPiece) : ProcessRc × SmonEntry :=
  if p.data = [] then (.continue, e)
  else
    match udpContentProcess ctx e p with
    | none => (.err, e)
    | some e => (if isParseOk ctx e then .done else .continue, e)

structure SmonConn where
  entry : SmonEntry
  closed : Bool
deriving DecidableEq, Repr

def SmonConn.init : SmonConn := ⟨.init, false⟩

def SmonConn.parse (ctx : SmonContext) (c : SmonConn) (p : SmonPiece) : SmonConn :=
  if c.closed then c
  else
    let r := smonParse ctx c.entry p
    ⟨r.2, r.1 = .break⟩

/-- The udp session is closed where the application does not go on. -/
def SmonConn.process (ctx : SmonContext) (c : SmonConn) (p : SmonPiece) : SmonConn :=
  if c.closed then c
  else
    let r := smonPktProcess ctx c.entry p
    ⟨r.2, r.1 ≠ .continue⟩

def dataOf (dir : Dir) (pieces : List SmonPiece) : List (List UInt8) :=
  (pieces.filter (·.dir = dir)).map (·.data)

def Captured (max : ℕ) (payloads : List (List UInt8)) (content : List UInt8) : Prop :=
  ∃ k ≤ payloads.length, content = (payloads.take k).flatten ∧
    (k = payloads.length ∨ isOverSize max content.length = true) ∧
    ∀ j < k, isOverSize max ((payloads.take j).flatten).length = false

def SmonEntry.content (e : SmonEntry) (dir : Dir) : List UInt8 := (e.body dir).file.getD []

section Capture

variable {max : ℕ} {payloads : List (List UInt8)} {content data : List UInt8}

theorem captured_nil (max : ℕ) : Captured max [] [] :=
  ⟨0, Nat.le_refl 0, rfl, .inl rfl, fun j hj => absurd hj (Nat.not_lt_zero j)⟩

theorem Captured.skip (h : Captured max payloads content)
    (hover : isOverSize max content.length = true) :
    Captured max (payloads ++ [data]) content := by
  obtain ⟨k, hk, hcontent, -, hless⟩ := h
  refine ⟨k, by rw [List.length_append]; omega, ?_, .inr hover, fun j hj => ?_⟩
  · rw [List.take_append_of_le_length hk, hcontent]
  · rw [List.take_append_of_le_length (by omega)]
    exact hless j hj

theorem Captured.append (h : Captured max payloads content)
    (hover : isOverSize max content.length = false) :
    Captured max (payloads ++ [data]) (content ++ data) := by
  obtain ⟨k, hk, hcontent, hend, hless⟩ := h
  obtain rfl : k = payloads.length := by
    rcases hend with hend | hend
    · exact hend
    · rw [hover] at hend
      cases hend
  rw [List.take_length] at hcontent
  refine ⟨(payloads ++ [data]).length, Nat.le_refl _, ?_, .inl rfl, fun j hj => ?_⟩
  · rw [List.take_length, List.flatten_append, hcontent, List.flatten_singleton]
  · rw [List.length_append, List.length_singleton] at hj
    rw [List.take_append_of_le_length (by omega)]
    rcases Nat.lt_or_ge j payloads.length with hlt | hge
    · exact hless j hlt
    · rw [List.take_of_length_le hge, ← hcontent]
      exact hover

theorem Captured.prefix (h : Captured max payloads content) : content <+: payloads.flatten := by
  obtain ⟨k, -, rfl, -, -⟩ := h
  exact ⟨(payloads.drop k).flatten, by rw [← List.flatten_append, List.take_append_drop]⟩

theorem captured_unlimited_iff : Captured 0 payloads content ↔ content = payloads.flatten := by
  constructor
  · rintro ⟨k, -, rfl, hend, -⟩
    rcases hend with rfl | hend
    · rw [List.take_length]
    · simp [isOverSize] at hend
  · rintro rfl
    exact ⟨payloads.length, Nat.le_refl _, by rw [List.take_length], .inl rfl, fun j _ => rfl⟩

end Capture

section Step

variable {ctx : SmonContext} {e e' : SmonEntry} {p : SmonPiece} {dir : Dir}
  {pieces : List SmonPiece}

theorem body_setBody (e : SmonEntry) (b : SmonBody) (dir dir' : Dir) :
    (e.setBody b dir).body dir' = if dir' = dir then b else e.body dir' := by
  cases dir <;> cases dir' <;> rfl

theorem content_setBody (e : SmonEntry) (bytes : List UInt8) (n : ℕ) (dir dir' : Dir) :
    (e.setBody ⟨some bytes, n⟩ dir).content dir' =
      if dir' = dir then bytes else e.content dir' := by
  cases dir <;> cases dir' <;> rfl

theorem dataOf_snoc (dir : Dir) (pieces : List SmonPiece) (p : SmonPiece) :
    dataOf dir (pieces ++ [p]) = dataOf dir pieces ++ if p.dir = dir then [p.data] else [] := by
  rw [dataOf, List.filter_append, List.map_append, dataOf]
  by_cases hdir : p.dir = dir
  · simp [hdir]
  · simp [hdir]

theorem flatten_dataOf_le (dir : Dir) (pieces : List SmonPiece) :
    (dataOf dir pieces).flatten.length ≤ (pieces.map (·.data.length)).sum := by
  induction pieces with
  | nil => exact Nat.le_refl 0
  | cons p pieces ih =>
    rw [dataOf, List.filter_cons, List.map_cons, List.sum_cons]
    split
    · rw [List.map_cons, List.flatten_cons, List.length_append]
      exact Nat.add_le_add_left ih _
    · exact ih.trans (Nat.le_add_left _ _)

theorem contentProcess_cases {counts : Bool} (h : contentProcess counts ctx e p = some e') :
    (isOverSize (ctx.maxSize p.dir) (e.body p.dir).curSize = true ∧ e' = e) ∨
      (isOverSize (ctx.maxSize p.dir) (e.body p.dir).curSize = false ∧
        e' = e.setBody ⟨some (e.content p.dir ++ p.data),
          if counts then add 64 (e.body p.dir).curSize p.data.length
          else (e.body p.dir).curSize⟩ p.dir) := by
  simp only [contentProcess] at h
  split at h
  · exact .inl ⟨‹_›, (Option.some.inj h).symm⟩
  · rename_i hover
    split at h
    · cases h
    · exact .inr ⟨by simpa using hover, (Option.some.inj h).symm⟩

structure Stored (counts : Bool) (limit : Dir → ℕ) (e : SmonEntry) (pieces : List SmonPiece) :
    Prop where
  captured : ∀ dir, Captured (limit dir) (dataOf dir pieces) (e.content dir)
  counted : ∀ dir, (e.body dir).curSize = if counts then (e.content dir).length else 0

theorem stored_init (counts : Bool) (limit : Dir → ℕ) : Stored counts limit .init [] where
  captured := fun dir => by
    cases dir
    · exact captured_nil _
    · exact captured_nil _
  counted := fun dir => by cases dir <;> cases counts <;> rfl

theorem Stored.contentProcess {counts : Bool} {limit : Dir → ℕ} (h : Stored counts limit e pieces)
    (hlimit : ∀ dir, isOverSize (ctx.maxSize dir) (e.body dir).curSize =
      isOverSize (limit dir) (e.content dir).length)
    (hsize : counts = true → (e.content p.dir).length + p.data.length < 2 ^ 64)
    (hp : Smon.contentProcess counts ctx e p = some e') :
      Stored counts limit e' (pieces ++ [p]) := by
  have hother : ∀ dir, p.dir ≠ dir → dataOf dir (pieces ++ [p]) = dataOf dir pieces := by
    intro dir hne
    rw [dataOf_snoc, if_neg hne, List.append_nil]
  have hsame : dataOf p.dir (pieces ++ [p]) = dataOf p.dir pieces ++ [p.data] := by
    rw [dataOf_snoc, if_pos rfl]
  rcases contentProcess_cases hp with ⟨hover, rfl⟩ | ⟨hover, rfl⟩
  · refine ⟨fun dir => ?_, h.counted⟩
    by_cases hdir : p.dir = dir
    · subst hdir
      rw [hsame]
      exact (h.captured p.dir).skip (hlimit p.dir ▸ hover)
    · rw [hother dir hdir]
      exact h.captured dir
  · refine ⟨fun dir => ?_, fun dir => ?_⟩
    · by_cases hdir : p.dir = dir
      · subst hdir
        rw [hsame, content_setBody, if_pos rfl]
        exact (h.captured p.dir).append (hlimit p.dir ▸ hover)
      · rw [hother dir hdir, content_setBody, if_neg (Ne.symm hdir)]
        exact h.captured dir
    · have hcount := h.counted dir
      rw [content_setBody, body_setBody]
      by_cases hdir : p.dir = dir
      · subst hdir
        rw [if_pos rfl, if_pos rfl]
        cases counts with
        | true =>
          simp only [if_true] at hcount ⊢
          rw [hcount, add, Nat.mod_eq_of_lt (hsize rfl), List.length_append]
        | false => exact hcount
      · rw [if_neg (Ne.symm hdir), if_neg (Ne.symm hdir)]
        exact hcount

end Step

section Run

variable {ctx : SmonContext} {c : SmonConn} {p : SmonPiece} {pieces : List SmonPiece}
  {counts : Bool} {limit : Dir → ℕ} {refuses : SmonPiece → Prop}
  {handle : SmonConn → SmonPiece → SmonConn}

def connAfter (handle : SmonConn → SmonPiece → SmonConn) (pieces : List SmonPiece) : SmonConn :=
  pieces.foldl handle .init

theorem connAfter_concat (handle : SmonConn → SmonPiece → SmonConn) (pieces : List SmonPiece)
    (p : SmonPiece) : connAfter handle (pieces ++ [p]) = handle (connAfter handle pieces) p := by
  rw [connAfter, List.foldl_append]
  rfl

/-- The pieces up to the one that closed the session, if there is one, are stored. -/
def Handled (counts : Bool) (limit : Dir → ℕ) (refuses : SmonPiece → Prop)
    (handle : SmonConn → SmonPiece → SmonConn) (pieces : List SmonPiece) : Prop :=
  ∃ n ≤ pieces.length, Stored counts limit (connAfter handle pieces).entry (pieces.take n) ∧
    ((connAfter handle pieces).closed = false → n = pieces.length) ∧
    ((connAfter handle pieces).closed = true →
      (connAfter handle (pieces.take n)).closed = false ∧
        (connAfter handle (pieces.take (n + 1))).closed = true ∧ ∃ p ∈ pieces[n]?, refuses p)

theorem handled_init (counts : Bool) (limit : Dir → ℕ) (refuses : SmonPiece → Prop)
    (handle : SmonConn → SmonPiece → SmonConn) : Handled counts limit refuses handle [] :=
  ⟨0, Nat.le_refl 0, stored_init counts limit, fun _ => rfl, fun h => absurd h Bool.false_ne_true⟩

theorem Handled.closed (h : Handled counts limit refuses handle pieces)
    (hclosed : (connAfter handle pieces).closed = true)
    (hsame : handle (connAfter handle pieces) p = connAfter handle pieces) :
    Handled counts limit refuses handle (pieces ++ [p]) := by
  obtain ⟨n, hn, hstored, -, hbad⟩ := h
  obtain ⟨hopen, hshut, q, hq, hrefuses⟩ := hbad hclosed
  obtain ⟨hlt, -⟩ := List.getElem?_eq_some_iff.1 hq
  have hafter : connAfter handle (pieces ++ [p]) = connAfter handle pieces := by
    rw [connAfter_concat, hsame]
  rw [Handled, hafter]
  refine ⟨n, by rw [List.length_append]; omega, ?_, fun h => ?_, fun _ => ⟨?_, ?_, q, ?_, hrefuses⟩⟩
  · rwa [List.take_append_of_le_length hn]
  · rw [hclosed] at h
    cases h
  · rwa [List.take_append_of_le_length hn]
  · rwa [List.take_append_of_le_length hlt]
  · rwa [List.getElem?_append_left hlt]

theorem Handled.refused (h : Handled counts limit refuses handle pieces)
    (hopen : (connAfter handle pieces).closed = false)
    (hnext : handle (connAfter handle pieces) p = ⟨(connAfter handle pieces).entry, true⟩)
    (hrefuses : refuses p) : Handled counts limit refuses handle (pieces ++ [p]) := by
  obtain ⟨n, -, hstored, hall, -⟩ := h
  obtain rfl := hall hopen
  have hafter := (connAfter_concat handle pieces p).trans hnext
  have hwhole : (pieces ++ [p]).take (pieces.length + 1) = pieces ++ [p] :=
    List.take_of_length_le (by simp)
  rw [Handled, hafter]
  refine ⟨pieces.length, by rw [List.length_append]; omega, ?_, fun h =>
    absurd h.symm Bool.false_ne_true,
    fun _ => ⟨?_, ?_, p, ?_, hrefuses⟩⟩
  · rwa [List.take_append_of_le_length (Nat.le_refl _)]
  · rwa [List.take_left]
  · rw [hwhole, hafter]
  · rw [Option.mem_def, List.getElem?_concat_length]

theorem Handled.taken (h : Handled counts limit refuses handle pieces)
    (hopen : (connAfter handle pieces).closed = false) {e : SmonEntry}
    (hnext : handle (connAfter handle pieces) p = ⟨e, false⟩)
    (hstep : Stored counts limit (connAfter handle pieces).entry pieces →
      Stored counts limit e (pieces ++ [p])) :
    Handled counts limit refuses handle (pieces ++ [p]) := by
  obtain ⟨n, -, hstored, hall, -⟩ := h
  obtain rfl := hall hopen
  rw [List.take_length] at hstored
  rw [Handled, connAfter_concat, hnext]
  refine ⟨(pieces ++ [p]).length, Nat.le_refl _, ?_, fun _ => rfl, fun h =>
    absurd h Bool.false_ne_true⟩
  rw [List.take_length]
  exact hstep hstored

theorem contentProcess_none {e : SmonEntry} (h : contentProcess counts ctx e p = none) :
    p.opens = false := by
  simp only [contentProcess] at h
  split at h
  · cases h
  · split at h
    · rename_i hfile
      simpa using hfile.2
    · cases h

theorem Captured.length_le {max : ℕ} {payloads : List (List UInt8)} {content : List UInt8}
    (h : Captured max payloads content) : content.length ≤ payloads.flatten.length :=
  h.prefix.length_le

theorem tcpContentProcess_none {e : SmonEntry} (h : tcpContentProcess ctx e p = none) :
    p.bodyStore = false ∨ p.opens = false := by
  rw [tcpContentProcess] at h
  split at h
  · exact .inr (contentProcess_none h)
  · rename_i hstore
    exact .inl (by simpa using hstore)

theorem parse_refused (hopen : c.closed = false) (h : tcpContentProcess ctx c.entry p = none) :
    c.parse ctx p = ⟨c.entry, true⟩ := by
  simp [SmonConn.parse, hopen, smonParse, h]

theorem parse_taken (hopen : c.closed = false) {e : SmonEntry}
    (h : tcpContentProcess ctx c.entry p = some e) : c.parse ctx p = ⟨e, false⟩ := by
  simp only [SmonConn.parse, hopen, smonParse, h, Bool.false_eq_true, if_false]
  cases isParseOk ctx e <;> rfl

/-- The TCP application finds no store for the body, or can open no file. -/
def tcpRefuses (p : SmonPiece) : Prop := p.bodyStore = false ∨ p.opens = false

/-- The UDP application can open no file for a payload that is not empty. -/
def udpRefuses (p : SmonPiece) : Prop := p.data ≠ [] ∧ p.opens = false

theorem Handled.parse (h : Handled true ctx.maxSize tcpRefuses (SmonConn.parse ctx) pieces)
    (hsize : ((pieces ++ [p]).map (·.data.length)).sum < 2 ^ 64) :
    Handled true ctx.maxSize tcpRefuses (SmonConn.parse ctx) (pieces ++ [p]) := by
  cases hclosed : (connAfter (SmonConn.parse ctx) pieces).closed with
  | true => exact h.closed hclosed (if_pos hclosed)
  | false =>
    cases hp : tcpContentProcess ctx (connAfter (SmonConn.parse ctx) pieces).entry p with
    | none => exact h.refused hclosed (parse_refused hclosed hp) (tcpContentProcess_none hp)
    | some e =>
      refine h.taken hclosed (parse_taken hclosed hp) fun hstored => ?_
      rw [tcpContentProcess] at hp
      split at hp
      · refine hstored.contentProcess (fun dir => ?_) (fun _ => ?_) hp
        · rw [hstored.counted dir, if_pos rfl]
        · have hle := (hstored.captured p.dir).length_le.trans (flatten_dataOf_le p.dir pieces)
          rw [List.map_append, List.sum_append, List.map_singleton, List.sum_singleton] at hsize
          omega
      · cases hp

theorem isOverSize_zero (max : ℕ) : isOverSize max 0 = false := by
  cases max <;> rfl

theorem Stored.not_ok {limit : Dir → ℕ} {e : SmonEntry} (h : Stored false limit e pieces) :
    isParseOk ctx e = false := by
  have hreq : e.req.curSize = 0 := h.counted .request
  rw [isParseOk, hreq, isOverSize_zero, Bool.false_and]

theorem Handled.process (h : Handled false (fun _ => 0) udpRefuses (SmonConn.process ctx) pieces) :
    Handled false (fun _ => 0) udpRefuses (SmonConn.process ctx) (pieces ++ [p]) := by
  cases hclosed : (connAfter (SmonConn.process ctx) pieces).closed with
  | true => exact h.closed hclosed (if_pos hclosed)
  | false =>
    by_cases hdata : p.data = []
    · have hnext : (connAfter (SmonConn.process ctx) pieces).process ctx p =
          ⟨(connAfter (SmonConn.process ctx) pieces).entry, false⟩ := by
        simp [SmonConn.process, hclosed, smonPktProcess, hdata]
      refine h.taken hclosed hnext fun hstored => ⟨fun dir => ?_, hstored.counted⟩
      have hcontent := captured_unlimited_iff.1 (hstored.captured dir)
      rw [captured_unlimited_iff, dataOf_snoc, List.flatten_append, ← hcontent, hdata]
      split <;> simp
    · cases hp : udpContentProcess ctx (connAfter (SmonConn.process ctx) pieces).entry p with
      | none =>
        have hnext : (connAfter (SmonConn.process ctx) pieces).process ctx p =
            ⟨(connAfter (SmonConn.process ctx) pieces).entry, true⟩ := by
          simp [SmonConn.process, hclosed, smonPktProcess, hdata, hp]
        exact h.refused hclosed hnext ⟨hdata, contentProcess_none hp⟩
      | some e =>
        have hstep :
            Stored false (fun _ => 0) (connAfter (SmonConn.process ctx) pieces).entry pieces →
            Stored false (fun _ => 0) e (pieces ++ [p]) := fun hstored => by
          refine hstored.contentProcess (fun dir => ?_) (fun hfalse =>
            absurd hfalse Bool.false_ne_true) hp
          rw [hstored.counted dir, if_neg Bool.false_ne_true, isOverSize_zero]
          rfl
        have hnext : (connAfter (SmonConn.process ctx) pieces).process ctx p = ⟨e, false⟩ := by
          obtain ⟨n, -, hstored, hall, -⟩ := h
          obtain rfl := hall hclosed
          rw [List.take_length] at hstored
          simp [SmonConn.process, hclosed, smonPktProcess, hdata, hp, (hstep hstored).not_ok]
        exact h.taken hclosed hnext hstep

theorem handled_parse (hsize : (pieces.map (·.data.length)).sum < 2 ^ 64) :
    Handled true ctx.maxSize tcpRefuses (SmonConn.parse ctx) pieces := by
  induction pieces using List.reverseRecOn with
  | nil => exact handled_init _ _ _ _
  | append_singleton pieces p ih =>
    have hless : (pieces.map (·.data.length)).sum < 2 ^ 64 := by
      rw [List.map_append, List.sum_append] at hsize
      omega
    exact (ih hless).parse hsize

theorem handled_process (ctx : SmonContext) (pieces : List SmonPiece) :
    Handled false (fun _ => 0) udpRefuses (SmonConn.process ctx) pieces := by
  induction pieces using List.reverseRecOn with
  | nil => exact handled_init _ _ _ _
  | append_singleton pieces p ih => exact ih.process

/-- What is stored of a session: over TCP the payloads of each direction up to the first with which
it has its limit, and over UDP all of them whatever the limits are. -/
theorem smon_captured (ctx : SmonContext) (pieces : List SmonPiece) :
    ((pieces.map (·.data.length)).sum < 2 ^ 64 →
      Handled true ctx.maxSize tcpRefuses (SmonConn.parse ctx) pieces) ∧
    Handled false (fun _ => 0) udpRefuses (SmonConn.process ctx) pieces :=
  ⟨handled_parse, handled_process ctx pieces⟩

def overLimit : List SmonPiece :=
  [⟨.request, [71], true, true⟩, ⟨.request, [69], true, true⟩]

theorem overLimit_captured :
    Handled true (SmonContext.mk 1 0).maxSize tcpRefuses (SmonConn.parse ⟨1, 0⟩) overLimit ∧
      Handled false (fun _ => 0) udpRefuses (SmonConn.process ⟨1, 0⟩) overLimit :=
  ⟨(smon_captured ⟨1, 0⟩ overLimit).1 (by decide), (smon_captured ⟨1, 0⟩ overLimit).2⟩

example : (overLimit.foldl (SmonConn.parse ⟨1, 0⟩) .init).entry.content .request = [71] ∧
    (overLimit.foldl (SmonConn.process ⟨1, 0⟩) .init).entry.content .request = [71, 69] := by decide

end Run

end CloudHands.Smon

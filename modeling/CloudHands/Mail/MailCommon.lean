import Mathlib.Data.List.TakeWhile
import CloudHands.Mail.MimeBody

/-!
# Contents of a mail

The callbacks of `ch_mail_common.c`, over what they fill in of a mail session. There is no result
where the code would write outside of a block, take the last attachment of an empty list, or use a
descriptor that it has closed. Files can be created and written.
-/

namespace CloudHands.Mail

open Http

/-- A `ch_str_t` whose text was copied by `ch_pstrndup`. -/
structure MailStr where
  data : List UInt8
  len : ℕ
deriving DecidableEq, Repr

def pstrndup (value : List UInt8) : MailStr := ⟨value.takeWhile (· ≠ 0), value.length⟩

/-- `ch_mail_ctnt_t`, with the content of its file. -/
structure MailCtnt where
  filename : List UInt8
  data : List UInt8
  saved : Bool
deriving DecidableEq, Repr

/-- What the callbacks fill in of a `ch_mail_session_t`. -/
structure MailContents where
  subject : Option MailStr
  mailFrom : Option MailStr
  mailToList : List MailStr
  mailCcList : List MailStr
  ctntPlainFile : Option MailCtnt
  ctntHtmlFile : Option MailCtnt
  attachList : List MailCtnt
deriving DecidableEq, Repr

def MailContents.empty : MailContents := ⟨none, none, [], [], none, none, []⟩

def mailAddresses (value : List UInt8) : List (List UInt8) := value.splitOn 44

/-- `__process_mail_cc` copies the whole value into the block of the copy as well. -/
def processMailCc (c : MailContents) (value : List UInt8) : Option MailContents :=
  if value.length ≤ (pstrndup value).data.length + 1 then
    some { c with mailCcList := c.mailCcList ++ [pstrndup value] }
  else none

/-- `mail_process_header`. -/
def mailProcessHeader (name value : List UInt8) (c : MailContents) : Option MailContents :=
  let name := name.map toLower
  if name = [] ∨ value = [] then some c
  else if name = bytesOf "subject" then some { c with subject := some (pstrndup value) }
  else if name = bytesOf "from" then some { c with mailFrom := some (pstrndup value) }
  else if name = bytesOf "to" then
    some { c with mailToList := c.mailToList ++ (mailAddresses value).map pstrndup }
  else if name = bytesOf "cc" then (mailAddresses value).foldlM processMailCc c
  else some c

/-- `_mail_process_data`. -/
def mailProcessData (chunk : DataChunk) (ctnt : MailCtnt) : Option MailCtnt :=
  if ctnt.saved ∧ (chunk.bytes ≠ [] ∨ chunk.bodyEnd) then none
  else some { ctnt with data := ctnt.data ++ chunk.bytes, saved := ctnt.saved || chunk.bodyEnd }

/-- `mail_process_content_plain_text` and `mail_process_content_html`, over the file of the
session. -/
def mailProcessContent (chunk : DataChunk) (file : Option MailCtnt) :
    Option (Option MailCtnt × MimeDecRetCode) :=
  match if chunk.bodyBegin then some ⟨[], [], false⟩ else file with
  | none => some (none, .errMem)
  | some ctnt => (mailProcessData chunk ctnt).map fun ctnt => (some ctnt, .ok)

/-- `mail_process_attachment`. -/
def mailProcessAttachment (chunk : DataChunk) (attachList : List MailCtnt) :
    Option (List MailCtnt) :=
  let list :=
    if chunk.bodyBegin then attachList ++ [⟨chunk.entity.filename, [], false⟩] else attachList
  list.getLast?.bind fun ctnt => (mailProcessData chunk ctnt).map fun ctnt =>
    list.dropLast ++ [ctnt]

/-- `MailProcessDataChunk`. -/
def mailProcessDataChunk (chunk : DataChunk) (c : MailContents) :
    Option (MailContents × MimeDecRetCode) :=
  if chunk.entity.isAttachment then
    (mailProcessAttachment chunk c.attachList).map fun list => ({ c with attachList := list }, .ok)
  else if chunk.entity.isText then
    (mailProcessContent chunk c.ctntPlainFile).map fun r => ({ c with ctntPlainFile := r.1 }, r.2)
  else if chunk.entity.isHtml then
    (mailProcessContent chunk c.ctntHtmlFile).map fun r => ({ c with ctntHtmlFile := r.1 }, r.2)
  else some (c, .ok)

def mailCallbacks : MimeCallbacks MailContents := ⟨mailProcessDataChunk, mailProcessHeader⟩

def MimeDecEntity.Silent (e : MimeDecEntity) : Prop :=
  e.isAttachment = false ∧ e.isText = false ∧ e.isHtml = false

instance (e : MimeDecEntity) : Decidable e.Silent := inferInstanceAs (Decidable (_ ∧ _))

structure MimeReceiver (σ : Type) where
  callbacks : MimeCallbacks σ
  receiveHeader : List UInt8 → List UInt8 → σ → σ
  receive : MimeDecEntity → List UInt8 → σ → σ
  body : (e : MimeDecEntity) → σ → BodySink callbacks e
  header_eq : ∀ name {value} d, 0 ∉ value →
    callbacks.headerProcessorFunc name value d = some (receiveHeader name value d)
  body_begin : ∀ e d, (body e d).Holds [] true d
  body_ends : ∀ e d, (body e d).Ends false
  body_returns : ∀ {e d ret}, (body e d).Returns ret → ret = .ok
  body_end : ∀ {e d handed bodyBegin d'}, (body e d).Holds handed bodyBegin d' → ∀ bytes,
    callbacks.dataChunkProcessorFunc ⟨e, bodyBegin, true, bytes⟩ d' =
      some (receive e (handed ++ bytes) d, .ok)
  silent : ∀ {e}, e.Silent → ∀ bodyBegin bodyEnd bytes d,
    callbacks.dataChunkProcessorFunc ⟨e, bodyBegin, bodyEnd, bytes⟩ d = some (d, .ok)

theorem MimeReceiver.receive_silent {σ : Type} (R : MimeReceiver σ) {e : MimeDecEntity}
    (h : e.Silent)
    (content : List UInt8) (d : σ) : R.receive e content d = d := by
  have hend := R.body_end (R.body_begin e d) content
  rw [R.silent h, List.nil_append] at hend
  exact (Prod.mk.inj (Option.some.inj hend)).1.symm

def MailContents.addHeader (name value : List UInt8) (c : MailContents) : MailContents :=
  let name := name.map toLower
  if name = [] ∨ value = [] then c
  else if name = bytesOf "subject" then { c with subject := some ⟨value, value.length⟩ }
  else if name = bytesOf "from" then { c with mailFrom := some ⟨value, value.length⟩ }
  else if name = bytesOf "to" then
    { c with mailToList := c.mailToList ++ (mailAddresses value).map fun a => ⟨a, a.length⟩ }
  else if name = bytesOf "cc" then
    { c with mailCcList := c.mailCcList ++ (mailAddresses value).map fun a => ⟨a, a.length⟩ }
  else c

def MailContents.addContent (e : MimeDecEntity) (saved : Bool) (content : List UInt8)
    (c : MailContents) :
    MailContents :=
  if e.isAttachment then { c with attachList := c.attachList ++ [⟨e.filename, content, saved⟩] }
  else if e.isText then { c with ctntPlainFile := some ⟨[], content, saved⟩ }
  else if e.isHtml then { c with ctntHtmlFile := some ⟨[], content, saved⟩ }
  else c

theorem pstrndup_eq {value : List UInt8} (h : 0 ∉ value) :
    pstrndup value = ⟨value, value.length⟩ := by
  have hall : value.takeWhile (· ≠ 0) = value :=
    List.takeWhile_eq_self_iff.2 fun c hc => decide_eq_true (ne_of_mem_of_not_mem hc h)
  rw [pstrndup, hall]

theorem mem_of_mem_mailAddresses {value a : List UInt8} {c : UInt8} (ha : a ∈ mailAddresses value)
    (hc : c ∈ a) : c ∈ value := by
  obtain ⟨i, hi⟩ := List.mem_iff_getElem?.1 ha
  have hjoin : [44].intercalate (mailAddresses value) = value := List.intercalate_splitOn 44
  have hentry : ((mailAddresses value).intersperse [44])[2 * i]? = some a :=
    List.getElem?_intersperse_two_mul.trans hi
  rw [← hjoin]
  exact List.mem_flatten.2 ⟨a, List.mem_of_getElem? hentry, hc⟩

theorem map_pstrndup {addresses : List (List UInt8)} (h : ∀ a ∈ addresses, 0 ∉ a) :
    addresses.map pstrndup = addresses.map fun a => ⟨a, a.length⟩ :=
  List.map_congr_left fun a ha => pstrndup_eq (h a ha)

theorem foldlM_processMailCc {addresses : List (List UInt8)} (h : ∀ a ∈ addresses, 0 ∉ a)
    (c : MailContents) :
    addresses.foldlM processMailCc c =
      some { c with mailCcList := c.mailCcList ++ addresses.map fun a => ⟨a, a.length⟩ } := by
  induction addresses generalizing c with
  | nil => rw [List.foldlM_nil, List.map_nil, List.append_nil]; rfl
  | cons a addresses ih =>
    have hcopy := pstrndup_eq (h a List.mem_cons_self)
    have hfits : a.length ≤ (pstrndup a).data.length + 1 := by
      rw [hcopy]
      exact Nat.le_succ _
    rw [List.foldlM_cons, processMailCc, if_pos hfits, hcopy]
    refine (ih (fun b hb => h b (List.mem_cons_of_mem a hb)) _).trans ?_
    rw [List.map_cons, List.append_assoc, List.singleton_append]

theorem mailProcessHeader_eq (name : List UInt8) {value : List UInt8} (c : MailContents)
    (h : 0 ∉ value) :
    mailProcessHeader name value c = some (c.addHeader name value) := by
  have haddresses : ∀ a ∈ mailAddresses value, 0 ∉ a :=
    fun a ha hzero => h (mem_of_mem_mailAddresses ha hzero)
  rw [mailProcessHeader, MailContents.addHeader, pstrndup_eq h, map_pstrndup haddresses,
    foldlM_processMailCc haddresses]
  split_ifs <;> rfl

theorem mailProcessData_open {chunk : DataChunk} {filename data : List UInt8} :
    mailProcessData chunk ⟨filename, data, false⟩ = some ⟨filename, data ++ chunk.bytes,
      chunk.bodyEnd⟩ := by
  rw [mailProcessData, if_neg (by simp), Bool.false_or]

def MailContents.Receiving (e : MimeDecEntity) (c : MailContents) (handed : List UInt8)
    (bodyBegin : Bool)
    (c' : MailContents) : Prop :=
  if bodyBegin then handed = [] ∧ c' = c else c' = c.addContent e false handed

theorem MailContents.Receiving.chunk {e : MimeDecEntity} {c c' : MailContents} {handed : List UInt8}
    {bodyBegin : Bool} (h : c.Receiving e handed bodyBegin c') (bodyEnd : Bool)
    (bytes : List UInt8) :
    mailProcessDataChunk ⟨e, bodyBegin, bodyEnd, bytes⟩ c' =
      some (c.addContent e bodyEnd (handed ++ bytes), .ok) := by
  rw [Receiving] at h
  cases bodyBegin with
  | true =>
    obtain ⟨rfl, rfl⟩ := (if_pos rfl).mp h
    simp only [mailProcessDataChunk, addContent, mailProcessAttachment, mailProcessContent, if_true,
      List.getLast?_concat, List.dropLast_concat, Option.bind_some, mailProcessData_open,
        Option.map_some,
      List.nil_append]
    split_ifs <;> rfl
  | false =>
    obtain rfl : c' = _ := (if_neg Bool.false_ne_true).mp h
    simp only [mailProcessDataChunk, addContent, mailProcessAttachment, mailProcessContent,
      Bool.false_eq_true, if_false]
    split_ifs <;>
      simp only [List.getLast?_concat, List.dropLast_concat, Option.bind_some, mailProcessData_open,
        Option.map_some]

theorem mailProcessDataChunk_silent {e : MimeDecEntity} (h : e.Silent) (bodyBegin bodyEnd : Bool)
    (bytes : List UInt8) (c : MailContents) :
    mailProcessDataChunk ⟨e, bodyBegin, bodyEnd, bytes⟩ c = some (c, .ok) := by
  obtain ⟨hattach, htext, hhtml⟩ := h
  simp only [mailProcessDataChunk, hattach, htext, hhtml, Bool.false_eq_true, if_false]

def mailReceiver : MimeReceiver MailContents where
  callbacks := mailCallbacks
  receiveHeader := MailContents.addHeader
  receive := fun e => MailContents.addContent e true
  body := fun e c =>
    { Holds := c.Receiving e
      Returns := (· = .ok)
      Ends := (· = false)
      returns_ok := rfl
      step := by
        rintro handed bodyBegin - d hholds rfl bytes
        exact ⟨_, hholds.chunk false bytes, rfl, (if_neg Bool.false_ne_true).mpr rfl⟩ }
  header_eq := fun name _ c h => mailProcessHeader_eq name c h
  body_begin := fun _ _ => ⟨rfl, rfl⟩
  body_ends := fun _ _ => rfl
  body_returns := fun h => h
  body_end := fun h bytes => h.chunk true bytes
  silent := mailProcessDataChunk_silent

end CloudHands.Mail

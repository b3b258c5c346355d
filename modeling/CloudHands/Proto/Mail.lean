import CloudHands.Proto.Store

/-!
# Mail sessions

`do_mail_session_format` and `MailSession.parse`. The addresses are entries of a map under
numbered keys, the attachments are maps without a key in an array.
-/

namespace CloudHands.Proto

open Lib Lib.TokenReader Msgpack Japi

/-- The stored fields of `ch_mail_session_t`, a null text being empty. The counters are those
of the lists. -/
structure MailRecord where
  username : List UInt8
  password : List UInt8
  subject : List UInt8
  mailFrom : List UInt8
  mailToCnt : UInt32
  mailToList : List (List UInt8)
  mailCcCnt : UInt32
  mailCcList : List (List UInt8)
  contentText : List UInt8
  contentHtml : List UInt8
  attachCnt : UInt32
  attachList : List (List UInt8 × List UInt8)
  mailTo_counted : mailToCnt.toNat = mailToList.length
  mailCc_counted : mailCcCnt.toNat = mailCcList.length
  attach_counted : attachCnt.toNat = attachList.length

/-- The entry of an address; `label` is `To` or `Cc`. -/
def packMailAddr (label : String) (addr : List UInt8 × ℕ) : List Token :=
  writeKv (label ++ toString addr.2) addr.1

def packMailAddrs (label k : String) (n : UInt32) (addrs : List (List UInt8)) : List Token :=
  mapStart k n.toNat ++ addrs.zipIdx.flatMap (packMailAddr label)

def packMailTo : String → UInt32 → List (List UInt8) → List Token := packMailAddrs "To"
def packMailCc : String → UInt32 → List (List UInt8) → List Token := packMailAddrs "Cc"

def packAttach (attach : List UInt8 × List UInt8) : List Token :=
  mapStart "" 2 ++ (writeKv "attach_name" attach.1 ++ writeKv "attach_path" attach.2)

def packMailAttach (k : String) (n : UInt32) (attachs : List (List UInt8 × List UInt8)) :
    List Token :=
  arrayStart k n.toNat ++ attachs.flatMap packAttach

def mailSessionFormat (r : MailRecord) : List Token :=
  mapStart "MAIL" 12 ++ (writeKv "username" r.username ++ (writeKv "password" r.password ++
    (writeKv "subject" r.subject ++ (writeKv "mail_from" r.mailFrom ++
    (writeUint "mail_to_cnt" r.mailToCnt ++ (packMailTo "mail_to" r.mailToCnt r.mailToList ++
    (writeUint "mail_cc_cnt" r.mailCcCnt ++ (packMailCc "mail_cc" r.mailCcCnt r.mailCcList ++
    (writeKv "content_text" r.contentText ++ (writeKv "content_html" r.contentHtml ++
    (writeUint "attach_cnt" r.attachCnt ++
      packMailAttach "attachments" r.attachCnt r.attachList)))))))))))

structure MailSession where
  sessionEntry : TCPSessionEntry
  userName : String
  passwd : String
  sender : String
  subject : String
  contentTxtPath : String
  contentHtmlPath : String
  attachNum : ℕ
  mailCCNum : ℕ
  mailToNum : ℕ
  maillAttachEntryList : List (String × String)
  mailCCList : List String
  mailToList : List String

def parseArrayString (env : Env) : Unpacker (List String) :=
  parseArrayTimes (unpackString env.replaced)

def parseArrayMap (env : Env) : Unpacker (List String) := parseMapTimes (parseText env.replaced)

def parseAttachEntry (env : Env) : Unpacker (String × String) := do
  let _ ← unpackMapHeader
  let name ← parseText env.replaced
  let value ← parseText env.replaced
  pure (name, value)

def parseAttach (env : Env) : Unpacker (List (String × String)) :=
  parseArrayTimes (parseAttachEntry env)

def parseMailSessionWithAttk (env : Env) (entry : TCPSessionEntry) : Unpacker MailSession := do
  let userName ← parseText env.replaced
  let passwd ← parseText env.replaced
  let sender ← parseText env.replaced
  let subject ← parseText env.replaced
  let contentTxtPath ← parseText env.replaced
  let contentHtmlPath ← parseText env.replaced
  let attachNum ← parseInt
  let mailCCNum ← parseInt
  let mailToNum ← parseInt
  let mailCCList ← parseArrayString env
  let mailToList ← parseArrayString env
  let attachs ← parseAttach env
  env.secMatchResult
  pure ⟨entry, userName, passwd, sender, subject, contentTxtPath, contentHtmlPath, attachNum,
    mailCCNum, mailToNum, attachs, mailCCList, mailToList⟩

def parseMailSessionRaw (env : Env) (entry : TCPSessionEntry) : Unpacker MailSession := do
  let userName ← parseText env.replaced
  let passwd ← parseText env.replaced
  let subject ← parseText env.replaced
  let sender ← parseText env.replaced
  let mailToNum ← parseInt
  let mailToList ← parseArrayMap env
  let mailCCNum ← parseInt
  let mailCCList ← parseArrayMap env
  let contentTxtPath ← parseText env.replaced
  let contentHtmlPath ← parseText env.replaced
  let attachNum ← parseInt
  let attachs ← parseAttach env
  pure ⟨entry, userName, passwd, sender, subject, contentTxtPath, contentHtmlPath, attachNum,
    mailCCNum, mailToNum, attachs, mailCCList, mailToList⟩

def MailSession.parse (env : Env) : Unpacker MailSession := do
  let n ← unpackMapHeader
  check (n = 2 ∨ n = 3)
  let entry ← parseCommon
  parseMapOf 12
  if n = 3 then parseMailSessionWithAttk env entry else parseMailSessionRaw env entry

structure MailSession.Same (got : MailSession) (t : TcpSession) (r : MailRecord) : Prop where
  sessionEntry : got.sessionEntry.Same t
  userName : SameText got.userName r.username
  passwd : SameText got.passwd r.password
  sender : SameText got.sender r.mailFrom
  subject : SameText got.subject r.subject
  contentTxtPath : SameText got.contentTxtPath r.contentText
  contentHtmlPath : SameText got.contentHtmlPath r.contentHtml
  attachNum : got.attachNum = r.attachList.length
  mailCCNum : got.mailCCNum = r.mailCcList.length
  mailToNum : got.mailToNum = r.mailToList.length
  maillAttachEntryList : List.Forall₂ SamePair got.maillAttachEntryList r.attachList
  mailCCList : List.Forall₂ SameText got.mailCCList r.mailCcList
  mailToList : List.Forall₂ SameText got.mailToList r.mailToList

structure MailReadable (r : MailRecord) : Prop where
  username : TextReadable r.username
  password : TextReadable r.password
  subject : TextReadable r.subject
  mailFrom : TextReadable r.mailFrom
  contentText : TextReadable r.contentText
  contentHtml : TextReadable r.contentHtml
  mailToList : ListReadable TextReadable r.mailToList
  mailCcList : ListReadable TextReadable r.mailCcList
  attachList : ListReadable PairReadable r.attachList

theorem count32_of_counted {α : Type} {xs : List α} {n : UInt32} (h : n.toNat = xs.length) :
    count32 xs = n.toNat := by
  have hlt := n.toNat_lt
  rw [count32, ← h]
  exact Nat.mod_eq_of_lt hlt

section Lists

variable {env : Env} {label k : String} {n : UInt32} {rest rest' : List Token}

theorem packMailAddrs_eq {addrs : List (List UInt8)} (h : n.toNat = addrs.length) :
    packMailAddrs label k n addrs =
      mapStart k (count32 addrs.zipIdx) ++ addrs.zipIdx.flatMap (packMailAddr label) := by
  rw [packMailAddrs, count32_of_counted (n := n) (by rw [h, List.length_zipIdx])]

theorem yields_mailAddrs {addrs : List (List UInt8)} (hk : k.isEmpty = false)
    (hn : n.toNat = addrs.length) (h : ListReadable TextReadable addrs) :
    Yields (parseArrayMap env) (packMailAddrs label k n addrs)
      (addrs.map (decodeText env.replaced)) := by
  have hmap : addrs.map (decodeText env.replaced) =
      addrs.zipIdx.map fun a => decodeText env.replaced a.1 := by
    conv_lhs => rw [← List.zipIdx_map_fst 0 addrs, List.map_map]
    rfl
  rw [packMailAddrs_eq hn, hmap]
  refine yields_mapTimes hk (by rw [List.length_zipIdx]; exact h.1) fun a ha => yields_text ?_
  have hmem : a.1 ∈ addrs := by
    rw [← List.zipIdx_map_fst 0 addrs]
    exact List.mem_map_of_mem ha
  exact (h.2 a.1 hmem).1

theorem mailAddrs_of_same {addrs : List (List UInt8)} {got : List String} (hk : k.isEmpty = false)
    (hn : n.toNat = addrs.length)
    (hrun : (parseArrayMap env).run (packMailAddrs label k n addrs ++ rest) = some (got, rest'))
    (hsame : List.Forall₂ SameText got addrs) : ListReadable TextReadable addrs ∧ rest' = rest := by
  have hone : ∀ {a : List UInt8 × ℕ} {s : String} {rest rest' : List Token},
      (parseText env.replaced).run (packMailAddr label a ++ rest) = some (s, rest') →
      SameText s a.1 → TextReadable a.1 ∧ rest' = rest := by
    intro a s rest rest' hrun hsame
    obtain ⟨hlen, rfl, rfl⟩ := text_run_eq_some hrun
    exact ⟨⟨hlen, decodeText_same_iff.1 hsame⟩, rfl⟩
  have hzip : List.Forall₂ (fun s (a : List UInt8 × ℕ) => SameText s a.1) got addrs.zipIdx := by
    rwa [← List.zipIdx_map_fst 0 addrs, List.forall₂_map_right_iff] at hsame
  rw [packMailAddrs_eq hn] at hrun
  obtain ⟨⟨hlen, hall⟩, hrest⟩ := mapTimes_of_same hk hone hrun hzip
  rw [List.length_zipIdx] at hlen
  refine ⟨⟨hlen, fun a ha => ?_⟩, hrest⟩
  rw [← List.zipIdx_map_fst 0 addrs] at ha
  obtain ⟨p, hp, rfl⟩ := List.mem_map.1 ha
  exact hall p hp

theorem yields_attachHeader : Yields unpackMapHeader (mapStart "" 2) 2 :=
  yields_below (yields_mapLen 2) (by omega)

theorem yields_attachEntry {attach : List UInt8 × List UInt8} (h : PairReadable attach) :
    Yields (parseAttachEntry env) (packAttach attach) (decodePair env attach) :=
  yields_attachHeader.bind <| (yields_text h.1.1).bind <|
    (yields_text h.2.1).bind_pure (yields_pure _)

theorem attachEntry_of_same {attach : List UInt8 × List UInt8} {got : String × String}
    (hrun : (parseAttachEntry env).run (packAttach attach ++ rest) = some (got, rest'))
    (hsame : SamePair got attach) : PairReadable attach ∧ rest' = rest := by
  simp only [packAttach, List.append_assoc] at hrun
  rw [parseAttachEntry, yields_attachHeader.bind_run] at hrun
  obtain ⟨hname, hrun⟩ := text_bind_run hrun
  obtain ⟨hpath, hrun⟩ := text_bind_run hrun
  obtain ⟨rfl, rfl⟩ := Prod.mk.inj (Option.some.inj hrun)
  exact ⟨⟨⟨hname, decodeText_same_iff.1 hsame.1⟩, ⟨hpath, decodeText_same_iff.1 hsame.2⟩⟩, rfl⟩

theorem packMailAttach_eq {attachs : List (List UInt8 × List UInt8)}
    (h : n.toNat = attachs.length) :
    packMailAttach k n attachs = arrayStart k (count32 attachs) ++ attachs.flatMap packAttach := by
  rw [packMailAttach, count32_of_counted h]

theorem yields_attach {attachs : List (List UInt8 × List UInt8)} (hk : k.isEmpty = false)
    (hn : n.toNat = attachs.length) (h : ListReadable PairReadable attachs) :
    Yields (parseAttach env) (packMailAttach k n attachs) (attachs.map (decodePair env)) := by
  rw [packMailAttach_eq hn]
  exact yields_arrayTimes hk h.1 fun a ha => yields_attachEntry (h.2 a ha)

theorem attach_of_same {attachs : List (List UInt8 × List UInt8)} {got : List (String × String)}
    (hk : k.isEmpty = false) (hn : n.toNat = attachs.length)
    (hrun : (parseAttach env).run (packMailAttach k n attachs ++ rest) = some (got, rest'))
    (hsame : List.Forall₂ SamePair got attachs) :
    ListReadable PairReadable attachs ∧ rest' = rest := by
  rw [packMailAttach_eq hn] at hrun
  exact arrayTimes_of_same hk attachEntry_of_same hrun hsame

end Lists

def mailOf (env : Env) (t : TcpSession) (r : MailRecord) : MailSession :=
  ⟨commonOf t, decodeText env.replaced r.username, decodeText env.replaced r.password,
    decodeText env.replaced r.mailFrom, decodeText env.replaced r.subject,
    decodeText env.replaced r.contentText, decodeText env.replaced r.contentHtml,
    r.attachCnt.toNat, r.mailCcCnt.toNat, r.mailToCnt.toNat, r.attachList.map (decodePair env),
    r.mailCcList.map (decodeText env.replaced), r.mailToList.map (decodeText env.replaced)⟩

theorem mailOf_same {env : Env} {t : TcpSession} {r : MailRecord} (h : MailReadable r) :
    (mailOf env t r).Same t r where
  sessionEntry := commonOf_same t
  userName := h.username.same
  passwd := h.password.same
  sender := h.mailFrom.same
  subject := h.subject.same
  contentTxtPath := h.contentText.same
  contentHtmlPath := h.contentHtml.same
  attachNum := r.attach_counted
  mailCCNum := r.mailCc_counted
  mailToNum := r.mailTo_counted
  maillAttachEntryList := h.attachList.same fun _ => PairReadable.same
  mailCCList := h.mailCcList.same fun _ => TextReadable.same
  mailToList := h.mailToList.same fun _ => TextReadable.same

section Record

variable {env : Env} {t : TcpSession} {r : MailRecord}

theorem mail_agrees_of_readable (ht : Storable t) (h : MailReadable r) :
    Agrees (MailSession.parse env) (protoSessionStore t (mailSessionFormat r)) (·.Same t r) := by
  have hto : r.mailToCnt.toNat < 2 ^ 31 := r.mailTo_counted ▸ h.mailToList.1
  have hcc : r.mailCcCnt.toNat < 2 ^ 31 := r.mailCc_counted ▸ h.mailCcList.1
  have hattach : r.attachCnt.toNat < 2 ^ 31 := r.attach_counted ▸ h.attachList.1
  refine ⟨mailOf env t r, ?_, mailOf_same h⟩
  rw [MailSession.parse, record_run (.inl rfl) ht]
  exact Yields.run <| (yields_mapOf (by omega) rfl).bind <| (yields_text h.username.1).bind <|
    (yields_text h.password.1).bind <| (yields_text h.subject.1).bind <|
    (yields_text h.mailFrom.1).bind <| (yields_int hto rfl).bind <|
    (yields_mailAddrs rfl r.mailTo_counted h.mailToList).bind <| (yields_int hcc rfl).bind <|
    (yields_mailAddrs rfl r.mailCc_counted h.mailCcList).bind <|
    (yields_text h.contentText.1).bind <| (yields_text h.contentHtml.1).bind <|
    (yields_int hattach rfl).bind <|
    (yields_attach rfl r.attach_counted h.attachList).bind_pure (yields_pure _)

theorem readable_of_mail_agrees (ht : Storable t)
    (h : Agrees (MailSession.parse env) (protoSessionStore t (mailSessionFormat r)) (·.Same t r)) :
    MailReadable r := by
  obtain ⟨got, hrun, hsame⟩ := h
  rw [MailSession.parse, record_run (.inl rfl) ht, mailSessionFormat,
    (yields_mapOf (by omega) rfl).bind_run, if_neg (by decide), parseMailSessionRaw] at hrun
  obtain ⟨husername, hrun⟩ := text_bind_run hrun
  obtain ⟨hpassword, hrun⟩ := text_bind_run hrun
  obtain ⟨hsubject, hrun⟩ := text_bind_run hrun
  obtain ⟨hsender, hrun⟩ := text_bind_run hrun
  -- what a list leaves behind is known only once the session is, so the steps come first
  obtain ⟨mailToNum, mid₁, htoNum, hrun⟩ := run_bind_eq_some.1 hrun
  obtain ⟨mailToList, mid₂, hto, hrun⟩ := run_bind_eq_some.1 hrun
  obtain ⟨mailCCNum, mid₃, hccNum, hrun⟩ := run_bind_eq_some.1 hrun
  obtain ⟨mailCCList, mid₄, hcc, hrun⟩ := run_bind_eq_some.1 hrun
  obtain ⟨contentTxtPath, mid₅, htxt, hrun⟩ := run_bind_eq_some.1 hrun
  obtain ⟨contentHtmlPath, mid₆, hhtml, hrun⟩ := run_bind_eq_some.1 hrun
  obtain ⟨attachNum, mid₇, hattachNum, hrun⟩ := run_bind_eq_some.1 hrun
  obtain ⟨attachs, mid₈, hattach, hrun⟩ := run_bind_eq_some.1 hrun
  obtain ⟨rfl, rfl⟩ := Prod.mk.inj (Option.some.inj hrun)
  obtain ⟨-, rfl, rfl⟩ := uint_run_eq_some rfl htoNum
  obtain ⟨htoList, rfl⟩ := mailAddrs_of_same rfl r.mailTo_counted hto hsame.mailToList
  obtain ⟨-, rfl, rfl⟩ := uint_run_eq_some rfl hccNum
  obtain ⟨hccList, rfl⟩ := mailAddrs_of_same rfl r.mailCc_counted hcc hsame.mailCCList
  obtain ⟨htxtLen, rfl, rfl⟩ := text_run_eq_some htxt
  obtain ⟨hhtmlLen, rfl, rfl⟩ := text_run_eq_some hhtml
  obtain ⟨-, rfl, rfl⟩ := uint_run_eq_some rfl hattachNum
  rw [← List.append_nil (packMailAttach _ _ _)] at hattach
  obtain ⟨hattachList, -⟩ := attach_of_same rfl r.attach_counted hattach hsame.maillAttachEntryList
  exact ⟨⟨husername, decodeText_same_iff.1 hsame.userName⟩,
    ⟨hpassword, decodeText_same_iff.1 hsame.passwd⟩,
      ⟨hsubject, decodeText_same_iff.1 hsame.subject⟩,
    ⟨hsender, decodeText_same_iff.1 hsame.sender⟩,
    ⟨htxtLen, decodeText_same_iff.1 hsame.contentTxtPath⟩,
    ⟨hhtmlLen, decodeText_same_iff.1 hsame.contentHtmlPath⟩, htoList, hccList, hattachList⟩

end Record

end CloudHands.Proto

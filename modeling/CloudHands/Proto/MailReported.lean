import CloudHands.Mail.SmtpContents
import CloudHands.Proto.Mail

/-!
# Mails from the wire to the reader

What `do_mail_session_format` writes of the mails that an SMTP connection has stored, and what
`MailSession.parse` shows of them.
-/

namespace CloudHands.Proto

open Lib Lib.TokenReader Msgpack Japi

structure MailPaths where
  contentText : List UInt8
  contentHtml : List UInt8
  attach : ℕ → List UInt8

def cText (bs : List UInt8) : List UInt8 := bs.takeWhile (· ≠ 0)

/-- `subject.data` and `mail_from.data`, which are null without the header. -/
def strText (s : Option Mail.MailStr) : List UInt8 := (s.map (·.data)).getD []

/-- `_ctnt_path`. -/
def ctntPath (ctnt : Option Mail.MailCtnt) (path : List UInt8) : List UInt8 :=
  (ctnt.map fun _ => path).getD []

structure MailCountable (c : Mail.MailContents) : Prop where
  mailTo : c.mailToList.length < 2 ^ 32
  mailCc : c.mailCcList.length < 2 ^ 32
  attach : c.attachList.length < 2 ^ 32

theorem toNat_ofNat_of_lt {n : ℕ} (h : n < 2 ^ 32) : (UInt32.ofNat n).toNat = n :=
  UInt32.toNat_ofNat_of_lt' h

def attachEntry (paths : MailPaths) (ctnt : Mail.MailCtnt × ℕ) : List UInt8 × List UInt8 :=
  (cText ctnt.1.filename, paths.attach ctnt.2)

def mailRecord (mail : Mail.StoredMail) (c : Mail.MailContents) (paths : MailPaths)
    (h : MailCountable c) :
    MailRecord where
  username := cText mail.username
  password := cText mail.password
  subject := strText c.subject
  mailFrom := strText c.mailFrom
  mailToCnt := .ofNat c.mailToList.length
  mailToList := c.mailToList.map (·.data)
  mailCcCnt := .ofNat c.mailCcList.length
  mailCcList := c.mailCcList.map (·.data)
  contentText := ctntPath c.ctntPlainFile paths.contentText
  contentHtml := ctntPath c.ctntHtmlFile paths.contentHtml
  attachCnt := .ofNat c.attachList.length
  attachList := c.attachList.zipIdx.map (attachEntry paths)
  mailTo_counted := by rw [toNat_ofNat_of_lt h.mailTo, List.length_map]
  mailCc_counted := by rw [toNat_ofNat_of_lt h.mailCc, List.length_map]
  attach_counted := by rw [toNat_ofNat_of_lt h.attach, List.length_map, List.length_zipIdx]

abbrev receivedOf (part : Mail.MimePart) : Mail.MailContents :=
  part.received Mail.mailReceiver .empty

/-- The mail is stored with the contents of the tree, and its record is read right, with the
attachments of the tree under their names and in their order, exactly if its texts are UTF-8 and
its texts and lists not longer than Java counts. -/
def Reported (env : Env) (mail : Mail.StoredMail) (part : Mail.MimePart) : Prop :=
  mail.session.contents = some (receivedOf part) ∧
    ∀ (paths : MailPaths) (h : MailCountable (receivedOf part)) (t : TcpSession), Storable t →
      let r := mailRecord mail (receivedOf part) paths h
      Agrees (MailSession.parse env) (protoSessionStore t (mailSessionFormat r)) (fun got =>
        got.Same t r ∧ List.Forall₂ (fun shown ctnt => SameText shown.1 (cText ctnt.filename))
          got.maillAttachEntryList (part.leaves.filterMap Mail.attachmentOf)) ↔ MailReadable r

section Reported

variable {env : Env} {mail : Mail.StoredMail} {part : Mail.MimePart}

theorem attachList_received (part : Mail.MimePart) :
    (receivedOf part).attachList = part.leaves.filterMap Mail.attachmentOf :=
  (Mail.part_filesAfter part .empty).attachList

theorem attachNames_same {paths : MailPaths} {ctnts : List Mail.MailCtnt}
    {shown : List (String × String)}
    {n : ℕ} (h : List.Forall₂ SamePair shown ((ctnts.zipIdx n).map (attachEntry paths))) :
    List.Forall₂ (fun shown ctnt => SameText shown.1 (cText ctnt.filename)) shown ctnts := by
  induction ctnts generalizing shown n with
  | nil =>
    cases h
    exact .nil
  | cons ctnt ctnts ih =>
    rw [List.zipIdx_cons, List.map_cons] at h
    cases h with
    | cons hhead htail => exact .cons hhead.1 (ih htail)

theorem reported_of_contents (h : mail.session.contents = some (receivedOf part)) :
    Reported env mail part := by
  refine ⟨h, fun paths hcount t ht => ⟨?_, fun hreadable => ?_⟩⟩
  · rintro ⟨got, hrun, hsame, -⟩
    exact readable_of_mail_agrees ht ⟨got, hrun, hsame⟩
  · have hagrees :
        Agrees (MailSession.parse env) (protoSessionStore t (mailSessionFormat _)) (·.Same t _) :=
      mail_agrees_of_readable ht hreadable
    obtain ⟨got, hrun, hsame⟩ := hagrees
    refine ⟨got, hrun, hsame, ?_⟩
    rw [← attachList_received]
    exact attachNames_same hsame.maillAttachEntryList

/-- The mails that a connection sends are shown by the reader with their headers and the names of
their attachments, in whatever segments the bytes arrive. -/
theorem smtp_mails_reported {segs : List (Mail.Side × List UInt8)} {d : Mail.SmtpDialogue}
    (hd : Mail.SmtpDialogue.init.run (Mail.lineEvents (fun _ => []) segs) = some d)
    (htaken : Mail.stepsTaken .init .init (Mail.lineEvents (fun _ => []) segs))
    (hplain : Mail.stepsPlain .init (Mail.lineEvents (fun _ => []) segs))
    {parts : List Mail.MimePart}
    (hvalid : ∀ part ∈ parts, part.Valid false none)
    (hsent : (Mail.SmtpMails.init.along .init (Mail.lineEvents (fun _ => []) segs)).finished.map
      (·.map (·.data)) = parts.map Mail.MimePart.lines) :
    ∃ c, (Mail.MailConn.init Mail.SmtpEntry.init).run Mail.smtpLine segs = some c ∧
      List.Forall₂ (Reported env) c.entry.stored parts := by
  obtain ⟨c, hc, hcontents⟩ := Mail.mails_stored hd htaken hplain hvalid hsent
  exact ⟨c, hc, hcontents.imp fun _ _ => reported_of_contents⟩

theorem attachedSegs_reported :
    ∃ c, (Mail.MailConn.init Mail.SmtpEntry.init).run Mail.smtpLine Mail.attachedSegs = some c ∧
      List.Forall₂ (Reported plainEnv) c.entry.stored [Mail.attachedMail] :=
  smtp_mails_reported Mail.attachedSegs_dialogue (by decide +kernel) (by decide +kernel)
    (List.forall_mem_singleton.2 Mail.attachedMail_valid) (by decide +kernel)

end Reported

end CloudHands.Proto

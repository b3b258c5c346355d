import CloudHands.Proto.Http
import CloudHands.Proto.Mail
import CloudHands.Proto.Ftp

/-!
# The records of HTTP, mail and FTP sessions

The C writer and the Java reader agree on a record exactly when its texts are UTF-8, its texts
and lists are not longer than Java counts and, for HTTP, the names of the body files are paths
and the file name can be taken from the headers or the URI.
-/

namespace CloudHands.Proto

open Japi Http

theorem Counters63.storable {t : TcpSession} (h : Counters63 t) (hid : t.protocolId.toNat < 11) :
    Storable t := { h with protocolId := hid }

theorem proto_records_agree_iff (env : Env) {t : TcpSession} (ht : Counters63 t) :
    (∀ (app : App) (r : HttpRecord), t.protocolId = PROTOCOL_HTTP → Built app r.session →
      (Agrees (HTTPSession.parse env) (protoSessionStore t (httpSessionFormat r)) (·.Same t r) ↔
        HttpReadable env r)) ∧
    (∀ r : MailRecord, t.protocolId ∈ [PROTOCOL_SMTP, PROTOCOL_POP3, PROTOCOL_IMAP] →
      (Agrees (MailSession.parse env) (protoSessionStore t (mailSessionFormat r)) (·.Same t r) ↔
        MailReadable r)) ∧
    ∀ r : FtpRecord, t.protocolId = PROTOCOL_FTP →
      (Agrees (FTPSession.parse env) (protoSessionStore t (ftpSessionFormat r)) (·.Same t r) ↔
        FtpReadable r) := by
  refine ⟨fun app r hid hr => ?_, fun r hid => ?_, fun r hid => ?_⟩
  · have hstorable := ht.storable (by rw [hid]; decide)
    exact ⟨readable_of_http_agrees hstorable hr, http_agrees_of_readable hstorable hr⟩
  · have hstorable : Storable t := by
      simp only [List.mem_cons, List.not_mem_nil, or_false] at hid
      rcases hid with hid | hid | hid
      all_goals exact ht.storable (by rw [hid]; decide)
    exact ⟨readable_of_mail_agrees hstorable, mail_agrees_of_readable hstorable⟩
  · have hstorable := ht.storable (by rw [hid]; decide)
    exact ⟨readable_of_ftp_agrees hstorable, ftp_agrees_of_readable hstorable⟩

def requestSession (uri : String) : HttpSession :=
  let line := "GET " ++ uri ++ " HTTP/1.1\r\n"
  match phaseStep ⟨fun _ _ => true⟩ .request {} (utf8Bytes line) with
  | some (.more s _) => s
  | _ => {}

theorem requestSession_built (uri : String) : Built ⟨fun _ _ => true⟩ (requestSession uri) := by
  simp only [requestSession]
  split
  · exact .step .created ‹_›
  · exact .created

def requestRecord (uri : String) : HttpRecord := ⟨requestSession uri, [], []⟩

theorem requestRecord_readable : HttpReadable plainEnv (requestRecord "/a") := by
  have hmethod : (requestRecord "/a").method = utf8Bytes "GET" := by decide +kernel
  have huri : (requestRecord "/a").uri = utf8Bytes "/a" := by decide +kernel
  have hreq : (requestRecord "/a").reqBodyPath = utf8Bytes "" := by decide +kernel
  have hres : (requestRecord "/a").resBodyPath = utf8Bytes "" := by decide +kernel
  have hin : (requestRecord "/a").inHeaders = [] := by decide +kernel
  have hout : (requestRecord "/a").outHeaders = [] := by decide +kernel
  constructor
  case method => exact hmethod ▸ textReadable_utf8Bytes (by decide)
  case uri => exact huri ▸ textReadable_utf8Bytes (by decide)
  case reqBodyPath => exact hreq ▸ textReadable_utf8Bytes (by decide)
  case resBodyPath => exact hres ▸ textReadable_utf8Bytes (by decide)
  case reqFile =>
    rw [hreq, decodeText_utf8Bytes]
    rfl
  case resFile =>
    rw [hres, decodeText_utf8Bytes]
    rfl
  case inHeaders =>
    rw [hin]
    exact ⟨by decide, by simp⟩
  case outHeaders =>
    rw [hout]
    exact ⟨by decide, by simp⟩
  case fileNamed =>
    rw [huri, decodeText_utf8Bytes]
    exact .inr ((getPath_isSome_iff "/a").1 rfl)

def plainMail : MailRecord where
  username := utf8Bytes "user"
  password := utf8Bytes "secret"
  subject := utf8Bytes "hello"
  mailFrom := utf8Bytes "a@b.c"
  mailToCnt := 2
  mailToList := [utf8Bytes "d@e.f", utf8Bytes "g@h.i"]
  mailCcCnt := 0
  mailCcList := []
  contentText := utf8Bytes "/data/1.txt"
  contentHtml := utf8Bytes ""
  attachCnt := 1
  attachList := [(utf8Bytes "x.doc", utf8Bytes "/data/x")]
  mailTo_counted := rfl
  mailCc_counted := rfl
  attach_counted := rfl

theorem plainMail_readable : MailReadable plainMail where
  username := textReadable_utf8Bytes (by decide)
  password := textReadable_utf8Bytes (by decide)
  subject := textReadable_utf8Bytes (by decide)
  mailFrom := textReadable_utf8Bytes (by decide)
  contentText := textReadable_utf8Bytes (by decide)
  contentHtml := textReadable_utf8Bytes (by decide)
  mailToList := by
    refine ⟨by decide, ?_⟩
    simp only [plainMail, List.forall_mem_cons]
    exact ⟨textReadable_utf8Bytes (by decide), textReadable_utf8Bytes (by decide), by simp⟩
  mailCcList := ⟨by decide, by simp [plainMail]⟩
  attachList := by
    refine ⟨by decide, ?_⟩
    simp only [plainMail, List.forall_mem_singleton]
    exact ⟨textReadable_utf8Bytes (by decide), textReadable_utf8Bytes (by decide)⟩

def plainFtp : FtpRecord :=
  ⟨utf8Bytes "user", utf8Bytes "secret",
    [⟨utf8Bytes "USER", utf8Bytes "user", [⟨331, utf8Bytes "password"⟩]⟩,
      ⟨utf8Bytes "QUIT", utf8Bytes "", []⟩]⟩

theorem plainFtp_readable : FtpReadable plainFtp where
  user := textReadable_utf8Bytes (by decide)
  passwd := textReadable_utf8Bytes (by decide)
  cmdList := by
    refine ⟨by decide, ?_⟩
    simp only [plainFtp, List.forall_mem_cons]
    refine ⟨⟨textReadable_utf8Bytes (by decide), textReadable_utf8Bytes (by decide), by decide, ?_⟩,
      ⟨textReadable_utf8Bytes (by decide), textReadable_utf8Bytes (by decide), by decide, by simp⟩,
      by simp⟩
    rw [List.forall_mem_singleton]
    exact textReadable_utf8Bytes (by decide)

theorem plain_records_agree :
    Agrees (HTTPSession.parse plainEnv)
      (protoSessionStore (smallSession PROTOCOL_HTTP) (httpSessionFormat (requestRecord "/a")))
      (·.Same (smallSession PROTOCOL_HTTP) (requestRecord "/a")) ∧
    Agrees (MailSession.parse plainEnv)
      (protoSessionStore (smallSession PROTOCOL_POP3) (mailSessionFormat plainMail))
      (·.Same (smallSession PROTOCOL_POP3) plainMail) ∧
    Agrees (FTPSession.parse plainEnv)
      (protoSessionStore (smallSession PROTOCOL_FTP) (ftpSessionFormat plainFtp))
      (·.Same (smallSession PROTOCOL_FTP) plainFtp) :=
  ⟨((proto_records_agree_iff plainEnv (smallSession_counters _)).1 _ _ rfl
      (requestSession_built "/a")).2 requestRecord_readable,
    ((proto_records_agree_iff plainEnv (smallSession_counters _)).2.1 _ (by decide)).2
      plainMail_readable,
    ((proto_records_agree_iff plainEnv (smallSession_counters _)).2.2 _ rfl).2 plainFtp_readable⟩

/-- A request for a path with a character outside of Latin-1 cannot be read. -/
theorem http_record_wide_uri_throws :
    Counters63 (smallSession PROTOCOL_HTTP) ∧
      Built ⟨fun _ _ => true⟩ (requestRecord "/中").session ∧
      (requestRecord "/中").uri = utf8Bytes "/中" ∧
      ((HTTPSession.parse plainEnv).run
        (protoSessionStore (smallSession PROTOCOL_HTTP)
          (httpSessionFormat (requestRecord "/中")))).isNone ∧
      ¬ Agrees (HTTPSession.parse plainEnv)
        (protoSessionStore (smallSession PROTOCOL_HTTP) (httpSessionFormat (requestRecord "/中")))
        (·.Same (smallSession PROTOCOL_HTTP) (requestRecord "/中")) := by
  have hnone : ((HTTPSession.parse plainEnv).run
      (protoSessionStore (smallSession PROTOCOL_HTTP)
        (httpSessionFormat (requestRecord "/中")))).isNone := by decide +kernel
  refine ⟨smallSession_counters _, requestSession_built "/中", by decide +kernel, hnone, ?_⟩
  rintro ⟨got, hrun, -⟩
  rw [hrun] at hnone
  cases hnone

end CloudHands.Proto

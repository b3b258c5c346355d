import CloudHands.Mail.Line

/-!
# Mail sessions

`ch_mail_session.c`, `ch_mail_auth.c`, `ch_decode_base64` and the session entry that the
parsers of the mail protocols share. A MIME decoder is the calls made to it; allocations
succeed.
-/

namespace CloudHands.Mail

open Http

/-- What a parser does with a `MimeDecParseState`. -/
structure MimeDecState where
  parsedLines : List CurrLine
  complete : Bool
  parseError : Bool
  deriving DecidableEq, Repr

def mimeDecInitParser : MimeDecState := ⟨[], false, false⟩

/-- `MimeDecParseLine`. -/
def MimeDecState.parseLine (m : MimeDecState) (line : CurrLine) : MimeDecState :=
  { m with parsedLines := m.parsedLines ++ [line] }

/-- `MimeDecParseComplete`. -/
def MimeDecState.parseComplete (m : MimeDecState) : MimeDecState := { m with complete := true }

/-- `ch_mail_session_t`, less what the callbacks of the MIME decoder fill in. -/
structure MailSession where
  done : Bool
  mimeState : Option MimeDecState
  deriving DecidableEq, Repr

def mailSessionCreate : MailSession := ⟨false, none⟩

structure StoredMail where
  session : MailSession
  username : List UInt8
  password : List UInt8
  deriving DecidableEq, Repr

/-- `ch_mail_session_entry_t`, less the line buffers. The current session, where there is one,
is the last of the session list; `sessionList` holds the others. -/
structure MailSentry where
  sessionList : List MailSession
  currSession : Option MailSession
  login : List UInt8
  passwd : List UInt8
  /-- What was written to the session store. -/
  stored : List StoredMail
  deriving DecidableEq, Repr

def MailSentry.init : MailSentry := ⟨[], none, [], [], []⟩

def MailSentry.storedMail (e : MailSentry) (s : MailSession) : StoredMail := ⟨s, e.login, e.passwd⟩

def MailSentry.newSession (e : MailSentry) : MailSentry :=
  { e with sessionList := e.sessionList ++ e.currSession.toList
           currSession := some mailSessionCreate }

def MailSentry.mapSession (e : MailSentry) (f : MailSession → MailSession) : MailSentry :=
  { e with currSession := e.currSession.map f }

def MailSentry.mapMime (e : MailSentry) (f : MimeDecState → MimeDecState) : MailSentry :=
  e.mapSession fun s => { s with mimeState := s.mimeState.map f }

/-- `ch_mail_session_store` of the current session. -/
def MailSentry.store (e : MailSentry) : MailSentry :=
  { e with currSession := none
           stored := e.stored ++ e.currSession.toList.map e.storedMail }

/-- What is in the store when `do_mail_session_entry_clean` has closed the entry. -/
def MailSentry.clean (e : MailSentry) : List StoredMail :=
  e.stored ++ ((e.sessionList ++ e.currSession.toList).filter (·.mimeState.isSome)).map e.storedMail

/-- The table `basis64`, none for its entry 77. -/
def basis64 (c : UInt8) : Option UInt8 :=
  if 65 ≤ c ∧ c ≤ 90 then some (c - 65)
  else if 97 ≤ c ∧ c ≤ 122 then some (c - 71)
  else if 48 ≤ c ∧ c ≤ 57 then some (c + 4)
  else if c = 43 then some 62
  else if c = 47 then some 63
  else none

def decodeGroups : List UInt8 → List UInt8
  | a :: b :: c :: d :: rest =>
    (a <<< 2 ||| b >>> 4) :: (b <<< 4 ||| c >>> 2) :: (c <<< 6 ||| d) :: decodeGroups rest
  | [a, b, c] => [a <<< 2 ||| b >>> 4, b <<< 4 ||| c >>> 2]
  | [a, b] => [a <<< 2 ||| b >>> 4]
  | _ => []

/-- `ch_decode_base64`, none for its -1. -/
def decodeBase64 (src : List UInt8) : Option (List UInt8) :=
  ((src.takeWhile (· ≠ 61)).mapM basis64).bind fun digits =>
    if digits.length % 4 = 1 then none else some (decodeGroups digits)

def cutNul : List UInt8 → List UInt8 × List UInt8
  | [] => ([], [])
  | c :: cs => if c = 0 then ([c], cs) else (c :: (cutNul cs).1, (cutNul cs).2)

/-- `ch_mail_auth_plain`: user and password. -/
def mailAuthPlain (buf : List UInt8) : Option (List UInt8 × List UInt8) :=
  (decodeBase64 buf).map fun plain => cutNul (cutNul plain).2

/-- `ch_mail_auth_login_username` and `ch_mail_auth_login_password`: a text that is not base64
leaves the old length over a cleared buffer. -/
def mailAuthLogin (old buf : List UInt8) : List UInt8 :=
  (decodeBase64 buf).getD (List.replicate old.length 0)

end CloudHands.Mail

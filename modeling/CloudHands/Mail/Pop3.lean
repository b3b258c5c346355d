import CloudHands.Mail.Session

/-!
# POP3 parser

`pop3_parser.c`. One state and one current command serve both directions. None is a result
of false, for which `pop3_parse` returns `PARSE_BREAK`.
-/

namespace CloudHands.Mail

open Lib Http

inductive Pop3Cmd
  | pass
  | user
  | stat
  | list
  | retr
  | dele
  | noop
  | rest
  | top
  | uidl
  | quit
  deriving DecidableEq, Repr

/-- `Pop3_State`. -/
inductive Pop3Phase
  | authorization
  | transaction
  | data
  | update
  deriving DecidableEq, Repr

inductive Pop3RetCode
  | unknown
  | err
  | ok
  deriving DecidableEq, Repr

/-- `pop3_state_t`; no command yet is none. -/
structure Pop3State where
  isLogined : Bool
  cmd : Option Pop3Cmd
  retCode : Pop3RetCode
  state : Pop3Phase
  deriving DecidableEq, Repr

structure Pop3Entry extends MailSentry where
  pop3 : Pop3State
  deriving DecidableEq, Repr

def Pop3Entry.init : Pop3Entry := ⟨.init, ⟨false, none, .unknown, .authorization⟩⟩

/-- The words that `pop3_get_cmd` tests for, in this order. -/
def pop3Words : List (String × Pop3Cmd) :=
  [("USER", .user), ("PASS", .pass), ("STAT", .stat), ("LIST", .list), ("RETR", .retr),
    ("DELE", .dele), ("NOOP", .noop), ("REST", .rest), ("TOP", .top), ("UIDL", .uidl),
    ("QUIT", .quit)]

def pop3GetCmd (text : List UInt8) : Option Pop3Cmd :=
  let cmd := text.dropWhile (· = 32)
  if cmd.length < 4 then none
  else (pop3Words.find? fun w => strncaseEq cmd w.1 (bytesOf w.1).length).map Prod.snd

/-- `strstr`: what the text holds from the first occurrence of the word on. The text ends at a
zero byte or with the line. -/
def strstr (word : List UInt8) : List UInt8 → Option (List UInt8)
  | [] => none
  | c :: cs =>
    if word.isPrefixOf (c :: cs) then some (c :: cs)
    else if c = 0 then none
    else strstr word cs

/-- The argument that `pop3_process_command_user` and `pop3_process_command_pass` look for
behind the word. -/
def pop3Argument (word : String) (text : List UInt8) : Option (List UInt8) :=
  (strstr (bytesOf word) text).bind fun found =>
    let arg := (found.dropWhile (· ≠ 32)).dropWhile (· = 32)
    if arg = [] then none else some arg

def pop3ProcessCommandUser (line : CurrLine) (e : Pop3Entry) : Option Pop3Entry :=
  (pop3Argument "USER" line.data).map fun arg => { e with login := arg.takeWhile (· ≠ 0) }

def pop3ProcessCommandPass (line : CurrLine) (e : Pop3Entry) : Option Pop3Entry :=
  (pop3Argument "PASS" line.data).map fun arg => { e with passwd := arg.takeWhile (· ≠ 0) }

/-- `ParseAuth`. -/
def pop3ParseAuth (line : CurrLine) (e : Pop3Entry) : Option Pop3Entry :=
  match pop3GetCmd line.data with
  | none => none
  | some cmd =>
    let e := { e with pop3 := { e.pop3 with cmd := some cmd, state := .authorization } }
    match cmd with
    | .user => pop3ProcessCommandUser line e
    | .pass => pop3ProcessCommandPass line e
    | _ => some e

/-- `ParseCmd`. -/
def pop3ParseCmd (line : CurrLine) (e : Pop3Entry) : Option Pop3Entry :=
  (pop3GetCmd line.data).map fun cmd =>
    { e with pop3 := { e.pop3 with cmd := some cmd, state := .transaction } }

/-- `handle_client_data`. -/
def pop3HandleClientData (e : Pop3Entry) (line : CurrLine) : Option Pop3Entry :=
  match e.pop3.state with
  | .authorization => pop3ParseAuth line e
  | .transaction | .data | .update => pop3ParseCmd line e

def Pop3Cmd.inTransaction : Pop3Cmd → Bool
  | .stat | .list | .retr | .dele | .noop | .rest | .top | .uidl => true
  | .pass | .user | .quit => false

/-- The first two steps of `ChangeState`. -/
def pop3Login (s : Pop3State) : Pop3State :=
  let s := if s.cmd = some .pass then { s with isLogined := true, state := .transaction } else s
  if (!s.isLogined || s.state ≠ .transaction) && s.cmd.any Pop3Cmd.inTransaction then
    { s with isLogined := true, state := .transaction }
  else s

/-- `ChangeState`. -/
def pop3ChangeState (e : Pop3Entry) : Pop3Entry :=
  let e := { e with pop3 := pop3Login e.pop3 }
  if e.pop3.isLogined ∧ e.pop3.state = .transaction then
    if e.pop3.cmd = some .quit then
      let e := { e with pop3 := { e.pop3 with state := .update } }
      if e.currSession.any (·.mimeState.isSome) then { e with toMailSentry := e.toMailSentry.store }
      else e
    else if e.pop3.cmd = some .retr then { e with pop3 := { e.pop3 with state := .data } }
    else e
  else e

def trimLen (text : List UInt8) : ℕ → ℕ
  | 0 => 0
  | n + 1 => if text[n]? = some LF ∨ text[n]? = some CR then trimLen text n else n + 1

def pop3RetCode (text : List UInt8) : Pop3RetCode :=
  let len := trimLen text (text.length % 2 ^ 16)
  if 3 ≤ len ∧ strncaseEq text "+OK" 3 then .ok
  else if 4 ≤ len ∧ strncaseEq text "-ERR" 4 then .err
  else .unknown

/-- `GetRetcodeAndData` and `ParseAnswer`. -/
def pop3ParseAnswer (line : CurrLine) (e : Pop3Entry) : Pop3Entry :=
  let e := { e with pop3 := { e.pop3 with retCode := pop3RetCode line.data } }
  if e.pop3.retCode = .ok then pop3ChangeState e else e

def pop3OpenMail (e : Pop3Entry) : Pop3Entry :=
  let sentry := if e.currSession.isNone then e.toMailSentry.newSession else e.toMailSentry
  { e with toMailSentry := sentry.mapSession fun s =>
      { s with mimeState := s.mimeState <|> some mimeDecInitParser } }

/-- `ParseData`. -/
def pop3ParseData (line : CurrLine) (e : Pop3Entry) : Pop3Entry :=
  let e := pop3OpenMail e
  if line.data = bytesOf "." then
    { e with toMailSentry :=
        ((e.toMailSentry.mapMime MimeDecState.parseComplete).mapSession
          fun s => { s with done := true }).store }
  else { e with toMailSentry := e.toMailSentry.mapMime (·.parseLine line) }

/-- `handle_server_data`. -/
def pop3HandleServerData (e : Pop3Entry) (line : CurrLine) : Pop3Entry :=
  match e.pop3.state with
  | .data => pop3ParseData line e
  | .authorization | .transaction | .update => pop3ParseAnswer line e

def pop3Line : Side → Pop3Entry → CurrLine → Option Pop3Entry
  | .client => pop3HandleClientData
  | .server => fun e line => some (pop3HandleServerData e line)

end CloudHands.Mail

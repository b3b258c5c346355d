import CloudHands.Mail.Session

/-!
# SMTP parser

`smtp_parser.c`. The client's commands go into a buffer, to be matched with the replies of
the server; its length is that of the list. None is a result of -1, which ends the parsing.
-/

namespace CloudHands.Mail

open Lib Http

/-- The bits of `parser_state` that the parser sets. -/
structure SmtpParserState where
  commandDataMode : Bool
  firstReplySeen : Bool
  authUsername : Bool
  authPassword : Bool
  parsingMultilineReply : Bool
  deriving DecidableEq, Repr

inductive SmtpCommand
  | starttls
  | data
  | bdat
  | dataMode
  | quit
  | auth
  | otherCmd
  deriving DecidableEq, Repr

def smtpCommandBufferSteps : ℕ := 7

def ushrtMax : ℕ := 65535

/-- `smtp_state_t`. A slot of the command buffer is none while it is zero. -/
structure SmtpState where
  bdatChunkLen : ℕ
  bdatChunkIdx : ℕ
  cmds : List (Option SmtpCommand)
  cmdsCnt : ℕ
  cmdsIdx : ℕ
  helo : List UInt8
  smtpFrom : List UInt8
  rcptList : List (List UInt8)
  deriving DecidableEq, Repr

structure SmtpEntry extends MailSentry where
  parserState : SmtpParserState
  currentCommand : Option SmtpCommand
  state : SmtpState
  deriving DecidableEq, Repr

/-- `ch_mail_smtp_state_create`. -/
def smtpStateCreate : SmtpState :=
  ⟨0, 0, List.replicate smtpCommandBufferSteps none, 0, 0, [], [], []⟩

def SmtpEntry.init : SmtpEntry :=
  ⟨.init, ⟨false, false, false, false, false⟩, none, smtpStateCreate⟩

/-- `smtp_insert_cmd_buffer`, with the test of a result other than -1. A full buffer is
replaced by a longer one of zeros. -/
def smtpInsertCmdBuffer (command : Option SmtpCommand) (e : SmtpEntry) : SmtpEntry × Bool :=
  let len := e.state.cmds.length
  let increment :=
    if ushrtMax < len + smtpCommandBufferSteps then ushrtMax - len else smtpCommandBufferSteps
  let cmds := if len ≤ e.state.cmdsCnt then List.replicate (len + increment) none else e.state.cmds
  if ushrtMax < e.state.cmdsCnt + 1 then ({ e with state := { e.state with cmds := cmds } }, false)
  else
    ({ e with state := { e.state with
        cmds := cmds.set e.state.cmdsCnt command
        cmdsCnt := e.state.cmdsCnt + 1 } }, true)

def startsWith (word : String) (line : CurrLine) : Bool :=
  decide ((bytesOf word).length ≤ line.data.length) &&
    strncaseEq line.data word (bytesOf word).length

/-- `smtp_process_cmd_data`. The mail that ends is acknowledged like a command. -/
def smtpProcessCmdData (line : CurrLine) (e : SmtpEntry) : SmtpEntry :=
  if !e.parserState.commandDataMode then e
  else if line.data = bytesOf "." then
    let e := { e with parserState := { e.parserState with commandDataMode := false } }
    let e := (smtpInsertCmdBuffer (some .dataMode) e).1
    { e with toMailSentry :=
        ((e.toMailSentry.mapMime MimeDecState.parseComplete).mapSession
          fun s => { s with done := true }).store }
  else if e.currentCommand = some .data then
    { e with toMailSentry := e.toMailSentry.mapMime (·.parseLine line) }
  else e

def smtpProcessCmdBdat (line : CurrLine) (e : SmtpEntry) : Option SmtpEntry :=
  let idx := (e.state.bdatChunkIdx + (line.data.length + line.delimiterLen)) % 2 ^ 32
  let e := { e with state := { e.state with bdatChunkIdx := idx } }
  if e.state.bdatChunkLen < idx then none
  else if idx = e.state.bdatChunkLen then
    some { e with parserState := { e.parserState with commandDataMode := false } }
  else some e

def noNewTx (e : SmtpEntry) (line : CurrLine) : Bool :=
  !e.parserState.commandDataMode && (startsWith "rset" line || startsWith "quit" line)

/-- `smtp_parse_cmd_with_param`: the copy ends at a zero byte. -/
def smtpParseCmdWithParam (prefixLen : ℕ) (line : CurrLine) : List UInt8 :=
  (((line.data.drop (prefixLen + 1)).dropWhile (· = 32)).takeWhile (· ≠ 32)).takeWhile (· ≠ 0)

/-- `smtp_parse_command_bdat`. The number is followed by a blank or by the delimiter. -/
def smtpParseCommandBdat (line : CurrLine) (e : SmtpEntry) : Option SmtpEntry :=
  let arg := (line.data.drop 4).dropWhile (· = 32)
  if arg.length = line.data.length - 4 then none
  else if arg = [] then none
  else if (splitSign ((arg.map chr).dropWhile isSpace)).2.head?.all
      fun c => (asciiDigit c).isNone then
    none
  else some { e with state := { e.state with bdatChunkLen := strtoul (arg.map chr) % 2 ^ 32 } }

def smtpParseCommandHelo (line : CurrLine) (e : SmtpEntry) : SmtpEntry :=
  { e with state := { e.state with helo := smtpParseCmdWithParam 4 line } }

def smtpParseCommandMailfrom (line : CurrLine) (e : SmtpEntry) : SmtpEntry :=
  { e with state := { e.state with smtpFrom := smtpParseCmdWithParam 9 line } }

def smtpParseCommandRcptto (line : CurrLine) (e : SmtpEntry) : SmtpEntry :=
  { e with state := { e.state with
      rcptList := e.state.rcptList ++ [smtpParseCmdWithParam 7 line] } }

def smtpParseCommandAuthPlain (line : CurrLine) (e : SmtpEntry) : Option SmtpEntry :=
  let arg := (line.data.drop 10).dropWhile (· = 32)
  if line.data[10]? ≠ some 32 then none
  else if arg = [] then none
  else
    (mailAuthPlain arg).map fun r => { e with login := r.1, passwd := r.2 }

def smtpParseCommandAuth (line : CurrLine) (e : SmtpEntry) : Option SmtpEntry :=
  if startsWith "auth plain" line then smtpParseCommandAuthPlain line e
  else if startsWith "auth login" line then some e
  else if startsWith "auth cram-md5" line then some e
  else none

def smtpParseCommandAuthLoginUsername (line : CurrLine) (e : SmtpEntry) : SmtpEntry :=
  { e with
    login := mailAuthLogin e.login line.data
    parserState := { e.parserState with authUsername := false, authPassword := true } }

def smtpParseCommandAuthLoginPassword (line : CurrLine) (e : SmtpEntry) : SmtpEntry :=
  { e with
    passwd := mailAuthLogin e.passwd line.data
    parserState := { e.parserState with authPassword := false } }

/-- The mail of a `DATA` command: the one before it has not ended when it has a decoder. -/
def smtpStartMime (e : SmtpEntry) : SmtpEntry :=
  let sentry :=
    if e.currSession.any (·.mimeState.isSome) then
      (e.toMailSentry.mapMime fun m => { m with parseError := true }).newSession
    else e.toMailSentry
  { e with
    toMailSentry := sentry.mapSession fun s =>
      { s with mimeState := some mimeDecInitParser } }

def smtpReadCommand (line : CurrLine) (e : SmtpEntry) : Option SmtpEntry :=
  if startsWith "starttls" line then some { e with currentCommand := some .starttls }
  else if startsWith "data" line then some (smtpStartMime { e with currentCommand := some .data })
  else if startsWith "bdat" line then
    (smtpParseCommandBdat line e).map fun e =>
      { e with currentCommand := some .bdat
               parserState := { e.parserState with commandDataMode := true } }
  else if startsWith "helo" line || startsWith "ehlo" line then
    some { smtpParseCommandHelo line e with currentCommand := some .otherCmd }
  else if startsWith "auth" line then
    (smtpParseCommandAuth line e).map fun e => { e with currentCommand := some .auth }
  else if startsWith "mail from" line then
    some { smtpParseCommandMailfrom line e with currentCommand := some .otherCmd }
  else if startsWith "rcpt to" line then
    some { smtpParseCommandRcptto line e with currentCommand := some .otherCmd }
  else if startsWith "quit" line then some { e with currentCommand := some .quit }
  else if e.parserState.authUsername then some (smtpParseCommandAuthLoginUsername line e)
  else if e.parserState.authPassword then some (smtpParseCommandAuthLoginPassword line e)
  else some { e with currentCommand := some .otherCmd }

def smtpSession (e : SmtpEntry) (line : CurrLine) : SmtpEntry :=
  if e.currSession.all fun s => s.done && !noNewTx e line then
    { e with toMailSentry := e.toMailSentry.newSession }
  else e

def smtpProcessRequest (e : SmtpEntry) (line : CurrLine) : Option SmtpEntry :=
  let e := smtpSession e line
  if !e.parserState.commandDataMode then
    (smtpReadCommand line e).bind fun e =>
      let r := smtpInsertCmdBuffer e.currentCommand e
      if r.2 then some r.1 else none
  else
    match e.currentCommand with
    | some .data => some (smtpProcessCmdData line e)
    | some .bdat => smtpProcessCmdBdat line e
    | _ => some e

/-- `smtp_reply_map`; a reply code is an index of it. -/
def smtpReplyMap : List (List UInt8) :=
  ["211", "214", "220", "221", "235", "250", "251", "252", "334", "354", "421", "450", "451",
    "452", "455", "500", "501", "502", "503", "504", "550", "551", "552", "553", "554",
    "555"].map bytesOf

def smtpReply220 : ℕ := 2
def smtpReply334 : ℕ := 8
def smtpReply354 : ℕ := 9

/-- `smtp_get_reply_code`: a code outside the map counts as the first one. -/
def smtpGetReplyCode (line : CurrLine) : ℕ := (smtpReplyMap.idxOf? (line.data.take 3)).getD 0

def smtpMultilineReply (line : CurrLine) : Bool := line.data[3]? = some 45

/-- What a line of the reply to the command sets in `parser_state`. -/
def smtpReplyState (command : Option SmtpCommand) (code : ℕ) (p : SmtpParserState) :
    SmtpParserState :=
  match command with
  | some .data => if code = smtpReply354 then { p with commandDataMode := true } else p
  | some .auth =>
    if code = smtpReply334 ∧ !p.authUsername ∧ !p.authPassword then { p with authUsername := true }
    else p
  | _ => p

def smtpProcessReply (e : SmtpEntry) (line : CurrLine) : Option SmtpEntry :=
  if line.data.length < 3 then none
  else
    let multiline := smtpMultilineReply line
    let e := { e with parserState := { e.parserState with parsingMultilineReply := multiline } }
    let code := smtpGetReplyCode line
    if e.state.cmdsIdx = e.state.cmdsCnt then
      if !e.parserState.firstReplySeen && !multiline then
        some { e with parserState := { e.parserState with firstReplySeen := true } }
      else some e
    else
      let command := (e.state.cmds[e.state.cmdsIdx]?).join
      -- the result `PARSE_BREAK` is not the -1 that the caller tests for
      if command = some .starttls ∧ code = smtpReply220 then
        some { e with parserState := { e.parserState with commandDataMode := true } }
      else
        let idx := if multiline then e.state.cmdsIdx else e.state.cmdsIdx + 1
        let done := idx = e.state.cmdsCnt
        some { e with
          parserState := smtpReplyState command code e.parserState
          state := { e.state with
            cmdsIdx := if done then 0 else idx
            cmdsCnt := if done then 0 else e.state.cmdsCnt } }

def smtpLine : Side → SmtpEntry → CurrLine → Option SmtpEntry
  | .client => smtpProcessRequest
  | .server => smtpProcessReply

end CloudHands.Mail

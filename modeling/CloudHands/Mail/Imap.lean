import CloudHands.Mail.Pop3
import CloudHands.Mail.Smtp

/-!
# IMAP parser

`imap_parser.c`. None is a result of -1, for which `imap_parse` returns `PARSE_BREAK`. Texts
that the C functions read up to a zero byte are taken to end with the line.
-/

namespace CloudHands.Mail

open Lib Http

/-- The bits of `parser_state` that the parser tests. -/
structure ImapParserState where
  dataAppend : Bool
  dataUidFetch : Bool
  multilineReply : Bool
  firstReplySeen : Bool
  deriving DecidableEq, Repr

/-- The values of `current_command` that the parser sets. -/
inductive ImapCmd
  | starttls
  | uidFetch
  | logout
  | append
  | otherCmd
  deriving DecidableEq, Repr

/-- `imap_state_t`. -/
structure ImapState where
  bodyLen : ℕ
  bodyRead : ℕ
  deriving DecidableEq, Repr

structure ImapEntry extends MailSentry where
  parserState : ImapParserState
  currentCommand : Option ImapCmd
  state : ImapState
  deriving DecidableEq, Repr

def ImapEntry.init : ImapEntry := ⟨.init, ⟨false, false, false, false⟩, none, ⟨0, 0⟩⟩

section

-- `MimeDecParseLine` returns -1 for the last of the lines
variable (decFails : List CurrLine → Bool)

/-- `imap_mime_decode_parse`, with the test of a result other than -1. -/
def imapMimeDecodeParse (line : CurrLine) (e : ImapEntry) : ImapEntry × Bool :=
  ({ e with
      toMailSentry := e.toMailSentry.mapMime (·.parseLine line)
      state := { e.state with
        bodyRead := (e.state.bodyRead + line.data.length + line.delimiterLen) % 2 ^ 32 } },
    !(e.currSession.bind (·.mimeState)).any fun m => decFails (m.parsedLines ++ [line]))

def imapProcessCmdAppend (line : CurrLine) (e : ImapEntry) : ImapEntry × Bool :=
  if !e.parserState.dataAppend then (e, true) else imapMimeDecodeParse decFails line e

def imapText (line : CurrLine) : Option (List UInt8) :=
  (strstr (bytesOf " ") line.data).map List.tail

/-- `NoNewTx`; it looks for the word at the beginning of the line. -/
def imapNoNewTx (e : ImapEntry) (line : CurrLine) : ℤ :=
  match imapText line with
  | none => -1
  | some text =>
    if !e.parserState.dataAppend && decide (6 ≤ text.length) &&
        strncaseEq line.data "logout" 6 then 1
    else 0

def imapParseCommandLogin (line : CurrLine) (e : ImapEntry) : Option ImapEntry :=
  (strstr (bytesOf "LOGIN") line.data).map fun found =>
    let arg := (found.dropWhile (· ≠ 32)).drop 1
    { e with
      login := (arg.takeWhile (· ≠ 32)).takeWhile (· ≠ 0)
      passwd := ((arg.dropWhile (· ≠ 32)).drop 1).takeWhile (· ≠ 0) }

def imapReadCommand (line : CurrLine) (e : ImapEntry) : Option ImapEntry :=
  match imapText line with
  | none => none
  | some text =>
    let word := fun w => startsWith w ⟨text, line.delimiterLen⟩
    if word "starttls" then some { e with currentCommand := some .starttls }
    else if word "UID FETCH" then some { e with currentCommand := some .uidFetch }
    else if word "APPEND" then some { e with currentCommand := some .append }
    else if word "LOGOUT" then some { e with currentCommand := some .logout }
    else if word "LOGIN" then
      (imapParseCommandLogin line e).map fun e => { e with currentCommand := some .otherCmd }
    else some { e with currentCommand := some .otherCmd }

def imapSession (e : ImapEntry) (line : CurrLine) : ImapEntry :=
  if e.currSession.all fun s => s.done && imapNoNewTx e line = 0 then
    { e with toMailSentry := e.toMailSentry.newSession }
  else e

def imapProcessRequest (e : ImapEntry) (line : CurrLine) : Option ImapEntry :=
  let e := imapSession e line
  if !e.parserState.dataAppend then imapReadCommand line e
  else if e.currentCommand = some .append then some (imapProcessCmdAppend decFails line e).1
  else some e

inductive ImapRet
  | ok
  | no
  | bad
  | preauth
  | bye
  deriving DecidableEq, Repr

def imapReplies : List (String × ImapRet) :=
  [("OK", .ok), ("NO", .no), ("BAD", .bad), ("PREAUTH", .preauth), ("BYE", .bye)]

/-- `imap_get_reply_code`, none for its 0. -/
def imapGetReplyCode (line : CurrLine) : Option ImapRet :=
  (imapText line).bind fun text =>
    (imapReplies.find? fun r => (bytesOf r.1).isPrefixOf text).map Prod.snd

def imapCreateNewMimeParserState (e : ImapEntry) : ImapEntry :=
  let sentry :=
    if e.currSession.any (·.mimeState.isSome) then
      (e.toMailSentry.mapMime fun m => { m with parseError := true }).newSession
    else e.toMailSentry
  { e with
    toMailSentry := sentry.mapSession fun s =>
      { s with mimeState := some mimeDecInitParser } }

/-- `imap_update_multi_reply_state`: the bits for a line that begins with `*` (42), with `+` (43)
or otherwise. -/
def imapUpdateMultiReplyState (line : CurrLine) (e : ImapEntry) : ImapEntry :=
  let p := e.parserState
  let p :=
    if p.multilineReply then
      if line.data.head? ≠ some 42 && !p.dataUidFetch then { p with multilineReply := false } else p
    else if line.data.head? = some 42 && p.firstReplySeen then { p with multilineReply := true }
    else if line.data.head? = some 43 && e.currentCommand = some .append then
      { p with dataAppend := true }
    else p
  { e with parserState :=
      if !p.firstReplySeen && !p.multilineReply then { p with firstReplySeen := true } else p }

def imapSetMimeDecodeComplete (e : ImapEntry) : ImapEntry :=
  { e with toMailSentry :=
      ((e.toMailSentry.mapMime MimeDecState.parseComplete).mapSession
        fun s => { s with done := true }).store }

def imapProcessUidFetchData (line : CurrLine) (e : ImapEntry) : Option ImapEntry :=
  if line.data = bytesOf ")" then
    let e := { e with parserState := { e.parserState with dataUidFetch := false } }
    some { imapSetMimeDecodeComplete e with
      currentCommand := some .otherCmd
      state := ⟨0, 0⟩ }
  else if e.state.bodyRead < e.state.bodyLen then
    let r := imapMimeDecodeParse decFails line e
    if r.2 then some r.1 else none
  else none

def imapTakeReply (line : CurrLine) (e : ImapEntry) : Option ImapEntry :=
  match imapGetReplyCode line with
  | none => some e
  | some code =>
    if e.currentCommand = some .starttls then if code = .ok then none else some e
    else if e.currentCommand = some .append ∧ e.parserState.dataAppend then
      let e := { e with parserState := { e.parserState with dataAppend := false } }
      some { imapSetMimeDecodeComplete e with currentCommand := some .otherCmd }
    else some e

/-- `ch_strlcasestrn`: the word occurs in the text. -/
def strlcasestrn (word : String) (text : List UInt8) : Bool :=
  text.tails.any fun rest => startsWith word ⟨rest, 0⟩

/-- Where `strtoul` stops. -/
def strtoulEnd (s : List Char) : List Char :=
  let digits := (splitSign (s.dropWhile isSpace)).2
  if digits.head?.any fun c => (asciiDigit c).isSome then
    digits.dropWhile fun c => (asciiDigit c).isSome
  else s

def imapBodyLen (line : CurrLine) : Option ℕ :=
  if strlcasestrn "BODY" line.data || strlcasestrn "RFC822" line.data then
    let number := ((line.data.dropWhile (· ≠ 123)).drop 1).map chr
    if number = [] then none
    else if (strtoulEnd number).head? = some '}' then some (strtoul number % 2 ^ 32)
    else none
  else none

/-- The last part of `imap_process_reply`: looks for the body that `UID FETCH` asked for. -/
def imapLookForBody (line : CurrLine) (e : ImapEntry) : ImapEntry :=
  if e.currentCommand = some .uidFetch then
    let e := { e with
      parserState := { e.parserState with dataUidFetch := (imapBodyLen line).isSome }
      state := ⟨(imapBodyLen line).getD 0, 0⟩ }
    if e.parserState.dataUidFetch || e.parserState.dataAppend then imapCreateNewMimeParserState e
    else e
  else e

def imapProcessReply (e : ImapEntry) (line : CurrLine) : Option ImapEntry :=
  let e := imapUpdateMultiReplyState line e
  if !e.parserState.multilineReply then (imapTakeReply line e).map (imapLookForBody line)
  else if e.parserState.dataUidFetch then imapProcessUidFetchData decFails line e
  else some (imapLookForBody line e)

def imapLine : Side → ImapEntry → CurrLine → Option ImapEntry
  | .client => imapProcessRequest decFails
  | .server => imapProcessReply decFails

end

end CloudHands.Mail

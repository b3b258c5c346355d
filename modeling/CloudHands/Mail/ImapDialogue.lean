import CloudHands.Mail.Imap

/-!
# IMAP dialogues

Commands, replies and literals of a session, line by line and in their own terms. A message is
the literal of a `UID FETCH` reply that holds a body, or the literal of an `APPEND` command.
`stepTaken` is the condition under which the parser hands it over as it is.
-/

namespace CloudHands.Mail

open Lib Http

def announcement (text : List UInt8) : Option (List UInt8 × ℕ) :=
  match text.reverse with
  | 125 :: rest =>
    let digits := rest.takeWhile isDigit
    match rest.drop digits.length with
    | 123 :: before =>
      if digits = [] then none
      else some (before.reverse, leadingDigits 0 (digits.reverse.map chr))
    | _ => none
  | _ => none

/-- The item before a literal is a section of the body or an `RFC822` text. -/
def namesBody (before : List UInt8) : Bool :=
  let item := (before.reverse.dropWhile (· = 32)).reverse
  (item.getLast?.any (fun c => c = 93 || c = 62) && strlcasestrn "BODY[" item) ||
    ["RFC822", "RFC822.HEADER", "RFC822.TEXT"].any fun w =>
      startsWith w ⟨item.drop (item.length - w.length), 0⟩

/-- How the server's next bytes are read: as a line of a reply, or as the `left` bytes that are
still to come of a literal. The reply goes on behind them. -/
inductive ImapReading
  | line
  | literal (left : ℕ)
  | message (left : ℕ) (taken : List UInt8)
  deriving DecidableEq, Repr

def ImapReading.taken : ImapReading → Option (List UInt8)
  | .message _ taken => some taken
  | _ => none

inductive ImapKind
  | uidFetch
  | fetch
  | append
  | other
  deriving DecidableEq, Repr

def kindOf (text : List UInt8) : ImapKind :=
  if startsWith "UID FETCH" ⟨text, 0⟩ then .uidFetch
  else if startsWith "FETCH" ⟨text, 0⟩ then .fetch
  else if startsWith "APPEND" ⟨text, 0⟩ then .append
  else .other

structure ImapPending where
  tag : List UInt8
  kind : ImapKind
  deriving DecidableEq, Repr

structure ImapDialogue where
  /-- The server has sent its greeting. -/
  greeted : Bool
  /-- The commands that were sent and are not yet answered. -/
  pending : List ImapPending
  /-- The size of the literal that the last command waits to send. -/
  offered : Option ℕ
  /-- The message of an `APPEND` command: the bytes left and those that have come. -/
  appending : Option (ℕ × List UInt8)
  server : ImapReading
  /-- The messages that have ended. -/
  finished : List (List UInt8)
  deriving DecidableEq, Repr

namespace ImapDialogue

def init : ImapDialogue := ⟨false, [], none, none, .line, []⟩

/-- A tagged command; one with a literal is an `APPEND`. -/
def command (d : ImapDialogue) (line : CurrLine) : Option ImapDialogue :=
  let tag := line.data.takeWhile (· ≠ 32)
  let text := (line.data.dropWhile (· ≠ 32)).tail
  if d.offered.isSome || text = [] || !tag.head?.any (fun c => c ≠ 42 && c ≠ 43) then none
  else
    match kindOf text, announcement line.data with
    | .append, some (_, n) =>
      some { d with pending := d.pending ++ [⟨tag, .append⟩], offered := some n }
    | .append, none => none
    | _, some _ => none
    | kind, none => some { d with pending := d.pending ++ [⟨tag, kind⟩] }

def client (d : ImapDialogue) (line : CurrLine) : Option ImapDialogue :=
  match d.appending with
  | none => d.command line
  | some (left, taken) =>
    if line.bytes.length ≤ left then
      some { d with appending := some (left - line.bytes.length, taken ++ line.bytes) }
    else
      some { d with appending := none, finished := d.finished ++ [taken ++ line.bytes.take left] }

/-- The fetching commands are answered in order, and the first one is a `UID FETCH`. -/
def fetching (d : ImapDialogue) : Bool :=
  (d.pending.find? fun c => c.kind = .uidFetch || c.kind = .fetch).any (·.kind = .uidFetch)

def readingAfter (d : ImapDialogue) (text : List UInt8) : ImapReading :=
  match announcement text with
  | none => .line
  | some (before, n) => if d.fetching && namesBody before then .message n [] else .literal n

/-- The first line of a reply: the greeting, an untagged one (`*` is 42), a continuation (`+` is
43) or the answer to a command. -/
def reply (d : ImapDialogue) (line : CurrLine) : Option ImapDialogue :=
  if !d.greeted then
    if line.data.head? = some 42 then some { d with greeted := true } else none
  else if line.data.head? = some 42 then some { d with server := d.readingAfter line.data }
  else if line.data.head? = some 43 then
    d.offered.map fun n => { d with offered := none, appending := some (n, []) }
  else
    let answered := fun c : ImapPending => c.tag = line.data.takeWhile (· ≠ 32)
    if d.pending.any (answered ·) then
      some { d with
        pending := d.pending.eraseP (answered ·)
        offered := if d.pending.getLast?.any (answered ·) then none else d.offered }
    else none

def serverLine (d : ImapDialogue) (line : CurrLine) : Option ImapDialogue :=
  match d.server with
  | .line => d.reply line
  | .literal left =>
    if line.bytes.length ≤ left then some { d with server := .literal (left - line.bytes.length) }
    else some { d with server := d.readingAfter (line.data.drop left) }
  | .message left taken =>
    if line.bytes.length ≤ left then
      some { d with server := .message (left - line.bytes.length) (taken ++ line.bytes) }
    else
      some { d with
        server := d.readingAfter (line.data.drop left)
        finished := d.finished ++ [taken ++ line.bytes.take left] }

def step (d : ImapDialogue) : Side × CurrLine → Option ImapDialogue
  | (.client, line) => d.client line
  | (.server, line) => d.serverLine line

def run (d : ImapDialogue) (lines : List (Side × CurrLine)) : Option ImapDialogue :=
  lines.foldlM step d

end ImapDialogue

def MailSession.bytes (s : MailSession) : Option (List UInt8) :=
  s.mimeState.map (·.parsedLines.flatMap CurrLine.bytes)

def MailSentry.handed (e : MailSentry) : Option (List UInt8) := e.currSession.bind MailSession.bytes

/-- The parser takes the bytes of messages and no others as data, every message that has ended
is stored once and as it was sent, and the decoder has what has come of the next one. -/
structure Exact (e : ImapEntry) (d : ImapDialogue) : Prop where
  fetchMode : e.parserState.dataUidFetch = d.server.taken.isSome
  dataLines : d.server.taken.isSome → e.parserState.multilineReply
  appendMode : e.parserState.dataAppend = d.appending.isSome
  stored : e.stored.map (·.session.bytes) = d.finished.map some
  fetched : d.server.taken.isSome → e.handed = d.server.taken
  appended : d.appending.isSome → e.handed = d.appending.map Prod.snd

instance (e : ImapEntry) (d : ImapDialogue) : Decidable (Exact e d) :=
  decidable_of_iff
    (e.parserState.dataUidFetch = d.server.taken.isSome ∧
      (d.server.taken.isSome → e.parserState.multilineReply) ∧
      e.parserState.dataAppend = d.appending.isSome ∧
      e.stored.map (·.session.bytes) = d.finished.map some ∧
      (d.server.taken.isSome → e.handed = d.server.taken) ∧
      (d.appending.isSome → e.handed = d.appending.map Prod.snd))
    ⟨fun h => ⟨h.1, h.2.1, h.2.2.1, h.2.2.2.1, h.2.2.2.2.1, h.2.2.2.2.2⟩,
      fun h => ⟨h.1, h.2, h.3, h.4, h.5, h.6⟩⟩

section

variable (decFails : List CurrLine → Bool)

/-- A command behind a tag, with `LOGIN` in capitals. -/
def requestTaken (line : CurrLine) : Bool :=
  match imapText line with
  | none => false
  | some text =>
    !startsWith "LOGIN" ⟨text, line.delimiterLen⟩ || (strstr (bytesOf "LOGIN") line.data).isSome

/-- A line outside of messages: it does not ask for the literal of an `APPEND` command, no
`OK` comes while `STARTTLS` is the last command, and the line is taken for the announcement of
a body exactly if it is one, at the beginning of an untagged reply. -/
def replyTaken (e : ImapEntry) (d : ImapDialogue) (line : CurrLine) : Bool :=
  let announces := (d.serverLine line).any (·.server.taken.isSome)
  !(line.data.head? = some 43 &&
      (d.server = .line || !e.parserState.multilineReply && e.currentCommand = some .append)) &&
    !(e.currentCommand = some .starttls && imapGetReplyCode line = some .ok &&
      !(d.greeted && line.data.head? = some 42)) &&
    (e.currentCommand = some .uidFetch && (imapBodyLen line).isSome) == announces &&
    (!announces || line.data.head? = some 42)

/-- A line of a message with `left` bytes to come: it lies within the message and is not a
single parenthesis, the size that was read is not used up, and the decoder takes the line. What
follows the message is a single parenthesis. -/
def messageTaken (e : ImapEntry) (left : ℕ) (line : CurrLine) : Bool :=
  if line.data = bytesOf ")" then left = 0
  else
    line.bytes.length ≤ left && e.state.bodyRead < e.state.bodyLen &&
      !(e.currSession.bind (·.mimeState)).any fun m => decFails (m.parsedLines ++ [line])

namespace ImapDialogue

def stepTaken (e : ImapEntry) (d : ImapDialogue) : Side × CurrLine → Bool
  | (.client, line) => requestTaken line
  | (.server, line) =>
    match d.server with
    | .message left _ => messageTaken decFails e left line
    | _ => replyTaken e d line

/-- Every step of the parser over the lines of a dialogue meets the condition. -/
def stepsTaken (e : ImapEntry) (d : ImapDialogue) : List (Side × CurrLine) → Bool
  | [] => true
  | ev :: lines =>
    stepTaken decFails e d ev &&
      match imapLine decFails ev.1 e ev.2, d.step ev with
      | some e', some d' => stepsTaken e' d' lines
      | _, _ => true

end ImapDialogue

end

end CloudHands.Mail

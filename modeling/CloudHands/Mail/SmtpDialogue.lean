import CloudHands.Lib.Slice
import CloudHands.Mail.Smtp

/-!
# SMTP dialogues

What a dialogue is, line by line, in its own terms: which commands wait for their replies and
whether the client's next line is a command, mail or part of a chunk. `stepTaken` is the
condition under which the parser follows it.
-/

namespace CloudHands.Mail

open Lib Http Slice

def commandOf (line : CurrLine) : Option SmtpCommand :=
  if startsWith "starttls" line then some .starttls
  else if startsWith "data" line then some .data
  else if startsWith "bdat" line then some .bdat
  else if startsWith "helo" line || startsWith "ehlo" line then some .otherCmd
  else if startsWith "auth" line then some .auth
  else if startsWith "mail from" line then some .otherCmd
  else if startsWith "rcpt to" line then some .otherCmd
  else if startsWith "quit" line then some .quit
  else none

/-- The size of the chunk that follows a `BDAT` line. -/
def chunkSize (line : CurrLine) : Option ℕ :=
  let arg := ((line.data.drop 4).dropWhile (· = 32)).map chr
  if line.data[4]? = some 32 ∧ (arg.head?.bind asciiDigit).isSome then some (leadingDigits 0 arg)
  else none

/-- Commands after which a client sends nothing before the reply: the reply says how its next
line is read. -/
def SmtpCommand.holds : SmtpCommand → Bool
  | .starttls | .data | .auth => true
  | _ => false

/-- How the client's next line is read; `left` bytes of a chunk are still to come. -/
inductive SmtpReading
  | command
  | mail
  | chunk (left : ℕ)
  | tls
  deriving DecidableEq, Repr

structure SmtpDialogue where
  /-- The server has sent its greeting. -/
  greeted : Bool
  /-- The code of a reply whose last line is still to come. -/
  replying : Option (List UInt8)
  /-- The client's next line answers the challenge of an `AUTH` command. -/
  asked : Bool
  /-- The commands that were sent and are not yet answered. -/
  pending : List SmtpCommand
  reading : SmtpReading
  deriving DecidableEq, Repr

namespace SmtpDialogue

def init : SmtpDialogue := ⟨false, none, false, [], .command⟩

def command (d : SmtpDialogue) (line : CurrLine) : Option SmtpDialogue :=
  if d.asked then some { d with asked := false, pending := d.pending ++ [.auth] }
  else
    match commandOf line with
    | some .bdat =>
      (chunkSize line).map fun n =>
        { d with pending := d.pending ++ [.bdat]
                 reading := if n = 0 then .command else .chunk n }
    | c => some { d with pending := d.pending ++ [c.getD .otherCmd] }

def client (d : SmtpDialogue) (line : CurrLine) : Option SmtpDialogue :=
  if d.pending.getLast?.any SmtpCommand.holds then none
  else
    match d.reading with
    | .command => d.command line
    | .mail =>
      if line.data = bytesOf "." then
        some { d with pending := d.pending ++ [.dataMode], reading := .command }
      else some d
    | .chunk left =>
      let size := line.data.length + line.delimiterLen
      if size < left then some { d with reading := .chunk (left - size) }
      else if size = left then some { d with reading := .command }
      else { d with reading := .command }.command ⟨line.data.drop left, line.delimiterLen⟩
    | .tls => none

def replyCode (line : CurrLine) : Option (List UInt8) :=
  let code := line.data.take 3
  if code.length = 3 ∧ (code.all fun c => (asciiDigit (chr c)).isSome) ∧
      (line.data.drop 3).head?.all (fun c => c = 32 || c = 45) then some code
  else none

def readingAfter (command : SmtpCommand) (code : List UInt8) (last : Bool) (r : SmtpReading) :
    SmtpReading :=
  if command = .data ∧ code = bytesOf "354" then .mail
  else if command = .starttls ∧ code = bytesOf "220" ∧ last then .tls
  else r

def server (d : SmtpDialogue) (line : CurrLine) : Option SmtpDialogue :=
  match replyCode line with
  | none => none
  | some code =>
    if d.replying.any (· ≠ code) then none
    else
      let last := !smtpMultilineReply line
      let replying := if last then none else some code
      if !d.greeted then some { d with greeted := last, replying := replying }
      else
        match d.pending with
        | [] => none
        | command :: rest =>
          some
            { greeted := true
              replying := replying
              asked := d.asked || (last && command = .auth && code = bytesOf "334")
              pending := if last then rest else command :: rest
              reading := readingAfter command code last d.reading }

def step (d : SmtpDialogue) : Side × CurrLine → Option SmtpDialogue
  | (.client, line) => d.client line
  | (.server, line) => d.server line

def run (d : SmtpDialogue) (lines : List (Side × CurrLine)) : Option SmtpDialogue :=
  lines.foldlM step d

end SmtpDialogue

/-- The parser can read the argument of an `AUTH` command. -/
def authTaken (line : CurrLine) : Bool :=
  let arg := (line.data.drop 10).dropWhile (· = 32)
  if startsWith "auth plain" line then
    line.data[10]? = some 32 && arg ≠ [] && (decodeBase64 arg).isSome
  else startsWith "auth login" line || startsWith "auth cram-md5" line

/-- A command that the parser takes for what it is: the answer to a challenge does not look
like a command, a chunk is the first one and is not empty, an `AUTH` command carries what the
parser expects, and no challenge of an earlier `AUTH` command is left over when a line begins
with no command word. -/
def commandTaken (e : SmtpEntry) (d : SmtpDialogue) (line : CurrLine) : Bool :=
  if d.asked then (commandOf line).isNone
  else
    match commandOf line with
    | some .bdat =>
      e.state.bdatChunkIdx = 0 && (chunkSize line).any fun n => 0 < n && n < 2 ^ 32
    | some .auth => authTaken line
    | none =>
      (!e.parserState.authUsername && !e.parserState.authPassword) ||
        e.currentCommand = some .otherCmd
    | _ => true

/-- The condition on a step: a command comes after the greeting, finds room in the command
buffer and is one the parser takes; a chunk ends with a line; `STARTTLS` is not accepted. -/
def stepTaken (e : SmtpEntry) (d : SmtpDialogue) : Side × CurrLine → Bool
  | (.client, line) =>
    match d.reading with
    | .command => d.greeted && e.state.cmdsCnt < e.state.cmds.length && commandTaken e d line
    | .chunk left => line.data.length + line.delimiterLen ≤ left
    | _ => true
  | (.server, line) =>
    !(d.pending.head? = some .starttls && SmtpDialogue.replyCode line = some (bytesOf "220"))

/-- Every step of the parser over the lines of a dialogue meets the condition. -/
def stepsTaken (e : SmtpEntry) (d : SmtpDialogue) : List (Side × CurrLine) → Bool
  | [] => true
  | ev :: lines =>
    stepTaken e d ev &&
      match smtpLine ev.1 e ev.2, d.step ev with
      | some e', some d' => stepsTaken e' d' lines
      | _, _ => true

/-- The commands in the buffer that no reply was matched with. -/
def pendingCommands (e : SmtpEntry) : List (Option SmtpCommand) :=
  slice e.state.cmds e.state.cmdsIdx e.state.cmdsCnt

def matchedCommand (e : SmtpEntry) : Option SmtpCommand :=
  if e.state.cmdsIdx = e.state.cmdsCnt then none else (e.state.cmds[e.state.cmdsIdx]?).join

/-- The buffer is the sequence of commands that were sent and are not yet answered, the next
reply is matched with the first of them, and the data mode is that of the dialogue. -/
structure Matched (e : SmtpEntry) (d : SmtpDialogue) : Prop where
  pending : pendingCommands e = d.pending.map some
  next : matchedCommand e = d.pending.head?
  dataMode : e.parserState.commandDataMode = true ↔ d.reading ≠ .command

instance (e : SmtpEntry) (d : SmtpDialogue) : Decidable (Matched e d) :=
  decidable_of_iff (pendingCommands e = d.pending.map some ∧ matchedCommand e = d.pending.head? ∧
    (e.parserState.commandDataMode = true ↔ d.reading ≠ .command))
    ⟨fun h => ⟨h.1, h.2.1, h.2.2⟩, fun h => ⟨h.1, h.2, h.3⟩⟩

end CloudHands.Mail

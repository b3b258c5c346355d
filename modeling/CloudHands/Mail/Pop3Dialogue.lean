import CloudHands.Mail.Pop3

/-!
# POP3 dialogues and the mails restored from them

In a lock-step dialogue a command is answered before the next one is sent. The parser restores
the retrieved mails exactly when it knows every command and no line of a mail begins with a
dot: it does not take the stuffing off again.
-/

namespace CloudHands.Mail

open Lib Http

/-- A command and its answer: a status line and, behind a success, perhaps a body. The texts
are without line ends, the lines of the body without dot-stuffing. -/
structure Pop3Turn where
  command : List UInt8
  status : List UInt8
  body : Option (List (List UInt8))
  deriving DecidableEq, Repr

def stuff (line : List UInt8) : List UInt8 := if line.head? = some 46 then 46 :: line else line

namespace Pop3Turn

def ok (t : Pop3Turn) : Bool := (bytesOf "+OK").isPrefixOf t.status

/-- The command is `RETR`, in any letter case; no other command begins so. -/
def retr (t : Pop3Turn) : Bool := strncaseEq (t.command.dropWhile (· = 32)) "RETR" 4

def retrieved (t : Pop3Turn) : Option (List (List UInt8)) := if t.ok && t.retr then t.body else none

def answer (t : Pop3Turn) : List (List UInt8) :=
  t.status :: (t.body.map fun lines => lines.map stuff ++ [bytesOf "."]).getD []

/-- An answer is a success, an error or a challenge; a body comes with a success, and with
every success of `RETR`. -/
structure Valid (t : Pop3Turn) : Prop where
  command_line : LF ∉ t.command
  status_line : LF ∉ t.status
  status_length : t.status.length + 2 ≤ 512
  status_kind : t.ok ∨ bytesOf "-ERR" <+: t.status ∨ bytesOf "+ " <+: t.status
  body_lines : ∀ lines ∈ t.body, ∀ line ∈ lines, LF ∉ line
  body_ok : t.body.isSome → t.ok
  retr_body : t.ok → t.retr → t.body.isSome

instance (t : Pop3Turn) : Decidable t.Valid :=
  decidable_of_iff
    (LF ∉ t.command ∧ LF ∉ t.status ∧ t.status.length + 2 ≤ 512 ∧
      (t.ok ∨ bytesOf "-ERR" <+: t.status ∨ bytesOf "+ " <+: t.status) ∧
      (∀ lines ∈ t.body, ∀ line ∈ lines, LF ∉ line) ∧ (t.body.isSome → t.ok) ∧
      (t.ok → t.retr → t.body.isSome))
    ⟨fun ⟨a, b, c, d, e, f, g⟩ => ⟨a, b, c, d, e, f, g⟩,
      fun ⟨a, b, c, d, e, f, g⟩ => ⟨a, b, c, d, e, f, g⟩⟩

end Pop3Turn

inductive Pop3Segments : List Pop3Turn → List (Side × List UInt8) → Prop
  | nil : Pop3Segments [] []
  | turn {t : Pop3Turn} {turns : List Pop3Turn} {cs ss segs : List (Side × List UInt8)} :
      Cut .client ([t.command].flatMap (· ++ [CR, LF])) cs →
      Cut .server (t.answer.flatMap (· ++ [CR, LF])) ss →
      Pop3Segments turns segs → Pop3Segments (t :: turns) (cs ++ (ss ++ segs))

structure Pop3Dialogue (greeting : List UInt8) (turns : List Pop3Turn)
    (segs : List (Side × List UInt8)) : Prop where
  greeting_line : LF ∉ greeting
  valid : ∀ t ∈ turns, t.Valid
  segments : ∃ gs rest, segs = gs ++ rest ∧ Cut .server ([greeting].flatMap (· ++ [CR, LF])) gs ∧
    Pop3Segments turns rest

namespace Pop3Turn

/-- The parser goes on after the command: it knows the word, and before the login it finds the
word of `USER` and `PASS` in capitals and with an argument. -/
def taken (loggedIn : Bool) (t : Pop3Turn) : Bool :=
  match pop3GetCmd t.command with
  | none => false
  | some .user => loggedIn || (pop3Argument "USER" t.command).isSome
  | some .pass => loggedIn || (pop3Argument "PASS" t.command).isSome
  | some _ => true

/-- The login as the parser sees it: `PASS` or a later command succeeded. -/
def loggedInAfter (loggedIn : Bool) (t : Pop3Turn) : Bool :=
  loggedIn || (t.ok && (pop3GetCmd t.command).any fun c => c = .pass || c.inTransaction)

end Pop3Turn

def turnsTaken : Bool → List Pop3Turn → Bool
  | _, [] => true
  | loggedIn, t :: turns => t.taken loggedIn && turnsTaken (t.loggedInAfter loggedIn) turns

def StoredMail.messageLines (m : StoredMail) : List CurrLine :=
  (m.session.mimeState.map MimeDecState.parsedLines).getD []

/-- The parser never breaks, and when the connection is closed what is stored are the retrieved
mails, each once and with its own lines. -/
def Restored (turns : List Pop3Turn) (segs : List (Side × List UInt8)) : Prop :=
  ∃ c, (MailConn.init Pop3Entry.init).run pop3Line segs = some c ∧
    c.entry.clean.map StoredMail.messageLines =
      (turns.filterMap Pop3Turn.retrieved).map fun lines => lines.map (⟨·, 2⟩)

def Pop3Turn.lines (t : Pop3Turn) : List (Side × CurrLine) :=
  (.client, ⟨t.command, 2⟩) :: t.answer.map fun text => (.server, ⟨text, 2⟩)

theorem not_mem_stuff {line : List UInt8} (h : LF ∉ line) : LF ∉ stuff line := by
  unfold stuff
  split
  · have hne : LF ≠ 46 := by decide
    simp [h, hne]
  · exact h

theorem Pop3Turn.Valid.answer_lines {t : Pop3Turn} (h : t.Valid) : ∀ text ∈ t.answer,
    LF ∉ text := by
  intro text htext
  rcases List.mem_cons.1 htext with rfl | htext
  · exact h.status_line
  · cases hbody : t.body with
    | none => simp [hbody] at htext
    | some lines =>
      simp only [hbody, Option.map_some, Option.getD_some, List.mem_append, List.mem_map,
        List.mem_singleton] at htext
      rcases htext with ⟨line, hline, rfl⟩ | rfl
      · exact not_mem_stuff (h.body_lines lines hbody line hline)
      · decide

theorem lineEvents_turns {turns : List Pop3Turn} {segs : List (Side × List UInt8)}
    (h : Pop3Segments turns segs) (hv : ∀ t ∈ turns, t.Valid) :
    lineEvents (fun _ => []) segs = turns.flatMap Pop3Turn.lines := by
  induction h with
  | nil => rfl
  | @turn t turns cs ss segs hcs hss _ ih =>
    obtain ⟨ht, hturns⟩ := List.forall_mem_cons.1 hv
    rw [lineEvents_cut_lines hcs (by simpa using ht.command_line),
      lineEvents_cut_lines hss ht.answer_lines, ih hturns]
    simp [Pop3Turn.lines]

theorem Pop3Dialogue.lineEvents {greeting : List UInt8} {turns : List Pop3Turn}
    {segs : List (Side × List UInt8)} (h : Pop3Dialogue greeting turns segs) :
    Mail.lineEvents (fun _ => []) segs =
      (.server, ⟨greeting, 2⟩) :: turns.flatMap Pop3Turn.lines := by
  obtain ⟨gs, rest, rfl, hgs, hrest⟩ := h.segments
  rw [lineEvents_cut_lines hgs (by simpa using h.greeting_line), lineEvents_turns hrest h.valid]
  rfl

end CloudHands.Mail

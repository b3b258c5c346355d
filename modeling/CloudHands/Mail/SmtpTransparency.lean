import CloudHands.Mail.SmtpMatching

/-!
# The mails of an SMTP connection

What the client sends as a mail, in its own terms, beside what the parser hands to the MIME
decoder. Mails that are sent with `DATA` and have no line with a leading dot arrive unchanged.
-/

namespace CloudHands.Mail

open Lib Http Slice

def unstuff (line : CurrLine) : CurrLine :=
  if line.data.head? = some 46 then { line with data := line.data.tail } else line

def chunkLines (bytes : List UInt8) : List CurrLine :=
  (linesOf bytes).1 ++ if (linesOf bytes).2 = [] then [] else [⟨(linesOf bytes).2, 0⟩]

/-- The `BDAT` line announces the last chunk of the mail. -/
def lastChunk (line : CurrLine) : Bool :=
  let arg := (line.data.drop 4).dropWhile (· = 32)
  let word := (arg.dropWhile fun c => (asciiDigit (chr c)).isSome).dropWhile (· = 32)
  startsWith "last" ⟨word, line.delimiterLen⟩

structure SmtpMails where
  /-- The mails that have ended. -/
  finished : List (List CurrLine)
  /-- The lines of a mail in data mode. -/
  lines : List CurrLine
  /-- The chunks of a mail, as far as they have come. -/
  chunks : List UInt8
  last : Bool
  deriving DecidableEq, Repr

namespace SmtpMails

def init : SmtpMails := ⟨[], [], [], false⟩

def finish (m : SmtpMails) (lines : List CurrLine) : SmtpMails :=
  { init with finished := m.finished ++ [lines] }

def endChunk (m : SmtpMails) : SmtpMails := if m.last then m.finish (chunkLines m.chunks) else m

def command (m : SmtpMails) (line : CurrLine) : SmtpMails :=
  if commandOf line = some .bdat then
    let m := { m with last := lastChunk line }
    if chunkSize line = some 0 then m.endChunk else m
  else if startsWith "rset" line then { m with chunks := [] }
  else m

def client (m : SmtpMails) (d : SmtpDialogue) (line : CurrLine) : SmtpMails :=
  match d.reading with
  | .command => if d.asked then m else m.command line
  | .mail =>
    if line.data = bytesOf "." then m.finish m.lines
    else { m with lines := m.lines ++ [unstuff line] }
  | .chunk left =>
    let m := { m with chunks := m.chunks ++ line.bytes.take left }
    if line.bytes.length < left then m
    else if line.bytes.length = left then m.endChunk
    else m.endChunk.command ⟨line.data.drop left, line.delimiterLen⟩
  | .tls => m

def step (m : SmtpMails) (d : SmtpDialogue) : Side × CurrLine → SmtpMails
  | (.client, line) => m.client d line
  | (.server, _) => m

def along (m : SmtpMails) (d : SmtpDialogue) : List (Side × CurrLine) → SmtpMails
  | [] => m
  | ev :: lines =>
    match d.step ev with
    | some d' => (m.step d ev).along d' lines
    | none => m

end SmtpMails

def MailSession.lines (s : MailSession) : Option (List CurrLine) := s.mimeState.map (·.parsedLines)

/-- The parser is in data mode for the lines of mails and matches the commands between them;
the decoders have the lines of the mails. -/
structure Transparent (e : SmtpEntry) (d : SmtpDialogue) (m : SmtpMails) : Prop where
  matched : Matched e d
  finished : e.stored.map (·.session.lines) = m.finished.map some
  current : d.reading = .mail → e.currSession.bind (·.lines) = some m.lines

instance (e : SmtpEntry) (d : SmtpDialogue) (m : SmtpMails) : Decidable (Transparent e d m) :=
  decidable_of_iff (Matched e d ∧ e.stored.map (·.session.lines) = m.finished.map some ∧
    (d.reading = .mail → e.currSession.bind (·.lines) = some m.lines))
    ⟨fun h => ⟨h.1, h.2.1, h.2.2⟩, fun h => ⟨h.1, h.2, h.3⟩⟩

def stepPlain (d : SmtpDialogue) : Side × CurrLine → Bool
  | (.client, line) =>
    match d.reading with
    | .command => d.asked || commandOf line ≠ some .bdat
    | .mail => line.data = bytesOf "." || line.data.head? ≠ some 46
    | _ => true
  | (.server, _) => true

def stepsPlain (d : SmtpDialogue) : List (Side × CurrLine) → Bool
  | [] => true
  | ev :: lines =>
    stepPlain d ev &&
      match d.step ev with
      | some d' => stepsPlain d' lines
      | none => true

/-- The invariant of the sessions along a dialogue: between the `DATA` command and the end of
the mail the current session has a decoder, and no session that has ended stays current. -/
structure Delivers (e : SmtpEntry) (d : SmtpDialogue) (m : SmtpMails) : Prop where
  follows : Follows e.state e.parserState e.currentCommand d
  finished : e.stored.map (·.session.lines) = m.finished.map some
  live : ∀ s, e.currSession = some s → s.done = false
  taking : d.reading = .mail ∨ d.pending.getLast? = some .data →
    ∃ s, e.currSession = some s ∧ s.lines = some m.lines
  fresh : d.reading ≠ .mail → m.lines = []
  whole : ∀ left, d.reading ≠ .chunk left

theorem Delivers.transparent {e : SmtpEntry} {d : SmtpDialogue} {m : SmtpMails}
    (h : Delivers e d m) : Transparent e d m where
  matched := h.follows.matched
  finished := h.finished
  current := by
    intro hr
    obtain ⟨s, hs, hlines⟩ := h.taking (.inl hr)
    rw [hs]
    exact hlines

theorem smtpSession_live {e : SmtpEntry} (hlive : ∀ s, e.currSession = some s → s.done = false)
    (line : CurrLine) :
    ∃ s, (smtpSession e line).currSession = some s ∧ s.done = false ∧
      (∀ s', e.currSession = some s' → s' = s) ∧ (smtpSession e line).stored = e.stored := by
  unfold smtpSession
  cases hs : e.currSession with
  | none => exact ⟨mailSessionCreate, rfl, rfl, by simp, rfl⟩
  | some s =>
    have hdone := hlive s hs
    simp only [Option.all_some, hdone, Bool.false_and, Bool.false_eq_true, if_false]
    exact ⟨s, hs, hdone, fun s' h => (Option.some.inj h).symm, trivial⟩

structure SameMails (e e' : SmtpEntry) : Prop where
  currSession : e'.currSession = e.currSession
  stored : e'.stored = e.stored

theorem smtpInsertCmdBuffer_sameMails (c : Option SmtpCommand) (e : SmtpEntry) :
    SameMails e (smtpInsertCmdBuffer c e).1 := by
  unfold smtpInsertCmdBuffer
  dsimp only
  split <;> exact ⟨rfl, rfl⟩

theorem smtpParseCommandBdat_sameMails {line : CurrLine} {e e' : SmtpEntry}
    (h : smtpParseCommandBdat line e = some e') : SameMails e e' := by
  unfold smtpParseCommandBdat at h
  dsimp only at h
  split_ifs at h
  obtain rfl := Option.some.inj h
  exact ⟨rfl, rfl⟩

theorem smtpParseCommandAuth_sameMails {line : CurrLine} {e e' : SmtpEntry}
    (h : smtpParseCommandAuth line e = some e') : SameMails e e' := by
  unfold smtpParseCommandAuth smtpParseCommandAuthPlain at h
  dsimp only at h
  split_ifs at h
  · obtain ⟨r, -, rfl⟩ := Option.map_eq_some_iff.1 h
    exact ⟨rfl, rfl⟩
  · obtain rfl := Option.some.inj h
    exact ⟨rfl, rfl⟩
  · obtain rfl := Option.some.inj h
    exact ⟨rfl, rfl⟩

/-- Only `DATA` touches the sessions. -/
theorem smtpReadCommand_sameMails {line : CurrLine} {e e' : SmtpEntry}
    (hdata : commandOf line ≠ some .data) (h : smtpReadCommand line e = some e') :
    SameMails e e' := by
  have hreads := readsCommand line e
  generalize commandOf line = c at hreads hdata
  rw [h] at hreads
  generalize hentry : some e' = r at hreads
  cases hreads with
  | starttls | helo | mailFrom | rcptTo | quit =>
    obtain rfl := Option.some.inj hentry
    exact ⟨rfl, rfl⟩
  | data => exact absurd rfl hdata
  | bdat =>
    obtain ⟨e₁, he₁, rfl⟩ := Option.map_eq_some_iff.1 hentry.symm
    obtain ⟨hcurr, hstored⟩ := smtpParseCommandBdat_sameMails he₁
    exact ⟨hcurr, hstored⟩
  | auth =>
    obtain ⟨e₁, he₁, rfl⟩ := Option.map_eq_some_iff.1 hentry.symm
    obtain ⟨hcurr, hstored⟩ := smtpParseCommandAuth_sameMails he₁
    exact ⟨hcurr, hstored⟩
  | none =>
    split_ifs at hentry <;> obtain rfl := Option.some.inj hentry <;> exact ⟨rfl, rfl⟩

theorem smtpProcessCmdBdat_sameMails {line : CurrLine} {e e' : SmtpEntry}
    (h : smtpProcessCmdBdat line e = some e') : SameMails e e' := by
  unfold smtpProcessCmdBdat at h
  dsimp only at h
  split_ifs at h <;> obtain rfl := Option.some.inj h <;> exact ⟨rfl, rfl⟩

theorem smtpStartMime_session {e : SmtpEntry} {s : MailSession} (hs : e.currSession = some s)
    (hdone : s.done = false) :
    (∃ s', (smtpStartMime e).currSession = some s' ∧ s'.done = false ∧ s'.lines = some []) ∧
      (smtpStartMime e).stored = e.stored := by
  unfold smtpStartMime
  dsimp only
  split
  · exact ⟨⟨_, rfl, rfl, rfl⟩, rfl⟩
  · refine ⟨⟨{ s with mimeState := some mimeDecInitParser }, ?_, hdone, rfl⟩, rfl⟩
    simp [MailSentry.mapSession, hs]

theorem smtpReadCommand_data {line : CurrLine} (h : commandOf line = some .data) (e : SmtpEntry) :
    smtpReadCommand line e = some (smtpStartMime { e with currentCommand := some .data }) := by
  have hreads := readsCommand line e
  rw [h] at hreads
  generalize smtpReadCommand line e = r at hreads ⊢
  cases hreads
  rfl

/-- The command that a line other than `BDAT` sends. -/
theorem SmtpDialogue.command_plain {d d' : SmtpDialogue} {line : CurrLine}
    (hplain : d.asked || commandOf line ≠ some .bdat) (hd : d.command line = some d') :
    ∃ c, d' = { d with asked := false, pending := d.pending ++ [c] } ∧
      (c = .data → d.asked = false ∧ commandOf line = some .data) := by
  by_cases hasked : d.asked
  · have hd' : { d with asked := false, pending := d.pending ++ [.auth] } = d' := by
      simpa [SmtpDialogue.command, hasked] using hd
    exact ⟨.auth, hd'.symm, fun h => by cases h⟩
  · have hnot : d.asked = false := by simpa using hasked
    have hbdat : commandOf line ≠ some .bdat := by simpa [hnot] using hplain
    cases hc : commandOf line with
    | none =>
      have hd' : { d with asked := false, pending := d.pending ++ [.otherCmd] } = d' := by
        simpa [SmtpDialogue.command, hnot, hc] using hd
      exact ⟨.otherCmd, hd'.symm, fun h => by cases h⟩
    | some c =>
      rw [SmtpDialogue.command_word hnot hc (fun h => hbdat (by rw [hc, h]))] at hd
      exact ⟨c, (Option.some.inj hd).symm, fun h => ⟨hnot, by rw [h]⟩⟩

theorem SmtpMails.client_plain {m : SmtpMails} {d : SmtpDialogue} {line : CurrLine}
    (hr : d.reading = .command) (hplain : d.asked || commandOf line ≠ some .bdat) :
    (m.client d line).finished = m.finished ∧ (m.client d line).lines = m.lines := by
  simp only [SmtpMails.client, hr]
  split
  · exact ⟨rfl, rfl⟩
  · rename_i hasked
    have hbdat : commandOf line ≠ some .bdat := by simpa [hasked] using hplain
    simp only [SmtpMails.command, if_neg hbdat]
    split <;> exact ⟨rfl, rfl⟩

theorem command_delivers {e e' : SmtpEntry} {d d' : SmtpDialogue} {m : SmtpMails} {line : CurrLine}
    (h : Delivers e d m) (hr : d.reading = .command)
    (hplain : d.asked || commandOf line ≠ some .bdat) (hd : d.command line = some d')
    (he : smtpProcessRequest e line = some e')
    (hf : Follows e'.state e'.parserState e'.currentCommand d') :
    Delivers e' d' (m.client d line) := by
  obtain ⟨s, hs, hdone, hsame, hstored⟩ := smtpSession_live h.live line
  obtain ⟨c, rfl, hdata⟩ := SmtpDialogue.command_plain hplain hd
  obtain ⟨hfinished, hlines⟩ := SmtpMails.client_plain (m := m) hr hplain
  have hmode : (smtpSession e line).parserState.commandDataMode = false := by
    have hreading := (follows_smtpSession h.follows line).reading
    rw [hr] at hreading
    exact hreading
  simp only [smtpProcessRequest, hmode, Bool.not_false, if_true] at he
  obtain ⟨e₁, hread, hinsert⟩ := Option.bind_eq_some_iff.1 he
  have hmails : SameMails e₁ e' := by
    have hbuffer := smtpInsertCmdBuffer_sameMails e₁.currentCommand e₁
    split at hinsert
    · obtain rfl := Option.some.inj hinsert
      exact hbuffer
    · cases hinsert
  have hempty : m.lines = [] := h.fresh (by simp [hr])
  have hsession : ∃ s', e₁.currSession = some s' ∧ s'.done = false ∧
      (commandOf line = some .data → s'.lines = some []) ∧ e₁.stored = e.stored := by
    by_cases hword : commandOf line = some .data
    · rw [smtpReadCommand_data hword] at hread
      obtain rfl := Option.some.inj hread
      obtain ⟨⟨s', hs', hdone', hlines'⟩, hstored'⟩ := smtpStartMime_session
        (e := { smtpSession e line with currentCommand := some .data }) hs hdone
      exact ⟨s', hs', hdone', fun _ => hlines', hstored'.trans hstored⟩
    · obtain ⟨hcurr, hstored'⟩ := smtpReadCommand_sameMails hword hread
      exact ⟨s, hcurr.trans hs, hdone, fun h => absurd h hword, hstored'.trans hstored⟩
  obtain ⟨s', hs', hdone', hlines', hstored'⟩ := hsession
  have hcurr : e'.currSession = some s' := hmails.currSession.trans hs'
  exact
    { follows := hf
      finished := by rw [hmails.stored, hstored', hfinished, h.finished]
      live := by
        intro s'' hs''
        rw [hcurr] at hs''
        obtain rfl := Option.some.inj hs''
        exact hdone'
      taking := by
        rintro (hmail | hlast)
        · simp [hr] at hmail
        · rw [List.getLast?_concat, Option.some.injEq] at hlast
          refine ⟨s', hcurr, ?_⟩
          rw [hlines' (hdata hlast).2, hlines, hempty]
      fresh := fun _ => hlines.trans hempty
      whole := by simp [hr] }

theorem smtpProcessCmdData_end {e : SmtpEntry} {line : CurrLine}
    (hmode : e.parserState.commandDataMode) (hend : line.data = bytesOf ".") {s : MailSession}
    (hs : e.currSession = some s) :
    (smtpProcessCmdData line e).currSession = none ∧
      (smtpProcessCmdData line e).stored.map (·.session.lines) =
        e.stored.map (·.session.lines) ++ [s.lines] := by
  have hmails := smtpInsertCmdBuffer_sameMails (some .dataMode)
    { e with parserState := { e.parserState with commandDataMode := false } }
  simp only [smtpProcessCmdData, hmode, hend, Bool.not_true, Bool.false_eq_true, if_false, if_true]
  refine ⟨rfl, ?_⟩
  simp [MailSentry.store, MailSentry.mapSession, MailSentry.mapMime, hmails.currSession,
    hmails.stored, hs, MailSentry.storedMail, MailSession.lines, Function.comp_def,
    MimeDecState.parseComplete]

theorem smtpProcessCmdData_line {e : SmtpEntry} {line : CurrLine}
    (hmode : e.parserState.commandDataMode) (hcur : e.currentCommand = some .data)
    (hend : line.data ≠ bytesOf ".") {s : MailSession} (hs : e.currSession = some s) :
    smtpProcessCmdData line e = { e with
      currSession := some { s with mimeState := s.mimeState.map (·.parseLine line) } } := by
  simp [smtpProcessCmdData, hmode, hend, hcur, MailSentry.mapMime, MailSentry.mapSession, hs]

theorem unstuff_of_plain {line : CurrLine} (h : line.data.head? ≠ some 46) : unstuff line = line :=
  if_neg h

theorem mail_delivers {e e' : SmtpEntry} {d d' : SmtpDialogue} {m : SmtpMails} {line : CurrLine}
    (h : Delivers e d m) (hr : d.reading = .mail)
    (hplain : line.data = bytesOf "." ∨ line.data.head? ≠ some 46)
    (hd : d.client line = some d') (he : smtpProcessRequest e line = some e')
    (hf : Follows e'.state e'.parserState e'.currentCommand d') :
    Delivers e' d' (m.client d line) := by
  obtain ⟨s, hs, hlines⟩ := h.taking (.inl hr)
  obtain ⟨s₀, hs₀, hdone, hsame, hstored⟩ := smtpSession_live h.live line
  obtain rfl := hsame s hs
  obtain ⟨hmode, hcur, -⟩ : ReadingFollowed (smtpSession e line).state
      (smtpSession e line).parserState (smtpSession e line).currentCommand d.pending .mail :=
    hr ▸ (follows_smtpSession h.follows line).reading
  simp only [smtpProcessRequest, hmode, hcur, Bool.not_true, Bool.false_eq_true, if_false,
    Option.some.injEq] at he
  subst he
  have hwait : ¬d.pending.getLast?.any SmtpCommand.holds := fun hwait => by
    simp [SmtpDialogue.client, hwait] at hd
  simp only [SmtpDialogue.client, if_neg hwait, hr] at hd
  simp only [SmtpMails.client, hr]
  by_cases hend : line.data = bytesOf "."
  · rw [if_pos hend] at hd ⊢
    obtain rfl := Option.some.inj hd
    obtain ⟨hcurr, hstored'⟩ := smtpProcessCmdData_end hmode hend hs₀
    exact
      { follows := hf
        finished := by
          rw [hstored', hstored, h.finished, hlines]
          simp [SmtpMails.finish]
        live := by simp [hcurr]
        taking := by simp
        fresh := fun _ => rfl
        whole := by simp }
  · rw [if_neg hend] at hd ⊢
    obtain rfl := Option.some.inj hd
    rw [smtpProcessCmdData_line hmode hcur hend hs₀] at hf ⊢
    exact
      { follows := hf
        finished := by rw [← h.finished, ← hstored]
        live := by
          intro s' hs'
          obtain rfl := Option.some.inj hs'
          exact hdone
        taking := by
          intro _
          refine ⟨_, rfl, ?_⟩
          obtain ⟨mime, hmime, hparsed⟩ := Option.map_eq_some_iff.1 hlines
          rw [unstuff_of_plain (hplain.resolve_left hend), ← hparsed]
          simp [MailSession.lines, hmime, MimeDecState.parseLine]
        fresh := fun hne => absurd hr hne
        whole := by simp [hr] }

theorem smtpProcessReply_sentry {e e' : SmtpEntry} {line : CurrLine}
    (h : smtpProcessReply e line = some e') : e'.toMailSentry = e.toMailSentry := by
  unfold smtpProcessReply at h
  dsimp only at h
  split_ifs at h <;> obtain rfl := Option.some.inj h <;> rfl

/-- A line of a reply puts no command into the queue; it opens a mail only when `DATA` is the
first one. -/
theorem SmtpDialogue.server_reading {d d' : SmtpDialogue} {line : CurrLine}
    (hd : d.server line = some d') :
    d'.pending <:+ d.pending ∧
      (d'.reading = d.reading ∨ d'.reading = .mail ∧ d.pending.head? = some .data ∨
        d'.reading = .tls ∧ d.pending.head? = some .starttls) := by
  unfold SmtpDialogue.server at hd
  cases hcode : SmtpDialogue.replyCode line with
  | none => simp [hcode] at hd
  | some code =>
    simp only [hcode] at hd
    split at hd
    · cases hd
    · split at hd
      · obtain rfl := Option.some.inj hd
        exact ⟨List.suffix_rfl, .inl rfl⟩
      · cases hp : d.pending with
        | nil => simp [hp] at hd
        | cons c rest =>
          rw [hp] at hd
          obtain rfl := Option.some.inj hd
          refine ⟨?_, ?_⟩
          · show (if _ then rest else c :: rest) <:+ c :: rest
            split
            · exact List.suffix_cons c rest
            · exact List.suffix_rfl
          · simp only [SmtpDialogue.readingAfter, List.head?_cons]
            split
            · rename_i hdata
              exact .inr (.inl ⟨rfl, by rw [hdata.1]⟩)
            · split
              · rename_i htls
                exact .inr (.inr ⟨rfl, by rw [htls.1]⟩)
              · exact .inl rfl

theorem getLast?_of_suffix {α : Type*} {l₁ l₂ : List α} {a : α} (h : l₁ <:+ l₂)
    (hlast : l₁.getLast? = some a) : l₂.getLast? = some a := by
  obtain ⟨init, rfl⟩ := h
  simp [List.getLast?_append, hlast]

theorem server_delivers {e e' : SmtpEntry} {d d' : SmtpDialogue} {m : SmtpMails} {line : CurrLine}
    (h : Delivers e d m) (hd : d.server line = some d') (he : smtpProcessReply e line = some e')
    (hf : Follows e'.state e'.parserState e'.currentCommand d') : Delivers e' d' m := by
  have hsentry := smtpProcessReply_sentry he
  obtain ⟨hsuffix, hreading⟩ := SmtpDialogue.server_reading hd
  have htls : d'.reading ≠ .tls := fun heq => by
    have hfollowed := hf.reading
    rw [heq] at hfollowed
    exact hfollowed
  have hhead : ∀ c, d.pending.head? = some c → c.holds → d.pending = [c] := by
    intro c hc hholds
    obtain ⟨rest, hp⟩ := List.head?_eq_some_iff.1 hc
    rw [hp, (h.follows.alone hp hholds).1]
  exact
    { follows := hf
      finished := by rw [hsentry, h.finished]
      live := by rw [hsentry]; exact h.live
      taking := by
        rw [hsentry]
        rintro (hmail | hlast)
        · refine h.taking ?_
          rcases hreading with heq | ⟨-, hdata⟩ | ⟨heq, -⟩
          · exact .inl (heq ▸ hmail)
          · exact .inr (by simp [hhead _ hdata rfl])
          · exact absurd heq htls
        · exact h.taking (.inr (getLast?_of_suffix hsuffix hlast))
      fresh := by
        intro hne
        rcases hreading with heq | ⟨heq, -⟩ | ⟨heq, -⟩
        · exact h.fresh (heq ▸ hne)
        · exact absurd heq hne
        · exact absurd heq htls
      whole := by
        intro left
        rcases hreading with heq | ⟨heq, -⟩ | ⟨heq, -⟩
        · rw [heq]
          exact h.whole left
        · simp [heq]
        · exact absurd heq htls }

theorem delivers_init : Delivers .init .init .init where
  follows := follows_init
  finished := rfl
  live := by simp [SmtpEntry.init, MailSentry.init]
  taking := by simp [SmtpDialogue.init]
  fresh := fun _ => rfl
  whole := by simp [SmtpDialogue.init]

theorem step_delivers {e : SmtpEntry} {d d' : SmtpDialogue} {m : SmtpMails} {ev : Side × CurrLine}
    (h : Delivers e d m) (htaken : stepTaken e d ev) (hplain : stepPlain d ev)
    (hd : d.step ev = some d') :
    ∃ e', smtpLine ev.1 e ev.2 = some e' ∧ Delivers e' d' (m.step d ev) := by
  obtain ⟨e', he, hf⟩ := step_follows h.follows htaken hd
  refine ⟨e', he, ?_⟩
  obtain ⟨side, line⟩ := ev
  cases side with
  | server => exact server_delivers h hd he hf
  | client =>
    cases hr : d.reading with
    | command =>
      simp only [stepPlain, hr] at hplain
      have hd' : d.client line = some d' := hd
      simp only [SmtpDialogue.client, hr, Option.ite_none_left_eq_some] at hd'
      exact command_delivers h hr hplain hd'.2 he hf
    | mail =>
      simp only [stepPlain, hr, Bool.or_eq_true, decide_eq_true_eq] at hplain
      exact mail_delivers h hr hplain hd he hf
    | chunk left => exact absurd hr (h.whole left)
    | tls =>
      have hfollowed := h.follows.reading
      rw [hr] at hfollowed
      exact hfollowed.elim

theorem run_delivers {lines : List (Side × CurrLine)} {e : SmtpEntry} {d d' : SmtpDialogue}
    {m : SmtpMails} (h : Delivers e d m) (htaken : stepsTaken e d lines)
    (hplain : stepsPlain d lines) (hd : d.run lines = some d') :
    ∃ e', lines.foldlM (fun e ev => smtpLine ev.1 e ev.2) e = some e' ∧
      Delivers e' d' (m.along d lines) := by
  induction lines generalizing e d m with
  | nil =>
    obtain rfl := Option.some.inj hd
    exact ⟨e, rfl, h⟩
  | cons ev lines ih =>
    obtain ⟨htaken₁, htakens⟩ := Bool.and_eq_true_iff.1 htaken
    obtain ⟨hplain₁, hplains⟩ := Bool.and_eq_true_iff.1 hplain
    obtain ⟨d₁, hd₁, hrest⟩ := Option.bind_eq_some_iff.1 hd
    obtain ⟨e₁, he₁, h₁⟩ := step_delivers h htaken₁ hplain₁ hd₁
    rw [he₁, hd₁] at htakens
    rw [hd₁] at hplains
    obtain ⟨e', he', h'⟩ := ih h₁ htakens hplains hrest
    exact ⟨e', by simp [List.foldlM_cons, he₁, he'], by simpa [SmtpMails.along, hd₁] using h'⟩

/-- Along every dialogue whose steps meet the condition, in whatever segments its bytes arrive,
the parser is in data mode for the lines of mails only, goes on to match the commands behind
them, and has handed every mail to its decoder line by line. -/
theorem mails_transparent {segs : List (Side × List UInt8)} {d : SmtpDialogue}
    (hd : SmtpDialogue.init.run (lineEvents (fun _ => []) segs) = some d)
    (htaken : stepsTaken .init .init (lineEvents (fun _ => []) segs))
    (hplain : stepsPlain .init (lineEvents (fun _ => []) segs)) :
    ∃ c, (MailConn.init SmtpEntry.init).run smtpLine segs = some c ∧
      Transparent c.entry d (SmtpMails.init.along .init (lineEvents (fun _ => []) segs)) := by
  obtain ⟨e, he, h⟩ := run_delivers delivers_init htaken hplain hd
  have hrun := run_init smtpLine SmtpEntry.init segs
  rw [he] at hrun
  obtain ⟨c, hc, rfl⟩ := Option.map_eq_some_iff.1 hrun
  exact ⟨c, hc, h.transparent⟩

def twoMails : List (Side × List UInt8) :=
  [(.server, bytesOf "220 mx\r\n"),
    (.client, bytesOf "DATA\r\n"),
    (.server, bytesOf "354 go on\r\n"),
    (.client, bytesOf "Subject: x\r\n\r\nQUIT\r"),
    (.client, bytesOf "\n.\r\n"),
    (.server, bytesOf "250 ok\r\n"),
    (.client, bytesOf "DATA\r\n"),
    (.server, bytesOf "354 go on\r\n"),
    (.client, bytesOf "y\n.\r\nQUIT\r\n")]

theorem twoMails_transparent : ∃ c d,
    SmtpDialogue.init.run (lineEvents (fun _ => []) twoMails) = some d ∧
      (MailConn.init SmtpEntry.init).run smtpLine twoMails = some c ∧
      d.pending = [.dataMode, .quit] ∧
      c.entry.stored.map (·.session.lines) =
        [some [⟨bytesOf "Subject: x", 2⟩, ⟨[], 2⟩, ⟨bytesOf "QUIT", 2⟩], some [⟨bytesOf "y", 1⟩]] ∧
      Transparent c.entry d (SmtpMails.init.along .init (lineEvents (fun _ => []) twoMails)) := by
  have hd : SmtpDialogue.init.run (lineEvents (fun _ => []) twoMails) =
      some ⟨true, none, false, [.dataMode, .quit], .command⟩ := by decide +kernel
  obtain ⟨c, hc, htransparent⟩ := mails_transparent hd (by decide +kernel) (by decide +kernel)
  refine ⟨c, _, hd, hc, rfl, ?_, htransparent⟩
  rw [htransparent.finished]
  decide +kernel

/-- A mail whose only line begins with a dot, sent with a second dot in front of it. -/
def stuffedMail : List (Side × List UInt8) :=
  [(.server, bytesOf "220 mx\r\n"),
    (.client, bytesOf "DATA\r\n"),
    (.server, bytesOf "354 go on\r\n"),
    (.client, bytesOf "..x\r\n.\r\n")]

/-- The decoder is handed the line with both dots. -/
theorem stuffedMail_not_transparent : ∃ c d,
    SmtpDialogue.init.run (lineEvents (fun _ => []) stuffedMail) = some d ∧
      (MailConn.init SmtpEntry.init).run smtpLine stuffedMail = some c ∧
      (SmtpMails.init.along .init (lineEvents (fun _ => []) stuffedMail)).finished =
        [[⟨bytesOf ".x", 2⟩]] ∧
      c.entry.stored.map (·.session.lines) = [some [⟨bytesOf "..x", 2⟩]] ∧
      ¬Transparent c.entry d
        (SmtpMails.init.along .init (lineEvents (fun _ => []) stuffedMail)) := by
  let d : SmtpDialogue := ⟨true, none, false, [.dataMode], .command⟩
  have hd : SmtpDialogue.init.run (lineEvents (fun _ => []) stuffedMail) = some d := by
    decide +kernel
  have htaken : (((MailConn.init SmtpEntry.init).run smtpLine stuffedMail).map (·.entry)).any
      (fun e => e.stored.map (·.session.lines) = [some [⟨bytesOf "..x", 2⟩]] ∧
        ¬Transparent e d (SmtpMails.init.along .init (lineEvents (fun _ => []) stuffedMail))) := by
    rw [run_init]
    decide +kernel
  obtain ⟨e, he, htaken⟩ := (Option.any_eq_true _ _).1 htaken
  obtain ⟨c, hc, rfl⟩ := Option.map_eq_some_iff.1 he
  obtain ⟨hlines, hnot⟩ := of_decide_eq_true htaken
  exact ⟨c, d, hd, hc, by decide +kernel, hlines, hnot⟩

end CloudHands.Mail

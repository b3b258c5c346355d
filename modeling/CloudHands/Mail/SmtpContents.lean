import CloudHands.Mail.MailReceived
import CloudHands.Mail.SmtpTransparency

/-!
# Mails of an SMTP connection in their contents

From the segments of a connection to the files of its mails: the parser hands the lines of a mail to
the decoder, and the decoder finds the entities in them.
-/

namespace CloudHands.Mail

open Lib Http

/-- What the callbacks have filled in after the calls to a decoder. -/
def MimeDecState.contents (m : MimeDecState) : Option MailContents :=
  (mimeDecParseLines mailCallbacks (mimeDecInit .empty) (m.parsedLines.map (·.data))).bind fun s =>
    if m.complete then (mimeDecParseComplete mailCallbacks s).map (·.1.data) else some s.data

def MailSession.contents (s : MailSession) : Option MailContents := s.mimeState.bind (·.contents)

def StoredComplete (e : MailSentry) : Prop :=
  ∀ mail ∈ e.stored, ∀ m ∈ mail.session.mimeState, m.complete = true

theorem StoredComplete.same {e e' : MailSentry} (h : StoredComplete e)
    (hstored : e'.stored = e.stored) :
    StoredComplete e' := by
  rw [StoredComplete, hstored]
  exact h

theorem smtpSession_stored (e : SmtpEntry) (line : CurrLine) :
    (smtpSession e line).stored = e.stored := by
  rw [smtpSession]
  split_ifs <;> rfl

theorem smtpStartMime_stored (e : SmtpEntry) : (smtpStartMime e).stored = e.stored := by
  rw [smtpStartMime]
  dsimp only
  split_ifs <;> rfl

theorem smtpReadCommand_stored {line : CurrLine} {e e' : SmtpEntry}
    (h : smtpReadCommand line e = some e') :
    e'.stored = e.stored := by
  by_cases hdata : commandOf line = some .data
  · rw [smtpReadCommand_data hdata] at h
    obtain rfl := Option.some.inj h
    exact smtpStartMime_stored _
  · exact (smtpReadCommand_sameMails hdata h).stored

theorem smtpProcessCmdData_complete {e : SmtpEntry} (line : CurrLine)
    (h : StoredComplete e.toMailSentry) :
    StoredComplete (smtpProcessCmdData line e).toMailSentry := by
  rw [smtpProcessCmdData]
  split_ifs
  · exact h
  · obtain ⟨hcurr, hstored⟩ := smtpInsertCmdBuffer_sameMails (some .dataMode)
      { e with parserState := { e.parserState with commandDataMode := false } }
    intro mail hmail m hm
    simp only [MailSentry.store, MailSentry.mapSession, MailSentry.mapMime, hcurr, hstored,
      List.mem_append,
      Option.toList_map, List.map_map, List.mem_map, Option.mem_toList] at hmail
    rcases hmail with hmail | ⟨session, -, rfl⟩
    · exact h mail hmail m hm
    · simp only [Function.comp_apply, MailSentry.storedMail, Option.mem_map] at hm
      obtain ⟨m₀, -, rfl⟩ := hm
      rfl
  · exact h.same rfl
  · exact h

theorem smtpLine_complete {side : Side} {e e' : SmtpEntry} {line : CurrLine}
    (h : StoredComplete e.toMailSentry) (he : smtpLine side e line = some e') :
    StoredComplete e'.toMailSentry := by
  cases side with
  | server => rwa [smtpProcessReply_sentry he]
  | client =>
    have hsession : StoredComplete (smtpSession e line).toMailSentry :=
      h.same (smtpSession_stored e line)
    simp only [smtpLine, smtpProcessRequest] at he
    split at he
    · obtain ⟨e₁, he₁, hbuffer⟩ := Option.bind_eq_some_iff.1 he
      split_ifs at hbuffer
      obtain rfl := Option.some.inj hbuffer
      refine hsession.same ?_
      rw [(smtpInsertCmdBuffer_sameMails _ _).stored, smtpReadCommand_stored he₁]
    · split at he
      · obtain rfl := Option.some.inj he
        exact smtpProcessCmdData_complete line hsession
      · exact hsession.same (smtpProcessCmdBdat_sameMails he).stored
      · obtain rfl := Option.some.inj he
        exact hsession

theorem run_complete {lines : List (Side × CurrLine)} {e e' : SmtpEntry}
    (h : StoredComplete e.toMailSentry)
    (he : lines.foldlM (fun e ev => smtpLine ev.1 e ev.2) e = some e') :
      StoredComplete e'.toMailSentry := by
  induction lines generalizing e with
  | nil =>
    obtain rfl := Option.some.inj he
    exact h
  | cons ev lines ih =>
    rw [List.foldlM_cons] at he
    obtain ⟨e₁, he₁, hrest⟩ := Option.bind_eq_some_iff.1 he
    exact ih (smtpLine_complete h he₁) hrest

theorem contents_of_lines {m : MimeDecState} {part : MimePart} (hvalid : part.Valid false none)
    (hlines : m.parsedLines.map (·.data) = part.lines) (hcomplete : m.complete = true) :
    m.contents = some (part.received mailReceiver .empty) := by
  obtain ⟨s, s', hs, hs', hdata⟩ := mime_received (R := mailReceiver) hvalid .empty
  have hs : mimeDecParseLines mailCallbacks (mimeDecInit .empty) part.lines = some s := hs
  have hs' : mimeDecParseComplete mailCallbacks s = some (s', .ok) := hs'
  rw [MimeDecState.contents, hlines, hs, Option.bind_some, if_pos hcomplete, hs', Option.map_some,
    hdata]

def HasContents (mail : StoredMail) (part : MimePart) : Prop :=
  mail.session.contents = some (part.received mailReceiver .empty)

theorem contents_of_stored {stored : List StoredMail} {parts : List MimePart}
    (hsent : stored.map (fun mail => mail.session.lines.map (·.map (·.data))) =
      parts.map (some ·.lines))
    (hcomplete : ∀ mail ∈ stored, ∀ m ∈ mail.session.mimeState, m.complete = true)
    (hvalid : ∀ part ∈ parts, part.Valid false none) : List.Forall₂ HasContents stored parts := by
  induction stored generalizing parts with
  | nil =>
    rw [List.map_nil] at hsent
    rw [List.map_eq_nil_iff.1 hsent.symm]
    exact .nil
  | cons mail stored ih =>
    obtain ⟨part, parts, rfl⟩ : ∃ part parts', parts = part :: parts' := by
      cases parts with
      | nil => exact absurd hsent (List.cons_ne_nil _ _)
      | cons part parts => exact ⟨part, parts, rfl⟩
    obtain ⟨hhead, htail⟩ := List.cons.inj hsent
    obtain ⟨lines, hlines, hdata⟩ := Option.map_eq_some_iff.1 hhead
    obtain ⟨m, hm, rfl⟩ := Option.map_eq_some_iff.1 hlines
    have hcontents := contents_of_lines (hvalid part List.mem_cons_self) hdata
      (hcomplete mail List.mem_cons_self m hm)
    refine .cons ?_ (ih htail (fun mail hmail => hcomplete mail (List.mem_cons_of_mem _ hmail))
      fun part hpart => hvalid part (List.mem_cons_of_mem _ hpart))
    rw [HasContents, MailSession.contents, hm, Option.bind_some, hcontents]

theorem mails_stored {segs : List (Side × List UInt8)} {d : SmtpDialogue}
    (hd : SmtpDialogue.init.run (lineEvents (fun _ => []) segs) = some d)
    (htaken : stepsTaken .init .init (lineEvents (fun _ => []) segs))
    (hplain : stepsPlain .init (lineEvents (fun _ => []) segs)) {parts : List MimePart}
    (hvalid : ∀ part ∈ parts, part.Valid false none)
    (hsent : (SmtpMails.init.along .init (lineEvents (fun _ => []) segs)).finished.map
      (·.map (·.data)) =
      parts.map MimePart.lines) :
    ∃ c, (MailConn.init SmtpEntry.init).run smtpLine segs = some c ∧
      List.Forall₂ HasContents c.entry.stored parts := by
  obtain ⟨e, he, h⟩ := run_delivers delivers_init htaken hplain hd
  have hcomplete : StoredComplete e.toMailSentry :=
    run_complete (fun _ hmail => (List.not_mem_nil hmail).elim) he
  have hrun := run_init smtpLine SmtpEntry.init segs
  rw [he] at hrun
  obtain ⟨c, hc, rfl⟩ := Option.map_eq_some_iff.1 hrun
  refine ⟨c, hc, contents_of_stored ?_ hcomplete hvalid⟩
  have hlines : c.entry.stored.map (fun mail => mail.session.lines.map (·.map (·.data))) =
      (c.entry.stored.map (·.session.lines)).map
      (·.map (·.map (·.data))) := by rw [List.map_map]; rfl
  rw [hlines, h.finished, List.map_map]
  have hsome : (fun lines : Option (List CurrLine) => lines.map (·.map (·.data))) ∘ some =
      some ∘ fun lines : List CurrLine => lines.map (·.data) := rfl
  rw [hsome, ← List.map_map, hsent, List.map_map]
  rfl

/-- The mails that a connection sends with `DATA` in the lines of some trees are stored with the
contents of these trees, in their order, in whatever segments the bytes arrive. -/
theorem smtp_mails_received {segs : List (Side × List UInt8)} {d : SmtpDialogue}
    (hd : SmtpDialogue.init.run (lineEvents (fun _ => []) segs) = some d)
    (htaken : stepsTaken .init .init (lineEvents (fun _ => []) segs))
    (hplain : stepsPlain .init (lineEvents (fun _ => []) segs)) {parts : List MimePart}
    (hvalid : ∀ part ∈ parts, part.Valid false none)
    (hsent : (SmtpMails.init.along .init (lineEvents (fun _ => []) segs)).finished.map
      (·.map (·.data)) =
      parts.map MimePart.lines) :
    ∃ c, (MailConn.init SmtpEntry.init).run smtpLine segs = some c ∧
      c.entry.stored.map (·.session.contents) = parts.map fun part =>
        some (part.received mailReceiver .empty) := by
  obtain ⟨c, hc, hcontents⟩ := mails_stored hd htaken hplain hvalid hsent
  refine ⟨c, hc, ?_⟩
  rw [← List.forall₂_eq_eq_eq, List.forall₂_map_left_iff, List.forall₂_map_right_iff]
  exact hcontents

/-- `attachedMail` on a connection, with its lines cut anywhere. -/
def attachedSegs : List (Side × List UInt8) :=
  [(.server, bytesOf "220 mx\r\n"),
    (.client, bytesOf "DATA\r\n"),
    (.server, bytesOf "354 go on\r\n"),
    (.client, bytesOf "Content-Type: multipart/mixed;\r\n\tboundary=\"b\"\r\n\r"),
    (.client, bytesOf "\n--a\r\n--b\r\nContent-Type: text/plain\r\n\r\nHi\r\n\r\nthere\r\n--b\r\n"),
    (.client, bytesOf "Content-Type: text/csv; name=\"t.csv\"\r\nContent-Transfer-Encoding: bas"),
    (.client, bytesOf "e64\r\n\r\nMSw\r\n\r\nyLDM=\r\n--b--\r\n\r\n.\r\n")]

theorem attachedSegs_dialogue : SmtpDialogue.init.run (lineEvents (fun _ => []) attachedSegs) =
    some ⟨true, none, false, [.dataMode], .command⟩ := by decide +kernel

theorem attachedSegs_received :
    ∃ c, (MailConn.init SmtpEntry.init).run smtpLine attachedSegs = some c ∧
    c.entry.stored.map (·.session.contents) =
      [some ⟨none, none, [], [], some ⟨[], bytesOf "Hi\r\nthere\r\n", true⟩, none,
        [⟨bytesOf "t.csv", bytesOf "1,2,3", true⟩]⟩] := by
  obtain ⟨c, hc, hcontents⟩ :=
    smtp_mails_received attachedSegs_dialogue (by decide +kernel) (by decide +kernel)
      (List.forall_mem_singleton.2 attachedMail_valid) (by decide +kernel)
  exact ⟨c, hc, hcontents.trans (by decide +kernel)⟩

end CloudHands.Mail
